import Nmos6502.Snapshot.PlainLibrary
import Nmos6502.Proofs.JsonRoundTrip
import Nmos6502.Proofs.RecordCodec

/-!
The plain library does what is documented of one (`isDocumented_plain`).
-/

namespace Nmos6502.Snapshot

namespace PlainLibrary

theorem filter_key_eq {members : List (Json.Text × Json)} {key : Json.Text} {value : Json}
    (distinct : (members.map Prod.fst).Nodup) (found : (key, value) ∈ members) :
    members.filter (fun member => member.1 == key) = [(key, value)] := by
  induction members with
  | nil => contradiction
  | cons member members induction =>
      obtain ⟨fresh, distinctRest⟩ := List.nodup_cons.mp distinct
      rcases List.mem_cons.mp found with rfl | later
      · have others : ∀ other ∈ members, ¬(other.1 == key) = true := by
          intro other among same
          apply fresh
          exact List.mem_map.mpr ⟨other, among, eq_of_beq same⟩
        rw [List.filter_cons, if_pos (beq_self_eq_true key), List.filter_eq_nil_iff.mpr others]
      · have apart : ¬(member.1 == key) = true := by
          intro same
          apply fresh
          exact List.mem_map.mpr ⟨(key, value), later, (eq_of_beq same).symm⟩
        rw [List.filter_cons, if_neg apart, induction distinctRest later]

section

variable {members : List (Json.Text × Json)} (keyed : Json.Keyed members)

include keyed

theorem member?_eq_some_iff {name : String} {value : Json} :
    member? members name = some value ↔ Holds members name value := by
  constructor
  · intro found
    unfold member? at found
    split at found
    next key single only =>
      cases found
      have inside : (key, value) ∈ members.filter
          (fun member => member.1 == Json.Text.ofString name) := by
        rw [only]
        exact List.mem_singleton_self _
      obtain ⟨among, same⟩ := List.mem_filter.mp inside
      cases eq_of_beq same
      exact among
    next => contradiction
  · intro held
    rw [member?, filter_key_eq keyed.distinct held]

/-- The values read are those that the object holds for the names. -/
theorem fields?_object_eq_some_iff {names : List String} {values : List Json} :
    fields? names (.object members) = some values ↔
      values.length = names.length ∧ (names.map Json.Text.ofString).zip values ⊆ members := by
  have spelled : (members.all fun member => member.1.isPaired) = true :=
    List.all_eq_true.mpr keyed.spelled
  rw [fields?, if_pos spelled]
  induction names generalizing values with
  | nil => cases values <;> simp
  | cons name names induction =>
      simp only [List.mapM_cons, Option.bind_eq_bind, Option.bind_eq_some_iff, induction,
        member?_eq_some_iff keyed, Option.pure_def, Option.some.injEq]
      constructor
      · rintro ⟨value, held, rest, ⟨lengths, among⟩, rfl⟩
        exact ⟨congrArg Nat.succ lengths, List.cons_subset.mpr ⟨held, among⟩⟩
      · rintro ⟨lengths, among⟩
        obtain ⟨value, rest, rfl⟩ := List.exists_cons_of_length_eq_add_one lengths
        obtain ⟨held, others⟩ := List.cons_subset.mp among
        exact ⟨value, held, rest, ⟨Nat.succ.inj lengths, others⟩, rfl⟩

theorem fields?_object_congr {others : List (Json.Text × Json)} (keyedOthers : Json.Keyed others)
    {names : List String}
    (same : ∀ values, (names.map Json.Text.ofString).zip values ⊆ others ↔
      (names.map Json.Text.ofString).zip values ⊆ members) :
    fields? names (.object others) = fields? names (.object members) := by
  apply Option.ext
  intro values
  rw [fields?_object_eq_some_iff keyed, fields?_object_eq_some_iff keyedOthers, same]

end

theorem isBoolean : (Codec.mk Json.bool bool?).IsBoolean where
  writes := fun _ => rfl
  reads := fun _ => rfl
  refusesOthers := by
    intro value other
    cases value with
    | bool flag => exact absurd rfl (other flag)
    | _ => rfl

theorem isUnsigned {α : Type} (size : Nat) (ofNat : Nat → α) (toNat : α → Nat) :
    (unsigned size ofNat toNat).IsUnsigned size ofNat toNat where
  writes := fun _ => rfl
  reads := by
    intro number within
    exact congrArg (Option.map ofNat) (if_pos within)
  refusesLarge := by
    intro number large
    exact congrArg (Option.map ofNat) (if_neg (Nat.not_lt.mpr large))
  refusesOthers := by
    intro value other
    cases value with
    | number written =>
        cases written with
        | natural number => exact absurd rfl (other number)
        | other literal => rfl
    | _ => rfl

theorem isRecord {ρ γ : Type} (fields : Fields ρ γ) (make : γ) :
    (record fields make).IsRecord fields make where
  writes := fun _ => rfl
  reads := by
    intro values distinct lengths
    have found : fields? fields.names (.object (fields.keys.zip values)) = some values :=
      (fields?_object_eq_some_iff (Fields.keyed_zip distinct lengths)).mpr
        ⟨lengths, List.Subset.refl _⟩
    simp [record, found]
  unordered := by
    intro members others keyed perm
    have found : fields? fields.names (.object others) = fields? fields.names (.object members) :=
      fields?_object_congr keyed (keyed.of_perm perm) fun _ =>
        ⟨fun among => List.Subset.trans among perm.subset,
          fun among => List.Subset.trans among perm.symm.subset⟩
    simp only [record, found]
  ignoresUnknown := by
    intro key value members keyed unknown
    have found : fields? fields.names (.object ((key, value) :: members)) =
        fields? fields.names (.object members) := by
      apply fields?_object_congr keyed.of_cons keyed
      intro values
      refine ⟨fun among member listed => ?_, List.subset_cons_of_subset _⟩
      apply (List.mem_cons.mp (among listed)).resolve_left
      rintro rfl
      exact unknown (List.of_mem_zip listed).1
    simp only [record, found]
  refusesMissing := by
    intro key members keyed _ named missing
    have found : fields? fields.names (.object members) = none := by
      rw [Option.eq_none_iff_forall_ne_some]
      intro values read
      obtain ⟨lengths, among⟩ := (fields?_object_eq_some_iff keyed).mp read
      rw [← Fields.map_fst_zip lengths] at named
      exact missing (List.map_subset Prod.fst among named)
    simp [record, found]
  refusesOthers := by
    intro value object array
    cases value with
    | object members => exact absurd rfl (object members)
    | array items => exact absurd rfl (array items)
    | _ => rfl

end PlainLibrary

theorem isDocumented_plain : Library.plain.IsDocumented where
  bool := PlainLibrary.isBoolean
  byte := PlainLibrary.isUnsigned _ _ _
  address := PlainLibrary.isUnsigned _ _ _
  total := PlainLibrary.isUnsigned _ _ _
  record := PlainLibrary.isRecord
  parse?_print := fun _ portable => Json.parse?_render portable.isPlain

/-- No number is cut down to a byte. -/
example : Library.plain.byte.decode? (.natural 256) = none := rfl

end Nmos6502.Snapshot
