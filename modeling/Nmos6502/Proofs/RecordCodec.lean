import Nmos6502.Snapshot.Library
import Mathlib.Data.List.Nodup
import Mathlib.Data.List.Perm.Basic

/-!
Records that a documented library saves. Main statements: if each field is read back as it was
written, so is the record (`roundTrips`), and an object is read as a record exactly when every field
can be read from the member of its name (`decode?_object_eq_some_iff`).
-/

namespace Nmos6502.Snapshot

def Holds (members : List (Json.Text × Json)) (name : String) (value : Json) : Prop :=
  (Json.Text.ofString name, value) ∈ members

theorem eq_of_holds {members : List (Json.Text × Json)} (keyed : Json.Keyed members)
    {name : String} {left right : Json} (first : Holds members name left)
    (second : Holds members name right) : left = right :=
  congrArg Prod.snd (List.inj_on_of_nodup_map keyed.distinct first second rfl)

namespace Codec

def RoundTrips {α : Type} (codec : Codec α) : Prop :=
  ∀ value, codec.decode? (codec.encode value) = some value

def WritesPortable {α : Type} (codec : Codec α) (depth : Nat) : Prop :=
  ∀ value, (codec.encode value).IsPortable depth

/-- An object holds, under a name, something that is read as a field. -/
def Shows {α : Type} (codec : Codec α) (members : List (Json.Text × Json)) (name : String)
    (field : α) : Prop :=
  ∃ value, Holds members name value ∧ codec.decode? value = some field

theorem shows_iff {α : Type} {codec : Codec α} {members : List (Json.Text × Json)} {name : String}
    {field : α} {written : Json}
    (exact : ∀ value, codec.decode? value = some field ↔ value = written) :
    codec.Shows members name field ↔ Holds members name written := by
  simp only [Shows, exact, exists_eq_right]

section

variable {codec : Codec Bool} (documented : codec.IsBoolean)

include documented

theorem IsBoolean.decode?_eq_some_iff {value : Json} {flag : Bool} :
    codec.decode? value = some flag ↔ value = .bool flag := by
  constructor
  · intro read
    by_cases written : ∃ other, value = .bool other
    · obtain ⟨other, rfl⟩ := written
      rw [documented.reads, Option.some.injEq] at read
      rw [read]
    · rw [documented.refusesOthers value (not_exists.mp written)] at read
      contradiction
  · rintro rfl
    exact documented.reads flag

theorem IsBoolean.roundTrips : codec.RoundTrips := by
  intro value
  rw [documented.writes, documented.reads]

theorem IsBoolean.writesPortable (depth : Nat) : codec.WritesPortable depth := by
  intro value
  rw [documented.writes]
  exact .bool

end

section

variable {α : Type} {codec : Codec α} {size : Nat} {ofNat : Nat → α} {toNat : α → Nat}
  (documented : codec.IsUnsigned size ofNat toNat)

include documented

theorem IsUnsigned.decode?_eq_some_iff (below : ∀ word, toNat word < size)
    (ofNat_toNat : ∀ word, ofNat (toNat word) = word)
    (toNat_ofNat : ∀ number < size, toNat (ofNat number) = number) {value : Json} {word : α} :
    codec.decode? value = some word ↔ value = .natural (toNat word) := by
  constructor
  · intro read
    by_cases written : ∃ number, value = .natural number
    · obtain ⟨number, rfl⟩ := written
      rcases Nat.lt_or_ge number size with within | large
      · rw [documented.reads number within, Option.some.injEq] at read
        rw [← read, toNat_ofNat number within]
      · rw [documented.refusesLarge number large] at read
        contradiction
    · rw [documented.refusesOthers value (not_exists.mp written)] at read
      contradiction
  · rintro rfl
    rw [documented.reads _ (below word), ofNat_toNat]

theorem IsUnsigned.roundTrips (below : ∀ word, toNat word < size)
    (ofNat_toNat : ∀ word, ofNat (toNat word) = word) : codec.RoundTrips := by
  intro value
  rw [documented.writes, documented.reads _ (below value), ofNat_toNat]

theorem IsUnsigned.writesPortable (below : ∀ word, toNat word < UInt64.size) (depth : Nat) :
    codec.WritesPortable depth := by
  intro value
  rw [documented.writes]
  exact .natural (below value)

end

end Codec

namespace Fields

variable {ρ : Type}

/-- Takes a record apart and puts it together again. -/
def rebuild {γ : Type} (record : ρ) : Fields ρ γ → γ → ρ
  | nil, rebuilt => rebuilt
  | cons _ _ get rest, make => rest.rebuild record (make (get record))

/-- An object tells of a record if it shows every field of it. -/
def Tells {γ : Type} (members : List (Json.Text × Json)) (record : ρ) : Fields ρ γ → γ → Prop
  | nil, told => told = record
  | cons name codec _ rest, make =>
      ∃ field, codec.Shows members name field ∧ rest.Tells members record (make field)

theorem length_values {γ : Type} (fields : Fields ρ γ) (record : ρ) :
    (fields.values record).length = fields.names.length := by
  induction fields with
  | nil => rfl
  | cons name codec get rest induction => exact congrArg Nat.succ induction

theorem length_keys {γ : Type} (fields : Fields ρ γ) : fields.keys.length = fields.names.length :=
  List.length_map _

theorem assemble?_values {γ : Type} {fields : Fields ρ γ}
    (each : fields.Each fun _ codec => codec.RoundTrips) (make : γ) (record : ρ) :
    fields.assemble? make (fields.values record) = some (fields.rebuild record make) := by
  induction fields with
  | nil => rfl
  | cons name codec get rest induction =>
      obtain ⟨first, others⟩ := each
      simp only [values, assemble?, first (get record), Option.bind_eq_bind, Option.bind_some]
      exact induction others _

theorem isPortable_of_mem_values {depth : Nat} {γ : Type} {fields : Fields ρ γ}
    (each : fields.Each fun _ codec => codec.WritesPortable depth) (record : ρ) :
    ∀ value ∈ fields.values record, value.IsPortable depth := by
  induction fields with
  | nil => exact List.forall_mem_nil _
  | cons name codec get rest induction =>
      obtain ⟨first, others⟩ := each
      exact List.forall_mem_cons.mpr ⟨first (get record), induction others⟩

theorem isPaired_of_mem_keys {γ : Type} (fields : Fields ρ γ) :
    ∀ key ∈ fields.keys, key.isPaired = true := by
  intro key found
  obtain ⟨name, _, rfl⟩ := List.mem_map.mp found
  exact Json.Text.isPaired_ofString name

theorem map_fst_zip {γ : Type} {fields : Fields ρ γ} {values : List Json}
    (lengths : values.length = fields.names.length) :
    (fields.keys.zip values).map Prod.fst = fields.keys :=
  List.map_fst_zip (Nat.le_of_eq (fields.length_keys.trans lengths.symm))

theorem keyed_zip {γ : Type} {fields : Fields ρ γ} (distinct : fields.keys.Nodup)
    {values : List Json} (lengths : values.length = fields.names.length) :
    Json.Keyed (fields.keys.zip values) where
  spelled := by
    intro member among
    exact fields.isPaired_of_mem_keys member.1 (List.of_mem_zip among).1
  distinct := by
    rwa [map_fst_zip lengths]

/-- A record is assembled of values that an object holds for its keys if it is the record that the
object tells of. -/
theorem assemble?_eq_some_iff {γ : Type} {fields : Fields ρ γ} (make : γ) {record : ρ}
    {members : List (Json.Text × Json)} {values : List Json} (keyed : Json.Keyed members)
    (lengths : values.length = fields.names.length)
    (held : fields.keys.zip values ⊆ members) :
    fields.assemble? make values = some record ↔ fields.Tells members record make := by
  induction fields generalizing values with
  | nil =>
      obtain rfl := List.length_eq_zero_iff.mp lengths
      simp [assemble?, Tells]
  | cons name codec get rest induction =>
      obtain ⟨value, values, rfl⟩ := List.exists_cons_of_length_eq_add_one lengths
      obtain ⟨first, others⟩ := List.cons_subset.mp held
      have step (field) := induction (make field) (Nat.succ.inj lengths) others
      simp only [assemble?, Option.bind_eq_bind, Option.bind_eq_some_iff, Tells, step]
      constructor
      · rintro ⟨field, read, told⟩
        exact ⟨field, ⟨value, first, read⟩, told⟩
      · rintro ⟨field, ⟨other, holds, read⟩, told⟩
        obtain rfl := eq_of_holds keyed holds first
        exact ⟨field, read, told⟩

theorem Tells.mem_keys {γ : Type} {fields : Fields ρ γ} {make : γ} {record : ρ}
    {members : List (Json.Text × Json)} (told : fields.Tells members record make) :
    fields.keys ⊆ members.map Prod.fst := by
  induction fields with
  | nil => exact List.nil_subset _
  | cons name codec get rest induction =>
      obtain ⟨field, ⟨value, holds, _⟩, others⟩ := told
      exact List.cons_subset.mpr ⟨List.mem_map_of_mem holds, induction others⟩

end Fields

theorem exists_zip_subset {keys : List Json.Text} {members : List (Json.Text × Json)}
    (present : keys ⊆ members.map Prod.fst) :
    ∃ values : List Json, values.length = keys.length ∧ keys.zip values ⊆ members := by
  induction keys with
  | nil => exact ⟨[], rfl, List.nil_subset _⟩
  | cons key keys induction =>
      obtain ⟨first, others⟩ := List.cons_subset.mp present
      obtain ⟨⟨_, value⟩, holds, rfl⟩ := List.mem_map.mp first
      obtain ⟨values, lengths, held⟩ := induction others
      exact ⟨value :: values, congrArg Nat.succ lengths, List.cons_subset.mpr ⟨holds, held⟩⟩

section

variable {keys : List Json.Text} {values : List Json} {members : List (Json.Text × Json)}
  (keyed : Json.Keyed members) (distinct : keys.Nodup) (lengths : values.length = keys.length)
  (held : keys.zip values ⊆ members)

include keyed distinct lengths held

theorem filter_mem_perm_zip :
    (members.filter fun member => member.1 ∈ keys).Perm (keys.zip values) := by
  have keysOfZip : (keys.zip values).map Prod.fst = keys :=
    List.map_fst_zip (Nat.le_of_eq lengths.symm)
  have apart : (keys.zip values).Nodup := List.Nodup.of_map Prod.fst (by rwa [keysOfZip])
  rw [List.perm_ext_iff_of_nodup (keyed.distinct.of_map.filter _) apart]
  intro member
  rw [List.mem_filter, decide_eq_true_eq]
  constructor
  · rintro ⟨among, named⟩
    rw [← keysOfZip] at named
    obtain ⟨other, listed, same⟩ := List.mem_map.mp named
    rwa [← List.inj_on_of_nodup_map keyed.distinct (held listed) among same]
  · intro listed
    exact ⟨held listed, (List.of_mem_zip listed).1⟩

theorem exists_perm_append_zip :
    ∃ others, (others ++ keys.zip values).Perm members ∧ ∀ other ∈ others, other.1 ∉ keys := by
  have known := filter_mem_perm_zip keyed distinct lengths held
  refine ⟨members.filter fun member => !decide (member.1 ∈ keys), ?_, ?_⟩
  · exact (known.symm.append_left _).trans
      (List.perm_append_comm.trans (List.filter_append_perm _ members))
  · intro other among
    simpa using (List.mem_filter.mp among).2

end

namespace Codec

variable {ρ γ : Type} {codec : Codec ρ} {fields : Fields ρ γ} {make : γ}

namespace IsRecord

variable (documented : codec.IsRecord fields make)

include documented

theorem decode?_object_append {others members : List (Json.Text × Json)}
    (keyed : Json.Keyed (others ++ members)) (unknown : ∀ other ∈ others, other.1 ∉ fields.keys) :
    codec.decode? (.object (others ++ members)) = codec.decode? (.object members) := by
  induction others with
  | nil => rfl
  | cons other others induction =>
      obtain ⟨first, rest⟩ := List.forall_mem_cons.mp unknown
      exact (documented.ignoresUnknown other.1 other.2 _ keyed first).trans
        (induction keyed.of_cons rest)

/-- An object is read as a record if each field is read from the member of its name. -/
theorem decode?_object_eq_some_iff (required : fields.AllRequired) (distinct : fields.keys.Nodup)
    {members : List (Json.Text × Json)} (keyed : Json.Keyed members) {record : ρ} :
    codec.decode? (.object members) = some record ↔ fields.Tells members record make := by
  by_cases present : fields.keys ⊆ members.map Prod.fst
  -- What is unknown is moved to the front, where it is ignored, and what is left is in order.
  · obtain ⟨values, lengths, held⟩ := exists_zip_subset present
    obtain ⟨others, perm, unknown⟩ := exists_perm_append_zip keyed distinct lengths held
    rw [fields.length_keys] at lengths
    rw [← documented.unordered members _ keyed perm,
      documented.decode?_object_append (keyed.of_perm perm) unknown,
      documented.reads values distinct lengths]
    exact Fields.assemble?_eq_some_iff make keyed lengths held
  · constructor
    · intro read
      obtain ⟨key, named, missing⟩ : ∃ key ∈ fields.keys, key ∉ members.map Prod.fst := by
        simpa [List.subset_def] using present
      rw [documented.refusesMissing key members keyed required named missing] at read
      contradiction
    · intro told
      exact absurd told.mem_keys present

theorem roundTrips (distinct : fields.keys.Nodup)
    (each : fields.Each fun _ codec => codec.RoundTrips)
    (rebuilds : ∀ record, fields.rebuild record make = record) : codec.RoundTrips := by
  intro record
  rw [documented.writes, Fields.members,
    documented.reads (fields.values record) distinct (fields.length_values record),
    Fields.assemble?_values each, rebuilds]

theorem writesPortable {depth : Nat} (distinct : fields.keys.Nodup)
    (each : fields.Each fun _ codec => codec.WritesPortable depth) :
    codec.WritesPortable (depth + 1) := by
  intro record
  rw [documented.writes]
  refine .object (Fields.keyed_zip distinct (fields.length_values record)) fun member among => ?_
  exact Fields.isPortable_of_mem_values each record member.2 (List.of_mem_zip among).2

end IsRecord

end Codec

end Nmos6502.Snapshot
