import Nmos6502.Proofs.Simulation
import Mathlib.Data.List.Induction
import Mathlib.Order.Bounds.Basic

/-!
Placing a program. Its bytes go to ascending addresses that wrap at the end of memory, so that a
long program overwrites its own beginning. Main statement: the writes are the bytes of the body in
their order, and memory shows the last of them that fell on each address (`call_places_image`).
-/

namespace Nmos6502

theorem toNat_add_ofNat (start : Address) (index : Nat) :
    (start + UInt16.ofNat index).toNat = (start.toNat + index) % 65536 := by
  rw [UInt16.toNat_add, UInt16.toNat_ofNat']
  omega

namespace Image

/-- The positions of the body whose bytes are sent to an address. -/
def positions (image : Image) (address : Address) : Set Nat :=
  {index | index < image.body.length ∧ (image.start.toNat + index) % 65536 = address.toNat}

/-- Memory after an image was laid over it: the last byte sent to each address, and the old byte
where none was sent. -/
def Covers (image : Image) (before after : Memory) : Prop :=
  ∀ address,
    (∃ index, IsGreatest (image.positions address) index ∧
      image.body[index]? = some (after.read address)) ∨
    (image.positions address = ∅ ∧ after.read address = before.read address)

variable (start : Address) (body : List Byte) (last : Byte)

theorem writes_concat :
    writes ⟨start, body ++ [last]⟩ =
      writes ⟨start, body⟩ ++ [⟨start + UInt16.ofNat body.length, last⟩] :=
  List.mapIdx_concat

theorem mem_positions_concat (address : Address) (index : Nat) :
    index ∈ positions ⟨start, body ++ [last]⟩ address ↔
      index ∈ positions ⟨start, body⟩ address ∨
        index = body.length ∧ start + UInt16.ofNat body.length = address := by
  rw [← UInt16.toNat_inj, toNat_add_ofNat]
  change (index < (body ++ [last]).length ∧ _) ↔ (index < body.length ∧ _) ∨ _
  rw [List.length_append, List.length_singleton]
  constructor
  · rintro ⟨bound, reached⟩
    rcases Nat.lt_succ_iff_lt_or_eq.mp bound with earlier | rfl
    · exact .inl ⟨earlier, reached⟩
    · exact .inr ⟨rfl, reached⟩
  · rintro (⟨bound, reached⟩ | ⟨rfl, reached⟩)
    · exact ⟨Nat.lt_succ_of_lt bound, reached⟩
    · exact ⟨Nat.lt_succ_self _, reached⟩

variable {start body last}

/-- One byte more decides what lies at its own address, and leaves all others as they were. -/
theorem Covers.concat {before after : Memory} (covers : Covers ⟨start, body⟩ before after) :
    Covers ⟨start, body ++ [last]⟩ before
      (after.write (start + UInt16.ofNat body.length) last) := by
  intro address
  rw [Memory.read_write]
  by_cases reached : start + UInt16.ofNat body.length = address
  · refine .inl ⟨body.length, ⟨?_, ?_⟩, ?_⟩
    · exact (mem_positions_concat start body last address _).mpr (.inr ⟨rfl, reached⟩)
    · rintro index position
      rcases (mem_positions_concat start body last address index).mp position with
        earlier | ⟨rfl, _⟩
      · exact Nat.le_of_lt earlier.1
      · exact Nat.le_refl _
    · rw [if_pos reached]
      exact List.getElem?_concat_length
  · have same : positions ⟨start, body ++ [last]⟩ address = positions ⟨start, body⟩ address := by
      ext index
      rw [mem_positions_concat]
      exact or_iff_left fun own => reached own.2
    rw [if_neg reached, same]
    rcases covers address with ⟨index, greatest, found⟩ | untouched
    · refine .inl ⟨index, greatest, ?_⟩
      rw [← found]
      exact List.getElem?_append_left greatest.1.1
    · exact .inr untouched

theorem covers_writeAll (image : Image) (memory : Memory) :
    image.Covers memory (Bus.writeAll memory image.writes) := by
  obtain ⟨start, body⟩ := image
  -- The loop sends the body from its front, so the induction is on what it has sent so far.
  induction body using List.reverseRecOn with
  | nil =>
      intro address
      refine .inr ⟨Set.eq_empty_of_forall_notMem ?_, rfl⟩
      exact fun index position => Nat.not_lt_zero index position.1
  | append_singleton body last induction =>
      rw [writes_concat, Bus.writeAll_append]
      exact induction.concat

end Image

namespace Machine

variable {σ : Type} [Bus σ] (machine : Machine σ)

/-- An image without room for its address is refused and changes nothing. Any other is sent to the
bus byte by byte; on memory that keeps all its writes, the last byte at each address stays. -/
theorem call_places_image :
    (∀ short : List Byte, short.length < 2 →
      machine.call (.place short) =
        .ok (⟨.rejected (.tooShort short.length), [], []⟩, machine)) ∧
    ∀ (low high : Byte) (body : List Byte), ∃ (start : Address) (writes : List Write),
      start.toNat = low.toNat + 256 * high.toNat ∧
      writes.length = body.length ∧
      (∀ index : Nat, writes[index]? = body[index]?.map fun value =>
        ⟨UInt16.ofNat ((start.toNat + index) % 65536), value⟩) ∧
      machine.call (.place (low :: high :: body)) =
        .ok (⟨.placed start, writes, [.loaded body.length start]⟩,
          { machine with bus := Bus.writeAll machine.bus writes }) ∧
      ∀ flat : Machine Memory, ∃ next,
        flat.call (.place (low :: high :: body)) =
          .ok (⟨.placed start, writes, [.loaded body.length start]⟩, next) ∧
        Image.Covers ⟨start, body⟩ flat.bus next.bus := by
  constructor
  · intro short bound
    rw [call_place]
    match short with
    | [] => rfl
    | [_] => rfl
    | _ :: _ :: _ =>
        simp only [List.length_cons] at bound
        omega
  · intro low high body
    refine ⟨word low high, Image.writes ⟨word low high, body⟩, toNat_word low high,
      Image.length_writes _, ?_, machine.call_place _, ?_⟩
    · intro index
      rw [Image.getElem?_writes, ← toNat_add_ofNat, UInt16.ofNat_toNat]
    · intro flat
      exact ⟨_, flat.call_place _, Image.covers_writeAll _ _⟩

/-- The addresses wrap at the end of memory. -/
example : (Image.writes ⟨0xFFFE, [0x11, 0x22, 0x33]⟩).map Write.address =
    [0xFFFE, 0xFFFF, 0x0000] := by
  decide

end Machine

end Nmos6502
