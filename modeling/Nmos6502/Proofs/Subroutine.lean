import Nmos6502.Proofs.StackDiscipline

/-!
Calls and returns. A call pushes the address of its own last byte, and the return that finds nothing
else outstanding comes back one byte after it. Main statement: whatever the body between them does
on the stack above the return address, the machine resumes behind the call (`return_resumes`).
-/

namespace Nmos6502.Machine

section

variable {σ : Type} [Bus σ] {machine : Machine σ} {start count : Nat} {bottom : List Pushed}

/-- Bytes stay outstanding while the stack is no lower than they are. -/
theorem suffix_outstanding_succ (below : bottom <:+ machine.outstanding count)
    (kept : bottom.length ≤ machine.depth (count + 1)) :
    bottom <:+ machine.outstanding (count + 1) := by
  rw [outstanding]
  by_cases pushing : (machine.after count).pushes = []
  · rw [depth_succ, pushing, List.length_nil, Nat.zero_add] at kept
    rw [pushing, List.map_nil, List.nil_append]
    exact List.suffix_of_suffix_length_le below (List.drop_suffix _ _)
      (by rwa [List.length_drop])
  · rw [pulls_eq_zero pushing, List.drop_zero]
    exact List.suffix_append_of_suffix below

theorem suffix_outstanding_of_le (below : bottom <:+ machine.outstanding start)
    (kept : ∀ index, start < index → index ≤ count → bottom.length ≤ machine.depth index)
    (later : start ≤ count) : bottom <:+ machine.outstanding count := by
  induction later with
  | refl => exact below
  | @step count later induction =>
      have earlier := induction fun index after bound => kept index after (Nat.le_succ_of_le bound)
      exact suffix_outstanding_succ earlier
        (kept (count + 1) (Nat.lt_succ_of_le later) (Nat.le_refl _))

theorem outstanding_one_of_jsr (call : machine.operation = .jsr) :
    machine.outstanding 1 =
      [⟨0, lowByte (machine.processor.pc + 2)⟩, ⟨0, highByte (machine.processor.pc + 2)⟩] := by
  rw [outstanding, after, pushes, pulls, call]
  rfl

/-- What a run may do between a call and its return. -/
theorem disciplined_of_within
    (spares : ∀ index < count, (machine.after index).SparesStack)
    (within : ∀ index, 0 < index → index ≤ count →
      2 ≤ machine.depth index ∧ machine.depth index ≤ 256) :
    machine.Disciplined count where
  spares := spares
  covers index bound := by
    by_cases pushing : (machine.after index).pushes = []
    · have kept := (within (index + 1) (Nat.succ_pos index) bound).1
      rw [depth_succ, pushing, List.length_nil, Nat.zero_add] at kept
      omega
    · rw [pulls_eq_zero pushing]
      exact Nat.zero_le _
  fits index bound := by
    cases index with
    | zero => exact Nat.zero_le _
    | succ index => exact (within (index + 1) (Nat.succ_pos index) bound).2

end

variable {machine : Machine Memory} {count : Nat}

/-- A return that finds just the two bytes of a call on the stack resumes behind the call. -/
theorem return_resumes (call : machine.operation = .jsr)
    (spares : ∀ index < count, (machine.after index).SparesStack)
    (within : ∀ index, 0 < index → index ≤ count →
      2 ≤ machine.depth index ∧ machine.depth index ≤ 256)
    (balanced : machine.depth count = 2)
    (returning : (machine.after count).operation = .rts) :
    ∃ history transition,
      machine.steps count = .ok (history, machine.after count) ∧
      (machine.after count).step = .ok (transition,
        { machine.after count with
          processor :=
            { (machine.after count).processor with
              pc := machine.processor.pc + 3
              sp := machine.processor.sp
              total := (machine.after count).processor.total + 6 } }) := by
  have disciplined := disciplined_of_within spares within
  have started : 1 ≤ count := by
    cases count with
    | zero => contradiction
    | succ count => exact Nat.succ_pos count
  have frame : machine.outstanding count =
      [⟨0, lowByte (machine.processor.pc + 2)⟩, ⟨0, highByte (machine.processor.pc + 2)⟩] := by
    have kept := suffix_outstanding_of_le (List.suffix_refl (machine.outstanding 1))
      (fun index after bound => by
        rw [outstanding_one_of_jsr call]
        exact (within index (Nat.lt_of_succ_lt after) bound).1) started
    rw [outstanding_one_of_jsr call] at kept
    exact (kept.eq_of_length balanced.symm).symm
  have pointer : (machine.after count).processor.sp + 2 = machine.processor.sp := by
    rw [sp_after disciplined, balanced]
    exact UInt8.sub_add_cancel _ _
  have behind : machine.processor.pc + 2 + 1 = machine.processor.pc + 3 :=
    UInt16.add_assoc _ 2 1
  have resumed := disciplined.after_rts returning frame
  rw [pointer, word_lowByte_highByte, behind] at resumed
  refine ⟨machine.trace count, (machine.after count).transition, machine.steps_eq count, ?_⟩
  rw [step_eq, ← after_succ, resumed]

/-- A machine about to call across the end of memory, with a stack pointer that wraps below the
return address; the routine calls another one. -/
def straddlingCall : Machine View where
  processor := { Processor.startingAt 0xFFFE with sp := 0 }
  bus := Bus.writeAll (fun _ => 0)
    (Image.writes ⟨0xFFFE,
      [0x20, 0x03, 0x00, 0xEA, 0xEA, 0x20, 0x07, 0x00, 0x60, 0x48, 0x68, 0x60]⟩)

theorem within_straddlingCall :
    straddlingCall.operation = .jsr ∧
    (∀ index < 5, (straddlingCall.after index).SparesStack) ∧
    (∀ index ≤ 5, 0 < index →
      2 ≤ straddlingCall.depth index ∧ straddlingCall.depth index ≤ 256) ∧
    straddlingCall.depth 5 = 2 ∧
    (straddlingCall.after 5).operation = .rts := by
  decide +kernel

theorem return_resumes_straddlingCall :
    straddlingCall.inMemory.operation = .jsr ∧
    (straddlingCall.inMemory.after 5).operation = .rts ∧
    straddlingCall.inMemory.depth 5 = 2 ∧
    (straddlingCall.inMemory.after 6).processor.pc = 0x0001 ∧
    (straddlingCall.inMemory.after 6).processor.sp = 0 := by
  obtain ⟨call, spares, within, balanced, returning⟩ := within_straddlingCall
  rw [← operation_inMemory] at call
  rw [← operation_inMemory, ← after_inMemory] at returning
  rw [← depth_inMemory] at balanced
  obtain ⟨history, transition, _, stepped⟩ :=
    return_resumes call
      (fun index bound => by
        rw [after_inMemory]
        exact (spares index bound).inMemory)
      (fun index positive bound => by
        rw [depth_inMemory]
        exact within index bound positive)
      balanced returning
  rw [step_eq, ← after_succ] at stepped
  obtain ⟨-, resumed⟩ := Prod.mk.inj (Except.ok.inj stepped)
  exact ⟨call, returning, balanced, by rw [resumed]; rfl, by rw [resumed]; rfl⟩

end Nmos6502.Machine
