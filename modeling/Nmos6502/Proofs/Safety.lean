import Nmos6502.Proofs.Run

/-!
No program makes the machine fault. Each family accepts the operations it is sent, and no byte
decodes to an action that asks for an address in a mode that names no cell. Main statement: whatever
bytes it meets, the machine carries out or skips what it fetched (`never_faults`).
-/

namespace Nmos6502

namespace Action

/-- Whether an action asks for the address of a cell, given the mode of its instruction. -/
def addresses : Action → AddressingMode → Bool
  | load _, mode | calculate _, mode | combine _, mode | compare _, mode | testBits, mode =>
      mode != .immediate
  | shift _, mode => mode != .accumulator
  | store _, _ | countMemory _, _ | jump, _ => true
  | countRegister _ _, _ | branch _ _, _ | call, _ | returnFromCall, _ | returnFromInterrupt, _
  | push _, _ | pull _, _ | assign _ _, _ | transfer _ _, _ | rest, _ => false

theorem namesCell_of_admits {action : Action} {mode : AddressingMode}
    (admitted : action.admits mode = true) (asked : action.addresses mode = true) :
    mode.namesCell = true := by
  cases action with
  | load | calculate | combine | compare | testBits =>
      have given : mode ≠ .immediate := by simpa [addresses] using asked
      simpa [admits, AddressingMode.holdsValue, given] using admitted
  | shift rule =>
      have given : mode ≠ .accumulator := by simpa [addresses] using asked
      simpa [admits, given] using admitted
  | store | countMemory | jump => exact admitted
  | _ => contradiction

end Action

namespace Machine

variable {σ : Type} [Bus σ] (machine : Machine σ)

theorem isSupported_eq_false_iff :
    machine.operation.isSupported = false ↔
      machine.operation = .illegal ∨ machine.operation = .brk := by
  cases machine.operation <;> simp [Operation.isSupported]

/-- The families accept what they are sent, and a mode that is asked for an address has one. -/
theorem exists_action_of_isSupported (supported : machine.operation.isSupported = true) :
    ∃ action,
      machine.operation.action = .ok action ∧
      (action.addresses (decode machine.opcode).mode = true →
        (decode machine.opcode).mode.namesCell = true) := by
  obtain ⟨action, sorted⟩ := exists_action supported
  exact ⟨action, sorted, Action.namesCell_of_admits (Instruction.admits_decode sorted)⟩

/-- However far a program has come, its next instruction is one that the machine can carry out or
skip. It is skipped exactly when it is unassigned or the software interrupt. -/
theorem never_faults :
    (∀ count, ∃ history last,
      machine.steps count = .ok (history, last) ∧
      (last.operation.isSupported = true →
        ∃ action,
          last.operation.action = .ok action ∧
          (action.addresses (decode last.opcode).mode = true →
            (decode last.opcode).mode.namesCell = true))) ∧
    (∀ budget, ∃ done, machine.advance budget = .ok done) ∧
    (∀ request, ∃ count final,
      Run.Completes count (Run.start machine request) final ∧
      machine.run request = .ok final) ∧
    ∃ transition next,
      machine.step = .ok (transition, next) ∧
      (transition.outcome = .unsupported machine.opcode machine.processor.pc ↔
        machine.operation = .illegal ∨ machine.operation = .brk) ∧
      (¬ (machine.operation = .illegal ∨ machine.operation = .brk) →
        ∃ cycles, transition.outcome = .executed machine.opcode cycles) := by
  refine ⟨?_, ?_, ?_, machine.transition, machine.next, machine.step_eq, ?_, ?_⟩
  · intro count
    exact ⟨_, _, machine.steps_eq count, (machine.after count).exists_action_of_isSupported⟩
  · intro budget
    exact ⟨_, machine.advance_eq budget⟩
  · intro request
    obtain ⟨count, least⟩ := machine.exists_isLeast_elapsed request.toNat
    exact ⟨count, _, run_eq_runAfter least⟩
  · rw [← isSupported_eq_false_iff]
    cases supported : machine.operation.isSupported <;> simp [transition, supported]
  · rw [← isSupported_eq_false_iff]
    intro supported
    have supported : machine.operation.isSupported = true := by simpa using supported
    exact ⟨UInt32.ofNat machine.effect.cycles, by simp [transition, supported]⟩

end Machine

end Nmos6502
