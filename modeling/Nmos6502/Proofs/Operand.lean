import Nmos6502.Proofs.Cost

/-!
Operands. An instruction that only reads takes one byte, from behind its opcode or from the cell
that its mode names, and changes nothing but the registers. Main statement: the machine that such an
instruction leaves is a function of that byte (`next_of_reading`).
-/

namespace Nmos6502

/-- The byte that an instruction works on, once a processor comes to fetch it. -/
def Instruction.operand? (instruction : Instruction) (view : View) (processor : Processor) :
    Option Byte :=
  if instruction.mode = .immediate then
    some (view (processor.pc + 1))
  else
    (instruction.mode.address? view (processor.skip 1)).map view

theorem Instruction.operand?_eq_value {instruction : Instruction} (view : View)
    (processor : Processor) (held : instruction.mode.holdsValue = true) :
    instruction.operand? view processor =
      some (instruction.mode.value view (processor.skip 1)) := by
  by_cases immediate : instruction.mode = .immediate
  · simp only [operand?, AddressingMode.value, immediate, if_true]
    rfl
  · have named : instruction.mode.namesCell = true := by
      simpa [AddressingMode.holdsValue, immediate] using held
    rw [operand?, if_neg immediate, AddressingMode.value, if_neg immediate,
      instruction.mode.address?_eq_some_address view (processor.skip 1) named, Option.map_some]

namespace Action

/-- What an action that only reads makes of its operand. -/
def reading? : Action → Option (Byte → Processor → Processor)
  | load target => some fun value processor => processor.loadRegister target value
  | calculate rule => some fun value processor =>
      processor.withSum (rule.apply processor.a value processor.flags.carry)
  | combine rule => some fun value processor =>
      processor.loadRegister .a (rule.apply processor.a value)
  | compare register => some fun value processor =>
      processor.withComparison (Alu.compare (processor.get register) value)
  | testBits => some fun value processor =>
      processor.withBitTest (Alu.testBits processor.a value)
  | _ => none

variable {action : Action} {change : Byte → Processor → Processor} {mode : AddressingMode}

theorem holdsValue_of_reading (reads : action.reading? = some change)
    (admitted : action.admits mode = true) : mode.holdsValue = true := by
  cases action <;> first | exact admitted | contradiction

theorem effect_of_reading (charge : IndexCharge) (view : View) (processor : Processor)
    (reads : action.reading? = some change) :
    action.effect mode charge view processor =
      { processor := change (mode.value view processor) (processor.skip mode.operandBytes)
        cycles := mode.readCycles charge view processor
        writes := [] } := by
  cases action with
  | compare register =>
      cases reads
      simp [effect]
  | load | calculate | combine | testBits =>
      cases reads
      rfl
  | _ => contradiction

end Action

namespace Machine

variable {σ : Type} [Bus σ] (machine : Machine σ)

theorem next_of_reading {action : Action} {change : Byte → Processor → Processor}
    (sorted : machine.operation.action = .ok action) (reads : action.reading? = some change) :
    ∃ operand,
      (decode machine.opcode).operand? (Bus.read machine.bus) machine.processor = some operand ∧
      machine.transition.writes = [] ∧
      machine.next =
        { processor :=
            (change operand (machine.processor.skip (decode machine.opcode).size)).elapse
              machine.cost
          bus := machine.bus } := by
  have held := Action.holdsValue_of_reading reads (Instruction.admits_decode sorted)
  have effect := machine.effect_of_action sorted
  rw [Action.effect_of_reading _ _ _ reads] at effect
  refine ⟨_, Instruction.operand?_eq_value _ _ held, ?_, ?_⟩
  · rw [transition, effect]
  · rw [next, transition, ← cycles_effect_eq_cost, effect, Processor.skip_skip]
    rfl

end Machine

end Nmos6502
