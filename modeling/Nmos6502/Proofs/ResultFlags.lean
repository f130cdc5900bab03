import Nmos6502.Bus.Board
import Nmos6502.Bus.Image
import Nmos6502.Proofs.Arithmetic

/-!
The zero and the negative flag. Loads, arithmetic, comparisons, shifts, counting and most copies
describe one byte in them: what a register now holds, what was sent to a cell, or a difference that
is kept nowhere. Main statement: the flags tell that byte, whether or not the bus keeps it
(`step_describes_result`).
-/

namespace Nmos6502

/-- Where the byte is found that the flags of an instruction describe. -/
inductive Place where
  | register (target : Register)
  | cell
  | difference (register : Register)
  deriving DecidableEq

def Instruction.describes? (instruction : Instruction) : Option Place :=
  match instruction.operation with
  | .lda | .and | .eor | .ora | .adc | .sbc | .txa | .tya | .pla => some (.register .a)
  | .ldx | .inx | .dex | .tax | .tsx => some (.register .x)
  | .ldy | .iny | .dey | .tay => some (.register .y)
  | .asl | .lsr | .rol | .ror =>
      if instruction.mode = .accumulator then some (.register .a) else some .cell
  | .inc | .dec => some .cell
  | .cmp => some (.difference .a)
  | .cpx => some (.difference .x)
  | .cpy => some (.difference .y)
  | _ => none

namespace Flags

structure Describe (flags : Flags) (result : Byte) : Prop where
  zero : flags.zero = true ↔ result = 0
  negative : flags.negative = true ↔ 128 ≤ result.toNat

theorem describe_withResult (flags : Flags) (result : Byte) :
    (flags.withResult result).Describe result where
  zero := beq_iff_eq
  negative := isNegative_iff result

end Flags

theorem toNat_sub_eq_emod (left right : Byte) :
    ((left - right).toNat : Int) = (left.toNat - right.toNat) % 256 := by
  have bound := right.toNat_lt
  rw [UInt8.toNat_sub]
  omega

namespace Instruction

variable {instruction : Instruction} {action : Action} (charge : IndexCharge) (view : View)
  (processor : Processor)

theorem exists_action_of_describes {place : Place}
    (described : instruction.describes? = some place) :
    ∃ action, instruction.operation.action = .ok action := by
  apply exists_action
  obtain ⟨operation, mode, cycles⟩ := instruction
  cases operation <;> first | rfl | cases described

theorem describe_register {target : Register}
    (described : instruction.describes? = some (.register target))
    (sorted : instruction.operation.action = .ok action) :
    let after := (action.effect instruction.mode charge view processor).processor
    after.flags.Describe (after.get target) := by
  obtain ⟨operation, mode, cycles⟩ := instruction
  cases operation with
  | lda | ldx | ldy | and | eor | ora | adc | sbc | inx | iny | dex | dey | tax | tay | txa | tya
  | tsx | pla =>
      cases sorted
      cases described
      exact Flags.describe_withResult _ _
  | asl | lsr | rol | ror =>
      cases sorted
      by_cases inPlace : mode = .accumulator
      · subst inPlace
        cases described
        exact Flags.describe_withResult _ _
      · simp [describes?, inPlace] at described
  | _ => cases described

theorem exists_describe_cell (described : instruction.describes? = some .cell)
    (sorted : instruction.operation.action = .ok action)
    (admitted : action.admits instruction.mode = true) :
    ∃ cell result,
      instruction.mode.address? view processor = some cell ∧
      (action.effect instruction.mode charge view processor).writes = [⟨cell, result⟩] ∧
      (action.effect instruction.mode charge view processor).processor.flags.Describe result := by
  obtain ⟨operation, mode, cycles⟩ := instruction
  have locate : mode.namesCell = true →
      mode.address? view processor = some (mode.address view processor) :=
    mode.address?_eq_some_address view processor
  cases operation with
  | inc | dec =>
      cases sorted
      exact ⟨_, _, locate admitted, rfl, Flags.describe_withResult _ _⟩
  | asl | lsr | rol | ror =>
      cases sorted
      have inMemory : mode ≠ .accumulator := by
        rintro rfl
        cases described
      have named : mode.namesCell = true := by
        simpa [Action.admits, inMemory] using admitted
      simp only [Action.effect, inMemory, if_false]
      exact ⟨_, _, locate named, rfl, Flags.describe_withResult _ _⟩
  | _ => cases described

theorem action_of_difference {register : Register}
    (described : instruction.describes? = some (.difference register)) :
    instruction.operation.action = .ok (.compare register) := by
  obtain ⟨operation, mode, cycles⟩ := instruction
  cases operation with
  | cmp | cpx | cpy =>
      cases described
      rfl
  | asl | lsr | rol | ror =>
      by_cases inPlace : mode = .accumulator <;> simp [describes?, inPlace] at described
  | _ => cases described

end Instruction

namespace Machine

variable {σ : Type} [Bus σ] (machine : Machine σ)

def Leaves (transition : Transition) (result : Byte) : Place → Prop
  | .register target => transition.processor.get target = result
  | .cell => ∃ cell,
      (decode machine.opcode).mode.address? (Bus.read machine.bus) (machine.processor.skip 1) =
        some cell ∧
      transition.writes = [⟨cell, result⟩]
  | .difference register => ∃ operand,
      (decode machine.opcode).operand? (Bus.read machine.bus) machine.processor = some operand ∧
      (result.toNat : Int) =
        ((machine.processor.get register).toNat - operand.toNat) % 256 ∧
      transition.processor.get register = machine.processor.get register

variable {machine}

theorem exists_leaves {place : Place}
    (described : (decode machine.opcode).describes? = some place) :
    ∃ result,
      machine.Leaves machine.transition result place ∧
      machine.transition.processor.flags.Describe result := by
  cases place with
  | register target =>
      obtain ⟨action, sorted⟩ := Instruction.exists_action_of_describes described
      have described := Instruction.describe_register machine.operation.indexCharge
        (Bus.read machine.bus) (machine.processor.skip 1) described sorted
      refine ⟨_, rfl, ?_⟩
      rw [transition, effect_of_action machine sorted]
      cases target <;> exact described
  | cell =>
      obtain ⟨action, sorted⟩ := Instruction.exists_action_of_describes described
      obtain ⟨cell, result, located, written, described⟩ := Instruction.exists_describe_cell
        machine.operation.indexCharge (Bus.read machine.bus) (machine.processor.skip 1) described
        sorted (Instruction.admits_decode sorted)
      refine ⟨result, ⟨cell, located, ?_⟩, ?_⟩
      · rw [transition, effect_of_action machine sorted]
        exact written
      · rw [transition, effect_of_action machine sorted]
        exact described
  | difference register =>
      have sorted : machine.operation.action = .ok (.compare register) :=
        Instruction.action_of_difference described
      obtain ⟨operand, found, _, left⟩ := machine.next_of_reading sorted rfl
      have processor : machine.transition.processor = _ := congrArg Machine.processor left
      refine ⟨machine.processor.get register - operand,
        ⟨operand, found, toNat_sub_eq_emod _ _, ?_⟩, ?_⟩
      · rw [processor]
        cases register <;> rfl
      · rw [processor]
        exact Flags.describe_withResult _ _

/-- An instruction that describes a byte in the zero and the negative flag leaves that byte in a
register, or sends it to the cell of its operand whatever the bus makes of it, or has compared a
register that it leaves as it was. -/
theorem step_describes_result {place : Place}
    (described : (decode machine.opcode).describes? = some place) :
    ∃ transition next result,
      machine.step = .ok (transition, next) ∧
      next.processor = transition.processor ∧
      next.bus = Bus.writeAll machine.bus transition.writes ∧
      machine.Leaves transition result place ∧
      (next.processor.flags.zero = true ↔ result = 0) ∧
      (next.processor.flags.negative = true ↔ 128 ≤ result.toNat) := by
  obtain ⟨result, left, told⟩ := exists_leaves described
  exact ⟨machine.transition, machine.next, result, machine.step_eq, rfl, rfl, left, told.zero,
    told.negative⟩

def romIncrementBytes : View := fun address =>
  if address = 0x0200 then 0xEE else if address = 0x0202 then 0x80
    else if address = 0x8000 then 0xFF else 0

/-- A machine about to increment a byte of its read-only memory. -/
def romIncrement : Machine Board where
  processor := .startingAt 0x0200
  bus := ⟨.rom, .ofFn romIncrementBytes⟩

theorem read_romIncrement : Bus.read romIncrement.bus = romIncrementBytes :=
  funext (Memory.read_ofFn romIncrementBytes)

theorem decode_romIncrement : decode romIncrement.opcode = ⟨.inc, .absolute, 6⟩ := by
  rw [opcode, read_romIncrement, decode_eq_search]
  rfl

theorem writes_romIncrement : romIncrement.transition.writes = [⟨0x8000, 0⟩] := by
  have sorted : romIncrement.operation.action = .ok (.countMemory .up) := by
    rw [operation, decode_romIncrement]
    rfl
  rw [transition, effect_of_action romIncrement sorted, decode_romIncrement, read_romIncrement]
  rfl

/-- The flags tell the byte that was sent, though the memory keeps its own. -/
theorem step_describes_result_romIncrement :
    ∃ transition next,
      romIncrement.step = .ok (transition, next) ∧
      transition.writes = [⟨0x8000, 0⟩] ∧
      next.processor.flags.zero = true ∧
      next.processor.flags.negative = false ∧
      Bus.read next.bus 0x8000 = 0xFF := by
  have decoded := decode_romIncrement
  have described : (decode romIncrement.opcode).describes? = some .cell := by
    rw [decoded]
    rfl
  obtain ⟨transition, next, result, stepped, _, kept, ⟨cell, _, written⟩, zero, negative⟩ :=
    step_describes_result described
  cases stepped.symm.trans romIncrement.step_eq
  cases writes_romIncrement.symm.trans written
  refine ⟨_, _, stepped, writes_romIncrement, zero.mpr rfl, ?_, ?_⟩
  · rw [← Bool.not_eq_true, negative]
    decide
  · rw [kept, writes_romIncrement]
    exact Memory.read_ofFn romIncrementBytes 0x8000

end Machine

end Nmos6502
