import Nmos6502.Bus.Image
import Nmos6502.Proofs.Contents
import Nmos6502.Proofs.Writes

/-!
What a run leaves alone. Every operation sets a few flags and registers of its own. Main statement:
a flag or register keeps its value through any run that does not come to an operation that sets it,
and break and unused stay clear after a reset until a status is pulled (`keeps_until_set`).
-/

namespace Nmos6502

theorem or_and_self (value mask : Byte) : (value ||| mask) &&& mask = mask := by
  apply UInt8.toNat_inj.mp
  apply Nat.eq_of_testBit_eq
  intro index
  simp only [UInt8.toNat_and, UInt8.toNat_or, Nat.testBit_and, Nat.testBit_or]
  cases mask.toNat.testBit index <;> simp

theorem Flags.toByte_and_0x30 (flags : Flags) (breakCommand : flags.breakCommand = false)
    (unused : flags.unused = false) : flags.toByte &&& 0x30 = 0 := by
  obtain ⟨carry, zero, interruptDisable, decimal, breakCommand, unused, overflow, negative⟩ :=
    flags
  subst breakCommand
  subst unused
  revert carry zero interruptDisable decimal overflow negative
  decide +kernel

namespace Action

/-- The flags that an action sets. -/
def flags : Action → List Flag
  | load _ | combine _ | countMemory _ | countRegister _ _ => [.zero, .negative]
  | calculate _ => [.carry, .zero, .overflow, .negative]
  | compare _ | shift _ => [.carry, .zero, .negative]
  | testBits => [.zero, .overflow, .negative]
  | assign flag _ => [flag]
  | transfer _ .sp => []
  | transfer _ _ => [.zero, .negative]
  | pull .accumulator => [.zero, .negative]
  | pull .status | returnFromInterrupt => Flag.all
  | store _ | branch _ _ | jump | call | returnFromCall | push _ | rest => []

/-- The registers that an action sets. -/
def registers (mode : AddressingMode) : Action → List Register
  | load target => [target]
  | calculate _ | combine _ => [.a]
  | shift _ => if mode = .accumulator then [.a] else []
  | countRegister _ register => [register]
  | transfer _ target => [target]
  | pull .accumulator => [.a, .sp]
  | pull .status | call | returnFromCall | returnFromInterrupt | push _ => [.sp]
  | store _ | compare _ | testBits | countMemory _ | branch _ _ | jump | assign _ _ | rest => []

variable {action : Action} {mode : AddressingMode} (charge : IndexCharge) (view : View)
  (processor : Processor)

theorem get_flags_effect {flag : Flag} (kept : flag ∉ action.flags) :
    (action.effect mode charge view processor).processor.flags.get flag =
      processor.flags.get flag := by
  cases action with
  | load | calculate | combine | compare | testBits | countMemory | countRegister =>
      simp only [flags, List.mem_cons, List.not_mem_nil, or_false, not_or] at kept
      simp [effect, Processor.withSum, Processor.withComparison, Processor.withBitTest,
        Flags.get_withResult, Flags.get_set, kept]
  | shift rule =>
      simp only [flags, List.mem_cons, List.not_mem_nil, or_false, not_or] at kept
      simp only [effect]
      split <;> simp [Processor.withShifted, Flags.get_withResult, Flags.get_set, kept]
  | assign flag value =>
      simp only [flags, List.mem_singleton] at kept
      simp [effect, Flags.get_set, kept]
  | transfer source target =>
      cases target with
      | sp => rfl
      | a | x | y =>
          simp only [flags, List.mem_cons, List.not_mem_nil, or_false, not_or] at kept
          simp [effect, Processor.copyRegister, Flags.get_withResult, kept]
  | pull item =>
      cases item with
      | accumulator =>
          simp only [flags, List.mem_cons, List.not_mem_nil, or_false, not_or] at kept
          simp [effect, Processor.withPulled, Flags.get_withResult, kept]
      | status => exact absurd flag.mem_all kept
  | returnFromInterrupt => exact absurd flag.mem_all kept
  | branch flag expected =>
      simp only [effect]
      split <;> rfl
  | store | jump | call | returnFromCall | push | rest => rfl

theorem get_effect {register : Register} (kept : register ∉ action.registers mode) :
    (action.effect mode charge view processor).processor.get register =
      processor.get register := by
  cases action with
  | load | combine | countRegister =>
      simp only [registers, List.mem_singleton] at kept
      simp [effect, Processor.get_loadRegister, kept]
  | calculate rule =>
      simp only [registers, List.mem_singleton] at kept
      cases register <;> first | rfl | contradiction
  | shift rule =>
      by_cases inPlace : mode = .accumulator
      · simp only [registers, inPlace, if_true, List.mem_singleton] at kept
        simp only [effect, inPlace, if_true]
        cases register <;> first | rfl | contradiction
      · simp only [effect, inPlace, if_false]
        cases register <;> rfl
  | transfer source target =>
      simp only [registers, List.mem_singleton] at kept
      exact Processor.get_copyRegister_of_ne processor source kept
  | pull item =>
      cases item <;>
        simp only [registers, List.mem_cons, List.not_mem_nil, or_false, not_or] at kept <;>
        cases register <;> first | rfl | simp at kept
  | call | returnFromCall | returnFromInterrupt | push =>
      simp only [registers, List.mem_singleton] at kept
      cases register <;> first | rfl | contradiction
  | branch flag expected =>
      simp only [effect]
      split <;> cases register <;> rfl
  | store | compare | testBits | countMemory | jump | assign | rest => cases register <;> rfl

end Action

/-- The operations that set a flag. -/
def Flag.setters : Flag → List Operation
  | carry => [.adc, .sbc, .cmp, .cpx, .cpy, .asl, .lsr, .rol, .ror, .clc, .sec, .plp, .rti]
  | zero | negative =>
    [.adc, .sbc, .and, .eor, .ora, .cmp, .cpx, .cpy, .bit, .asl, .lsr, .rol, .ror, .inc, .dec,
      .inx, .iny, .dex, .dey, .lda, .ldx, .ldy, .tax, .tay, .txa, .tya, .tsx, .pla, .plp, .rti]
  | overflow => [.adc, .sbc, .bit, .clv, .plp, .rti]
  | interruptDisable => [.cli, .sei, .plp, .rti]
  | decimal => [.cld, .sed, .plp, .rti]
  | breakCommand | unused => [.plp, .rti]

/-- The operations that set a register in every mode they have. -/
def Register.setters : Register → List Operation
  | a => [.lda, .adc, .sbc, .and, .eor, .ora, .txa, .tya, .pla]
  | x => [.ldx, .tax, .tsx, .inx, .dex]
  | y => [.ldy, .tay, .iny, .dey]
  | sp => [.pha, .php, .pla, .plp, .jsr, .rts, .rti, .txs]

namespace Instruction

/-- Whether an instruction sets a register. The shifts set the accumulator when it is their
operand. -/
def sets (instruction : Instruction) (register : Register) : Bool :=
  instruction.operation ∈ register.setters ||
    (register == .a && instruction.mode == .accumulator &&
      instruction.operation ∈ [.asl, .lsr, .rol, .ror])

/-- What the lists of setters must hold for an operation. -/
def isListed (instruction : Instruction) : Bool :=
  match instruction.operation.action with
  | .ok action =>
      (action.flags.all fun flag => instruction.operation ∈ flag.setters) &&
        (action.registers instruction.mode).all instruction.sets
  | .error _ => true

theorem isListed_decode (opcode : Byte) : (decode opcode).isListed = true :=
  forall_decode isListed (fun operation => by cases operation <;> rfl) rfl opcode

variable {opcode : Byte} {action : Action}

theorem mem_setters (sorted : (decode opcode).operation.action = .ok action) {flag : Flag}
    (set : flag ∈ action.flags) : (decode opcode).operation ∈ flag.setters := by
  have listed := isListed_decode opcode
  simp only [isListed, sorted, Bool.and_eq_true, List.all_eq_true, decide_eq_true_eq] at listed
  exact listed.1 flag set

theorem sets_of_mem (sorted : (decode opcode).operation.action = .ok action) {register : Register}
    (set : register ∈ action.registers (decode opcode).mode) :
    (decode opcode).sets register = true := by
  have listed := isListed_decode opcode
  simp only [isListed, sorted, Bool.and_eq_true, List.all_eq_true] at listed
  exact listed.2 register set

end Instruction

namespace Machine

variable {σ : Type} [Bus σ] (machine : Machine σ)

/-- A step to a machine that sends these writes to the bus, and sets no other registers and flags
than these. -/
structure SetsOnly (registers : List Register) (flags : List Flag) (writes : List Write)
    (next : Machine σ) : Prop where
  step : ∃ transition, machine.step = .ok (transition, next) ∧ transition.writes = writes
  bus : next.bus = Bus.writeAll machine.bus writes
  registers : ∀ register ∉ registers,
    next.processor.get register = machine.processor.get register
  flags : ∀ flag ∉ flags, next.processor.flags.get flag = machine.processor.flags.get flag

theorem setsOnly_of_action {action : Action} (sorted : machine.operation.action = .ok action) :
    machine.SetsOnly (action.registers (decode machine.opcode).mode) action.flags
      machine.transition.writes machine.next where
  step := ⟨machine.transition, machine.step_eq, rfl⟩
  bus := rfl
  registers := by
    intro register kept
    have spared := Action.get_effect machine.operation.indexCharge (Bus.read machine.bus)
      (machine.processor.skip 1) kept
    rw [Processor.get_skip] at spared
    rw [next_of_action machine sorted, ← spared]
    cases register <;> rfl
  flags := by
    intro flag kept
    rw [next_of_action machine sorted]
    exact Action.get_flags_effect _ _ _ kept

theorem get_flags_next {flag : Flag} (kept : machine.operation ∉ flag.setters) :
    machine.next.processor.flags.get flag = machine.processor.flags.get flag := by
  cases sorted : machine.operation.action with
  | ok action =>
      apply (machine.setsOnly_of_action sorted).flags
      exact mt (Instruction.mem_setters sorted) kept
  | error fault =>
      rw [next_of_fault machine sorted]
      rfl

theorem get_next {register : Register} (kept : (decode machine.opcode).sets register = false) :
    machine.next.processor.get register = machine.processor.get register := by
  cases sorted : machine.operation.action with
  | ok action =>
      apply (machine.setsOnly_of_action sorted).registers
      intro set
      rw [Instruction.sets_of_mem sorted set] at kept
      contradiction
  | error fault =>
      rw [next_of_fault machine sorted]
      cases register <;> rfl

/-- What each of a number of instructions leaves alone, they leave alone together. -/
theorem read_after {α : Type} (read : Processor → α) {count : Nat}
    (kept : ∀ index < count,
      read (machine.after index).next.processor = read (machine.after index).processor) :
    read (machine.after count).processor = read machine.processor := by
  induction count with
  | zero => rfl
  | succ count induction =>
      rw [after_succ, kept count (Nat.lt_succ_self count)]
      apply induction
      intro index bound
      exact kept index (Nat.lt_succ_of_lt bound)

theorem get_flags_after {flag : Flag} {count : Nat}
    (kept : ∀ index < count, (machine.after index).operation ∉ flag.setters) :
    (machine.after count).processor.flags.get flag = machine.processor.flags.get flag := by
  apply machine.read_after (·.flags.get flag)
  intro index bound
  exact get_flags_next _ (kept index bound)

theorem get_after {register : Register} {count : Nat}
    (kept : ∀ index < count, (decode (machine.after index).opcode).sets register = false) :
    (machine.after count).processor.get register = machine.processor.get register := by
  apply machine.read_after (·.get register)
  intro index bound
  exact get_next _ (kept index bound)

/-- A processor just reset has neither break nor unused set, and its pushes do not set them. -/
theorem status_after_of_clear {count : Nat} (clear : machine.processor.flags = .clear)
    (unpulled : ∀ index < count, (machine.after index).operation ∉ [.plp, .rti]) :
    (machine.after count).processor.status &&& 0x30 = 0 := by
  have breakCommand : (machine.after count).processor.flags.get .breakCommand =
      machine.processor.flags.get .breakCommand :=
    get_flags_after machine unpulled
  have unused : (machine.after count).processor.flags.get .unused =
      machine.processor.flags.get .unused :=
    get_flags_after machine unpulled
  rw [clear] at breakCommand unused
  exact Flags.toByte_and_0x30 _ breakCommand unused

theorem writes_of_php (php : machine.operation = .php) :
    machine.transition.writes =
      [⟨stackCell machine.processor.sp, machine.processor.status ||| 0x30⟩] := by
  have decoded : (decode machine.opcode).operation = .php := php
  rw [writes_transition, writes, Instruction.writes, decoded]

/-- A flag or register keeps its value as long as a run comes to none of its setters. After a reset
break and unused stay clear until a status is pulled, though each push of the status writes them
set. -/
theorem keeps_until_set (count : Nat) :
    machine.steps count = .ok (machine.trace count, machine.after count) ∧
    (∀ flag : Flag,
      (∀ index < count, (machine.after index).operation ∉ flag.setters) →
        (machine.after count).processor.flags.get flag = machine.processor.flags.get flag) ∧
    (∀ register : Register,
      (∀ index < count, (decode (machine.after index).opcode).sets register = false) →
        (machine.after count).processor.get register = machine.processor.get register) ∧
    (∀ started : Machine σ,
      (started = machine.reset.2 ∨ ∃ start, started = (machine.resetTo start).2) →
      (∀ index < count, (started.after index).operation ∉ [.plp, .rti]) →
        (started.after count).processor.status &&& 0x30 = 0) ∧
    (machine.operation = .php →
      ∃ value,
        machine.transition.writes = [⟨stackCell machine.processor.sp, value⟩] ∧
        value &&& 0x30 = 0x30) := by
  refine ⟨machine.steps_eq count, ?_, ?_, ?_, ?_⟩
  · intro flag kept
    exact machine.get_flags_after kept
  · intro register kept
    exact machine.get_after kept
  · rintro started (rfl | ⟨start, rfl⟩) unpulled
    · exact status_after_of_clear _ rfl unpulled
    · exact status_after_of_clear _ rfl unpulled
  · intro php
    exact ⟨_, machine.writes_of_php php, or_and_self _ _⟩

/-- A machine whose reset leads to a program that pushes its status and doubles a cell. -/
def doublingProgram : Machine View where
  processor := { Processor.startingAt 0x0200 with a := 7, flags := .ofByte 0x70 }
  bus := Bus.writeAll (fun _ => 0)
    (Image.writes ⟨0x0200, [0x38, 0x08, 0xA2, 0x05, 0x06, 0x10, 0xE8, 0x08]⟩ ++
      Image.writes ⟨0xFFFC, [0x00, 0x02]⟩)

theorem unset_doublingProgram :
    (∀ index < 6, (doublingProgram.after index).operation ∉ Flag.overflow.setters) ∧
    (∀ index < 6, (decode (doublingProgram.after index).opcode).sets .a = false) ∧
    (∀ index < 6, (doublingProgram.reset.2.after index).operation ∉ [.plp, .rti]) ∧
    (doublingProgram.reset.2.after 5).operation = .php := by
  decide +kernel

theorem keeps_until_set_doublingProgram :
    (doublingProgram.after 6).processor.flags.overflow = true ∧
    (doublingProgram.after 6).processor.a = 7 ∧
    (doublingProgram.reset.2.after 6).processor.status &&& 0x30 = 0 ∧
    ∃ pointer value,
      (doublingProgram.reset.2.after 5).transition.writes = [⟨stackCell pointer, value⟩] ∧
      value &&& 0x30 = 0x30 := by
  obtain ⟨overflow, a, unpulled, php⟩ := unset_doublingProgram
  obtain ⟨_, flags, registers, started, _⟩ := keeps_until_set doublingProgram 6
  obtain ⟨_, _, _, _, pushed⟩ := keeps_until_set (doublingProgram.reset.2.after 5) 0
  exact ⟨flags .overflow overflow, registers .a a, started _ (.inl rfl) unpulled, _, pushed php⟩

end Machine

end Nmos6502
