import Nmos6502.Microcode.Perform
import Nmos6502.Proofs.Addressing

/-!
What an action amounts to: the registers it leaves, the cycles it takes and what it writes, each as
a function of the registers and of the bytes the bus shows when it begins. Main statement: in the
modes it admits, performing an action commits its effect (`perform_of_admits`).
-/

namespace Nmos6502

structure Effect where
  processor : Processor
  cycles : Nat
  writes : List Write

def Progress.commit [Bus σ] (progress : Progress σ) (effect : Effect) : Progress σ :=
  { progress with
    processor := effect.processor
    budget := progress.budget.charge effect.cycles
    bus := Bus.writeAll progress.bus effect.writes
    writes := progress.writes ++ effect.writes }

namespace AddressingMode

def holdsValue (mode : AddressingMode) : Bool :=
  mode == immediate || mode.namesCell

section

variable (mode : AddressingMode) (charge : IndexCharge) (view : View) (processor : Processor)

def address : Address :=
  (mode.address? view processor).getD 0

theorem address?_eq_some_address (named : mode.namesCell = true) :
    mode.address? view processor = some (mode.address view processor) := by
  rw [← mode.isSome_address? view processor] at named
  obtain ⟨cell, located⟩ := Option.isSome_iff_exists.mp named
  rw [address, located, Option.getD_some]

def value : Byte :=
  if mode = immediate then view processor.pc else view (mode.address view processor)

def locateCycles : Nat :=
  mode.addressCycles + mode.correction charge view processor

def readCycles : Nat :=
  if mode = immediate then 1 else mode.locateCycles charge view processor + 1

end

end AddressingMode

namespace Action

def admits : Action → AddressingMode → Bool
  | load _, mode | calculate _, mode | combine _, mode | compare _, mode | testBits, mode =>
      mode.holdsValue
  | store _, mode | countMemory _, mode | jump, mode => mode.namesCell
  | shift _, mode => mode == .accumulator || mode.namesCell
  | branch _ _, mode => mode == .relative
  | call, mode => mode == .absolute
  | countRegister _ _, mode | returnFromCall, mode | returnFromInterrupt, mode | push _, mode
  | pull _, mode | assign _ _, mode | transfer _ _, mode | rest, mode => mode == .implicit

/-- The effect of an action on a processor that has fetched the opcode. -/
def effect (mode : AddressingMode) (charge : IndexCharge) (view : View) (processor : Processor) :
    Action → Effect
  | load target =>
      { processor :=
          (processor.skip mode.operandBytes).loadRegister target (mode.value view processor)
        cycles := mode.readCycles charge view processor
        writes := [] }
  | store source =>
      { processor := processor.skip mode.operandBytes
        cycles := mode.locateCycles charge view processor + 1
        writes := [⟨mode.address view processor, processor.get source⟩] }
  | calculate rule =>
      { processor := (processor.skip mode.operandBytes).withSum
          (rule.apply processor.a (mode.value view processor) processor.flags.carry)
        cycles := mode.readCycles charge view processor
        writes := [] }
  | combine rule =>
      { processor := (processor.skip mode.operandBytes).loadRegister .a
          (rule.apply processor.a (mode.value view processor))
        cycles := mode.readCycles charge view processor
        writes := [] }
  | compare register =>
      { processor := (processor.skip mode.operandBytes).withComparison
          (Alu.compare (processor.get register) (mode.value view processor))
        cycles := mode.readCycles charge view processor
        writes := [] }
  | testBits =>
      { processor := (processor.skip mode.operandBytes).withBitTest
          (Alu.testBits processor.a (mode.value view processor))
        cycles := mode.readCycles charge view processor
        writes := [] }
  | shift rule =>
      if mode = .accumulator then
        let shifted := rule.apply processor.a processor.flags.carry
        { processor := { processor with a := shifted.value }.withShifted shifted
          cycles := 1
          writes := [] }
      else
        let address := mode.address view processor
        let shifted := rule.apply (view address) processor.flags.carry
        { processor := (processor.skip mode.operandBytes).withShifted shifted
          cycles := mode.locateCycles charge view processor + 3
          writes := [⟨address, shifted.value⟩] }
  | countMemory direction =>
      let address := mode.address view processor
      let value := direction.apply (view address)
      { processor := (processor.skip mode.operandBytes).withResult value
        cycles := mode.locateCycles charge view processor + 3
        writes := [⟨address, value⟩] }
  | countRegister direction register =>
      { processor := processor.loadRegister register (direction.apply (processor.get register))
        cycles := 1
        writes := [] }
  | branch flag expected =>
      let next := processor.pc + 1
      let target := displace next (view processor.pc)
      if processor.flags.get flag = expected then
        { processor := { processor with pc := target }
          cycles := if crossesPage next target then 3 else 2
          writes := [] }
      else
        { processor := { processor with pc := next }
          cycles := 1
          writes := [] }
  | jump =>
      { processor := { processor with pc := mode.address view processor }
        cycles := mode.locateCycles charge view processor
        writes := [] }
  | call =>
      let last := processor.pc + 1
      { processor :=
          { processor with pc := operandWord view processor, sp := processor.sp - 2 }
        cycles := 5
        writes := [⟨stackCell processor.sp, highByte last⟩,
          ⟨stackCell (processor.sp - 1), lowByte last⟩] }
  | returnFromCall =>
      { processor :=
          { processor with
            pc := word (view (stackCell (processor.sp + 1)))
              (view (stackCell (processor.sp + 2))) + 1
            sp := processor.sp + 2 }
        cycles := 5
        writes := [] }
  | returnFromInterrupt =>
      { processor :=
          { processor.withStatus (view (stackCell (processor.sp + 1))) with
            pc := word (view (stackCell (processor.sp + 2)))
              (view (stackCell (processor.sp + 3)))
            sp := processor.sp + 3 }
        cycles := 5
        writes := [] }
  | push item =>
      { processor := { processor with sp := processor.sp - 1 }
        cycles := 2
        writes := [⟨stackCell processor.sp, processor.stacked item⟩] }
  | pull item =>
      { processor := { processor with sp := processor.sp + 1 }.withPulled item
          (view (stackCell (processor.sp + 1)))
        cycles := 3
        writes := [] }
  | assign flag value =>
      { processor := processor.withFlag flag value
        cycles := 1
        writes := [] }
  | transfer source target =>
      { processor := processor.copyRegister source target
        cycles := 1
        writes := [] }
  | rest =>
      { processor := processor
        cycles := 1
        writes := [] }

end Action

namespace Micro

variable {σ : Type} [Bus σ] {mode : AddressingMode} (progress : Progress σ) (charge : IndexCharge)

theorem effectiveAddress_of_namesCell (named : mode.namesCell = true) :
    effectiveAddress mode charge progress =
      .ok (mode.address (Bus.read progress.bus) progress.processor)
        (progress.reach (progress.processor.skip mode.operandBytes)
          (mode.locateCycles charge (Bus.read progress.bus) progress.processor)) := by
  rw [effectiveAddress_of_some progress charge
    (mode.address?_eq_some_address (Bus.read progress.bus) progress.processor named)]
  rfl

theorem operand_of_holdsValue (held : mode.holdsValue = true) :
    operand mode charge progress =
      .ok (mode.value (Bus.read progress.bus) progress.processor)
        (progress.reach (progress.processor.skip mode.operandBytes)
          (mode.readCycles charge (Bus.read progress.bus) progress.processor)) := by
  by_cases immediate : mode = .immediate
  · subst immediate
    rfl
  · have named : mode.namesCell = true := by
      simpa [AddressingMode.holdsValue, immediate] using held
    simp [operand, immediate, effectiveAddress_of_namesCell progress charge named,
      AddressingMode.value, AddressingMode.readCycles, Progress.reach]

/-- Instructions that only read take their operand and then change the registers. -/
theorem reading_apply (held : mode.holdsValue = true) (change : Byte → Processor → Processor) :
    (do
      let value ← operand mode charge
      update (change value)) progress =
      .ok () (progress.commit
        { processor := change (mode.value (Bus.read progress.bus) progress.processor)
            (progress.processor.skip mode.operandBytes)
          cycles := mode.readCycles charge (Bus.read progress.bus) progress.processor
          writes := [] }) := by
  simp [operand_of_holdsValue progress charge held, Progress.reach, Progress.commit]

end Micro

namespace Action

variable {σ : Type} [Bus σ] {mode : AddressingMode} (progress : Progress σ) (charge : IndexCharge)

theorem perform_shift_of_admits {rule : Shift} (admitted : (shift rule).admits mode = true) :
    (shift rule).perform mode charge progress =
      .ok () (progress.commit
        ((shift rule).effect mode charge (Bus.read progress.bus) progress.processor)) := by
  by_cases inPlace : mode = .accumulator
  · subst inPlace
    simp [perform, effect, Progress.commit]
  · have named : mode.namesCell = true := by
      simpa [admits, inPlace] using admitted
    simp [perform, effect, inPlace, Micro.effectiveAddress_of_namesCell progress charge named,
      Progress.reach, Progress.commit, Processor.skip]

theorem perform_branch (flag : Flag) (expected : Bool) :
    (branch flag expected).perform mode charge progress =
      .ok () (progress.commit
        ((branch flag expected).effect mode charge (Bus.read progress.bus)
          progress.processor)) := by
  by_cases taken : progress.processor.flags.get flag = expected
  · by_cases crossed : crossesPage (progress.processor.pc + 1)
        (displace (progress.processor.pc + 1)
          (Bus.read progress.bus progress.processor.pc)) = true
    · simp [perform, effect, taken, crossed, Progress.commit]
    · simp [perform, effect, taken, crossed, Progress.commit]
  · simp [perform, effect, taken, Progress.commit]

theorem perform_of_admits {action : Action} (admitted : action.admits mode = true) :
    action.perform mode charge progress =
      .ok () (progress.commit
        (action.effect mode charge (Bus.read progress.bus) progress.processor)) := by
  cases action with
  | load target =>
      exact Micro.reading_apply progress charge admitted fun value processor =>
        processor.loadRegister target value
  | store source =>
      simp [perform, effect, Micro.effectiveAddress_of_namesCell progress charge admitted,
        Progress.reach, Progress.commit]
  | calculate rule =>
      exact Micro.reading_apply progress charge admitted fun value processor =>
        processor.withSum (rule.apply processor.a value processor.flags.carry)
  | combine rule =>
      exact Micro.reading_apply progress charge admitted fun value processor =>
        processor.loadRegister .a (rule.apply processor.a value)
  | compare register =>
      cases register <;>
        exact Micro.reading_apply progress charge admitted fun value processor =>
          processor.withComparison (Alu.compare (processor.get _) value)
  | testBits =>
      exact Micro.reading_apply progress charge admitted fun value processor =>
        processor.withBitTest (Alu.testBits processor.a value)
  | shift rule => exact perform_shift_of_admits progress charge admitted
  | countMemory direction =>
      simp [perform, effect, Micro.effectiveAddress_of_namesCell progress charge admitted,
        Progress.reach, Progress.commit]
  | branch flag expected => exact perform_branch progress charge flag expected
  | jump =>
      simp [perform, effect, Micro.effectiveAddress_of_namesCell progress charge admitted,
        Progress.reach, Progress.commit, Processor.skip]
  | call =>
      simp [perform, effect, operandWord, Progress.commit]
  | returnFromCall => simp [perform, effect, Progress.commit]
  | returnFromInterrupt =>
      simp [perform, effect, Processor.withStatus, UInt8.add_assoc, Progress.commit]
  | push item =>
      simp [perform, effect, Processor.stackAddress, Progress.commit]
  | pull item =>
      simp [perform, effect, Progress.commit]
  | countRegister direction register => simp [perform, effect, Progress.commit]
  | assign flag value => simp [perform, effect, Progress.commit]
  | transfer source target => simp [perform, effect, Progress.commit]
  | rest => simp [perform, effect, Progress.commit]

end Action

end Nmos6502
