import Nmos6502.Action
import Nmos6502.Instruction
import Nmos6502.Microcode.EffectiveAddress
import Nmos6502.Processor.Result

/-!
What each action does once the opcode has been fetched.
-/

namespace Nmos6502

open Micro

variable {σ : Type} [Bus σ]

def Action.perform (mode : AddressingMode) (charge : IndexCharge) : Action → Micro σ Unit
  | load target => do
      let value ← operand mode charge
      update (·.loadRegister target value)
  | store source => do
      let address ← effectiveAddress mode charge
      Micro.store address ((← processor).get source)
  | calculate rule => do
      let value ← operand mode charge
      update fun processor =>
        processor.withSum (rule.apply processor.a value processor.flags.carry)
  | combine rule => do
      let value ← operand mode charge
      update fun processor => processor.loadRegister .a (rule.apply processor.a value)
  | compare register => do
      let value ← operand mode charge
      update fun processor =>
        processor.withComparison (Alu.compare (processor.get register) value)
  | testBits => do
      let value ← operand mode charge
      update fun processor => processor.withBitTest (Alu.testBits processor.a value)
  | shift rule => do
      if mode = .accumulator then
        tick
        update fun processor =>
          let shifted := rule.apply processor.a processor.flags.carry
          { processor with a := shifted.value }.withShifted shifted
      else
        let address ← effectiveAddress mode charge
        let shifted := rule.apply (← Micro.load address) (← processor).flags.carry
        tick
        Micro.store address shifted.value
        update (·.withShifted shifted)
  | countMemory direction => do
      let address ← effectiveAddress mode charge
      let value := direction.apply (← Micro.load address)
      tick
      Micro.store address value
      update (·.withResult value)
  | countRegister direction register => do
      update fun processor =>
        processor.loadRegister register (direction.apply (processor.get register))
      tick
  | branch flag expected => do
      let flags := (← processor).flags
      let offset ← fetch
      if flags.get flag = expected then
        let next := (← processor).pc
        let target := displace next offset
        tick
        if crossesPage next target then
          tick
        update fun processor => { processor with pc := target }
  | jump => do
      let target ← effectiveAddress mode charge
      update fun processor => { processor with pc := target }
  | call => do
      let target ← fetchWord
      tick
      pushWord ((← processor).pc - 1)
      update fun processor => { processor with pc := target }
  | returnFromCall => do
      spend 2
      let last ← pullWord
      tick
      update fun processor => { processor with pc := last + 1 }
  | returnFromInterrupt => do
      spend 2
      let status ← Micro.pull
      update (·.withStatus status)
      let target ← pullWord
      update fun processor => { processor with pc := target }
  | push item => do
      let value := (← processor).stacked item
      tick
      Micro.push value
  | pull item => do
      spend 2
      let value ← Micro.pull
      update (·.withPulled item value)
  | assign flag value => do
      update (·.withFlag flag value)
      tick
  | transfer source target => do
      update (·.copyRegister source target)
      tick
  | rest => tick

def Instruction.perform (instruction : Instruction) : Micro σ Unit :=
  match instruction.operation.action with
  | .ok action => action.perform instruction.mode instruction.operation.indexCharge
  | .error fault => throw fault

end Nmos6502
