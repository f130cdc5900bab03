import Nmos6502.Action

/-!
How the results of the arithmetic rules and the bytes of the stack are written into the registers
and flags.
-/

namespace Nmos6502.Processor

def withSum (processor : Processor) (sum : Alu.Sum) : Processor :=
  (({ processor with a := sum.value }.withFlag .carry sum.carry).withFlag .overflow
    sum.overflow).withResult sum.value

def withComparison (processor : Processor) (comparison : Alu.Comparison) : Processor :=
  (processor.withFlag .carry comparison.carry).withResult comparison.difference

def withBitTest (processor : Processor) (test : Alu.BitTest) : Processor :=
  ((processor.withFlag .zero test.zero).withFlag .negative test.negative).withFlag .overflow
    test.overflow

def withShifted (processor : Processor) (shifted : Shifted) : Processor :=
  (processor.withFlag .carry shifted.carry).withResult shifted.value

def loadRegister (processor : Processor) (target : Register) (value : Byte) : Processor :=
  (processor.set target value).withResult value

@[simp] theorem flags_loadRegister (processor : Processor) (target : Register) (value : Byte) :
    (processor.loadRegister target value).flags = processor.flags.withResult value := by
  cases target <;> rfl

theorem get_loadRegister (processor : Processor) (target register : Register) (value : Byte) :
    (processor.loadRegister target value).get register =
      if register = target then value else processor.get register := by
  rw [loadRegister, get_withResult, get_set]

/-- Copying into the stack pointer describes nothing in the flags; every other copy does. -/
def copyRegister (processor : Processor) (source target : Register) : Processor :=
  match target with
  | .sp => processor.set .sp (processor.get source)
  | _ => processor.loadRegister target (processor.get source)

theorem get_copyRegister_of_ne (processor : Processor) {target register : Register}
    (source : Register) (other : register ≠ target) :
    (processor.copyRegister source target).get register = processor.get register := by
  cases target <;> simp [copyRegister, get_loadRegister, get_set, other]

def withStatus (processor : Processor) (status : Byte) : Processor :=
  { processor with flags := .ofByte status }

def stacked (processor : Processor) : Stacked → Byte
  | .accumulator => processor.a
  | .status => processor.flags.toStackByte

def withPulled (processor : Processor) (item : Stacked) (value : Byte) : Processor :=
  match item with
  | .accumulator => processor.loadRegister .a value
  | .status => processor.withStatus value

end Nmos6502.Processor
