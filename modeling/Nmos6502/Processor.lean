import Nmos6502.Hex
import Nmos6502.Status.Flags

/-!
The registers of the chip, its flags and the cycles it has run since it was last reset.
-/

namespace Nmos6502

def resetVector : Address := 0xFFFC

def stackBase : Address := 0x0100

/-- The cell that a stack pointer names, which is on page one for every pointer. -/
def stackCell (pointer : Byte) : Address :=
  stackBase ||| pointer.toUInt16

theorem toNat_stackCell (pointer : Byte) : (stackCell pointer).toNat = 256 + pointer.toNat := by
  have separate := Nat.two_pow_add_eq_or_of_lt pointer.toNat_lt 1
  simp only [stackCell, stackBase, UInt16.toNat_or, UInt8.toNat_toUInt16, UInt16.reduceToNat]
  exact separate.symm

theorem stackCell_inj {left right : Byte} : stackCell left = stackCell right ↔ left = right := by
  rw [← UInt16.toNat_inj, ← UInt8.toNat_inj, toNat_stackCell, toNat_stackCell,
    Nat.add_left_cancel_iff]

def stackTop : Byte := 0xFF

/-- The registers of eight bits that instructions copy. -/
inductive Register where
  | a
  | x
  | y
  | sp
  deriving DecidableEq

structure Processor where
  a : Byte
  x : Byte
  y : Byte
  pc : Address
  sp : Byte
  flags : Flags
  total : UInt64
  deriving DecidableEq

namespace Processor

def startingAt (start : Address) : Processor where
  a := 0
  x := 0
  y := 0
  pc := start
  sp := stackTop
  flags := .clear
  total := 0

instance : Inhabited Processor := ⟨startingAt 0⟩

def get (processor : Processor) : Register → Byte
  | .a => processor.a
  | .x => processor.x
  | .y => processor.y
  | .sp => processor.sp

def set (processor : Processor) (register : Register) (value : Byte) : Processor :=
  match register with
  | .a => { processor with a := value }
  | .x => { processor with x := value }
  | .y => { processor with y := value }
  | .sp => { processor with sp := value }

theorem get_set (processor : Processor) (register other : Register) (value : Byte) :
    (processor.set register value).get other =
      if other = register then value else processor.get other := by
  cases register <;> cases other <;> rfl

@[simp] theorem get_set_self (processor : Processor) (register : Register) (value : Byte) :
    (processor.set register value).get register = value := by
  simp [get_set]

def withResult (processor : Processor) (result : Byte) : Processor :=
  { processor with flags := processor.flags.withResult result }

def withFlag (processor : Processor) (flag : Flag) (value : Bool) : Processor :=
  { processor with flags := processor.flags.set flag value }

@[simp] theorem flags_withResult (processor : Processor) (result : Byte) :
    (processor.withResult result).flags = processor.flags.withResult result := rfl

@[simp] theorem flags_withFlag (processor : Processor) (flag : Flag) (value : Bool) :
    (processor.withFlag flag value).flags = processor.flags.set flag value := rfl

@[simp] theorem get_withResult (processor : Processor) (result : Byte) (register : Register) :
    (processor.withResult result).get register = processor.get register := by
  cases register <;> rfl

@[simp] theorem get_withFlag (processor : Processor) (flag : Flag) (value : Bool)
    (register : Register) :
    (processor.withFlag flag value).get register = processor.get register := by
  cases register <;> rfl

def status (processor : Processor) : Byte :=
  processor.flags.toByte

def stackAddress (processor : Processor) : Address :=
  stackCell processor.sp

def display (processor : Processor) : String :=
  "A:" ++ Hex.byte processor.a ++ " X:" ++ Hex.byte processor.x ++
    " Y:" ++ Hex.byte processor.y ++ " P:" ++ Hex.byte processor.status ++
    " SP:" ++ Hex.byte processor.sp

end Processor

end Nmos6502
