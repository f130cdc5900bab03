import Nmos6502.Word

/-!
The arithmetic, logical, comparison and shift rules on bytes, apart from any register. Arithmetic
is binary, also when the decimal flag is set.
-/

namespace Nmos6502

inductive Arithmetic where
  | add
  | subtract
  deriving DecidableEq

inductive Logic where
  | and
  | eor
  | ora
  deriving DecidableEq

/-- The one-place shifts and the rotations through the carry. -/
inductive Shift where
  | asl
  | lsr
  | rol
  | ror
  deriving DecidableEq

inductive Count where
  | up
  | down
  deriving DecidableEq

/-- A shifted byte and the bit that fell off its end. -/
structure Shifted where
  value : Byte
  carry : Bool
  deriving DecidableEq

namespace Alu

/-- A sum or difference with the carry and the signed overflow it leaves. -/
structure Sum where
  value : Byte
  carry : Bool
  overflow : Bool
  deriving DecidableEq

structure Comparison where
  difference : Byte
  carry : Bool
  deriving DecidableEq

structure BitTest where
  zero : Bool
  negative : Bool
  overflow : Bool
  deriving DecidableEq

/-- The sum is formed in nine bits, of which the top one is the carry. It overflows when both
operands have one sign and the value has the other. -/
def add (accumulator operand : Byte) (carry : Bool) : Sum :=
  let wide := accumulator.toUInt16 + operand.toUInt16 + carry.toUInt16
  { value := wide.toUInt8
    carry := decide (0xFF < wide)
    overflow := isNegative accumulator == isNegative operand &&
      isNegative wide.toUInt8 != isNegative operand }

/-- Subtraction adds the complement, so that a set carry means no borrow. -/
def subtract (accumulator operand : Byte) (carry : Bool) : Sum :=
  add accumulator (~~~operand) carry

def compare (register operand : Byte) : Comparison where
  difference := register - operand
  carry := decide (operand ≤ register)

/-- Zero comes from the common bits, negative and overflow from bits 7 and 6 of the operand alone.
-/
def testBits (accumulator operand : Byte) : BitTest where
  zero := accumulator &&& operand == 0
  negative := operand &&& 0x80 != 0
  overflow := operand &&& 0x40 != 0

end Alu

def Arithmetic.apply (accumulator operand : Byte) (carry : Bool) : Arithmetic → Alu.Sum
  | add => Alu.add accumulator operand carry
  | subtract => Alu.subtract accumulator operand carry

def Logic.apply (accumulator operand : Byte) : Logic → Byte
  | and => accumulator &&& operand
  | eor => accumulator ^^^ operand
  | ora => accumulator ||| operand

/-- Shifts leave a clear bit behind, rotations the old carry. -/
def Shift.apply (operand : Byte) (carry : Bool) : Shift → Shifted
  | asl => ⟨operand <<< 1, operand &&& 0x80 != 0⟩
  | lsr => ⟨operand >>> 1, operand &&& 0x01 != 0⟩
  | rol => ⟨operand <<< 1 ||| carry.toUInt8, operand &&& 0x80 != 0⟩
  | ror => ⟨operand >>> 1 ||| carry.toUInt8 <<< 7, operand &&& 0x01 != 0⟩

def Count.apply (value : Byte) : Count → Byte
  | up => value + 1
  | down => value - 1

end Nmos6502
