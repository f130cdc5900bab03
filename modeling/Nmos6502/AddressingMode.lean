/-!
The thirteen ways an instruction finds its operand.
-/

namespace Nmos6502

inductive AddressingMode where
  | implicit
  | accumulator
  | immediate
  | zeroPage
  | zeroPageX
  | zeroPageY
  | relative
  | absolute
  | absoluteX
  | absoluteY
  | indirect
  | indirectX
  | indirectY
  deriving DecidableEq

/-- Whether the cycle that corrects the page of an indexed address is spent only when the index
carries into the page, or always. -/
inductive IndexCharge where
  | onPageCross
  | always
  deriving DecidableEq

namespace AddressingMode

def all : List AddressingMode :=
  [implicit, accumulator, immediate, zeroPage, zeroPageX, zeroPageY, relative, absolute, absoluteX,
    absoluteY, indirect, indirectX, indirectY]

theorem mem_all (mode : AddressingMode) : mode ∈ all := by
  cases mode <;> simp [all]

def name : AddressingMode → String
  | implicit => "Implicit"
  | accumulator => "Accumulator"
  | immediate => "Immediate"
  | zeroPage => "ZeroPage"
  | zeroPageX => "ZeroPageX"
  | zeroPageY => "ZeroPageY"
  | relative => "Relative"
  | absolute => "Absolute"
  | absoluteX => "AbsoluteX"
  | absoluteY => "AbsoluteY"
  | indirect => "Indirect"
  | indirectX => "IndirectX"
  | indirectY => "IndirectY"

def ofName? (name : String) : Option AddressingMode :=
  all.find? (·.name == name)

def operandBytes : AddressingMode → Nat
  | implicit | accumulator => 0
  | immediate | zeroPage | zeroPageX | zeroPageY | relative | indirectX | indirectY => 1
  | absolute | absoluteX | absoluteY | indirect => 2

end AddressingMode

end Nmos6502
