import Nmos6502.AddressingMode
import Nmos6502.Microcode

/-!
Where the operand of an instruction lies in memory, and the cycles it takes to find out.
-/

namespace Nmos6502.Micro

variable {σ : Type} [Bus σ]

def zeroPageIndexed (index : Byte) : Micro σ Address := do
  let base ← fetch
  tick
  return (base + index).toUInt16

/-- Correcting the page of the address takes one cycle more. -/
def indexed (base : Address) (index : Byte) (charge : IndexCharge) : Micro σ Address := do
  let address := base + index.toUInt16
  if charge = .always ∨ crossesPage base address then
    tick
  return address

/-- Moves past the operand bytes of a mode and follows its pointers. -/
def effectiveAddress (mode : AddressingMode) (charge : IndexCharge) : Micro σ Address := do
  match mode with
  | .zeroPage => return (← fetch).toUInt16
  | .zeroPageX => zeroPageIndexed (← processor).x
  | .zeroPageY => zeroPageIndexed (← processor).y
  | .absolute => fetchWord
  | .absoluteX => indexed (← fetchWord) (← processor).x charge
  | .absoluteY => indexed (← fetchWord) (← processor).y charge
  | .indirect => loadPointer (← fetchWord)
  | .indirectX => loadPointer (← zeroPageIndexed (← processor).x)
  | .indirectY =>
      let base ← loadPointer (← fetch).toUInt16
      indexed base (← processor).y charge
  | .implicit | .accumulator | .immediate | .relative => throw (.noEffectiveAddress mode)

def operand (mode : AddressingMode) (charge : IndexCharge) : Micro σ Byte := do
  if mode = .immediate then
    fetch
  else
    load (← effectiveAddress mode charge)

end Nmos6502.Micro
