import Nmos6502.AddressingMode
import Nmos6502.Operation

/-!
The two ways an instruction can make no sense. Both mean that the instruction set is wrong, never
the program that runs on it.
-/

namespace Nmos6502

/-- The families that operations are sorted into, and the sorting itself. Each family accepts its own
operations only. -/
inductive Family where
  | load
  | store
  | arithmetic
  | logical
  | compare
  | shift
  | memoryIncrement
  | registerIncrement
  | branch
  | push
  | pull
  | flag
  | transfer
  | dispatch
  deriving DecidableEq

def Family.name : Family → String
  | load => "load"
  | store => "store"
  | arithmetic => "arithmetic"
  | logical => "logical"
  | compare => "compare"
  | shift => "shift"
  | memoryIncrement => "memory increment"
  | registerIncrement => "register increment"
  | branch => "branch"
  | push => "push"
  | pull => "pull"
  | flag => "flag"
  | transfer => "transfer"
  | dispatch => "dispatch"

inductive Fault where
  | invalidSelector (operation : Operation) (family : Family)
  /-- An instruction wants an operand in memory, in a mode that names none. -/
  | noEffectiveAddress (mode : AddressingMode)
  deriving DecidableEq

def Fault.message : Fault → String
  | invalidSelector operation family =>
      "operation " ++ operation.name ++ " is not a valid " ++ family.name ++ " selector"
  | noEffectiveAddress mode =>
      "addressing mode " ++ mode.name ++ " has no effective address"

end Nmos6502
