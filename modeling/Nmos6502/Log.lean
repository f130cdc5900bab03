import Nmos6502.Operation
import Nmos6502.Processor

/-!
What the machine reports about itself while it runs.
-/

namespace Nmos6502

inductive Level where
  | trace
  | debug
  | warn
  deriving DecidableEq

def Level.name : Level → String
  | trace => "TRACE"
  | debug => "DEBUG"
  | warn => "WARN"

inductive Record where
  | fetched (address : Address) (opcode : Byte) (operation : Operation) (processor : Processor)
  | skipped (address : Address) (opcode : Byte) (operation : Operation)
  | resetTo (start : Address)
  | resetThroughVector (start : Address)
  | loaded (count : Nat) (start : Address)
  deriving DecidableEq

namespace Record

def level : Record → Level
  | fetched .. => .trace
  | skipped .. => .warn
  | resetTo _ | resetThroughVector _ | loaded .. => .debug

def message : Record → String
  | fetched address opcode operation processor =>
      Hex.address address ++ "  " ++ Hex.byte opcode ++ "  " ++ operation.mnemonic ++ "  " ++
        processor.display
  | skipped address opcode operation =>
      "unsupported opcode 0x" ++ Hex.byte opcode ++ " (" ++ operation.mnemonic ++ ") at $" ++
        Hex.address address ++ ", skipping"
  | resetTo start => "reset to $" ++ Hex.address start
  | resetThroughVector start =>
      "reset via vector $" ++ Hex.address resetVector ++ " to $" ++ Hex.address start
  | loaded count start =>
      "loaded " ++ count.repr ++ " bytes at $" ++ Hex.address start

def line (record : Record) : String :=
  record.level.name ++ " " ++ record.message

end Record

end Nmos6502
