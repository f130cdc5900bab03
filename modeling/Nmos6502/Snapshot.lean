import Nmos6502.Processor
import Nmos6502.Snapshot.Library

/-!
Processors saved as JSON documents: the declarations of what is saved, and what a library makes of
them.
-/

namespace Nmos6502.Snapshot

variable (library : Library)

def flagFields : Fields Flags (Bool → Bool → Bool → Bool → Bool → Bool → Bool → Bool → Flags) :=
  .cons "carry" library.bool (·.carry) <|
  .cons "zero" library.bool (·.zero) <|
  .cons "interrupt_disable" library.bool (·.interruptDisable) <|
  .cons "decimal" library.bool (·.decimal) <|
  .cons "break_command" library.bool (·.breakCommand) <|
  .cons "unused" library.bool (·.unused) <|
  .cons "overflow" library.bool (·.overflow) <|
  .cons "negative" library.bool (·.negative) .nil

def flags : Codec Flags :=
  library.record (flagFields library) Flags.mk

def processorFields :
    Fields Processor (Byte → Byte → Byte → Address → Byte → Flags → UInt64 → Processor) :=
  .cons "a" library.byte (·.a) <|
  .cons "x" library.byte (·.x) <|
  .cons "y" library.byte (·.y) <|
  .cons "pc" library.address (·.pc) <|
  .cons "sp" library.byte (·.sp) <|
  .cons "flags" (flags library) (·.flags) <|
  .cons "total_cycles" library.total (·.total) .nil

def processor : Codec Processor :=
  library.record (processorFields library) Processor.mk

def write (saved : Processor) : String :=
  library.print ((processor library).encode saved)

def read? (document : String) : Option Processor :=
  library.parse? document >>= (processor library).decode?

/-- Puts the processor that a document tells of in the place of another. A document that is no
snapshot changes nothing. -/
def restore (other : Processor) (document : String) : Processor :=
  (read? library document).getD other

end Nmos6502.Snapshot
