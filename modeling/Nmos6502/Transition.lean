import Nmos6502.Microcode.Perform

/-!
One instruction from its fetch to its end.
-/

namespace Nmos6502

inductive Outcome where
  | executed (opcode : Byte) (cycles : UInt32)
  /-- The byte has no meaning here and was skipped at the cost of its fetch. -/
  | unsupported (opcode : Byte) (address : Address)
  deriving DecidableEq

/-- An instruction seen from outside: the processor it left, and what it sent to the bus and to the
log. -/
structure Transition where
  outcome : Outcome
  processor : Processor
  writes : List Write
  log : List Record
  deriving DecidableEq

namespace Micro

variable {σ : Type} [Bus σ]

/-- Carries out an opcode, if it has a meaning here. It was fetched from an address when a number of
cycles remained. -/
def interpret (before : Int64) (address : Address) (opcode : Byte) : Micro σ Outcome := do
  if (decode opcode).operation.isSupported then
    (decode opcode).perform
    return .executed opcode (before - (← remaining)).toUInt64.toUInt32
  else
    report (.skipped address opcode (decode opcode).operation)
    return .unsupported opcode address

/-- Fetches an opcode, carries it out, and adds the cycles it took to the total. -/
def instruction : Micro σ Outcome := do
  let before ← remaining
  let address := (← processor).pc
  let opcode ← fetch
  report (.fetched address opcode (decode opcode).operation (← processor))
  let outcome ← interpret before address opcode
  let spent := (before - (← remaining)).toUInt64
  update fun processor => { processor with total := processor.total + spent }
  return outcome

end Micro

def Progress.transition (progress : Progress σ) (outcome : Outcome) : Transition where
  outcome := outcome
  processor := progress.processor
  writes := progress.writes
  log := progress.log

end Nmos6502
