import Nmos6502.Bus.Image
import Nmos6502.Machine

/-!
What a caller can ask of a machine and its bus, call by call, and what the machine replies.
-/

namespace Nmos6502

inductive Call where
  | reset
  | resetTo (start : Address)
  | place (bytes : List Byte)
  | resolve (mode : AddressingMode) (charge : IndexCharge) (budget : Budget)
  | step
  | run (request : UInt32)
  deriving DecidableEq

inductive Answer where
  | done
  | placed (start : Address)
  | rejected (fault : ImageFault)
  /-- The address of an operand, and what finding it has left of the budget. -/
  | resolved (address : Address) (budget : Budget)
  /-- The mode names no address. -/
  | refused (fault : Fault) (budget : Budget)
  | stepped (outcome : Outcome)
  | ran (used : UInt64)
  deriving DecidableEq

/-- A call seen from outside: its answer, and what it sent to the bus and to the log. -/
structure Reply where
  answer : Answer
  writes : List Write
  log : List Record
  deriving DecidableEq

namespace Run

def writes (run : Run σ) : List Write :=
  run.history.toList.flatMap (·.writes)

def log (run : Run σ) : List Record :=
  run.history.toList.flatMap (·.log)

end Run

namespace Machine

variable {σ : Type} [Bus σ]

def call (machine : Machine σ) : Call → Except (Abandoned σ) (Reply × Machine σ)
  | .reset => .ok (⟨.done, [], [machine.reset.1]⟩, machine.reset.2)
  | .resetTo start => .ok (⟨.done, [], [(machine.resetTo start).1]⟩, (machine.resetTo start).2)
  | .place bytes =>
      match Bus.place machine.bus bytes with
      | .ok (image, placement) =>
          .ok (⟨.placed image.start, placement.writes.toList, [image.record]⟩,
            { machine with bus := placement.bus })
      | .error fault => .ok (⟨.rejected fault, [], []⟩, machine)
  | .resolve mode charge budget =>
      match machine.resolve mode charge budget with
      | .ok (address, next, rest) => .ok (⟨.resolved address rest, [], []⟩, next)
      | .error ⟨fault, progress⟩ =>
          .ok (⟨.refused fault progress.budget, progress.writes, progress.log⟩, progress.machine)
  | .step => machine.step.map fun done =>
      (⟨.stepped done.1.outcome, done.1.writes, done.1.log⟩, done.2)
  | .run request => (machine.run request).map fun run =>
      (⟨.ran run.budget.used, run.writes, run.log⟩, run.machine)

def calls (machine : Machine σ) : List Call → Except (Abandoned σ) (List Reply × Machine σ)
  | [] => .ok ([], machine)
  | first :: rest =>
      match machine.call first with
      | .ok (reply, next) => (next.calls rest).map fun done => (reply :: done.1, done.2)
      | .error abandoned => .error abandoned

end Machine

end Nmos6502
