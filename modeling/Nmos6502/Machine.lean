import Nmos6502.Budget
import Nmos6502.Transition

/-!
A processor and the bus it drives: resetting, single instructions, and runs for a budget of cycles.
-/

namespace Nmos6502

structure Machine (σ : Type) where
  processor : Processor
  bus : σ

/-- A call that a fault has ended: the fault, and how far the call had come. -/
structure Abandoned (σ : Type) where
  fault : Fault
  progress : Progress σ

def Progress.machine (progress : Progress σ) : Machine σ where
  processor := progress.processor
  bus := progress.bus

/-- A run: where it has come to, what is left of its budget, and the instructions it carried out. -/
structure Run (σ : Type) where
  machine : Machine σ
  budget : Budget
  history : Array Transition

namespace Machine

variable {σ : Type} [Bus σ]

omit [Bus σ] in
/-- Carries out microcode on the registers and the bus of a machine, as far as it comes. -/
def carryOut (machine : Machine σ) (code : Micro σ α) (budget : Budget) :
    Except (Abandoned σ) (α × Progress σ) :=
  match code (.begin machine.processor machine.bus budget) with
  | .ok value progress => .ok (value, progress)
  | .error fault progress => .error ⟨fault, progress⟩

def advance (machine : Machine σ) (budget : Budget) :
    Except (Abandoned σ) (Transition × Machine σ × Budget) :=
  (machine.carryOut Micro.instruction budget).map fun done =>
    (done.2.transition done.1, done.2.machine, done.2.budget)

def step (machine : Machine σ) : Except (Abandoned σ) (Transition × Machine σ) :=
  (machine.advance (.ofRequest 0)).map fun done => (done.1, done.2.1)

def steps (machine : Machine σ) : Nat → Except (Abandoned σ) (List Transition × Machine σ)
  | 0 => .ok ([], machine)
  | count + 1 =>
      match machine.step with
      | .ok (first, next) => (next.steps count).map fun rest => (first :: rest.1, rest.2)
      | .error abandoned => .error abandoned

def resetTo (machine : Machine σ) (start : Address) : Record × Machine σ :=
  (.resetTo start, { machine with processor := .startingAt start })

def reset (machine : Machine σ) : Record × Machine σ :=
  let start := word (Bus.read machine.bus resetVector) (Bus.read machine.bus (resetVector + 1))
  (.resetThroughVector start, { machine with processor := .startingAt start })

/-- Finds the effective address of an operand whose bytes start at the program counter, and moves
past them. Its cycles are taken from the budget only. -/
def resolve (machine : Machine σ) (mode : AddressingMode) (charge : IndexCharge)
    (budget : Budget) : Except (Abandoned σ) (Address × Machine σ × Budget) :=
  (machine.carryOut (Micro.effectiveAddress mode charge) budget).map fun found =>
    (found.1, found.2.machine, found.2.budget)

end Machine

namespace Run

variable {σ : Type} [Bus σ]

def start (machine : Machine σ) (request : UInt32) : Run σ where
  machine := machine
  budget := .ofRequest request
  history := #[]

def advance (run : Run σ) : Except (Abandoned σ) (Run σ) :=
  (run.machine.advance run.budget).map fun done =>
    { machine := done.2.1
      budget := done.2.2
      history := run.history.push done.1 }

/-- Carries out instructions until the budget is exhausted, but no more than `limit` of them. -/
def proceed : Nat → Run σ → Except (Abandoned σ) (Run σ)
  | 0, run => .ok run
  | limit + 1, run =>
      if run.budget.isExhausted then
        .ok run
      else
        match run.advance with
        | .ok next => next.proceed limit
        | .error abandoned => .error abandoned

end Run

namespace Machine

variable {σ : Type} [Bus σ]

/-- Runs instructions until a number of cycles has been consumed. Every instruction costs a cycle,
so that there are never more of them than cycles requested. -/
def run (machine : Machine σ) (request : UInt32) : Except (Abandoned σ) (Run σ) :=
  (Run.start machine request).proceed request.toNat

end Machine

end Nmos6502
