import Nmos6502.Machine
import Nmos6502.Proofs.Dispatch

/-!
One instruction of a machine in closed form: its transition, the machine it leaves and the cycles it
costs, none of which depends on the budget it is charged to. Main statements: an instruction always
ends well (`advance_eq`), and so does any number of them (`steps_eq`).
-/

namespace Nmos6502

namespace Processor

/-- The effect of the instruction at the program counter. An opcode without an action costs its
fetch. -/
def effect (processor : Processor) (view : View) : Effect :=
  let instruction := decode (view processor.pc)
  match instruction.operation.action with
  | .ok action =>
      let performed := action.effect instruction.mode instruction.operation.indexCharge view
        (processor.skip 1)
      { performed with cycles := performed.cycles + 1 }
  | .error _ =>
      { processor := processor.skip 1
        cycles := 1
        writes := [] }

def elapse (processor : Processor) (cycles : Nat) : Processor :=
  { processor with total := processor.total + UInt64.ofNat cycles }

end Processor

namespace Micro

variable {σ : Type} [Bus σ] (progress : Progress σ) (before : Int64) (address : Address)
  {opcode : Byte}

theorem interpret_of_action {action : Action}
    (sorted : (decode opcode).operation.action = .ok action) :
    let performed := progress.commit
      (action.effect (decode opcode).mode (decode opcode).operation.indexCharge
        (Bus.read progress.bus) progress.processor)
    interpret before address opcode progress =
      .ok (.executed opcode (before - performed.budget.remaining).toUInt64.toUInt32)
        performed := by
  have supported : (decode opcode).operation.isSupported = true := by
    rw [← Operation.isOk_action, sorted]
    rfl
  simp only [interpret, ite_apply, supported, if_true, bind_apply,
    Instruction.perform_decode progress sorted, remaining_apply, pure_apply]

theorem interpret_of_unsupported (unsupported : (decode opcode).operation.isSupported = false) :
    interpret before address opcode progress =
      .ok (.unsupported opcode address) { progress with
        log := progress.log ++ [.skipped address opcode (decode opcode).operation] } := by
  simp [interpret, unsupported]

end Micro

namespace Machine

variable {σ : Type} [Bus σ] (machine : Machine σ)

def opcode : Byte :=
  Bus.read machine.bus machine.processor.pc

def operation : Operation :=
  (decode machine.opcode).operation

def effect : Effect :=
  machine.processor.effect (Bus.read machine.bus)

/-- The instruction that the machine is about to carry out. -/
def transition : Transition where
  outcome :=
    if machine.operation.isSupported then
      .executed machine.opcode (UInt32.ofNat machine.effect.cycles)
    else
      .unsupported machine.opcode machine.processor.pc
  processor := machine.effect.processor.elapse machine.effect.cycles
  writes := machine.effect.writes
  log :=
    .fetched machine.processor.pc machine.opcode machine.operation (machine.processor.skip 1) ::
      if machine.operation.isSupported then []
      else [.skipped machine.processor.pc machine.opcode machine.operation]

/-- The machine once it has carried out its next instruction. -/
def next : Machine σ where
  processor := machine.transition.processor
  bus := Bus.writeAll machine.bus machine.transition.writes

/-- The progress of an instruction whose opcode has been fetched and reported. -/
def fetched (budget : Budget) : Progress σ where
  processor := machine.processor.skip 1
  budget := budget.charge 1
  bus := machine.bus
  writes := []
  log := [.fetched machine.processor.pc machine.opcode machine.operation
    (machine.processor.skip 1)]

/-- An instruction is what its opcode makes of the progress at its fetch, with the cycles taken
from the budget added to the total. -/
theorem instruction_begin (budget : Budget) :
    Micro.instruction (.begin machine.processor machine.bus budget) =
      match Micro.interpret budget.remaining machine.processor.pc machine.opcode
          (machine.fetched budget) with
      | .ok outcome done =>
          let spent := (budget.remaining - done.budget.remaining).toUInt64
          .ok outcome { done with
            processor := { done.processor with total := done.processor.total + spent } }
      | .error fault left => .error fault left := by
  have fetched : Micro.instruction (.begin machine.processor machine.bus budget) =
      (do
        let outcome ← Micro.interpret budget.remaining machine.processor.pc machine.opcode
        let spent := (budget.remaining - (← Micro.remaining)).toUInt64
        Micro.update fun processor => { processor with total := processor.total + spent }
        return outcome : Micro σ Outcome) (machine.fetched budget) := rfl
  rw [fetched]
  simp only [Micro.bind_apply, Micro.remaining_apply, Micro.update_apply, Micro.pure_apply]
  cases Micro.interpret budget.remaining machine.processor.pc machine.opcode
    (machine.fetched budget) <;> rfl

theorem effect_of_action {action : Action} (sorted : machine.operation.action = .ok action) :
    machine.effect =
      let performed := action.effect (decode machine.opcode).mode machine.operation.indexCharge
        (Bus.read machine.bus) (machine.processor.skip 1)
      { performed with cycles := performed.cycles + 1 } := by
  rw [operation, opcode] at sorted
  rw [effect, Processor.effect]
  dsimp only
  rw [sorted]
  rfl

theorem effect_of_fault {fault : Fault} (refused : machine.operation.action = .error fault) :
    machine.effect =
      { processor := machine.processor.skip 1
        cycles := 1
        writes := [] } := by
  rw [operation, opcode] at refused
  rw [effect, Processor.effect]
  dsimp only
  rw [refused]

theorem transition_of_action {action : Action} (sorted : machine.operation.action = .ok action) :
    machine.transition =
      { outcome := .executed machine.opcode (UInt32.ofNat machine.effect.cycles)
        processor := machine.effect.processor.elapse machine.effect.cycles
        writes := machine.effect.writes
        log := [.fetched machine.processor.pc machine.opcode machine.operation
          (machine.processor.skip 1)] } := by
  have supported : machine.operation.isSupported = true := by
    rw [← Operation.isOk_action, sorted]
    rfl
  simp only [transition, supported, if_true]

theorem transition_of_fault {fault : Fault} (refused : machine.operation.action = .error fault) :
    machine.transition =
      { outcome := .unsupported machine.opcode machine.processor.pc
        processor := machine.effect.processor.elapse machine.effect.cycles
        writes := machine.effect.writes
        log := [.fetched machine.processor.pc machine.opcode machine.operation
            (machine.processor.skip 1),
          .skipped machine.processor.pc machine.opcode machine.operation] } := by
  have unsupported : machine.operation.isSupported = false := by
    rw [← Operation.isOk_action, refused]
    rfl
  simp [transition, unsupported]

section

variable {τ : Type} [Bus τ] {left : Machine σ} {right : Machine τ}

/-- An instruction is told by the registers, the opcode and the effect. -/
theorem transition_congr (processor : left.processor = right.processor)
    (opcode : left.opcode = right.opcode) (effect : left.effect = right.effect) :
    left.transition = right.transition := by
  have operation : left.operation = right.operation := by
    rw [Machine.operation, opcode]
    rfl
  rw [transition, transition, processor, opcode, operation, effect]

/-- The opcode and the effect are functions of the registers and of what reading the bus shows. -/
theorem transition_congr_view (processor : left.processor = right.processor)
    (view : Bus.read left.bus = Bus.read right.bus) : left.transition = right.transition := by
  apply transition_congr processor
  · rw [opcode, opcode, processor, view]
  · rw [effect, effect, processor, view]

end

theorem next_of_action {action : Action} (sorted : machine.operation.action = .ok action) :
    machine.next =
      let performed := action.effect (decode machine.opcode).mode machine.operation.indexCharge
        (Bus.read machine.bus) (machine.processor.skip 1)
      { processor := performed.processor.elapse (performed.cycles + 1)
        bus := Bus.writeAll machine.bus performed.writes } := by
  rw [next, transition, effect_of_action machine sorted]

theorem next_of_fault {fault : Fault} (refused : machine.operation.action = .error fault) :
    machine.next =
      { processor := (machine.processor.skip 1).elapse 1
        bus := machine.bus } := by
  rw [next, transition, effect_of_fault machine refused]
  rfl

/-- The opcode makes of the progress at its fetch what the effect of the instruction says. -/
theorem interpret_fetched (budget : Budget) :
    Micro.interpret budget.remaining machine.processor.pc machine.opcode
        (machine.fetched budget) =
      .ok machine.transition.outcome
        { processor := machine.effect.processor
          budget := budget.charge machine.effect.cycles
          bus := Bus.writeAll machine.bus machine.effect.writes
          writes := machine.effect.writes
          log := machine.transition.log } := by
  cases sorted : machine.operation.action with
  | ok action =>
      rw [Micro.interpret_of_action _ _ _ sorted, transition_of_action machine sorted,
        effect_of_action machine sorted]
      simp only [Progress.commit, fetched, Budget.charge_charge, Nat.add_comm 1,
        Budget.remaining_sub_remaining_charge, Int64.toUInt64_ofNat', UInt64.toUInt32_ofNat']
      rfl
  | error fault =>
      have unsupported : machine.operation.isSupported = false := by
        rw [← Operation.isOk_action, sorted]
        rfl
      rw [Micro.interpret_of_unsupported _ _ _ unsupported, transition_of_fault machine sorted,
        effect_of_fault machine sorted]
      rfl

theorem advance_eq (budget : Budget) :
    machine.advance budget =
      .ok (machine.transition, machine.next, budget.charge machine.effect.cycles) := by
  rw [advance, carryOut, instruction_begin, interpret_fetched]
  simp only [Budget.remaining_sub_remaining_charge, Int64.toUInt64_ofNat']
  rfl

theorem step_eq : machine.step = .ok (machine.transition, machine.next) := by
  rw [step, advance_eq]
  rfl

def trace (machine : Machine σ) : Nat → List Transition
  | 0 => []
  | count + 1 => machine.transition :: machine.next.trace count

def after (machine : Machine σ) : Nat → Machine σ
  | 0 => machine
  | count + 1 => machine.next.after count

theorem length_trace (count : Nat) : (machine.trace count).length = count := by
  induction count generalizing machine with
  | zero => rfl
  | succ count induction => rw [trace, List.length_cons, induction]

theorem trace_succ (count : Nat) :
    machine.trace (count + 1) = machine.trace count ++ [(machine.after count).transition] := by
  induction count generalizing machine with
  | zero => rfl
  | succ count induction =>
      rw [trace, induction]
      rfl

theorem trace_eq_map (count : Nat) :
    machine.trace count = (List.range count).map fun index => (machine.after index).transition := by
  induction count with
  | zero => rfl
  | succ count induction =>
      rw [trace_succ, induction, List.range_succ, List.map_append]
      rfl

theorem after_succ (count : Nat) : machine.after (count + 1) = (machine.after count).next := by
  induction count generalizing machine with
  | zero => rfl
  | succ count induction => exact induction machine.next

theorem after_add (first second : Nat) :
    machine.after (first + second) = (machine.after first).after second := by
  induction second with
  | zero => rfl
  | succ second induction => rw [← Nat.add_assoc, after_succ, induction, ← after_succ]

theorem trace_add (first second : Nat) :
    machine.trace (first + second) =
      machine.trace first ++ (machine.after first).trace second := by
  induction second with
  | zero => simp [trace]
  | succ second induction =>
      rw [← Nat.add_assoc, trace_succ, induction, trace_succ, after_add, List.append_assoc]

theorem steps_eq (count : Nat) :
    machine.steps count = .ok (machine.trace count, machine.after count) := by
  induction count generalizing machine with
  | zero => rfl
  | succ count induction =>
      rw [steps, step_eq]
      dsimp only
      rw [induction]
      rfl

end Machine

end Nmos6502
