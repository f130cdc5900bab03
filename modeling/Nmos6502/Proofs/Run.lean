import Nmos6502.Proofs.Cost
import Mathlib.Order.Bounds.Basic
import Mathlib.Order.Nat

/-!
Runs for a budget of cycles. What ends a run is its budget and never its limit of instructions, for
each of them costs a cycle (`completes_runAfter`). Main statements: a run is the fewest steps whose
costs meet the request (`run_eq_steps`), and it ends within a bounded number of instructions and
cycles (`run_meets_request`).
-/

namespace Nmos6502

def Outcome.cost : Outcome → Nat
  | executed _ cycles => cycles.toNat
  | unsupported _ _ => 1

def costs : List Transition → Nat
  | [] => 0
  | first :: rest => first.outcome.cost + costs rest

@[simp] theorem costs_append (first rest : List Transition) :
    costs (first ++ rest) = costs first + costs rest := by
  induction first with
  | nil => simp [costs]
  | cons head tail induction => simp only [List.cons_append, costs, induction, Nat.add_assoc]

theorem costs_congr {left right : List Transition}
    (outcomes : left.map (·.outcome) = right.map (·.outcome)) : costs left = costs right := by
  have sum : ∀ history, costs history = ((history.map (·.outcome)).map Outcome.cost).sum := by
    intro history
    induction history with
    | nil => rfl
    | cons first rest induction => simp [costs, induction]
  rw [sum, sum, outcomes]

namespace Machine

variable {σ : Type} [Bus σ] (machine : Machine σ)

theorem cost_transition : machine.transition.outcome.cost = machine.cost := by
  have bound := machine.cost_le
  cases sorted : machine.operation.action with
  | ok action =>
      rw [transition_of_action machine sorted, cycles_effect_eq_cost]
      exact UInt32.toNat_ofNat_of_lt' (by simp [UInt32.size]; omega)
  | error fault =>
      rw [transition_of_fault machine sorted, ← cycles_effect_eq_cost,
        effect_of_fault machine sorted]
      rfl

def elapsed (count : Nat) : Nat :=
  costs (machine.trace count)

@[simp] theorem elapsed_zero : machine.elapsed 0 = 0 := rfl

theorem elapsed_succ (count : Nat) :
    machine.elapsed (count + 1) = machine.elapsed count + (machine.after count).cost := by
  rw [elapsed, trace_succ, costs_append, ← cost_transition]
  rfl

theorem elapsed_add (first second : Nat) :
    machine.elapsed (first + second) =
      machine.elapsed first + (machine.after first).elapsed second := by
  rw [elapsed, trace_add, costs_append]
  rfl

theorem le_elapsed (count : Nat) : count ≤ machine.elapsed count := by
  induction count with
  | zero => exact Nat.zero_le _
  | succ count induction =>
      have positive := (machine.after count).cost_pos
      rw [elapsed_succ]
      omega

theorem elapsed_le (count : Nat) : machine.elapsed count ≤ 7 * count := by
  induction count with
  | zero => exact Nat.le_refl _
  | succ count induction =>
      have bound := (machine.after count).cost_le
      rw [elapsed_succ]
      omega

theorem elapsed_strictMono : StrictMono machine.elapsed := by
  apply strictMono_nat_of_lt_succ
  intro count
  rw [elapsed_succ]
  exact Nat.lt_add_of_pos_right (machine.after count).cost_pos

theorem total_after (count : Nat) :
    (machine.after count).processor.total =
      machine.processor.total + UInt64.ofNat (machine.elapsed count) := by
  induction count with
  | zero => simp [after]
  | succ count induction =>
      rw [after_succ, total_next, induction, elapsed_succ, UInt64.ofNat_add, UInt64.add_assoc]

theorem bus_after (count : Nat) :
    (machine.after count).bus =
      Bus.writeAll machine.bus ((machine.trace count).flatMap fun done => done.writes) := by
  induction count with
  | zero => rfl
  | succ count induction =>
      rw [after_succ, trace_succ, List.flatMap_append, Bus.writeAll_append, ← induction]
      simp [next]

theorem isLeast_elapsed (count : Nat) :
    IsLeast {enough | machine.elapsed count ≤ machine.elapsed enough} count :=
  ⟨Nat.le_refl _, fun _ met => machine.elapsed_strictMono.le_iff_le.mp met⟩

/-- Some number of instructions costs any number of cycles, and a smallest one does. -/
theorem exists_isLeast_elapsed (cycles : Nat) :
    ∃ count, IsLeast {count | cycles ≤ machine.elapsed count} count := by
  have reached : ∃ count, cycles ≤ machine.elapsed count := ⟨cycles, machine.le_elapsed cycles⟩
  exact ⟨Nat.find reached, Nat.find_spec reached, fun _ met => Nat.find_min' reached met⟩

/-- Only the last of these instructions can overrun the cycles asked for. -/
theorem elapsed_le_of_isLeast {cycles count : Nat}
    (least : IsLeast {count | cycles ≤ machine.elapsed count} count) :
    machine.elapsed count ≤ cycles + 6 := by
  cases count with
  | zero => exact Nat.zero_le _
  | succ count =>
      have unmet : ¬ cycles ≤ machine.elapsed count := fun met =>
        Nat.not_succ_le_self count (least.2 met)
      have bound := (machine.after count).cost_le
      rw [elapsed_succ]
      omega

end Machine

namespace Run

variable {σ : Type} [Bus σ]

/-- A run carries out a number of instructions, one after the other, and the budget is exhausted
after the last of them and not before. -/
inductive Completes : Nat → Run σ → Run σ → Prop where
  | done {run : Run σ} (exhausted : run.budget.isExhausted = true) : Completes 0 run run
  | next {run next final : Run σ} {count : Nat} (pending : run.budget.isExhausted = false)
      (advanced : run.advance = .ok next) (rest : Completes count next final) :
      Completes (count + 1) run final

theorem proceed_of_completes {run final : Run σ} {count limit : Nat}
    (completes : Completes count run final) (enough : count ≤ limit) :
    run.proceed limit = .ok final := by
  induction completes generalizing limit with
  | done exhausted =>
      cases limit with
      | zero => rfl
      | succ limit => rw [proceed, if_pos exhausted]
  | next pending advanced rest induction =>
      cases limit with
      | zero => contradiction
      | succ limit =>
          rw [proceed, if_neg (by simp [pending]), advanced]
          exact induction (Nat.le_of_succ_le_succ enough)

end Run

namespace Machine

variable {σ : Type} [Bus σ] (machine : Machine σ) (request : UInt32)

/-- The run for a request once it has carried out a number of instructions. -/
def runAfter (count : Nat) : Run σ where
  machine := machine.after count
  budget := (Budget.ofRequest request).charge (machine.elapsed count)
  history := (machine.trace count).toArray

theorem runAfter_zero : machine.runAfter request 0 = Run.start machine request := by
  simp [runAfter, Run.start, after, trace]

theorem advance_runAfter (count : Nat) :
    (machine.runAfter request count).advance = .ok (machine.runAfter request (count + 1)) := by
  simp only [Run.advance, runAfter, advance_eq, Except.map, Budget.charge_charge, after_succ,
    elapsed_succ, trace_succ, cycles_effect_eq_cost, List.push_toArray]

variable {machine request} {count : Nat}

theorem count_le_request
    (least : IsLeast {count | request.toNat ≤ machine.elapsed count} count) :
    count ≤ request.toNat :=
  least.2 (machine.le_elapsed request.toNat)

theorem elapsed_lt_half {earlier : Nat} (bound : earlier ≤ request.toNat) :
    machine.elapsed earlier < UInt64.size / 2 := by
  have requestBound := request.toNat_lt
  have elapsedBound := machine.elapsed_le earlier
  have half : UInt64.size / 2 = 2 ^ 63 := rfl
  omega

theorem isExhausted_runAfter {earlier : Nat} (bound : earlier ≤ request.toNat) :
    (machine.runAfter request earlier).budget.isExhausted =
      decide (request.toNat ≤ machine.elapsed earlier) :=
  Budget.isExhausted_charge_ofRequest request (elapsed_lt_half bound)

theorem used_runAfter {earlier : Nat} (bound : earlier ≤ request.toNat) :
    (machine.runAfter request earlier).budget.used.toNat = machine.elapsed earlier :=
  Budget.used_charge_ofRequest request (elapsed_lt_half bound)

-- The induction goes backwards, from the last instruction to the first.
theorem completes_runAfter
    (least : IsLeast {count | request.toNat ≤ machine.elapsed count} count)
    {earlier rest : Nat} (remaining : earlier + rest = count) :
    Run.Completes rest (machine.runAfter request earlier) (machine.runAfter request count) := by
  have countBound := count_le_request least
  induction rest generalizing earlier with
  | zero =>
      obtain rfl : earlier = count := remaining
      refine .done ?_
      rw [isExhausted_runAfter countBound]
      exact decide_eq_true least.1
  | succ rest induction =>
      refine .next ?_ (machine.advance_runAfter request earlier) (induction (by omega))
      rw [isExhausted_runAfter (by omega)]
      refine decide_eq_false fun met => ?_
      have fewer := least.2 met
      omega

theorem run_eq_runAfter
    (least : IsLeast {count | request.toNat ≤ machine.elapsed count} count) :
    Run.Completes count (Run.start machine request) (machine.runAfter request count) ∧
      machine.run request = .ok (machine.runAfter request count) := by
  have completes := completes_runAfter least (Nat.zero_add count)
  rw [runAfter_zero] at completes
  exact ⟨completes, Run.proceed_of_completes completes (count_le_request least)⟩

variable (machine request)

/-- A run carries out the fewest instructions that cost as much as it was asked for. -/
theorem exists_run :
    ∃ count, IsLeast {count | request.toNat ≤ machine.elapsed count} count ∧
      machine.run request = .ok (machine.runAfter request count) := by
  obtain ⟨count, least⟩ := machine.exists_isLeast_elapsed request.toNat
  exact ⟨count, least, (run_eq_runAfter least).2⟩

/-- A run for a number of cycles is the smallest number of steps that costs as many. -/
theorem run_eq_steps :
    ∃ count history last final,
      IsLeast {count | ∃ history last,
        machine.steps count = .ok (history, last) ∧ request.toNat ≤ costs history} count ∧
      machine.steps count = .ok (history, last) ∧
      Run.Completes count (Run.start machine request) final ∧
      machine.run request = .ok final ∧
      final.machine = last ∧
      final.history.toList = history ∧
      final.budget.used.toNat = costs history ∧
      last.bus = Bus.writeAll machine.bus (history.flatMap fun done => done.writes) := by
  have meets : {count | ∃ history last,
      machine.steps count = .ok (history, last) ∧ request.toNat ≤ costs history} =
        {count | request.toNat ≤ machine.elapsed count} := by
    ext count
    constructor
    · rintro ⟨history, last, stepped, met⟩
      rw [steps_eq] at stepped
      cases stepped
      exact met
    · intro met
      exact ⟨_, _, machine.steps_eq count, met⟩
  obtain ⟨count, least⟩ := machine.exists_isLeast_elapsed request.toNat
  obtain ⟨completes, ran⟩ := run_eq_runAfter least
  refine ⟨count, machine.trace count, machine.after count, machine.runAfter request count, ?_,
    machine.steps_eq count, completes, ran, rfl, rfl, ?_, machine.bus_after count⟩
  · rwa [meets]
  · exact used_runAfter (count_le_request least)

/-- A run always ends. It meets its request, overruns it by no more than the rest of an instruction,
and adds what it used to the total. -/
theorem run_meets_request :
    ∃ final,
      Run.Completes final.history.size (Run.start machine request) final ∧
      machine.run request = .ok final ∧
      (request = 0 →
        final.budget.used = 0 ∧ final.machine = machine ∧ final.history = #[]) ∧
      (0 < request →
        request.toNat ≤ final.budget.used.toNat ∧
        final.budget.used.toNat ≤ request.toNat + 6 ∧
        (request.toNat + 6) / 7 ≤ final.history.size ∧
        final.history.size ≤ request.toNat) ∧
      (machine.processor.total.toNat + final.budget.used.toNat < UInt64.size →
        final.machine.processor.total.toNat =
          machine.processor.total.toNat + final.budget.used.toNat) := by
  obtain ⟨count, least⟩ := machine.exists_isLeast_elapsed request.toNat
  obtain ⟨completes, ran⟩ := run_eq_runAfter least
  have countBound := count_le_request least
  have size : (machine.runAfter request count).history.size = count := machine.length_trace count
  have used : (machine.runAfter request count).budget.used.toNat = machine.elapsed count :=
    used_runAfter countBound
  refine ⟨machine.runAfter request count, ?_, ran, ?_, ?_, ?_⟩
  · rwa [size]
  · intro nothing
    subst nothing
    obtain rfl : count = 0 := Nat.le_zero.mp countBound
    exact ⟨UInt64.toNat_inj.mp used, rfl, rfl⟩
  · intro something
    have met : request.toNat ≤ machine.elapsed count := least.1
    have overrun := elapsed_le_of_isLeast machine least
    have dear := machine.elapsed_le count
    rw [size, used]
    exact ⟨met, overrun, by omega, countBound⟩
  · intro fits
    rw [used] at fits ⊢
    have total : (machine.runAfter request count).machine.processor.total =
        machine.processor.total + UInt64.ofNat (machine.elapsed count) :=
      machine.total_after count
    rw [total]
    exact toNat_total_add fits

theorem run_meets_request_pageCrossingLoad :
    ∃ final,
      pageCrossingLoad.run 1 = .ok final ∧
      final.history.size = 1 ∧
      1 ≤ final.budget.used.toNat ∧
      final.budget.used.toNat ≤ 7 ∧
      final.machine.processor.total.toNat = final.budget.used.toNat := by
  obtain ⟨final, _, ran, _, bounds, added⟩ := run_meets_request pageCrossingLoad 1
  obtain ⟨met, overrun, fewest, most⟩ := bounds (by decide)
  have request : (1 : UInt32).toNat = 1 := rfl
  have total : pageCrossingLoad.processor.total.toNat = 0 := rfl
  rw [request] at met overrun fewest most
  rw [total] at added
  have range : UInt64.size = 2 ^ 64 := rfl
  refine ⟨final, ran, by omega, met, overrun, ?_⟩
  rw [added (by omega)]
  omega

end Machine

end Nmos6502
