import Nmos6502.Session
import Nmos6502.Proofs.Contents
import Nmos6502.Proofs.Run

/-!
Runs cut into slices. A caller may ask for part of a request at a time, and take what each part used
from what is left. Main statement: however a request is sliced, the slices come to an end, and
together they carry out the instructions of one run for all of it (`slices_eq_run`).
-/

namespace Nmos6502

/-- The cycles that runs have used between them. -/
def usedBy : List (Run σ) → Nat
  | [] => 0
  | first :: rest => first.budget.used.toNat + usedBy rest

@[simp] theorem usedBy_concat (slices : List (Run σ)) (last : Run σ) :
    usedBy (slices ++ [last]) = usedBy slices + last.budget.used.toNat := by
  induction slices with
  | nil => simp [usedBy]
  | cons first rest induction => simp only [List.cons_append, usedBy, induction, Nat.add_assoc]

namespace Machine

variable {σ : Type} [Bus σ]

/-- Runs that follow one another, each for some of what the earlier ones left of a request. -/
inductive Sliced (machine : Machine σ) (request : UInt32) : List (Run σ) → Machine σ → Prop
  | none : machine.Sliced request [] machine
  | slice {slices : List (Run σ)} {last : Machine σ} {part : UInt32} {next : Run σ}
      (earlier : machine.Sliced request slices last) (asks : 0 < part)
      (within : part.toNat ≤ request.toNat - usedBy slices) (ran : last.run part = .ok next) :
      machine.Sliced request (slices ++ [next]) next.machine

variable {machine : Machine σ} {request : UInt32} {slices : List (Run σ)} {last : Machine σ}

/-- Slices that amount to a number of instructions. What a request still has left before the last of
them keeps them within it. -/
structure Amounts (machine : Machine σ) (request : UInt32) (slices : List (Run σ))
    (last : Machine σ) (count : Nat) : Prop where
  last : last = machine.after count
  history : slices.flatMap (·.history.toList) = machine.trace count
  used : usedBy slices = machine.elapsed count
  length : slices.length ≤ count
  pending : ∀ earlier < count, machine.elapsed earlier < request.toNat

theorem Sliced.exists_amounts (sliced : machine.Sliced request slices last) :
    ∃ count, machine.Amounts request slices last count := by
  induction sliced with
  | none => exact ⟨0, rfl, rfl, rfl, Nat.le_refl 0, fun _ below => absurd below (Nat.not_lt_zero _)⟩
  | @slice slices last part next _ asks within ran induction =>
      obtain ⟨count, amounts⟩ := induction
      obtain ⟨further, least, whole⟩ := last.exists_run part
      rw [ran] at whole
      cases whole
      have came := amounts.last
      subst came
      have begun : 0 < further := by
        apply Nat.pos_of_ne_zero
        rintro rfl
        exact Nat.not_le_of_lt asks least.1
      refine ⟨count + further, ?_, ?_, ?_, ?_, ?_⟩
      · exact (machine.after_add count further).symm
      · rw [List.flatMap_append, amounts.history, trace_add]
        simp [runAfter]
      · rw [usedBy_concat, amounts.used, elapsed_add,
          used_runAfter (count_le_request least)]
      · have length := amounts.length
        simp only [List.length_append, List.length_singleton]
        omega
      · intro earlier below
        by_cases before : earlier < count
        · exact amounts.pending earlier before
        · -- Within the new slice: its part is not yet used up, and the part was still left.
          obtain ⟨inside, rfl⟩ := Nat.exists_eq_add_of_le (Nat.le_of_not_lt before)
          have unmet : ¬ part.toNat ≤ (machine.after count).elapsed inside := fun met =>
            Nat.not_le_of_lt (Nat.lt_of_add_lt_add_left below) (least.2 met)
          rw [amounts.used] at within
          rw [elapsed_add]
          omega

theorem Amounts.length_le {count : Nat} (amounts : machine.Amounts request slices last count) :
    slices.length ≤ request.toNat := by
  have length := amounts.length
  cases count with
  | zero => omega
  | succ count =>
      have pending := amounts.pending count (Nat.lt_succ_self count)
      have dear := machine.le_elapsed count
      omega

/-- Slices that leave nothing of a request amount to the run for it. -/
theorem Amounts.isLeast {count : Nat} (amounts : machine.Amounts request slices last count)
    (spent : request.toNat ≤ usedBy slices) :
    IsLeast {count | request.toNat ≤ machine.elapsed count} count := by
  rw [amounts.used] at spent
  refine ⟨spent, fun earlier met => ?_⟩
  by_contra before
  exact Nat.not_le_of_lt (amounts.pending earlier (Nat.lt_of_not_le before)) met

variable (machine request)

/-- However a request is sliced: there are never more slices than cycles, another can follow while
something is left, and once nothing is left they have done what one run for all of it does. -/
theorem slices_eq_run :
    ∃ whole,
      machine.run request = .ok whole ∧
      ∀ slices last, machine.Sliced request slices last →
        slices.length ≤ request.toNat ∧
        (∀ part, 0 < part → part.toNat ≤ request.toNat - usedBy slices →
          ∃ next,
            last.run part = .ok next ∧
            machine.Sliced request (slices ++ [next]) next.machine) ∧
        (request.toNat ≤ usedBy slices →
          usedBy slices = whole.budget.used.toNat ∧
          last = whole.machine ∧
          slices.flatMap (·.history.toList) = whole.history.toList ∧
          slices.flatMap Run.writes = whole.writes) := by
  obtain ⟨count, least, ran⟩ := machine.exists_run request
  refine ⟨machine.runAfter request count, ran, fun slices last sliced => ?_⟩
  obtain ⟨reached, amounts⟩ := sliced.exists_amounts
  refine ⟨amounts.length_le, ?_, ?_⟩
  · intro part asks within
    obtain ⟨_, _, next⟩ := last.exists_run part
    exact ⟨_, next, sliced.slice asks within next⟩
  · intro spent
    obtain rfl : reached = count := (amounts.isLeast spent).unique least
    have history : slices.flatMap (·.history.toList) =
        (machine.runAfter request reached).history.toList := by
      rw [amounts.history]
      simp [runAfter]
    refine ⟨?_, amounts.last, history, ?_⟩
    · rw [amounts.used, used_runAfter (count_le_request least)]
    · rw [Run.writes, ← history, List.flatMap_assoc]
      rfl

/-- A machine that counts in a cell: five cycles for the count, and three to go back to it. -/
def countingLoop : Machine View where
  processor := .startingAt 0x0200
  bus := Bus.writeAll (fun _ => 0) (Image.writes ⟨0x0200, [0xE6, 0x10, 0x4C, 0x00, 0x02]⟩)

theorem used_countingLoop :
    (do
      let first ← (countingLoop.run 2).toOption
      let second ← (first.machine.run 1).toOption
      let third ← (second.machine.run 1).toOption
      return [first, second, third].map (·.budget.used)) = some [5, 3, 5] := by
  decide +kernel

theorem runs_countingLoop :
    ∃ first second third,
      countingLoop.run 2 = .ok first ∧
      first.machine.run 1 = .ok second ∧
      second.machine.run 1 = .ok third ∧
      first.budget.used = 5 ∧ second.budget.used = 3 ∧ third.budget.used = 5 := by
  have ends : ∀ (machine : Machine View) (request : UInt32), ∃ run, machine.run request = .ok run :=
    fun machine request =>
      let ⟨_, _, ran⟩ := machine.exists_run request
      ⟨_, ran⟩
  obtain ⟨first, firstRan⟩ := ends countingLoop 2
  obtain ⟨second, secondRan⟩ := ends first.machine 1
  obtain ⟨third, thirdRan⟩ := ends second.machine 1
  have used : first.budget.used = 5 ∧ second.budget.used = 3 ∧ third.budget.used = 5 := by
    simpa [firstRan, secondRan, thirdRan, Except.toOption] using used_countingLoop
  exact ⟨first, second, third, firstRan, secondRan, thirdRan, used⟩

/-- Of nine cycles two are asked for, then one, then one again. Each slice is overdrawn, and the last
count is finished although a single cycle was left for it. -/
theorem slices_eq_run_countingLoop :
    ∃ whole first second third,
      countingLoop.run 9 = .ok whole ∧
      countingLoop.run 2 = .ok first ∧
      first.machine.run 1 = .ok second ∧
      second.machine.run 1 = .ok third ∧
      third.machine = whole.machine ∧
      first.writes ++ second.writes ++ third.writes = whole.writes ∧
      whole.budget.used.toNat = 13 := by
  obtain ⟨whole, ran, sliced⟩ := slices_eq_run countingLoop 9
  obtain ⟨first, second, third, firstRan, secondRan, thirdRan, five, three, again⟩ :=
    runs_countingLoop
  have two : usedBy [first] = 5 := by simp [usedBy, five]
  have both : usedBy [first, second] = 8 := by simp [usedBy, five, three]
  have all : usedBy [first, second, third] = 13 := by simp [usedBy, five, three, again]
  have sliced₁ : countingLoop.Sliced 9 [first] first.machine :=
    .slice .none (by decide) (by decide) firstRan
  have sliced₂ : countingLoop.Sliced 9 [first, second] second.machine :=
    .slice sliced₁ (by decide) (by rw [two]; decide) secondRan
  have sliced₃ : countingLoop.Sliced 9 [first, second, third] third.machine :=
    .slice sliced₂ (by decide) (by rw [both]; decide) thirdRan
  obtain ⟨_, _, finished⟩ := sliced _ _ sliced₃
  obtain ⟨used, machine, _, writes⟩ := finished (by rw [all]; decide)
  rw [all] at used
  refine ⟨whole, first, second, third, ran, firstRan, secondRan, thirdRan, machine, ?_, used.symm⟩
  simpa using writes

end Machine

end Nmos6502
