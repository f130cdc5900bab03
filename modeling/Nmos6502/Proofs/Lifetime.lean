import Nmos6502.Life
import Nmos6502.Proofs.Contents
import Nmos6502.Proofs.Simulation
import Mathlib.Algebra.GroupWithZero.Nat
import Mathlib.Data.List.DropRight

/-!
The total of a processor over its life. It is kept by the instructions themselves, while what they
report goes through the budget of their caller. Main statement: whatever happens to a processor, its
total is the sum of the cycles reported since it last began anew (`total_counts_life`).
-/

namespace Nmos6502

/-- The events after which a processor counts from nothing. -/
def Event.restarts : Event → Bool
  | renewed | called .reset | called (.resetTo _) => true
  | _ => false

/-- The cycles that an answer reports as spent. -/
def Answer.cycles : Answer → Nat
  | stepped outcome => outcome.cost
  | ran used => used.toNat
  | done | placed _ | rejected _ | resolved _ _ | refused _ _ => 0

/-- The cycles reported in a life since its last new beginning, together with those counted before
it when there was none. -/
def lifetime (initial : Nat) (life : List (Event × Answer)) : Nat :=
  (if life.any (·.1.restarts) then 0 else initial) +
    ((life.rtakeWhile fun episode => !episode.1.restarts).map (·.2.cycles)).sum

theorem lifetime_nil (initial : Nat) : lifetime initial [] = initial := rfl

theorem lifetime_concat (initial : Nat) (life : List (Event × Answer)) (last : Event × Answer) :
    lifetime initial (life ++ [last]) =
      if last.1.restarts then 0 else lifetime initial life + last.2.cycles := by
  cases restarted : last.1.restarts with
  | true => simp [lifetime, restarted, List.rtakeWhile_concat_neg]
  | false =>
      have earlier : (life ++ [last]).any (·.1.restarts) = life.any (·.1.restarts) := by
        simp only [List.any_append, List.any_cons, restarted, List.any_nil, Bool.or_false]
      rw [lifetime, earlier, List.rtakeWhile_concat_pos _ _ _ (by simp [restarted])]
      simp [lifetime, Nat.add_assoc]

namespace Processor

variable (processor : Processor)

@[simp] theorem total_assign (change : Assignment) :
    (processor.assign change).total = processor.total := by
  cases change with
  | register target value => cases target <;> rfl
  | counter | flag | flags | status => rfl

end Processor

namespace Machine

variable {σ : Type} [Bus σ] (machine : Machine σ)

theorem total_run {request : UInt32} {final : Run σ} (ran : machine.run request = .ok final) :
    final.machine.processor.total =
      machine.processor.total + UInt64.ofNat final.budget.used.toNat := by
  obtain ⟨count, least, whole⟩ := machine.exists_run request
  rw [whole] at ran
  cases ran
  rw [used_runAfter (count_le_request least)]
  exact machine.total_after count

/-- A call that is no reset adds to the total what its answer reports. -/
theorem total_call (call : Call) :
    ∃ reply next,
      machine.call call = .ok (reply, next) ∧
      next.processor.total =
        if (Event.called call).restarts then 0
        else machine.processor.total + UInt64.ofNat reply.answer.cycles := by
  cases call with
  | reset | resetTo start => exact ⟨_, _, rfl, rfl⟩
  | place bytes =>
      rw [call_place]
      cases Image.ofBytes bytes with
      | ok image => exact ⟨_, _, rfl, (UInt64.add_zero _).symm⟩
      | error fault => exact ⟨_, _, rfl, (UInt64.add_zero _).symm⟩
  | resolve mode charge budget =>
      cases named : mode.namesCell with
      | true =>
          simp only [Machine.call, resolve_of_namesCell _ charge budget named]
          exact ⟨_, _, rfl, (UInt64.add_zero _).symm⟩
      | false =>
          simp only [Machine.call, resolve_of_unnamed _ charge budget named]
          exact ⟨_, _, rfl, (UInt64.add_zero _).symm⟩
  | step =>
      rw [Machine.call, step_eq]
      refine ⟨_, _, rfl, ?_⟩
      rw [total_next, ← cost_transition]
      rfl
  | run request =>
      obtain ⟨count, _, ran⟩ := machine.exists_run request
      rw [Machine.call, ran]
      exact ⟨_, _, rfl, machine.total_run ran⟩

/-- Finding an address takes its cycles from the budget that came with the call. -/
theorem resolve_charges_budget (mode : AddressingMode) (charge : IndexCharge) (budget : Budget) :
    (∃ address next cycles,
      machine.resolve mode charge budget = .ok (address, next, budget.charge cycles) ∧
      mode.operandBytes ≤ cycles ∧
      next.processor.total = machine.processor.total ∧
      next.bus = machine.bus) ∨
    machine.resolve mode charge budget =
      .error ⟨.noEffectiveAddress mode, .begin machine.processor machine.bus budget⟩ := by
  cases named : mode.namesCell with
  | true =>
      refine .inl ⟨_, _, _, machine.resolve_of_namesCell charge budget named, ?_, rfl, rfl⟩
      have least : mode.operandBytes ≤ mode.addressCycles := by
        cases mode <;> first | decide | contradiction
      exact Nat.le_add_right_of_le least
  | false => exact .inr (machine.resolve_of_unnamed charge budget named)

end Machine

namespace Processor

variable (processor : Processor)

theorem total_meet (episode : Episode) :
    ∃ answer next,
      processor.meet episode = .ok (answer, next) ∧
      next.total =
        if episode.event.restarts then 0
        else processor.total + UInt64.ofNat answer.cycles := by
  obtain ⟨Store, bus, store, event⟩ := episode
  cases event with
  | renewed => exact ⟨_, _, rfl, rfl⟩
  | assigned change =>
      refine ⟨_, _, rfl, ?_⟩
      rw [total_assign]
      exact (UInt64.add_zero _).symm
  | called call =>
      obtain ⟨reply, next, called, total⟩ := (Machine.mk processor store).total_call call
      refine ⟨reply.answer, next.processor, ?_, total⟩
      simp only [meet, called]

-- The induction goes forward through the episodes, with the life before them kept beside it.
theorem total_live {initial : Nat} {before : List (Event × Answer)} (episodes : List Episode)
    (counted : processor.total = UInt64.ofNat (lifetime initial before)) :
    ∃ answers last,
      processor.live episodes = .ok (answers, last) ∧
      answers.length = episodes.length ∧
      last.total =
        UInt64.ofNat (lifetime initial (before ++ (episodes.map (·.event)).zip answers)) := by
  induction episodes generalizing processor before with
  | nil =>
      refine ⟨[], processor, rfl, rfl, ?_⟩
      simpa using counted
  | cons first rest induction =>
      obtain ⟨answer, next, met, total⟩ := processor.total_meet first
      have countedNext : next.total =
          UInt64.ofNat (lifetime initial (before ++ [(first.event, answer)])) := by
        rw [total, lifetime_concat, counted]
        cases first.event.restarts with
        | true => rfl
        | false => exact (UInt64.ofNat_add _ _).symm
      obtain ⟨answers, last, lived, length, final⟩ := induction next countedNext
      refine ⟨answer :: answers, last, ?_, ?_, ?_⟩
      · simp only [live, met, lived, Except.map]
      · rw [List.length_cons, List.length_cons, length]
      · rw [final, List.append_assoc]
        rfl

/-- Whatever happens to a processor, on whatever buses, its total is what the answers report since
it last began anew. To find an address is charged to the budget of the call alone. -/
theorem total_counts_life (episodes : List Episode) :
    (∃ answers last,
      processor.live episodes = .ok (answers, last) ∧
      answers.length = episodes.length ∧
      let cycles := lifetime processor.total.toNat ((episodes.map (·.event)).zip answers)
      last.total = UInt64.ofNat cycles ∧
      (cycles < UInt64.size → last.total.toNat = cycles)) ∧
    ∀ (σ : Type) [Bus σ] (machine : Machine σ) (mode : AddressingMode) (charge : IndexCharge)
      (budget : Budget),
      (∃ address next cycles,
        machine.resolve mode charge budget = .ok (address, next, budget.charge cycles) ∧
        mode.operandBytes ≤ cycles ∧
        next.processor.total = machine.processor.total ∧
        next.bus = machine.bus) ∨
      machine.resolve mode charge budget =
        .error ⟨.noEffectiveAddress mode, .begin machine.processor machine.bus budget⟩ := by
  constructor
  · have counted : processor.total = UInt64.ofNat (lifetime processor.total.toNat []) := by
      rw [lifetime_nil, UInt64.ofNat_toNat]
    obtain ⟨answers, last, lived, length, total⟩ := processor.total_live episodes counted
    refine ⟨answers, last, lived, length, total, ?_⟩
    intro fits
    rw [total]
    exact UInt64.toNat_ofNat_of_lt' fits
  · intro σ _ machine mode charge budget
    exact machine.resolve_charges_budget mode charge budget

/-- Bytes for a count up, a byte without a meaning and a jump back. -/
def countingBytes : View :=
  Bus.writeAll (fun _ => 0) (Image.writes ⟨0x0200, [0xE8, 0x02, 0x4C, 0x00, 0x02]⟩)

/-- A life that goes back and forth between these bytes and memory that holds none, with a reset in
between. -/
def busyLife : List Episode :=
  let here (event : Event) : Episode := ⟨View, inferInstance, countingBytes, event⟩
  let there (event : Event) : Episode := ⟨View, inferInstance, fun _ => 0, event⟩
  [here (.called (.run 5)), there (.assigned (.status 0xFF)), here (.called (.resetTo 0x0200)),
    here (.called .step), here (.called .step), there (.called (.run 3)),
    here (.assigned (.counter 0x0200)), here (.called (.resolve .indirectY .always (.ofRequest 9))),
    there (.assigned (.register .x 7)), here (.called (.run 6))]

def veteran : Processor :=
  { startingAt 0x0200 with total := 100 }

theorem lifetime_busyLife :
    (veteran.live (busyLife.take 2)).toOption.map (fun done =>
      lifetime veteran.total.toNat (((busyLife.take 2).map (·.event)).zip done.1)) = some 106 ∧
    (veteran.live busyLife).toOption.map (fun done =>
      lifetime veteran.total.toNat ((busyLife.map (·.event)).zip done.1)) = some 12 := by
  decide +kernel

/-- The earlier total counts up to the reset, and no longer after it. -/
theorem total_counts_life_busyLife :
    (∃ answers last,
      veteran.live (busyLife.take 2) = .ok (answers, last) ∧ last.total.toNat = 106) ∧
    ∃ answers last, veteran.live busyLife = .ok (answers, last) ∧ last.total.toNat = 12 := by
  have counts : ∀ (episodes : List Episode) (cycles : Nat),
      (veteran.live episodes).toOption.map (fun done =>
        lifetime veteran.total.toNat ((episodes.map (·.event)).zip done.1)) = some cycles →
      cycles < UInt64.size →
      ∃ answers last, veteran.live episodes = .ok (answers, last) ∧ last.total.toNat = cycles := by
    intro episodes cycles counted fits
    obtain ⟨⟨answers, last, lived, _, _, total⟩, _⟩ := total_counts_life veteran episodes
    have sum : lifetime veteran.total.toNat ((episodes.map (·.event)).zip answers) = cycles := by
      simpa [lived, Except.toOption] using counted
    rw [sum] at total
    exact ⟨answers, last, lived, total fits⟩
  obtain ⟨early, late⟩ := lifetime_busyLife
  exact ⟨counts _ 106 early (by decide), counts _ 12 late (by decide)⟩

end Processor

end Nmos6502
