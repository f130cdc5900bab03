import Nmos6502.Bus.Image
import Nmos6502.Proofs.Contents
import Nmos6502.Proofs.Run

/-!
The shortest loop of the chip: X is counted down, and a branch goes back as long as it is not zero.
Programs wait with it, so that its cycles must be known in advance. Main statement: a run for just
these cycles carries out all rounds of the loop and ends right behind it (`run_countdown`).
-/

namespace Nmos6502

namespace Countdown

/-- A count of zero goes through all the values of a byte. -/
def rounds (count : Byte) : Nat :=
  if count = 0 then 256 else count.toNat

/-- The cycle for a branch back to another page than that of the instruction behind it. -/
def surcharge (start : Address) : Nat :=
  if 0xFD ≤ lowByte start then 1 else 0

/-- The cycles of a loop at an address. The last branch is not taken. -/
def cycles (start : Address) (count : Byte) : Nat :=
  5 * rounds count - 1 + surcharge start * (rounds count - 1)

theorem rounds_eq (count : Byte) : rounds count = (count - 1).toNat + 1 := by
  have bound := count.toNat_lt
  unfold rounds
  split
  · next zero =>
      subst zero
      rfl
  · next nonzero =>
      have positive : count.toNat ≠ (0 : Byte).toNat := mt UInt8.toNat_inj.mp nonzero
      rw [UInt8.toNat_zero] at positive
      rw [UInt8.toNat_sub, UInt8.toNat_one]
      omega

theorem cycles_eq (start : Address) (count : Byte) :
    cycles start count = (5 + surcharge start) * (count - 1).toNat + 4 := by
  rw [cycles, rounds_eq, Nat.add_sub_cancel, Nat.add_mul]
  omega

theorem cycles_lt (start : Address) (count : Byte) : cycles start count < UInt32.size := by
  have bound := (count - 1).toNat_lt
  have range : UInt32.size = 2 ^ 32 := rfl
  rw [cycles_eq, surcharge]
  split <;> omega

theorem displace_back (start : Address) : displace (start + 3) 0xFD = start := by
  have back : (0xFD : Byte).toInt8.toInt16.toUInt16 = 0xFFFD := rfl
  rw [displace, back, UInt16.add_assoc]
  exact UInt16.add_zero start

theorem surcharge_eq (start : Address) :
    surcharge start = if crossesPage (start + 3) start then 1 else 0 := by
  have swapped : crossesPage (start + 3) start = crossesPage start (start + 3) := bne_comm
  have ahead : crossesPage start (start + 3) = indexCarries start 3 := crossesPage_add start 3
  have crosses : crossesPage (start + 3) start = decide (0xFD ≤ lowByte start) := by
    rw [swapped, ahead, indexCarries, decide_eq_decide, UInt8.le_iff_toNat_le, toNat_lowByte]
    simp only [UInt8.reduceToNat]
    omega
  simp only [surcharge, crosses, decide_eq_true_eq]

end Countdown

namespace Machine

open Countdown

/-- The machine once it has gone to an address and done nothing else. -/
def moved (machine : Machine σ) (pc : Address) (cycles : Nat) : Machine σ where
  processor :=
    { machine.processor with
      pc := pc
      total := machine.processor.total + UInt64.ofNat cycles }
  bus := machine.bus

/-- The machine once X has been counted down to a value. -/
def counted (machine : Machine σ) (value : Byte) (pc : Address) (cycles : Nat) : Machine σ where
  processor :=
    { machine.processor with
      x := value
      pc := pc
      flags := machine.processor.flags.withResult value
      total := machine.processor.total + UInt64.ofNat cycles }
  bus := machine.bus

theorem moved_counted (machine : Machine σ) (value : Byte) (middle behind : Address)
    (before after : Nat) :
    (machine.counted value middle before).moved behind after =
      machine.counted value behind (before + after) := by
  simp [counted, moved, UInt64.ofNat_add, UInt64.add_assoc]

theorem counted_counted (machine : Machine σ) (first last : Byte) (middle behind : Address)
    (before after : Nat) :
    (machine.counted first middle before).counted last behind after =
      machine.counted last behind (before + after) := by
  simp [counted, Flags.withResult, UInt64.ofNat_add, UInt64.add_assoc]

variable {σ : Type} [Bus σ] {machine : Machine σ}

/-- A number of instructions lead from one machine to another, at the cost of these cycles. -/
structure Reaches (machine : Machine σ) (count : Nat) (last : Machine σ) (cycles : Nat) : Prop where
  after : machine.after count = last
  elapsed : machine.elapsed count = cycles

theorem reaches_of_effect {effect : Effect} (same : machine.effect = effect) :
    machine.Reaches 1
      { processor := effect.processor.elapse effect.cycles
        bus := Bus.writeAll machine.bus effect.writes }
      effect.cycles where
  after := by
    rw [← same]
    rfl
  elapsed := by
    rw [← same, cycles_effect_eq_cost, elapsed_succ, elapsed_zero, Nat.zero_add]
    rfl

theorem Reaches.trans {middle last : Machine σ} {first second before behind : Nat}
    (one : machine.Reaches first middle before) (other : middle.Reaches second last behind) :
    machine.Reaches (first + second) last (before + behind) where
  after := by
    rw [after_add, one.after, other.after]
  elapsed := by
    rw [elapsed_add, one.after, one.elapsed, other.elapsed]

/-- A run for just the cycles of a number of instructions carries out these and no more. -/
theorem Reaches.run {last : Machine σ} {count cycles : Nat}
    (reaches : machine.Reaches count last cycles) (fits : cycles < UInt32.size) :
    ∃ final,
      Run.Completes count (Run.start machine (UInt32.ofNat cycles)) final ∧
      machine.run (UInt32.ofNat cycles) = .ok final ∧
      final.history.size = count ∧
      final.budget.used.toNat = cycles ∧
      final.machine = last := by
  have request : (UInt32.ofNat cycles).toNat = cycles := UInt32.toNat_ofNat_of_lt' fits
  have least : IsLeast {count | (UInt32.ofNat cycles).toNat ≤ machine.elapsed count} count := by
    rw [request, ← reaches.elapsed]
    exact machine.isLeast_elapsed count
  obtain ⟨completes, ran⟩ := run_eq_runAfter least
  refine ⟨_, completes, ran, machine.length_trace count, ?_, reaches.after⟩
  rw [used_runAfter (count_le_request least), reaches.elapsed]

section

variable {flag : Flag} {expected : Bool}
  (sorted : machine.operation.action = .ok (.branch flag expected))

include sorted

theorem reaches_of_taken (taken : machine.processor.flags.get flag = expected) :
    let next := machine.processor.pc + 2
    let target := displace next (Bus.read machine.bus (machine.processor.pc + 1))
    let cycles := 3 + if crossesPage next target then 1 else 0
    machine.Reaches 1 (machine.moved target cycles) cycles := by
  intro next target cycles
  have operand : (machine.processor.skip 1).pc = machine.processor.pc + 1 := rfl
  have behind : machine.processor.pc + 1 + 1 = next := UInt16.add_assoc machine.processor.pc 1 1
  have effect : machine.effect =
      { processor := { machine.processor with pc := target }
        cycles := cycles
        writes := [] } := by
    rw [effect_of_action machine sorted]
    simp only [Action.effect, Processor.flags_skip, taken, if_true, operand, behind, cycles]
    split <;> rfl
  exact reaches_of_effect effect

theorem reaches_of_untaken (untaken : machine.processor.flags.get flag ≠ expected) :
    machine.Reaches 1 (machine.moved (machine.processor.pc + 2) 2) 2 := by
  have behind : (machine.processor.skip 1).pc + 1 = machine.processor.pc + 2 :=
    UInt16.add_assoc machine.processor.pc 1 1
  have effect : machine.effect =
      { processor := { machine.processor with pc := machine.processor.pc + 2 }
        cycles := 2
        writes := [] } := by
    rw [effect_of_action machine sorted]
    simp only [Action.effect, Processor.flags_skip, untaken, if_false, behind]
    rfl
  exact reaches_of_effect effect

end

/-- The bus shows the loop from the program counter on: DEX, and BNE three bytes back. -/
structure AtCountdown (machine : Machine σ) : Prop where
  dex : Bus.read machine.bus machine.processor.pc = 0xCA
  bne : Bus.read machine.bus (machine.processor.pc + 1) = 0xD0
  back : Bus.read machine.bus (machine.processor.pc + 2) = 0xFD

namespace AtCountdown

variable (loop : machine.AtCountdown)

include loop

theorem counts :
    machine.Reaches 1
      (machine.counted (machine.processor.x - 1) (machine.processor.pc + 1) 2) 2 := by
  have sorted : machine.operation.action = .ok (.countRegister .down .x) := by
    rw [operation, opcode, loop.dex, decode_eq_search]
    rfl
  exact reaches_of_effect (machine.effect_of_action sorted)

theorem branches (value : Byte) :
    (machine.counted value (machine.processor.pc + 1) 2).operation.action =
      .ok (.branch .zero false) := by
  have opcode : (machine.counted value (machine.processor.pc + 1) 2).opcode = 0xD0 := loop.bne
  rw [operation, opcode, decode_eq_search]
  rfl

/-- A round that is not the last one comes back to its start. -/
theorem round (more : machine.processor.x - 1 ≠ 0) :
    machine.Reaches 2
      (machine.counted (machine.processor.x - 1) machine.processor.pc
        (5 + surcharge machine.processor.pc))
      (5 + surcharge machine.processor.pc) := by
  have taken : (machine.processor.x - 1 == 0) = false := beq_eq_false_iff_ne.mpr more
  have goesBack := reaches_of_taken (loop.branches (machine.processor.x - 1)) taken
  have behind : machine.processor.pc + 1 + 2 = machine.processor.pc + 3 :=
    UInt16.add_assoc machine.processor.pc 1 2
  have operand : Bus.read machine.bus (machine.processor.pc + 1 + 1) = 0xFD := by
    rw [UInt16.add_assoc]
    exact loop.back
  have whole := loop.counts.trans goesBack
  simp only [moved_counted] at whole
  simp only [counted, behind, operand, displace_back, ← surcharge_eq, ← Nat.add_assoc] at whole
  exact whole

/-- The last round goes on behind the loop. -/
theorem lastRound (last : machine.processor.x - 1 = 0) :
    machine.Reaches 2 (machine.counted 0 (machine.processor.pc + 3) 4) 4 := by
  have counts := loop.counts
  rw [last] at counts
  have zero : (machine.counted 0 (machine.processor.pc + 1) 2).processor.flags.get .zero = true :=
    rfl
  have goesOn := reaches_of_untaken (loop.branches 0) (ne_false_of_eq_true zero)
  have behind : (machine.counted 0 (machine.processor.pc + 1) 2).processor.pc + 2 =
      machine.processor.pc + 3 :=
    UInt16.add_assoc machine.processor.pc 1 2
  rw [behind, moved_counted] at goesOn
  exact counts.trans goesOn

theorem reaches :
    machine.Reaches (2 * rounds machine.processor.x)
      (machine.counted 0 (machine.processor.pc + 3)
        (cycles machine.processor.pc machine.processor.x))
      (cycles machine.processor.pc machine.processor.x) := by
  rw [rounds_eq, cycles_eq]
  -- On the rounds that come back, each of which leaves the machine at the same loop.
  generalize left : (machine.processor.x - 1).toNat = remaining
  induction remaining generalizing machine with
  | zero =>
      have last : machine.processor.x - 1 = 0 := UInt8.toNat_inj.mp left
      simpa using loop.lastRound last
  | succ remaining induction =>
      have more : machine.processor.x - 1 ≠ 0 := by
        intro last
        rw [last] at left
        exact absurd left.symm (Nat.succ_ne_zero remaining)
      have fewer : (machine.processor.x - 1 - 1).toNat = remaining := by
        have bound := (machine.processor.x - 1).toNat_lt
        rw [left] at bound
        rw [UInt8.toNat_sub, left, UInt8.toNat_one]
        omega
      have again : (machine.counted (machine.processor.x - 1) machine.processor.pc
          (5 + surcharge machine.processor.pc)).AtCountdown :=
        ⟨loop.dex, loop.bne, loop.back⟩
      have whole := (loop.round more).trans (induction again fewer)
      rw [counted_counted] at whole
      have count : 2 + 2 * (remaining + 1) = 2 * (remaining + 1 + 1) := by omega
      have spent : 5 + surcharge machine.processor.pc +
            ((5 + surcharge machine.processor.pc) * remaining + 4) =
          (5 + surcharge machine.processor.pc) * (remaining + 1) + 4 := by
        rw [Nat.mul_succ]
        omega
      rw [← count, ← spent]
      exact whole

end AtCountdown

/-- A run for the cycles of the loop goes through all its rounds and ends right behind it. Only X,
the program counter, Z, N and the total have changed. -/
theorem run_countdown (loop : machine.AtCountdown) :
    ∃ final,
      Run.Completes (2 * rounds machine.processor.x)
        (Run.start machine (UInt32.ofNat (cycles machine.processor.pc machine.processor.x)))
        final ∧
      machine.run (UInt32.ofNat (cycles machine.processor.pc machine.processor.x)) = .ok final ∧
      final.history.size = 2 * rounds machine.processor.x ∧
      final.budget.used.toNat = cycles machine.processor.pc machine.processor.x ∧
      final.machine.processor =
        { machine.processor with
          x := 0
          pc := machine.processor.pc + 3
          flags := { machine.processor.flags with zero := true, negative := false }
          total := machine.processor.total +
            UInt64.ofNat (cycles machine.processor.pc machine.processor.x) } ∧
      final.machine.bus = machine.bus := by
  have fits := cycles_lt machine.processor.pc machine.processor.x
  obtain ⟨final, completes, ran, size, used, last⟩ := loop.reaches.run fits
  refine ⟨final, completes, ran, size, used, ?_, ?_⟩
  · rw [last]
    rfl
  · rw [last]
    rfl

/-- A loop across the end of memory, so that each branch back crosses a page. X is zero. -/
def straddlingCountdown : Machine View where
  processor := Processor.startingAt 0xFFFE
  bus := Bus.writeAll (fun _ => 0) (Image.writes ⟨0xFFFE, [0xCA, 0xD0, 0xFD]⟩)

theorem run_straddlingCountdown :
    ∃ final,
      straddlingCountdown.run 1534 = .ok final ∧
      final.history.size = 512 ∧
      final.budget.used.toNat = 1534 ∧
      final.machine.processor.x = 0 ∧
      final.machine.processor.pc = 0x0001 ∧
      final.machine.bus = straddlingCountdown.bus := by
  have loop : straddlingCountdown.AtCountdown := ⟨rfl, rfl, rfl⟩
  obtain ⟨final, _, ran, size, used, left, kept⟩ := run_countdown loop
  refine ⟨final, ran, size, used, ?_, ?_, kept⟩
  · rw [left]
  · rw [left]
    rfl

end Machine

end Nmos6502
