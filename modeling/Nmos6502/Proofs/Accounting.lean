import Nmos6502.Budget
import Mathlib.Algebra.GroupWithZero.Nat

/-!
The books of a budget that is charged call by call. Main statement: as long as the charges together
fit a signed counter, none of its counters wraps, and what they show depends on the sum of the
charges alone (`charges_balance`).
-/

namespace Nmos6502

/-- A call that takes cycles from a budget. -/
inductive Charge where
  | tick
  | consume (cycles : UInt32)
  deriving DecidableEq

def Charge.cycles : Charge → Nat
  | tick => 1
  | consume cycles => cycles.toNat

def Charge.total (charges : List Charge) : Nat :=
  (charges.map cycles).sum

@[simp] theorem Charge.total_append (earlier later : List Charge) :
    total (earlier ++ later) = total earlier + total later := by
  simp [total]

theorem Charge.total_le_of_prefix {earlier charges : List Charge} (begins : earlier <+: charges) :
    total earlier ≤ total charges := by
  obtain ⟨later, rfl⟩ := begins
  rw [total_append]
  exact Nat.le_add_right _ _

theorem Charge.total_eq_of_perm {charges others : List Charge} (reordered : others.Perm charges) :
    total others = total charges :=
  (reordered.map cycles).sum_nat

namespace Budget

def take (budget : Budget) : Charge → Budget
  | .tick => budget.tick
  | .consume cycles => budget.consume cycles

/-- The budget once it has been charged call by call. -/
def takeAll (budget : Budget) (charges : List Charge) : Budget :=
  charges.foldl take budget

theorem take_eq_charge (budget : Budget) (charge : Charge) :
    budget.take charge = budget.charge charge.cycles := by
  cases charge with
  | tick => exact tick_eq_charge budget
  | consume cycles => exact consume_eq_charge budget cycles

theorem takeAll_eq_charge (budget : Budget) (charges : List Charge) :
    budget.takeAll charges = budget.charge (Charge.total charges) := by
  induction charges generalizing budget with
  | nil => exact budget.charge_zero.symm
  | cons first rest induction =>
      have next : budget.takeAll (first :: rest) = (budget.take first).takeAll rest := rfl
      rw [next, induction, take_eq_charge, charge_charge]
      rfl

/-- What a budget shows of a request once a number of cycles have been taken from it. The difference
behind the cycles used is formed without a wrap, and so it is not negative. -/
structure Balances (budget : Budget) (request : UInt32) (cycles : Nat) : Prop where
  requested : budget.requested = request
  remaining : budget.remaining.toInt = request.toNat - cycles
  difference : (budget.requested.toUInt64.toInt64 - budget.remaining).toInt = cycles
  used : budget.used.toNat = cycles
  sum : budget.remaining.toInt + budget.used.toNat = request.toNat
  isExhausted : budget.isExhausted = true ↔ request.toNat ≤ cycles

theorem balances_charge (request : UInt32) {cycles : Nat} (bound : cycles < UInt64.size / 2) :
    ((ofRequest request).charge cycles).Balances request cycles where
  requested := rfl
  remaining := toInt_remaining_charge_ofRequest request bound
  difference := by
    have spent : ((ofRequest request).charge cycles).requested.toUInt64.toInt64 -
        ((ofRequest request).charge cycles).remaining = Int64.ofNat cycles :=
      remaining_sub_remaining_charge (ofRequest request) cycles
    rw [spent]
    exact Int64.toInt_ofNat_of_lt bound
  used := used_charge_ofRequest request bound
  sum := by
    rw [toInt_remaining_charge_ofRequest request bound, used_charge_ofRequest request bound]
    omega
  isExhausted := by
    rw [isExhausted_charge_ofRequest request bound, decide_eq_true_eq]

section

variable (request : UInt32) {charges : List Charge}
  (bound : Charge.total charges < UInt64.size / 2)

include bound

theorem balances_takeAll {earlier : List Charge} (begins : earlier <+: charges) :
    ((ofRequest request).takeAll earlier).Balances request (Charge.total earlier) := by
  rw [takeAll_eq_charge]
  exact balances_charge request (Nat.lt_of_le_of_lt (Charge.total_le_of_prefix begins) bound)

/-- Each call takes exactly its cycles from what remains. -/
theorem toInt_remaining_takeAll_concat {earlier : List Charge} {charge : Charge}
    (begins : earlier ++ [charge] <+: charges) :
    ((ofRequest request).takeAll (earlier ++ [charge])).remaining.toInt =
      ((ofRequest request).takeAll earlier).remaining.toInt - charge.cycles := by
  have before := balances_takeAll request bound ((List.prefix_append earlier [charge]).trans begins)
  have after := balances_takeAll request bound begins
  have single : Charge.total [charge] = charge.cycles := Nat.add_zero _
  rw [before.remaining, after.remaining, Charge.total_append, single]
  omega

theorem used_takeAll_le {earlier : List Charge} (begins : earlier <+: charges) :
    ((ofRequest request).takeAll earlier).used ≤ ((ofRequest request).takeAll charges).used := by
  rw [UInt64.le_iff_toNat_le, (balances_takeAll request bound begins).used,
    (balances_takeAll request bound (List.prefix_refl charges)).used]
  exact Charge.total_le_of_prefix begins

theorem isExhausted_takeAll_of_prefix {earlier : List Charge} (begins : earlier <+: charges)
    (exhausted : ((ofRequest request).takeAll earlier).isExhausted = true) :
    ((ofRequest request).takeAll charges).isExhausted = true := by
  rw [(balances_takeAll request bound begins).isExhausted] at exhausted
  rw [(balances_takeAll request bound (List.prefix_refl charges)).isExhausted]
  exact Nat.le_trans exhausted (Charge.total_le_of_prefix begins)

end

/-- The books of a request balance after any charges, and on the way to them. Further charges never
lower what was used and never lift an exhausted budget, and their order makes no difference. -/
theorem charges_balance (request : UInt32) {charges : List Charge}
    (bound : Charge.total charges < UInt64.size / 2) :
    ((ofRequest request).takeAll charges).Balances request (Charge.total charges) ∧
    (∀ earlier charge, earlier ++ [charge] <+: charges →
      ((ofRequest request).takeAll (earlier ++ [charge])).remaining.toInt =
        ((ofRequest request).takeAll earlier).remaining.toInt - charge.cycles) ∧
    (∀ earlier, earlier <+: charges →
      ((ofRequest request).takeAll earlier).used ≤ ((ofRequest request).takeAll charges).used ∧
      (((ofRequest request).takeAll earlier).isExhausted = true →
        ((ofRequest request).takeAll charges).isExhausted = true)) ∧
    ∀ others, others.Perm charges →
      (ofRequest request).takeAll others = (ofRequest request).takeAll charges := by
  refine ⟨balances_takeAll request bound (List.prefix_refl charges), ?_, ?_, ?_⟩
  · intro earlier charge begins
    exact toInt_remaining_takeAll_concat request bound begins
  · intro earlier begins
    exact ⟨used_takeAll_le request bound begins, isExhausted_takeAll_of_prefix request bound begins⟩
  · intro others reordered
    rw [takeAll_eq_charge, takeAll_eq_charge, Charge.total_eq_of_perm reordered]

/-- The largest request, spent to the last cycle and then overdrawn by eight. -/
theorem charges_balance_largestRequest :
    ((ofRequest 0xFFFFFFFF).takeAll [.consume 0xFFFFFFFF, .tick, .consume 7]).Balances
      0xFFFFFFFF 0x100000007 ∧
    ((ofRequest 0xFFFFFFFF).takeAll [.consume 0xFFFFFFFF]).isExhausted = true ∧
    (ofRequest 0xFFFFFFFF).takeAll [.consume 7, .consume 0xFFFFFFFF, .tick] =
      (ofRequest 0xFFFFFFFF).takeAll [.consume 0xFFFFFFFF, .tick, .consume 7] := by
  have bound : Charge.total [.consume 0xFFFFFFFF, .tick, .consume 7] < UInt64.size / 2 := by decide
  have spent : Charge.total [.consume 0xFFFFFFFF] < UInt64.size / 2 := by decide
  obtain ⟨balances, _, _, reordered⟩ := charges_balance 0xFFFFFFFF bound
  obtain ⟨exact, _⟩ := charges_balance 0xFFFFFFFF spent
  exact ⟨balances, exact.isExhausted.mpr (by decide), reordered _ (by decide)⟩

end Budget

end Nmos6502
