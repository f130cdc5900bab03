/-!
The cycles that a caller asks a machine to run for. An instruction that has begun is finished, so a
budget can be overdrawn. Main statements: however cycles are taken one after the other, only their
number counts (`charge_charge`), and a request is exhausted once that many have been taken
(`isExhausted_charge_ofRequest`).
-/

namespace Nmos6502

structure Budget where
  requested : UInt32
  remaining : Int64
  deriving DecidableEq

namespace Budget

def ofRequest (requested : UInt32) : Budget :=
  ⟨requested, requested.toUInt64.toInt64⟩

def consume (budget : Budget) (cycles : UInt32) : Budget :=
  { budget with remaining := budget.remaining - cycles.toUInt64.toInt64 }

def tick (budget : Budget) : Budget :=
  { budget with remaining := budget.remaining - 1 }

def isExhausted (budget : Budget) : Bool :=
  decide (budget.remaining ≤ 0)

/-- The cycles consumed so far, which may be more than was requested. -/
def used (budget : Budget) : UInt64 :=
  let spent := budget.requested.toUInt64.toInt64 - budget.remaining
  if spent < 0 then 0 else spent.toUInt64

@[simp] theorem remaining_ofRequest (requested : UInt32) :
    (ofRequest requested).remaining = requested.toUInt64.toInt64 := rfl

@[simp] theorem requested_ofRequest (requested : UInt32) :
    (ofRequest requested).requested = requested := rfl

@[simp] theorem requested_consume (budget : Budget) (cycles : UInt32) :
    (budget.consume cycles).requested = budget.requested := rfl

@[simp] theorem remaining_consume (budget : Budget) (cycles : UInt32) :
    (budget.consume cycles).remaining = budget.remaining - cycles.toUInt64.toInt64 := rfl

/-- The budget after a number of cycles, however they were taken. -/
def charge (budget : Budget) (cycles : Nat) : Budget :=
  { budget with remaining := budget.remaining - Int64.ofNat cycles }

@[simp] theorem requested_charge (budget : Budget) (cycles : Nat) :
    (budget.charge cycles).requested = budget.requested := rfl

@[simp] theorem remaining_charge (budget : Budget) (cycles : Nat) :
    (budget.charge cycles).remaining = budget.remaining - Int64.ofNat cycles := rfl

theorem tick_eq_charge (budget : Budget) : budget.tick = budget.charge 1 := rfl

theorem toInt64_toUInt64 (cycles : UInt32) :
    cycles.toUInt64.toInt64 = Int64.ofNat cycles.toNat := by
  rw [← UInt64.toInt64_ofNat', UInt64.ofNat_uInt32ToNat]

theorem consume_eq_charge (budget : Budget) (cycles : UInt32) :
    budget.consume cycles = budget.charge cycles.toNat := by
  rw [consume, charge, toInt64_toUInt64]

@[simp] theorem charge_zero (budget : Budget) : budget.charge 0 = budget := by
  simp [charge]

@[simp] theorem charge_charge (budget : Budget) (first second : Nat) :
    (budget.charge first).charge second = budget.charge (first + second) := by
  simp [charge, Int64.sub_sub]

@[simp] theorem remaining_sub_remaining_charge (budget : Budget) (cycles : Nat) :
    budget.remaining - (budget.charge cycles).remaining = Int64.ofNat cycles := by
  rw [remaining_charge, Int64.sub_eq_iff_eq_add, Int64.add_comm, Int64.sub_add_cancel]

/-! What is left of a request. No counter wraps while fewer cycles have been taken than a signed
counter holds. -/

theorem toInt_remaining_charge_ofRequest (requested : UInt32) {cycles : Nat}
    (bound : cycles < UInt64.size / 2) :
    ((ofRequest requested).charge cycles).remaining.toInt = requested.toNat - cycles := by
  have requestBound := requested.toNat_lt
  have half : UInt64.size / 2 = 2 ^ 63 := rfl
  rw [remaining_charge, remaining_ofRequest, toInt64_toUInt64, ← Int64.ofInt_eq_ofNat,
    ← Int64.ofInt_eq_ofNat, ← Int64.ofInt_sub]
  exact Int64.toInt_ofInt_of_le (by omega) (by omega)

theorem isExhausted_charge_ofRequest (requested : UInt32) {cycles : Nat}
    (bound : cycles < UInt64.size / 2) :
    ((ofRequest requested).charge cycles).isExhausted = decide (requested.toNat ≤ cycles) := by
  rw [isExhausted, decide_eq_decide, Int64.le_iff_toInt_le,
    toInt_remaining_charge_ofRequest requested bound]
  have zero : (0 : Int64).toInt = 0 := rfl
  omega

theorem used_charge_ofRequest (requested : UInt32) {cycles : Nat}
    (bound : cycles < UInt64.size / 2) :
    ((ofRequest requested).charge cycles).used.toNat = cycles := by
  have spent : requested.toUInt64.toInt64 - ((ofRequest requested).charge cycles).remaining =
      Int64.ofNat cycles :=
    remaining_sub_remaining_charge (ofRequest requested) cycles
  have half : UInt64.size / 2 = 2 ^ 63 := rfl
  have value : (Int64.ofNat cycles).toInt = cycles := Int64.toInt_ofNat_of_lt bound
  have nonnegative : ¬ Int64.ofNat cycles < 0 := by
    rw [Int64.lt_iff_toInt_lt, value]
    simp
  simp only [used, requested_charge, requested_ofRequest, spent, nonnegative, if_false]
  simp
  omega

end Budget

end Nmos6502
