import Nmos6502.Proofs.Arithmetic
import Mathlib.Data.Nat.Digits.Lemmas

/-!
Numbers of many bytes. A program adds or subtracts them one byte at a time from the lowest, each sum
taking up the carry of the one before. Main statement: a chain of any length is exact, in its bytes,
its last carry and its last overflow, and a subtraction may begin with a comparison instead
(`chain_exact`).
-/

namespace Nmos6502.Alu

/-- The number that bytes stand for, the lowest first. -/
def unsigned (bytes : List Byte) : Nat :=
  Nat.ofDigits 256 (bytes.map UInt8.toNat)

/-- The number they stand for in two's complement. -/
def signed (bytes : List Byte) : Int :=
  Int.bmod (unsigned bytes) (256 ^ bytes.length)

/-- Whether a number of bytes is enough for an integer in two's complement. -/
def FitsSigned (count : Nat) (value : Int) : Prop :=
  -(256 ^ count : Nat) ≤ 2 * value ∧ 2 * value < (256 ^ count : Nat)

instance (count : Nat) (value : Int) : Decidable (FitsSigned count value) :=
  inferInstanceAs (Decidable (_ ∧ _))

/-- The results of a rule on byte after byte, from the lowest. -/
def chain (rule : Arithmetic) : List Byte → List Byte → Bool → List Sum
  | left :: lefts, right :: rights, carry =>
      let sum := rule.apply left right carry
      sum :: chain rule lefts rights sum.carry
  | _, _, _ => []

@[simp] theorem unsigned_nil : unsigned [] = 0 := rfl

@[simp] theorem unsigned_cons (low : Byte) (rest : List Byte) :
    unsigned (low :: rest) = low.toNat + 256 * unsigned rest :=
  Nat.ofDigits_cons

theorem unsigned_lt (bytes : List Byte) : unsigned bytes < 256 ^ bytes.length := by
  rw [← List.length_map (f := UInt8.toNat)]
  apply Nat.ofDigits_lt_base_pow_length (by decide)
  intro digit member
  obtain ⟨byte, _, rfl⟩ := List.mem_map.mp member
  exact byte.toNat_lt

/-- As many bytes stand for a number in one way only. -/
theorem unsigned_inj {left right : List Byte} (matched : left.length = right.length) :
    unsigned left = unsigned right ↔ left = right := by
  have digits (bytes : List Byte) : ∀ digit ∈ bytes.map UInt8.toNat, digit < 256 := by
    intro digit member
    obtain ⟨byte, _, rfl⟩ := List.mem_map.mp member
    exact byte.toNat_lt
  constructor
  · intro equal
    have lengths : (left.map UInt8.toNat).length = (right.map UInt8.toNat).length := by
      rw [List.length_map, List.length_map, matched]
    exact (List.map_inj_right fun _ _ => UInt8.toNat_inj.mp).mp
      (Nat.ofDigits_inj_of_len_eq (by decide) lengths (digits left) (digits right) equal)
  · exact congrArg unsigned

theorem signed_eq (bytes : List Byte) :
    signed bytes =
      if 2 * unsigned bytes < 256 ^ bytes.length then (unsigned bytes : Int)
      else unsigned bytes - (256 ^ bytes.length : Nat) := by
  have bound := unsigned_lt bytes
  have reduced : (unsigned bytes : Int) % (256 ^ bytes.length : Nat) = unsigned bytes :=
    Int.emod_eq_of_lt (by omega) (by omega)
  rw [signed, Int.bmod_def, reduced]
  split <;> split <;> omega

theorem two_dvd_pow {bytes : List Byte} (nonempty : bytes ≠ []) : 2 ∣ 256 ^ bytes.length :=
  dvd_pow (by decide) (List.length_eq_zero_iff.not.mpr nonempty)

theorem ne_nil_of_length_eq {left right : List Byte} (matched : left.length = right.length)
    (nonempty : left ≠ []) : right ≠ [] := by
  intro none
  rw [none] at matched
  exact nonempty (List.length_eq_zero_iff.mp matched)

theorem signed_singleton (byte : Byte) : signed [byte] = byte.toInt8.toInt := by
  rw [signed_eq, toInt_toInt8]
  simp only [unsigned_cons, unsigned_nil, List.length_singleton]
  split <;> split <;> omega

theorem signed_cons (low : Byte) {rest : List Byte} (nonempty : rest ≠ []) :
    signed (low :: rest) = low.toNat + 256 * signed rest := by
  have bound := low.toNat_lt
  obtain ⟨half, even⟩ := two_dvd_pow nonempty
  rw [signed_eq, signed_eq, List.length_cons, Nat.pow_succ, unsigned_cons, even]
  split <;> split <;> omega

theorem unsigned_map_not (bytes : List Byte) :
    unsigned (bytes.map (~~~·)) + unsigned bytes + 1 = 256 ^ bytes.length := by
  induction bytes with
  | nil => rfl
  | cons low rest induction =>
      have bound := low.toNat_lt
      have complement : (~~~low).toNat = 255 - low.toNat := UInt8.toNat_not low
      rw [List.map_cons, unsigned_cons, unsigned_cons, complement, List.length_cons, Nat.pow_succ]
      omega

theorem signed_map_not {bytes : List Byte} (nonempty : bytes ≠ []) :
    signed (bytes.map (~~~·)) = -1 - signed bytes := by
  have complement := unsigned_map_not bytes
  obtain ⟨half, even⟩ := two_dvd_pow nonempty
  rw [even] at complement
  rw [signed_eq, signed_eq, List.length_map, even]
  split <;> split <;> omega

theorem fitsSigned_one (value : Int) : FitsSigned 1 value ↔ -128 ≤ value ∧ value ≤ 127 := by
  unfold FitsSigned
  omega

/-- Another byte below adds as much to what is represented as to what can be. -/
theorem fitsSigned_succ {rest : List Byte} (nonempty : rest ≠ []) (low : Byte) (high : Int) :
    FitsSigned (rest.length + 1) (low.toNat + 256 * high) ↔ FitsSigned rest.length high := by
  have bound := low.toNat_lt
  obtain ⟨half, even⟩ := two_dvd_pow nonempty
  unfold FitsSigned
  rw [Nat.pow_succ, even]
  omega

/-- The sign of the exact sum of two bytes: an overflow turns the sign of the value around. -/
theorem sign_add (left right : Byte) (carry : Bool) :
    (isNegative (add left right carry).value ^^ (add left right carry).overflow) = true ↔
      left.toInt8.toInt + right.toInt8.toInt + carry.toNat < 0 := by
  have sum := toNat_add left right carry
  have leftBound := left.toNat_lt
  have rightBound := right.toNat_lt
  have valueBound := (add left right carry).value.toNat_lt
  have carryBound := carry.toNat_le
  rw [bne_iff_ne, ne_eq, Bool.eq_iff_iff, isNegative_iff, overflow_add, toInt_toInt8,
    toInt_toInt8]
  split <;> split <;> omega

/-- The bytes of a chain and its last result hold the sum of two numbers and a carry. -/
structure HoldSum (results : List Sum) (last : Sum) (left right : List Byte) (incoming : Bool) :
    Prop where
  length : results.length = left.length
  value : unsigned (results.map Sum.value) + last.carry.toNat * 256 ^ left.length =
    unsigned left + unsigned right + incoming.toNat
  overflow : last.overflow = true ↔
    ¬FitsSigned left.length (signed left + signed right + incoming.toNat)
  sign : (isNegative last.value ^^ last.overflow) = true ↔
    signed left + signed right + incoming.toNat < 0

theorem holdSum_single (low other : Byte) (incoming : Bool) :
    HoldSum [add low other incoming] (add low other incoming) [low] [other] incoming where
  length := rfl
  value := by
    have sum := toNat_add low other incoming
    simp only [List.map_singleton, unsigned_cons, unsigned_nil, List.length_singleton]
    omega
  overflow := by
    rw [signed_singleton, signed_singleton, overflow_add, List.length_singleton, fitsSigned_one]
    omega
  sign := by
    rw [signed_singleton, signed_singleton, sign_add]

/-- The carry into the higher bytes is what the lowest ones leave over. -/
theorem HoldSum.cons {results : List Sum} {last : Sum} {lows others : List Byte} (low other : Byte)
    (incoming : Bool) (matched : lows.length = others.length) (nonempty : lows ≠ [])
    (held : HoldSum results last lows others (add low other incoming).carry) :
    HoldSum (add low other incoming :: results) last (low :: lows) (other :: others) incoming := by
  have sum := toNat_add low other incoming
  have othersNonempty := ne_nil_of_length_eq matched nonempty
  -- The result's lowest byte is what the sum has below 256; the carry joins the higher bytes.
  have exact : signed (low :: lows) + signed (other :: others) + incoming.toNat =
      (add low other incoming).value.toNat +
        256 * (signed lows + signed others + (add low other incoming).carry.toNat) := by
    rw [signed_cons low nonempty, signed_cons other othersNonempty]
    omega
  refine ⟨congrArg Nat.succ held.length, ?_, ?_, ?_⟩
  · have value := held.value
    rw [List.map_cons, unsigned_cons, unsigned_cons, unsigned_cons, List.length_cons, Nat.pow_succ,
      ← Nat.mul_assoc]
    omega
  · rw [exact, List.length_cons, fitsSigned_succ nonempty]
    exact held.overflow
  · have bound := (add low other incoming).value.toNat_lt
    rw [exact, held.sign]
    omega

theorem chain_add {left right : List Byte} (incoming : Bool) (matched : left.length = right.length)
    (nonempty : left ≠ []) :
    ∃ last,
      (chain .add left right incoming).getLast? = some last ∧
      HoldSum (chain .add left right incoming) last left right incoming := by
  induction left generalizing right incoming with
  | nil => contradiction
  | cons low lows induction =>
      cases right with
      | nil => contradiction
      | cons other others =>
          have remaining : lows.length = others.length := Nat.succ.inj matched
          by_cases single : lows = []
          · subst single
            obtain rfl := List.length_eq_zero_iff.mp remaining.symm
            exact ⟨add low other incoming, rfl, holdSum_single low other incoming⟩
          · obtain ⟨last, found, held⟩ := induction (add low other incoming).carry remaining single
            refine ⟨last, ?_, held.cons low other incoming remaining single⟩
            rw [chain, List.getLast?_cons, Arithmetic.apply, found]
            rfl

theorem chain_subtract (left right : List Byte) (incoming : Bool) :
    chain .subtract left right incoming = chain .add left (right.map (~~~·)) incoming := by
  induction left generalizing right incoming with
  | nil => rfl
  | cons low lows induction =>
      cases right with
      | nil => rfl
      | cons other others =>
          rw [List.map_cons, chain, chain, induction]
          rfl

/-- They hold the difference of two numbers. A clear carry takes one more away. -/
structure HoldDifference (results : List Sum) (last : Sum) (left right : List Byte)
    (incoming : Bool) : Prop where
  length : results.length = left.length
  value : (unsigned (results.map Sum.value) : Int) =
    (unsigned left - unsigned right - (1 - incoming.toNat)) % (256 ^ left.length : Nat)
  carry : last.carry = true ↔ unsigned right + (1 - incoming.toNat) ≤ unsigned left
  overflow : last.overflow = true ↔
    ¬FitsSigned left.length (signed left - signed right - (1 - incoming.toNat))
  sign : (isNegative last.value ^^ last.overflow) = true ↔
    signed left - signed right - (1 - incoming.toNat) < 0

/-- A difference that comes out below zero has taken the modulus as its borrow. -/
theorem difference_of_borrow {value left right modulus : Nat} {carry incoming : Bool}
    (bound : value < modulus)
    (borrowed : value + right + 1 + carry.toNat * modulus = left + modulus + incoming.toNat) :
    (value : Int) = (left - right - (1 - incoming.toNat)) % modulus ∧
      (carry = true ↔ right + (1 - incoming.toNat) ≤ left) := by
  have incomingBound := incoming.toNat_le
  have reduced : (value : Int) % modulus = value := Int.emod_eq_of_lt (by omega) (by omega)
  cases carry with
  | false =>
      rw [Bool.toNat_false, Nat.zero_mul] at borrowed
      have below : (left - right - (1 - incoming.toNat) : Int) = value - modulus := by
        omega
      constructor
      · rw [below, Int.sub_emod_right, reduced]
      · rw [Bool.false_eq_true, false_iff]
        omega
  | true =>
      rw [Bool.toNat_true, Nat.one_mul] at borrowed
      have above : (left - right - (1 - incoming.toNat) : Int) = value := by
        omega
      constructor
      · rw [above, reduced]
      · rw [eq_self_iff_true, true_iff]
        omega

theorem chain_difference {left right : List Byte} (incoming : Bool)
    (matched : left.length = right.length) (nonempty : left ≠ []) :
    ∃ last,
      (chain .subtract left right incoming).getLast? = some last ∧
      HoldDifference (chain .subtract left right incoming) last left right incoming := by
  have paired : left.length = (right.map (~~~·)).length := by
    rw [List.length_map, matched]
  obtain ⟨last, found, held⟩ := chain_add incoming paired nonempty
  rw [← chain_subtract] at found held
  have bound := unsigned_lt ((chain .subtract left right incoming).map Sum.value)
  rw [List.length_map, held.length] at bound
  have borrowed : unsigned ((chain .subtract left right incoming).map Sum.value) +
      unsigned right + 1 + last.carry.toNat * 256 ^ left.length =
      unsigned left + 256 ^ left.length + incoming.toNat := by
    have value := held.value
    have complement := unsigned_map_not right
    rw [← matched] at complement
    omega
  obtain ⟨value, carry⟩ := difference_of_borrow bound borrowed
  have exact : signed left + signed (right.map (~~~·)) + incoming.toNat =
      signed left - signed right - (1 - incoming.toNat) := by
    rw [signed_map_not (ne_nil_of_length_eq matched nonempty)]
    omega
  refine ⟨last, found, held.length, value, carry, ?_, ?_⟩
  · rw [held.overflow, exact]
  · rw [held.sign, exact]

/-- Where it starts, a subtraction without a borrow is a comparison. -/
theorem subtract_eq_compare (register operand : Byte) :
    (subtract register operand true).value = (compare register operand).difference ∧
      (subtract register operand true).carry = (compare register operand).carry := by
  have difference := toNat_subtract register operand true
  have carryBound := (subtract register operand true).carry.toNat_le
  have registerBound := register.toNat_lt
  have operandBound := operand.toNat_lt
  have valueBound := (subtract register operand true).value.toNat_lt
  rw [Bool.toNat_true] at difference
  constructor
  · apply UInt8.toNat_inj.mp
    rw [compare, UInt8.toNat_sub]
    omega
  · rw [compare, Bool.eq_iff_iff, decide_eq_true_iff, UInt8.le_iff_toNat_le, ← Bool.toNat_eq_one]
    omega

theorem chain_compare {left right : List Byte} (matched : left.length = right.length)
    (nonempty : left ≠ []) :
    ∃ low lows other others overflow,
      left = low :: lows ∧ right = other :: others ∧
      chain .subtract left right true =
        ⟨(compare low other).difference, (compare low other).carry, overflow⟩ ::
          chain .subtract lows others (compare low other).carry := by
  obtain ⟨low, lows, rfl⟩ := List.exists_cons_of_ne_nil nonempty
  obtain ⟨other, others, rfl⟩ := List.exists_cons_of_ne_nil (ne_nil_of_length_eq matched nonempty)
  obtain ⟨difference, carry⟩ := subtract_eq_compare low other
  refine ⟨low, lows, other, others, (subtract low other true).overflow, rfl, rfl, ?_⟩
  rw [← difference, ← carry]
  rfl

/-- A chain of sums, a chain of differences, what the differences tell when no borrow comes in, and
the comparison that may stand for the lowest of them. -/
theorem chain_exact {left right : List Byte} (incoming : Bool)
    (matched : left.length = right.length) (nonempty : left ≠ []) :
    (∃ last,
      (chain .add left right incoming).getLast? = some last ∧
      HoldSum (chain .add left right incoming) last left right incoming) ∧
    (∃ last,
      (chain .subtract left right incoming).getLast? = some last ∧
      HoldDifference (chain .subtract left right incoming) last left right incoming ∧
      (incoming = true →
        (last.carry = true ↔ unsigned right ≤ unsigned left) ∧
        ((isNegative last.value ^^ last.overflow) = true ↔ signed left < signed right))) ∧
    ∃ low lows other others overflow,
      left = low :: lows ∧ right = other :: others ∧
      chain .subtract left right true =
        ⟨(compare low other).difference, (compare low other).carry, overflow⟩ ::
          chain .subtract lows others (compare low other).carry := by
  refine ⟨chain_add incoming matched nonempty, ?_, chain_compare matched nonempty⟩
  obtain ⟨last, found, held⟩ := chain_difference incoming matched nonempty
  refine ⟨last, found, held, ?_⟩
  intro unborrowed
  have carry := held.carry
  have sign := held.sign
  subst unborrowed
  rw [Bool.toNat_true] at carry sign
  refine ⟨carry, ?_⟩
  rw [sign]
  omega

/-- −32768 and 1 in two bytes: the difference leaves the signed range, not the unsigned one. -/
theorem chain_exact_pair :
    ∃ last,
      (chain .subtract [0x00, 0x80] [0x01, 0x00] true).getLast? = some last ∧
      unsigned ((chain .subtract [0x00, 0x80] [0x01, 0x00] true).map Sum.value) = 0x7FFF ∧
      last.carry = true ∧ last.overflow = true ∧
      (isNegative last.value ^^ last.overflow) = true := by
  have matched : [(0x00 : Byte), 0x80].length = [(0x01 : Byte), 0x00].length := rfl
  obtain ⟨_, ⟨last, found, held, compared⟩, _⟩ := chain_exact true matched (by decide)
  obtain ⟨carry, sign⟩ := compared rfl
  refine ⟨last, found, rfl, carry.mpr (by decide), held.overflow.mpr (by decide), ?_⟩
  exact sign.mpr (by decide)

end Nmos6502.Alu
