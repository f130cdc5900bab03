import Nmos6502.Proofs.Multibyte
import Nmos6502.Proofs.Replacement

/-!
Numbers of many bytes, shifted by one place. A program shifts them one byte at a time, to the left
from the lowest byte and to the right from the highest, and each byte takes in the bit that fell off
the one before. Main statement: the chains double and halve the number as a whole, and each undoes
the other (`chains_shift`).
-/

namespace Nmos6502

/-- The bytes of a number that was shifted, the lowest first, and the bit that fell off its end. -/
structure ShiftedBytes where
  values : List Byte
  carry : Bool
  deriving DecidableEq

namespace Shift

open Alu (unsigned unsigned_cons unsigned_inj unsigned_lt)

/-- Shifts bytes in the order they come, the first by one rule and the others by another. -/
def chain (first later : Shift) : List Byte → Bool → ShiftedBytes
  | [], carry => ⟨[], carry⟩
  | byte :: rest, carry =>
      let shifted := first.apply byte carry
      let others := chain later later rest shifted.carry
      ⟨shifted.value :: others.values, others.carry⟩

/-- A shift to the left, from the lowest byte to the highest. -/
def ascend (first : Shift) (bytes : List Byte) (carry : Bool) : ShiftedBytes :=
  chain first rol bytes carry

/-- A shift to the right, from the highest byte to the lowest. -/
def descend (first : Shift) (bytes : List Byte) (carry : Bool) : ShiftedBytes :=
  let shifted := chain first ror bytes.reverse carry
  ⟨shifted.values.reverse, shifted.carry⟩

theorem chain_concat (rule : Shift) (bytes : List Byte) (last : Byte) (carry : Bool) :
    chain rule rule (bytes ++ [last]) carry =
      let before := chain rule rule bytes carry
      let shifted := rule.apply last before.carry
      ⟨before.values ++ [shifted.value], shifted.carry⟩ := by
  induction bytes generalizing carry with
  | nil => rfl
  | cons byte rest induction =>
      rw [List.cons_append, chain, induction]
      rfl

theorem ascend_rol_cons (low : Byte) (rest : List Byte) (carry : Bool) :
    ascend rol (low :: rest) carry =
      let shifted := rol.apply low carry
      let higher := ascend rol rest shifted.carry
      ⟨shifted.value :: higher.values, higher.carry⟩ := rfl

theorem descend_ror_cons (low : Byte) (rest : List Byte) (carry : Bool) :
    descend ror (low :: rest) carry =
      let higher := descend ror rest carry
      let shifted := ror.apply low higher.carry
      ⟨shifted.value :: higher.values, shifted.carry⟩ := by
  rw [descend, List.reverse_cons, chain_concat]
  simp [descend]

section

variable (operand : Byte) (carry : Bool)

theorem asl_eq_rol : asl.apply operand carry = rol.apply operand false := by
  have clear : false.toUInt8 = 0 := rfl
  rw [apply, apply, clear, UInt8.or_zero]

theorem lsr_eq_ror : lsr.apply operand carry = ror.apply operand false := by
  have clear : false.toUInt8 <<< 7 = 0 := rfl
  rw [apply, apply, clear, UInt8.or_zero]

/-- A rotation to the left is a doubling in nine bits. -/
theorem toNat_rol_add_carry :
    (rol.apply operand carry).value.toNat + 256 * (rol.apply operand carry).carry.toNat =
      2 * operand.toNat + carry.toNat := by
  have bound := operand.toNat_lt
  have carryBound := carry.toNat_le
  have off : (rol.apply operand carry).carry = decide (128 ≤ operand.toNat) := top_bit operand
  rw [toNat_rol, off]
  by_cases high : 128 ≤ operand.toNat
  · rw [decide_eq_true high, Bool.toNat_true]
    omega
  · rw [decide_eq_false high, Bool.toNat_false]
    omega

/-- A rotation to the right is a halving of nine bits, of which the carry is the top one. -/
theorem double_ror_add_carry :
    2 * (ror.apply operand carry).value.toNat + (ror.apply operand carry).carry.toNat =
      operand.toNat + 256 * carry.toNat := by
  have off : (ror.apply operand carry).carry = decide (operand.toNat % 2 = 1) :=
    bottom_bit operand
  rw [toNat_ror, off]
  by_cases odd : operand.toNat % 2 = 1
  · rw [decide_eq_true odd, Bool.toNat_true]
    omega
  · rw [decide_eq_false odd, Bool.toNat_false]
    omega

end

/-- One number is the double of another of as many bytes, with a bit that comes in at the bottom and
a bit that falls off the top. -/
structure IsDouble (doubled : List Byte) (top : Bool) (bytes : List Byte) (bottom : Bool) :
    Prop where
  length : doubled.length = bytes.length
  value : unsigned doubled + top.toNat * 256 ^ bytes.length =
    2 * unsigned bytes + bottom.toNat

theorem isDouble_ascend (bytes : List Byte) (carry : Bool) :
    IsDouble (ascend rol bytes carry).values (ascend rol bytes carry).carry bytes carry := by
  induction bytes generalizing carry with
  | nil => exact ⟨rfl, by simp [ascend, chain]⟩
  | cons low rest induction =>
      have lowest := toNat_rol_add_carry low carry
      have higher := induction (rol.apply low carry).carry
      rw [ascend_rol_cons]
      refine ⟨congrArg Nat.succ higher.length, ?_⟩
      have value := higher.value
      dsimp only
      rw [unsigned_cons, unsigned_cons, List.length_cons, Nat.pow_succ, ← Nat.mul_assoc]
      omega

theorem isDouble_descend (bytes : List Byte) (carry : Bool) :
    IsDouble bytes carry (descend ror bytes carry).values (descend ror bytes carry).carry := by
  induction bytes with
  | nil => exact ⟨rfl, by simp [descend, chain]⟩
  | cons low rest induction =>
      have lowest := double_ror_add_carry low (descend ror rest carry).carry
      rw [descend_ror_cons]
      refine ⟨congrArg Nat.succ induction.length, ?_⟩
      have value := induction.value
      dsimp only
      rw [unsigned_cons, unsigned_cons, List.length_cons, Nat.pow_succ, ← Nat.mul_assoc]
      omega

namespace IsDouble

variable {doubled other bytes found : List Byte} {top otherTop bottom foundBottom : Bool}

/-- A number and the bit below it have one double. -/
theorem unique (left : IsDouble doubled top bytes bottom)
    (right : IsDouble other otherTop bytes bottom) : other = doubled ∧ otherTop = top := by
  have places : 0 < 256 ^ bytes.length := Nat.pow_pos (by decide)
  have leftBound := unsigned_lt doubled
  have rightBound := unsigned_lt other
  rw [left.length] at leftBound
  rw [right.length] at rightBound
  -- The top bit and the number below it are a quotient and its remainder.
  obtain ⟨leftBit, leftRest⟩ := (Nat.div_mod_unique places).mpr
    ⟨Nat.mul_comm _ _ ▸ left.value, leftBound⟩
  obtain ⟨rightBit, rightRest⟩ := (Nat.div_mod_unique places).mpr
    ⟨Nat.mul_comm _ _ ▸ right.value, rightBound⟩
  have values := rightRest.symm.trans leftRest
  exact ⟨(unsigned_inj (right.length.trans left.length.symm)).mp values,
    Function.LeftInverse.injective Bool.ofNat_toNat (rightBit.symm.trans leftBit)⟩

/-- A number and the bit above it are the double of one number. -/
theorem half_unique (left : IsDouble doubled top bytes bottom)
    (right : IsDouble doubled top found foundBottom) : found = bytes ∧ foundBottom = bottom := by
  have lengths := right.length.symm.trans left.length
  have leftValue := left.value
  have rightValue := right.value
  rw [Nat.add_comm (2 * _)] at leftValue rightValue
  rw [lengths] at rightValue
  obtain ⟨leftHalf, leftBit⟩ := (Nat.div_mod_unique Nat.two_pos).mpr
    ⟨leftValue.symm, Bool.toNat_lt bottom⟩
  obtain ⟨rightHalf, rightBit⟩ := (Nat.div_mod_unique Nat.two_pos).mpr
    ⟨rightValue.symm, Bool.toNat_lt foundBottom⟩
  exact ⟨(unsigned_inj lengths).mp (rightHalf.symm.trans leftHalf),
    Function.LeftInverse.injective Bool.ofNat_toNat (rightBit.symm.trans leftBit)⟩

end IsDouble

theorem descend_ascend (bytes : List Byte) (carry : Bool) :
    descend ror (ascend rol bytes carry).values (ascend rol bytes carry).carry =
      ⟨bytes, carry⟩ := by
  obtain ⟨values, same⟩ := (isDouble_ascend bytes carry).half_unique (isDouble_descend _ _)
  exact congrArg₂ ShiftedBytes.mk values same

theorem ascend_descend (bytes : List Byte) (carry : Bool) :
    ascend rol (descend ror bytes carry).values (descend ror bytes carry).carry =
      ⟨bytes, carry⟩ := by
  obtain ⟨values, same⟩ := (isDouble_descend bytes carry).unique (isDouble_ascend _ _)
  exact congrArg₂ ShiftedBytes.mk values same

theorem ascend_asl {bytes : List Byte} (nonempty : bytes ≠ []) (carry : Bool) :
    ascend asl bytes carry = ascend rol bytes false := by
  obtain ⟨low, rest, rfl⟩ := List.exists_cons_of_ne_nil nonempty
  rw [ascend, ascend, chain, chain, asl_eq_rol]

theorem descend_lsr {bytes : List Byte} (nonempty : bytes ≠ []) (carry : Bool) :
    descend lsr bytes carry = descend ror bytes false := by
  obtain ⟨high, rest, reversed⟩ := List.exists_cons_of_ne_nil (List.reverse_ne_nil_iff.mpr nonempty)
  rw [descend, descend, reversed, chain, chain, lsr_eq_ror]

/-- What the chains of shifts make of a number of any length. -/
theorem chains_shift {bytes : List Byte} (nonempty : bytes ≠ []) (incoming : Bool) :
    let up := ascend rol bytes incoming
    let down := descend ror bytes incoming
    (up.values.length = bytes.length ∧
      unsigned up.values + up.carry.toNat * 256 ^ bytes.length =
        2 * unsigned bytes + incoming.toNat) ∧
    (down.values.length = bytes.length ∧
      2 * unsigned down.values + down.carry.toNat =
        unsigned bytes + incoming.toNat * 256 ^ bytes.length) ∧
    ascend asl bytes incoming = ascend rol bytes false ∧
    descend lsr bytes incoming = descend ror bytes false ∧
    descend ror up.values up.carry = ⟨bytes, incoming⟩ ∧
    ascend rol down.values down.carry = ⟨bytes, incoming⟩ := by
  intro up down
  have doubled : IsDouble up.values up.carry bytes incoming := isDouble_ascend bytes incoming
  have halved : IsDouble bytes incoming down.values down.carry := isDouble_descend bytes incoming
  have matched : down.values.length = bytes.length := halved.length.symm
  have value := halved.value
  rw [matched] at value
  exact ⟨⟨doubled.length, doubled.value⟩, ⟨matched, value.symm⟩, ascend_asl nonempty incoming,
    descend_lsr nonempty incoming, descend_ascend bytes incoming, ascend_descend bytes incoming⟩

/-- Three bytes doubled: a bit is carried out of the lowest byte, none out of the middle one, and
one off the top. -/
theorem chains_shift_threeBytes :
    ascend rol [0x81, 0x40, 0xC0] true = ⟨[0x03, 0x81, 0x80], true⟩ ∧
    unsigned [0x03, 0x81, 0x80] + 256 ^ 3 = 2 * unsigned [0x81, 0x40, 0xC0] + 1 ∧
    ascend asl [0x81, 0x40, 0xC0] true = ⟨[0x02, 0x81, 0x80], true⟩ ∧
    descend ror [0x03, 0x81, 0x80] true = ⟨[0x81, 0x40, 0xC0], true⟩ := by
  have nonempty : [(0x81 : Byte), 0x40, 0xC0] ≠ [] := by decide
  obtain ⟨⟨_, doubled⟩, _, unrotated, _, restored, _⟩ := chains_shift nonempty true
  refine ⟨rfl, doubled, ?_, restored⟩
  rw [unrotated]
  rfl

end Shift

end Nmos6502
