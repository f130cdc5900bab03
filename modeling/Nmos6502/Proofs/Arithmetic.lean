import Nmos6502.Bus.Image
import Nmos6502.Proofs.Contents
import Nmos6502.Proofs.Operand
import Mathlib.Data.Nat.Bitwise

/-!
Sums and differences as integers. The rules find the carry in a ninth bit and the signed overflow in
the signs of three bytes. Main statement: whatever the mode and the decimal flag, the accumulator is
the sum or difference modulo 256, the carry tells whether it left the unsigned range, and the
overflow whether it left the signed one (`step_calculates`).
-/

namespace Nmos6502

theorem and_ne_zero_eq_testBit (value : Byte) {mask : Byte} {index : Nat}
    (single : mask.toNat = 2 ^ index) : (value &&& mask != 0) = value.toNat.testBit index := by
  rw [Bool.eq_iff_iff, bne_iff_ne, ne_eq, ← UInt8.toNat_inj, UInt8.toNat_and, single,
    Nat.and_two_pow, UInt8.toNat_zero]
  cases value.toNat.testBit index <;> simp

theorem isNegative_eq_testBit (value : Byte) : isNegative value = value.toNat.testBit 7 :=
  and_ne_zero_eq_testBit value rfl

theorem isNegative_iff (value : Byte) : isNegative value = true ↔ 128 ≤ value.toNat := by
  have bound := value.toNat_lt
  rw [isNegative_eq_testBit, Nat.testBit_eq_decide_div_mod_eq, decide_eq_true_eq]
  omega

/-- Two's complement: the upper half of the bytes stands for the negative numbers. -/
theorem toInt_toInt8 (value : Byte) :
    value.toInt8.toInt =
      if value.toNat < 128 then (value.toNat : Int) else value.toNat - 256 := by
  have signed : value.toInt8.toInt =
      if 2 * value.toNat < 2 ^ 8 then (value.toNat : Int) else value.toNat - (2 ^ 8 : Nat) :=
    BitVec.toInt_eq_toNat_cond value.toBitVec
  rw [signed]
  split <;> split <;> omega

namespace Alu

variable (accumulator operand : Byte) (carry : Bool)

/-- Value and carry together are the sum. -/
theorem toNat_add :
    (add accumulator operand carry).value.toNat +
        256 * (add accumulator operand carry).carry.toNat =
      accumulator.toNat + operand.toNat + carry.toNat := by
  have accumulatorBound := accumulator.toNat_lt
  have operandBound := operand.toNat_lt
  have carryBound := carry.toNat_le
  have widened : carry.toUInt16.toNat = carry.toNat := by
    cases carry <;> rfl
  have wide : (accumulator.toUInt16 + operand.toUInt16 + carry.toUInt16).toNat =
      accumulator.toNat + operand.toNat + carry.toNat := by
    simp only [UInt16.toNat_add, UInt8.toNat_toUInt16, widened]
    omega
  have limit : (0xFF : UInt16).toNat = 255 := rfl
  simp only [add, UInt16.toNat_toUInt8, UInt16.lt_iff_toNat_lt, wide, limit]
  by_cases carries : 255 < accumulator.toNat + operand.toNat + carry.toNat
  · rw [decide_eq_true carries, Bool.toNat_true]
    omega
  · rw [decide_eq_false carries, Bool.toNat_false]
    omega

theorem overflow_add :
    (add accumulator operand carry).overflow = true ↔
      accumulator.toInt8.toInt + operand.toInt8.toInt + carry.toNat < -128 ∨
      127 < accumulator.toInt8.toInt + operand.toInt8.toInt + carry.toNat := by
  have sum := toNat_add accumulator operand carry
  have accumulatorBound := accumulator.toNat_lt
  have operandBound := operand.toNat_lt
  have carryBound := carry.toNat_le
  have valueBound := (add accumulator operand carry).value.toNat_lt
  have signs : (add accumulator operand carry).overflow = true ↔
      (128 ≤ accumulator.toNat ↔ 128 ≤ operand.toNat) ∧
        ¬(128 ≤ (add accumulator operand carry).value.toNat ↔ 128 ≤ operand.toNat) := by
    simp only [← isNegative_iff, ← Bool.eq_iff_iff]
    simp only [add, Bool.and_eq_true, beq_iff_eq, bne_iff_ne, ne_eq]
  rw [signs, toInt_toInt8, toInt_toInt8]
  split <;> split <;> omega

/-- The complement of an operand is what is missing from it to the largest byte. -/
theorem toNat_subtract :
    (subtract accumulator operand carry).value.toNat + operand.toNat +
        256 * (subtract accumulator operand carry).carry.toNat =
      accumulator.toNat + 255 + carry.toNat := by
  have bound := operand.toNat_lt
  have complement : (~~~operand).toNat = 255 - operand.toNat := UInt8.toNat_not operand
  have sum := toNat_add accumulator (~~~operand) carry
  rw [← subtract] at sum
  omega

theorem toInt_toInt8_not (value : Byte) : (~~~value).toInt8.toInt = -1 - value.toInt8.toInt := by
  have bound := value.toNat_lt
  have complement : (~~~value).toNat = 255 - value.toNat := UInt8.toNat_not value
  rw [toInt_toInt8, toInt_toInt8, complement]
  split <;> split <;> omega

theorem overflow_subtract :
    (subtract accumulator operand carry).overflow = true ↔
      accumulator.toInt8.toInt - operand.toInt8.toInt - (1 - carry.toNat) < -128 ∨
      127 < accumulator.toInt8.toInt - operand.toInt8.toInt - (1 - carry.toNat) := by
  rw [subtract, overflow_add, toInt_toInt8_not]
  omega

end Alu

namespace Processor

/-- The accumulator and two flags hold the sum of two bytes and a carry. -/
structure HoldsSum (processor : Processor) (left right : Byte) (incoming : Bool) : Prop where
  value : processor.a.toNat = (left.toNat + right.toNat + incoming.toNat) % 256
  carry : processor.flags.carry = true ↔ 255 < left.toNat + right.toNat + incoming.toNat
  overflow : processor.flags.overflow = true ↔
    left.toInt8.toInt + right.toInt8.toInt + incoming.toNat < -128 ∨
      127 < left.toInt8.toInt + right.toInt8.toInt + incoming.toNat

/-- They hold the difference of two bytes. A clear carry takes one more away. -/
structure HoldsDifference (processor : Processor) (left right : Byte) (incoming : Bool) :
    Prop where
  value : (processor.a.toNat : Int) = (left.toNat - right.toNat - (1 - incoming.toNat)) % 256
  carry : processor.flags.carry = true ↔ right.toNat + (1 - incoming.toNat) ≤ left.toNat
  overflow : processor.flags.overflow = true ↔
    left.toInt8.toInt - right.toInt8.toInt - (1 - incoming.toNat) < -128 ∨
      127 < left.toInt8.toInt - right.toInt8.toInt - (1 - incoming.toNat)

variable (processor : Processor) (left right : Byte) (incoming : Bool)

theorem holdsSum_withSum :
    (processor.withSum (Alu.add left right incoming)).HoldsSum left right incoming := by
  have sum := Alu.toNat_add left right incoming
  have bound := (Alu.add left right incoming).value.toNat_lt
  have carryBound := (Alu.add left right incoming).carry.toNat_le
  refine ⟨?_, ?_, Alu.overflow_add left right incoming⟩
  · change (Alu.add left right incoming).value.toNat = _
    omega
  · change (Alu.add left right incoming).carry = true ↔ _
    rw [← Bool.toNat_eq_one]
    omega

theorem holdsDifference_withSum :
    (processor.withSum (Alu.subtract left right incoming)).HoldsDifference left right incoming := by
  have sum := Alu.toNat_subtract left right incoming
  have bound := (Alu.subtract left right incoming).value.toNat_lt
  have carryBound := (Alu.subtract left right incoming).carry.toNat_le
  have incomingBound := incoming.toNat_le
  refine ⟨?_, ?_, Alu.overflow_subtract left right incoming⟩
  · change ((Alu.subtract left right incoming).value.toNat : Int) = _
    omega
  · change (Alu.subtract left right incoming).carry = true ↔ _
    rw [← Bool.toNat_eq_one]
    omega

end Processor

theorem Action.effect_calculate_withDecimal (rule : Arithmetic) (mode : AddressingMode)
    (charge : IndexCharge) (view : View) (processor : Processor) (decimal : Bool) :
    (calculate rule).effect mode charge view (processor.withFlag .decimal decimal) =
      let effect := (calculate rule).effect mode charge view processor
      { effect with processor := effect.processor.withFlag .decimal decimal } := by
  cases mode <;> rfl

namespace Machine

variable {σ : Type} [Bus σ] {machine : Machine σ}

def withDecimal (machine : Machine σ) (decimal : Bool) : Machine σ :=
  { machine with processor := machine.processor.withFlag .decimal decimal }

/-- The decimal flag has no part in an instruction that adds or subtracts, and comes through it. -/
theorem next_withDecimal {rule : Arithmetic}
    (calculating : machine.operation.action = .ok (.calculate rule)) (decimal : Bool) :
    (machine.withDecimal decimal).next = machine.next.withDecimal decimal := by
  have sorted : (machine.withDecimal decimal).operation.action = .ok (.calculate rule) :=
    calculating
  have effect := Action.effect_calculate_withDecimal rule (decode machine.opcode).mode
    machine.operation.indexCharge (Bus.read machine.bus) (machine.processor.skip 1) decimal
  have performed : (machine.withDecimal decimal).next =
      let performed := (Action.calculate rule).effect (decode machine.opcode).mode
        machine.operation.indexCharge (Bus.read machine.bus)
        ((machine.processor.skip 1).withFlag .decimal decimal)
      { processor := performed.processor.elapse (performed.cycles + 1)
        bus := Bus.writeAll machine.bus performed.writes } :=
    next_of_action _ sorted
  rw [effect] at performed
  rw [performed, next_of_action machine calculating]
  rfl

/-- A step at ADC or SBC, in any of their modes: what it computes, that the decimal flag makes no
difference to it, and what it leaves alone. -/
theorem step_calculates (calculating : machine.operation = .adc ∨ machine.operation = .sbc) :
    ∃ transition next operand,
      machine.step = .ok (transition, next) ∧
      (decode machine.opcode).operand? (Bus.read machine.bus) machine.processor = some operand ∧
      (machine.operation = .adc →
        next.processor.HoldsSum machine.processor.a operand machine.processor.flags.carry) ∧
      (machine.operation = .sbc →
        next.processor.HoldsDifference machine.processor.a operand
          machine.processor.flags.carry) ∧
      (next.processor.flags.zero = true ↔ next.processor.a = 0) ∧
      (next.processor.flags.negative = true ↔ 128 ≤ next.processor.a.toNat) ∧
      (∀ register ≠ .a, next.processor.get register = machine.processor.get register) ∧
      (∀ flag ∉ [.carry, .zero, .overflow, .negative],
        next.processor.flags.get flag = machine.processor.flags.get flag) ∧
      next.bus = machine.bus ∧
      transition.writes = [] ∧
      ∀ decimal, ∃ other,
        (machine.withDecimal decimal).step = .ok (other, next.withDecimal decimal) := by
  have sorted : ∃ rule, machine.operation.action = .ok (.calculate rule) := by
    rcases calculating with adc | sbc
    · exact ⟨.add, by rw [adc]; rfl⟩
    · exact ⟨.subtract, by rw [sbc]; rfl⟩
  obtain ⟨rule, sorted⟩ := sorted
  obtain ⟨operand, found, quiet, left⟩ := machine.next_of_reading sorted rfl
  refine ⟨machine.transition, machine.next, operand, machine.step_eq, found, ?_, ?_, ?_, ?_, ?_, ?_,
    ?_, quiet, ?_⟩
  · intro adc
    rw [adc] at sorted
    cases sorted
    rw [left]
    have held := Processor.holdsSum_withSum (machine.processor.skip (decode machine.opcode).size)
      machine.processor.a operand machine.processor.flags.carry
    exact ⟨held.value, held.carry, held.overflow⟩
  · intro sbc
    rw [sbc] at sorted
    cases sorted
    rw [left]
    have held := Processor.holdsDifference_withSum
      (machine.processor.skip (decode machine.opcode).size) machine.processor.a operand
      machine.processor.flags.carry
    exact ⟨held.value, held.carry, held.overflow⟩
  · rw [left]
    exact beq_iff_eq
  · rw [left]
    exact isNegative_iff _
  · intro register other
    rw [left]
    cases register <;> first | rfl | contradiction
  · intro flag unset
    rw [left]
    cases flag <;> first | rfl | simp at unset
  · rw [left]
  · intro decimal
    refine ⟨(machine.withDecimal decimal).transition, ?_⟩
    rw [step_eq, next_withDecimal sorted]

/-- A machine in decimal mode about to subtract 1 from −128 through a pointer that its index carries
into the next page. -/
def pageCrossingDifference : Machine View where
  processor :=
    { Processor.startingAt 0x0200 with
      a := 0x80
      y := 1
      flags := .ofByte 0x09 }
  bus := Bus.writeAll (fun _ => 0)
    (Image.writes ⟨0x0200, [0xF1, 0x10]⟩ ++ Image.writes ⟨0x0010, [0xFF, 0x12]⟩ ++
      Image.writes ⟨0x1300, [0x01]⟩)

theorem operand_pageCrossingDifference :
    pageCrossingDifference.operation = .sbc ∧
    (decode pageCrossingDifference.opcode).operand? pageCrossingDifference.bus
      pageCrossingDifference.processor = some 1 := by
  rw [operation, decode_eq_search]
  exact ⟨rfl, rfl⟩

/-- Binary, not decimal: 127 with the overflow set, where 79 would be the decimal answer. -/
theorem step_calculates_pageCrossingDifference :
    ∃ transition next,
      pageCrossingDifference.step = .ok (transition, next) ∧
      next.processor.a.toNat = 127 ∧
      next.processor.flags.overflow = true ∧
      next.processor.flags.carry = true ∧
      next.bus = pageCrossingDifference.bus := by
  obtain ⟨sbc, found⟩ := operand_pageCrossingDifference
  obtain ⟨transition, next, operand, stepped, located, _, difference, _, _, _, _, kept, _⟩ :=
    step_calculates (.inr sbc)
  cases located.symm.trans found
  have held := difference sbc
  refine ⟨transition, next, stepped, ?_, ?_, ?_, kept⟩
  · exact Int.ofNat.inj held.value
  · exact held.overflow.mpr (by decide)
  · exact held.carry.mpr (by decide)

end Machine

end Nmos6502
