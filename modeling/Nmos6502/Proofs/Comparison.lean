import Nmos6502.Proofs.LoadStore
import Nmos6502.Proofs.Multibyte
import Nmos6502.Proofs.ResultFlags

/-!
Comparisons. The carry of a comparison is formed by comparing, that of a subtraction in the ninth
bit of a sum with the complement. Main statement: a comparison orders unsigned bytes, changes
nothing but three flags, and leaves these as the subtraction does that begins without a borrow
(`step_compares`).
-/

namespace Nmos6502

namespace Flags

/-- How two bytes compare as unsigned numbers. -/
structure Compare (flags : Flags) (left right : Byte) : Prop where
  carry : flags.carry = true ↔ right.toNat ≤ left.toNat
  zero : flags.zero = true ↔ left = right
  negative : flags.negative = true ↔ 128 ≤ ((left.toNat : Int) - right.toNat) % 256

end Flags

namespace Processor

variable (processor : Processor) (left right : Byte)

theorem compare_withComparison :
    (processor.withComparison (Alu.compare left right)).flags.Compare left right where
  carry := by
    rw [← UInt8.le_iff_toNat_le]
    exact decide_eq_true_iff
  zero := by
    have leftBound := left.toNat_lt
    have rightBound := right.toNat_lt
    change (left - right == 0) = true ↔ _
    rw [beq_iff_eq, ← UInt8.toNat_inj, ← UInt8.toNat_inj, UInt8.toNat_sub, UInt8.toNat_zero]
    omega
  negative := by
    rw [← toNat_sub_eq_emod, ← Nat.cast_ofNat, Nat.cast_le]
    exact isNegative_iff (left - right)

/-- The flags of a comparison are those of the difference taken without a borrow. -/
theorem get_withSum_subtract (other : Processor) {flag : Flag}
    (shared : flag ∈ [.carry, .zero, .negative]) :
    (other.withSum (Alu.subtract left right true)).flags.get flag =
      (processor.withComparison (Alu.compare left right)).flags.get flag := by
  obtain ⟨difference, carry⟩ := Alu.subtract_eq_compare left right
  simp only [withSum, withComparison, flags_withResult, flags_withFlag, Flags.get_withResult,
    Flags.get_set, difference, carry]
  cases flag <;> first | rfl | simp at shared

end Processor

theorem Operation.action_of_compare : ∀ entry ∈ [(cmp, Register.a), (cpx, .x), (cpy, .y)],
    entry.1.action = .ok (.compare entry.2) := by
  decide

namespace Machine

variable {σ : Type} [Bus σ]

/-- A machine about to subtract a byte from another, without a borrow. -/
structure Subtracts (machine : Machine σ) (left right : Byte) : Prop where
  operation : machine.operation = .sbc
  accumulator : machine.processor.a = left
  carry : machine.processor.flags.carry = true
  operand :
    (decode machine.opcode).operand? (Bus.read machine.bus) machine.processor = some right

theorem Subtracts.next {machine : Machine σ} {left right : Byte}
    (subtracting : machine.Subtracts left right) :
    ∃ before : Processor,
      machine.next.processor =
        (before.withSum (Alu.subtract left right true)).elapse machine.cost := by
  have sorted : machine.operation.action = .ok (.calculate .subtract) := by
    rw [subtracting.operation]
    rfl
  obtain ⟨operand, found, _, left⟩ := machine.exists_operand sorted rfl
  cases found.symm.trans subtracting.operand
  refine ⟨machine.processor.skip (decode machine.opcode).size, ?_⟩
  rw [left, ← subtracting.accumulator, ← subtracting.carry]
  rfl

variable {machine : Machine σ}

/-- A step at CMP, CPX or CPY, in any of their modes. Whatever other machine subtracts the same
bytes without a borrow, by its own mode and on its own bus, is left with the same three flags, and
with the difference that they describe. -/
theorem step_compares {register : Register}
    (comparing : (machine.operation, register) ∈ [(.cmp, .a), (.cpx, .x), (.cpy, .y)]) :
    ∃ next operand,
      (decode machine.opcode).operand? (Bus.read machine.bus) machine.processor = some operand ∧
      machine.SetsOnly [] [.carry, .zero, .negative] [] next ∧
      next.processor.flags.Compare (machine.processor.get register) operand ∧
      ∀ {τ : Type} [Bus τ] (subtracting : Machine τ),
        subtracting.Subtracts (machine.processor.get register) operand →
        ∃ transition difference,
          subtracting.step = .ok (transition, difference) ∧
          difference.processor.a =
            (Alu.compare (machine.processor.get register) operand).difference ∧
          ∀ flag ∈ [.carry, .zero, .negative],
            difference.processor.flags.get flag = next.processor.flags.get flag := by
  have sorted := Operation.action_of_compare _ comparing
  obtain ⟨operand, found, kept, left⟩ := machine.exists_operand sorted rfl
  rw [Processor.get_skip] at left
  refine ⟨machine.next, operand, found, kept, ?_, ?_⟩
  · rw [left]
    exact Processor.compare_withComparison _ _ _
  · intro τ _ subtracting subtracts
    obtain ⟨before, difference⟩ := subtracts.next
    refine ⟨subtracting.transition, subtracting.next, subtracting.step_eq, ?_, ?_⟩
    · rw [difference]
      exact (Alu.subtract_eq_compare _ _).1
    · intro flag shared
      rw [difference, left]
      exact Processor.get_withSum_subtract _ _ _ _ shared

/-- A comparison through a pointer whose index carries into the next page. -/
def pageCrossingComparison : Machine View where
  processor := { Processor.startingAt 0x0200 with a := 0x10, y := 1 }
  bus := Bus.writeAll (fun _ => 0)
    (Image.writes ⟨0x0200, [0xD1, 0x10]⟩ ++ Image.writes ⟨0x0010, [0xFF, 0x12]⟩ ++
      Image.writes ⟨0x1300, [0x90]⟩)

/-- A subtraction of the same bytes whose operand lies behind its opcode. -/
def immediateDifference : Machine View where
  processor := { Processor.startingAt 0x0300 with a := 0x10, flags := .ofByte 0x01 }
  bus := Bus.writeAll (fun _ => 0) (Image.writes ⟨0x0300, [0xE9, 0x90]⟩)

theorem decode_pageCrossingComparison :
    decode pageCrossingComparison.opcode = ⟨.cmp, .indirectY, 5⟩ := by
  rw [decode_eq_search]
  rfl

theorem decode_immediateDifference :
    decode immediateDifference.opcode = ⟨.sbc, .immediate, 2⟩ := by
  rw [decode_eq_search]
  rfl

theorem subtracts_immediateDifference : immediateDifference.Subtracts 0x10 0x90 where
  operation := by
    rw [Machine.operation, decode_immediateDifference]
  accumulator := rfl
  carry := by decide
  operand := by
    rw [decode_immediateDifference]
    rfl

/-- The smaller byte leaves a difference with the sign set, and no carry. -/
theorem step_compares_pageCrossingComparison :
    ∃ next transition difference,
      pageCrossingComparison.SetsOnly [] [.carry, .zero, .negative] [] next ∧
      next.processor.flags.carry = false ∧
      next.processor.flags.negative = true ∧
      immediateDifference.step = .ok (transition, difference) ∧
      difference.processor.a = 0x80 ∧
      difference.processor.flags.carry = false := by
  have decoded := decode_pageCrossingComparison
  have comparing : (pageCrossingComparison.operation, Register.a) ∈
      [(.cmp, .a), (.cpx, .x), (.cpy, .y)] := by
    rw [operation, decoded]
    exact List.mem_cons_self
  obtain ⟨next, operand, found, kept, compared, subtracted⟩ := step_compares comparing
  have operand_eq : operand = 0x90 := by
    rw [decoded] at found
    exact (Option.some.inj found).symm
  subst operand_eq
  obtain ⟨transition, difference, stepped, left, shared⟩ :=
    subtracted immediateDifference subtracts_immediateDifference
  have below : next.processor.flags.carry = false := by
    rw [← Bool.not_eq_true, compared.carry]
    decide
  exact ⟨next, transition, difference, kept, below, compared.negative.mpr (by decide), stepped,
    left, (shared .carry (by simp)).trans below⟩

end Machine

end Nmos6502
