import Nmos6502.Bus.Image
import Nmos6502.Proofs.Arithmetic
import Nmos6502.Proofs.Frame

/-!
Loads, stores, logic and bit tests. Each has a register, a connective or three flags of its own, and
finds its operand through whichever mode it is encoded in. Main statement: what belongs to it is set
from the operand, everything else stays, and only the stores send a byte to the bus
(`step_moves_data`).
-/

namespace Nmos6502

namespace Operation

theorem action_of_load : ∀ entry ∈ [(lda, Register.a), (ldx, .x), (ldy, .y)],
    entry.1.action = .ok (.load entry.2) := by
  decide

theorem action_of_store : ∀ entry ∈ [(sta, Register.a), (stx, .x), (sty, .y)],
    entry.1.action = .ok (.store entry.2) := by
  decide

theorem exists_logic {operation : Operation} {connective : Bool → Bool → Bool}
    (combining : (operation, connective) ∈ [(and, Bool.and), (eor, Bool.xor), (ora, Bool.or)]) :
    ∃ rule : Logic,
      operation.action = .ok (.combine rule) ∧
      ∀ accumulator operand index, (rule.apply accumulator operand).toNat.testBit index =
        connective (accumulator.toNat.testBit index) (operand.toNat.testBit index) := by
  simp only [List.mem_cons, List.not_mem_nil, or_false, Prod.mk.injEq] at combining
  rcases combining with ⟨rfl, rfl⟩ | ⟨rfl, rfl⟩ | ⟨rfl, rfl⟩
  · refine ⟨.and, rfl, fun accumulator operand index => ?_⟩
    rw [Logic.apply, UInt8.toNat_and, Nat.testBit_and]
  · refine ⟨.eor, rfl, fun accumulator operand index => ?_⟩
    rw [Logic.apply, UInt8.toNat_xor, Nat.testBit_xor]
  · refine ⟨.ora, rfl, fun accumulator operand index => ?_⟩
    rw [Logic.apply, UInt8.toNat_or, Nat.testBit_or]

end Operation

namespace Machine

variable {σ : Type} [Bus σ] (machine : Machine σ)

theorem exists_operand {action : Action} {change : Byte → Processor → Processor}
    (sorted : machine.operation.action = .ok action) (reads : action.reading? = some change) :
    ∃ operand,
      (decode machine.opcode).operand? (Bus.read machine.bus) machine.processor = some operand ∧
      machine.SetsOnly (action.registers (decode machine.opcode).mode) action.flags []
        machine.next ∧
      machine.next.processor =
        (change operand (machine.processor.skip (decode machine.opcode).size)).elapse
          machine.cost := by
  obtain ⟨operand, found, quiet, left⟩ := machine.next_of_reading sorted reads
  have kept := machine.setsOnly_of_action sorted
  rw [quiet] at kept
  exact ⟨operand, found, kept, congrArg Machine.processor left⟩

theorem setsOnly_of_store {source : Register}
    (sorted : machine.operation.action = .ok (.store source)) :
    ∃ cell,
      (decode machine.opcode).mode.address? (Bus.read machine.bus) (machine.processor.skip 1) =
        some cell ∧
      machine.SetsOnly [] [] [⟨cell, machine.processor.get source⟩] machine.next := by
  have kept := machine.setsOnly_of_action sorted
  have sent : machine.transition.writes =
      [⟨(decode machine.opcode).mode.address (Bus.read machine.bus) (machine.processor.skip 1),
        machine.processor.get source⟩] := by
    rw [transition, effect_of_action machine sorted, ← machine.processor.get_skip 1]
    rfl
  rw [sent] at kept
  exact ⟨_, AddressingMode.address?_eq_some_address _ _ _ (Instruction.admits_decode sorted), kept⟩

/-- A step at a load, a logical operation, a bit test or a store, in any of their modes. -/
theorem step_moves_data :
    (∀ target : Register, (machine.operation, target) ∈ [(.lda, .a), (.ldx, .x), (.ldy, .y)] →
      ∃ next operand,
        (decode machine.opcode).operand? (Bus.read machine.bus) machine.processor = some operand ∧
        machine.SetsOnly [target] [.zero, .negative] [] next ∧
        next.processor.get target = operand) ∧
    (∀ connective, (machine.operation, connective) ∈
        [(.and, Bool.and), (.eor, Bool.xor), (.ora, Bool.or)] →
      ∃ next operand,
        (decode machine.opcode).operand? (Bus.read machine.bus) machine.processor = some operand ∧
        machine.SetsOnly [.a] [.zero, .negative] [] next ∧
        ∀ index, next.processor.a.toNat.testBit index =
          connective (machine.processor.a.toNat.testBit index) (operand.toNat.testBit index)) ∧
    (machine.operation = .bit →
      ∃ next operand,
        (decode machine.opcode).operand? (Bus.read machine.bus) machine.processor = some operand ∧
        machine.SetsOnly [] [.zero, .overflow, .negative] [] next ∧
        (next.processor.flags.zero = true ↔ machine.processor.a &&& operand = 0) ∧
        next.processor.flags.negative = operand.toNat.testBit 7 ∧
        next.processor.flags.overflow = operand.toNat.testBit 6) ∧
    ∀ source : Register, (machine.operation, source) ∈ [(.sta, .a), (.stx, .x), (.sty, .y)] →
      ∃ next cell,
        (decode machine.opcode).mode.address? (Bus.read machine.bus) (machine.processor.skip 1) =
          some cell ∧
        machine.SetsOnly [] [] [⟨cell, machine.processor.get source⟩] next := by
  refine ⟨?_, ?_, ?_, ?_⟩
  · intro target loading
    obtain ⟨operand, found, kept, left⟩ :=
      machine.exists_operand (Operation.action_of_load _ loading) rfl
    refine ⟨machine.next, operand, found, kept, ?_⟩
    rw [left]
    cases target <;> rfl
  · intro connective combining
    obtain ⟨rule, sorted, bitwise⟩ := Operation.exists_logic combining
    obtain ⟨operand, found, kept, left⟩ := machine.exists_operand sorted rfl
    refine ⟨machine.next, operand, found, kept, fun index => ?_⟩
    rw [left, ← bitwise]
    rfl
  · intro testing
    have sorted : machine.operation.action = .ok .testBits := by
      rw [testing]
      rfl
    obtain ⟨operand, found, kept, left⟩ := machine.exists_operand sorted rfl
    refine ⟨machine.next, operand, found, kept, ?_, ?_, ?_⟩
    · rw [left]
      exact beq_iff_eq
    · rw [left]
      exact and_ne_zero_eq_testBit operand rfl
    · rw [left]
      exact and_ne_zero_eq_testBit operand rfl
  · intro source storing
    exact ⟨machine.next, machine.setsOnly_of_store (Operation.action_of_store _ storing)⟩

/-- A bit test whose operand shares no bit with the accumulator. -/
def maskedBits : Machine View where
  processor := { Processor.startingAt 0x0200 with a := 0x0F, x := 0x77, y := 0x12 }
  bus := Bus.writeAll (fun _ => 0)
    (Image.writes ⟨0x0200, [0x24, 0x10, 0x96, 0xF0]⟩ ++ Image.writes ⟨0x0010, [0xC0]⟩)

/-- The store behind it, whose index wraps on page zero. -/
def wrappingStore : Machine View :=
  { maskedBits with processor := maskedBits.processor.skip 2 }

theorem decode_maskedBits : decode maskedBits.opcode = ⟨.bit, .zeroPage, 3⟩ := by
  rw [decode_eq_search]
  rfl

theorem decode_wrappingStore : decode wrappingStore.opcode = ⟨.stx, .zeroPageY, 4⟩ := by
  rw [decode_eq_search]
  rfl

/-- The negative and the overflow flag come from the operand, though the accumulator masks it. -/
theorem step_moves_data_maskedBits :
    (∃ next,
      maskedBits.SetsOnly [] [.zero, .overflow, .negative] [] next ∧
      next.processor.flags.zero = true ∧
      next.processor.flags.negative = true ∧
      next.processor.flags.overflow = true) ∧
    ∃ next, wrappingStore.SetsOnly [] [] [⟨0x0002, 0x77⟩] next := by
  constructor
  · have decoded := decode_maskedBits
    obtain ⟨_, _, testing, _⟩ := step_moves_data maskedBits
    rw [operation, decoded] at testing
    obtain ⟨next, operand, found, kept, zero, negative, overflow⟩ := testing rfl
    have operand_eq : operand = 0xC0 := (Option.some.inj found).symm
    subst operand_eq
    exact ⟨next, kept, zero.mpr rfl, negative, overflow⟩
  · have decoded := decode_wrappingStore
    obtain ⟨_, _, _, storing⟩ := step_moves_data wrappingStore
    rw [operation, decoded] at storing
    obtain ⟨next, cell, located, sent⟩ := storing .x (by simp)
    have cell_eq : cell = 0x0002 := (Option.some.inj located).symm
    subst cell_eq
    exact ⟨next, sent⟩

end Machine

end Nmos6502
