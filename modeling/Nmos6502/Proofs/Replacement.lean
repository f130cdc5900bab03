import Nmos6502.Proofs.LoadStore
import Nmos6502.Proofs.ResultFlags

/-!
Shifts, rotations and counting. These put another byte in the place of their operand, which is the
accumulator or a cell; only the shifts and rotations have both forms. Main statement: the byte and
the carry come out as doubling, halving and counting say, and either form leaves the same of them
(`step_replaces`).
-/

namespace Nmos6502

/-- The number that comes in the place of a byte, and the carry that comes with it. -/
structure Replacement where
  value : Int
  carry : Bool
  deriving DecidableEq

/-- The arithmetic of the operations that replace their operand. -/
def Operation.replacement? (old : Byte) (carry : Bool) : Operation → Option Replacement
  | asl => some ⟨2 * old.toNat % 256, 128 ≤ old.toNat⟩
  | rol => some ⟨(2 * old.toNat + carry.toNat) % 256, 128 ≤ old.toNat⟩
  | lsr => some ⟨old.toNat / 2, old.toNat % 2 = 1⟩
  | ror => some ⟨old.toNat / 2 + 128 * carry.toNat, old.toNat % 2 = 1⟩
  | inc => some ⟨(old.toNat + 1) % 256, carry⟩
  | dec => some ⟨(old.toNat - 1) % 256, carry⟩
  | _ => none

/-- The byte that an instruction replaces. -/
def Instruction.original? (instruction : Instruction) (view : View) (processor : Processor) :
    Option Byte :=
  if instruction.mode = .accumulator then
    some processor.a
  else
    (instruction.mode.address? view (processor.skip 1)).map view

theorem toNat_toUInt8 (bit : Bool) : bit.toUInt8.toNat = bit.toNat := by
  cases bit <;> rfl

namespace Shift

variable (operand : Byte) (carry : Bool)

theorem toNat_asl : (asl.apply operand carry).value.toNat = 2 * operand.toNat % 256 := by
  have doubled : (operand <<< 1).toNat = operand.toNat <<< 1 % 2 ^ 8 :=
    UInt8.toNat_shiftLeft operand 1
  rw [apply, doubled, Nat.shiftLeft_eq]
  omega

theorem toNat_rol :
    (rol.apply operand carry).value.toNat = (2 * operand.toNat + carry.toNat) % 256 := by
  have carryBound : carry.toNat < 2 ^ 1 := carry.toNat_lt
  -- The doubled byte is even, so that joining the carry to it is adding it.
  have joined := Nat.two_pow_add_eq_or_of_lt carryBound (operand.toNat % 128)
  have doubled := toNat_asl operand carry
  have even : 2 * operand.toNat % 256 = 2 ^ 1 * (operand.toNat % 128) := by
    omega
  rw [apply] at doubled
  rw [apply, UInt8.toNat_or, doubled, toNat_toUInt8, even, ← joined]
  omega

theorem toNat_lsr : (lsr.apply operand carry).value.toNat = operand.toNat / 2 := by
  have halved : (operand >>> 1).toNat = operand.toNat >>> 1 := UInt8.toNat_shiftRight operand 1
  rw [apply, halved, Nat.shiftRight_eq_div_pow]

theorem toNat_ror :
    (ror.apply operand carry).value.toNat = operand.toNat / 2 + 128 * carry.toNat := by
  have bound := operand.toNat_lt
  -- The halved byte has its top bit clear, which is where the carry goes.
  have halvedBound : operand.toNat / 2 < 2 ^ 7 := by
    omega
  have joined := Nat.two_pow_add_eq_or_of_lt halvedBound carry.toNat
  have halved := toNat_lsr operand carry
  have top : (carry.toUInt8 <<< 7).toNat = 2 ^ 7 * carry.toNat := by
    cases carry <;> rfl
  rw [apply] at halved
  rw [apply, UInt8.toNat_or, halved, top, Nat.or_comm, ← joined]
  omega

theorem top_bit : (operand &&& 0x80 != 0) = decide (128 ≤ operand.toNat) := by
  rw [Bool.eq_iff_iff, decide_eq_true_eq]
  exact isNegative_iff operand

theorem bottom_bit : (operand &&& 0x01 != 0) = decide (operand.toNat % 2 = 1) := by
  have single : (0x01 : Byte).toNat = 2 ^ 0 := rfl
  rw [and_ne_zero_eq_testBit operand single, Nat.testBit_zero]

end Shift

namespace Action

/-- What an action that replaces a byte makes of it under a carry. -/
def replacing? (carry : Bool) : Action → Option (Byte → Shifted)
  | shift rule => some fun old => rule.apply old carry
  | countMemory direction => some fun old => ⟨direction.apply old, carry⟩
  | _ => none

variable {action : Action} {change : Byte → Shifted} {mode : AddressingMode}
  (charge : IndexCharge) (view : View) (processor : Processor)

theorem effect_inPlace (replaces : action.replacing? processor.flags.carry = some change)
    (admitted : action.admits .accumulator = true) :
    action.effect .accumulator charge view processor =
      let shifted := change processor.a
      { processor := { processor with a := shifted.value }.withShifted shifted
        cycles := 1
        writes := [] } := by
  cases action with
  | shift rule =>
      cases replaces
      rfl
  | countMemory direction => contradiction
  | _ => contradiction

theorem effect_inMemory (replaces : action.replacing? processor.flags.carry = some change)
    (inMemory : mode ≠ .accumulator) :
    action.effect mode charge view processor =
      let cell := mode.address view processor
      let shifted := change (view cell)
      { processor := (processor.skip mode.operandBytes).withShifted shifted
        cycles := mode.locateCycles charge view processor + 3
        writes := [⟨cell, shifted.value⟩] } := by
  cases action with
  | shift rule =>
      cases replaces
      exact if_neg inMemory
  | countMemory direction =>
      cases replaces
      rfl
  | _ => contradiction

section

variable {carry : Bool} (replaces : action.replacing? carry = some change)

include replaces

theorem flags_of_replacing : action.flags ⊆ [.carry, .zero, .negative] := by
  cases action with
  | shift rule => exact List.Subset.refl _
  | countMemory direction => exact List.subset_cons_self _ _
  | _ => contradiction

theorem registers_of_replacing :
    action.registers mode ⊆ if mode = .accumulator then [.a] else [] := by
  cases action with
  | shift rule => exact List.Subset.refl _
  | countMemory direction => exact List.nil_subset _
  | _ => contradiction

theorem namesCell_of_replacing (admitted : action.admits mode = true)
    (inMemory : mode ≠ .accumulator) : mode.namesCell = true := by
  cases action with
  | shift rule => simpa [admits, inMemory] using admitted
  | countMemory direction => exact admitted
  | _ => contradiction

end

end Action

theorem Operation.exists_replacing {operation : Operation}
    (replacing : operation ∈ [.asl, .lsr, .rol, .ror, .inc, .dec]) (carry : Bool) :
    ∃ action change,
      operation.action = .ok action ∧
      action.replacing? carry = some change ∧
      ∀ old, operation.replacement? old carry =
        some ⟨(change old).value.toNat, (change old).carry⟩ := by
  simp only [List.mem_cons, List.not_mem_nil, or_false] at replacing
  rcases replacing with rfl | rfl | rfl | rfl | rfl | rfl <;>
    refine ⟨_, _, rfl, rfl, fun old => ?_⟩
  · rw [replacement?, Shift.toNat_asl, Shift.apply, Shift.top_bit]
    rfl
  · rw [replacement?, Shift.toNat_lsr, Shift.apply, Shift.bottom_bit]
    rfl
  · rw [replacement?, Shift.toNat_rol, Shift.apply, Shift.top_bit]
    rfl
  · rw [replacement?, Shift.toNat_ror, Shift.apply, Shift.bottom_bit]
    rfl
  · rw [replacement?, Count.apply, UInt8.toNat_add]
    rfl
  · rw [replacement?, Count.apply, toNat_sub_eq_emod]
    rfl

namespace Machine

variable {σ : Type} [Bus σ] {machine next : Machine σ}

theorem SetsOnly.mono {registers others : List Register} {flags further : List Flag}
    {writes : List Write} (kept : machine.SetsOnly registers flags writes next)
    (listed : registers ⊆ others) (included : flags ⊆ further) :
    machine.SetsOnly others further writes next where
  step := kept.step
  bus := kept.bus
  registers := fun register unset => kept.registers register (mt (@listed register) unset)
  flags := fun flag unset => kept.flags flag (mt (@included flag) unset)

/-- A step puts a byte in the place of another: in the accumulator, or in the cell that its operand
was read from. -/
structure Replaces (machine next : Machine σ) (old result : Byte) : Prop where
  original :
    (decode machine.opcode).original? (Bus.read machine.bus) machine.processor = some old
  arithmetic : machine.operation.replacement? old machine.processor.flags.carry =
    some ⟨result.toNat, next.processor.flags.carry⟩
  described : next.processor.flags.Describe result
  inPlace : (decode machine.opcode).mode = .accumulator →
    machine.SetsOnly [.a] [.carry, .zero, .negative] [] next ∧ next.processor.a = result
  inMemory : (decode machine.opcode).mode ≠ .accumulator →
    ∃ cell,
      (decode machine.opcode).mode.address? (Bus.read machine.bus) (machine.processor.skip 1) =
        some cell ∧
      machine.SetsOnly [] [.carry, .zero, .negative] [⟨cell, result⟩] next

section

variable {action : Action} {change : Byte → Shifted}
  (sorted : machine.operation.action = .ok action)
  (replaces : action.replacing? machine.processor.flags.carry = some change)
  (arithmetic : ∀ old, machine.operation.replacement? old machine.processor.flags.carry =
    some ⟨(change old).value.toNat, (change old).carry⟩)

include sorted replaces

theorem setsOnly_of_replacing :
    machine.SetsOnly (if (decode machine.opcode).mode = .accumulator then [.a] else [])
      [.carry, .zero, .negative] machine.transition.writes machine.next :=
  (machine.setsOnly_of_action sorted).mono (Action.registers_of_replacing replaces)
    (Action.flags_of_replacing replaces)

include arithmetic

theorem replaces_inPlace (inPlace : (decode machine.opcode).mode = .accumulator) :
    machine.Replaces machine.next machine.processor.a (change machine.processor.a).value := by
  have admitted := Instruction.admits_decode sorted
  have effect := machine.effect_of_action sorted
  have kept := setsOnly_of_replacing sorted replaces
  rw [inPlace] at admitted effect
  rw [Action.effect_inPlace _ _ (machine.processor.skip 1) replaces admitted] at effect
  have left : machine.next.processor =
      ({ machine.processor.skip 1 with a := (change machine.processor.a).value }.withShifted
        (change machine.processor.a)).elapse 2 :=
    congrArg (fun effect => effect.processor.elapse effect.cycles) effect
  have quiet : machine.transition.writes = [] := congrArg Effect.writes effect
  rw [if_pos inPlace, quiet] at kept
  refine ⟨if_pos inPlace, ?_, ?_, ?_, absurd inPlace⟩
  · rw [arithmetic, left]
    rfl
  · rw [left]
    exact Flags.describe_withResult _ _
  · intro _
    refine ⟨kept, ?_⟩
    rw [left]
    rfl

theorem replaces_inMemory (inMemory : (decode machine.opcode).mode ≠ .accumulator) :
    ∃ old, machine.Replaces machine.next old (change old).value := by
  have named := Action.namesCell_of_replacing replaces (Instruction.admits_decode sorted) inMemory
  have located := (decode machine.opcode).mode.address?_eq_some_address (Bus.read machine.bus)
    (machine.processor.skip 1) named
  have effect := machine.effect_of_action sorted
  have kept := setsOnly_of_replacing sorted replaces
  rw [Action.effect_inMemory _ _ (machine.processor.skip 1) replaces inMemory] at effect
  generalize (decode machine.opcode).mode.address (Bus.read machine.bus)
    (machine.processor.skip 1) = cell at located effect
  have left : machine.next.processor = _ :=
    congrArg (fun effect => effect.processor.elapse effect.cycles) effect
  have sent : machine.transition.writes = [⟨cell, (change (Bus.read machine.bus cell)).value⟩] :=
    congrArg Effect.writes effect
  rw [if_neg inMemory, sent] at kept
  refine ⟨Bus.read machine.bus cell, ?_, ?_, ?_, fun inPlace => absurd inPlace inMemory, ?_⟩
  · rw [Instruction.original?, if_neg inMemory, located, Option.map_some]
  · rw [arithmetic, left]
    rfl
  · rw [left]
    exact Flags.describe_withResult _ _
  · intro _
    exact ⟨cell, located, kept⟩

end

theorem exists_replaces (replacing : machine.operation ∈ [.asl, .lsr, .rol, .ror, .inc, .dec]) :
    ∃ old result, machine.Replaces machine.next old result := by
  obtain ⟨action, change, sorted, replaces, arithmetic⟩ :=
    Operation.exists_replacing replacing machine.processor.flags.carry
  by_cases inPlace : (decode machine.opcode).mode = .accumulator
  · exact ⟨_, _, replaces_inPlace sorted replaces arithmetic inPlace⟩
  · obtain ⟨old, replaced⟩ := replaces_inMemory sorted replaces arithmetic inPlace
    exact ⟨old, _, replaced⟩

/-- The operation, the byte and the carry alone decide what a step leaves. -/
theorem Replaces.alike {τ : Type} [Bus τ] {other otherNext : Machine τ} {old result found : Byte}
    (replaced : machine.Replaces next old result)
    (otherReplaced : other.Replaces otherNext old found)
    (operation : other.operation = machine.operation)
    (carry : other.processor.flags.carry = machine.processor.flags.carry) :
    found = result ∧ ∀ flag ∈ [.carry, .zero, .negative],
      otherNext.processor.flags.get flag = next.processor.flags.get flag := by
  have arithmetic := otherReplaced.arithmetic
  rw [operation, carry, replaced.arithmetic, Option.some.injEq, Replacement.mk.injEq,
    Int.natCast_inj, UInt8.toNat_inj] at arithmetic
  obtain ⟨rfl, same⟩ := arithmetic
  refine ⟨rfl, fun flag shared => ?_⟩
  have zero := otherReplaced.described.zero.trans replaced.described.zero.symm
  have negative := otherReplaced.described.negative.trans replaced.described.negative.symm
  rw [← Bool.eq_iff_iff] at zero negative
  cases flag with
  | carry => exact same.symm
  | zero => exact zero
  | negative => exact negative
  | _ => simp at shared

/-- A step at ASL, LSR, ROL, ROR, INC or DEC, in any of their modes. Whatever other machine comes to
the same operation with the same byte and carry, wherever it finds that byte, replaces it by the
same result and is left with the same three flags. -/
theorem step_replaces (replacing : machine.operation ∈ [.asl, .lsr, .rol, .ror, .inc, .dec]) :
    ∃ next old result,
      machine.Replaces next old result ∧
      ∀ {τ : Type} [Bus τ] (other : Machine τ),
        other.operation = machine.operation →
        (decode other.opcode).original? (Bus.read other.bus) other.processor = some old →
        other.processor.flags.carry = machine.processor.flags.carry →
        ∃ otherNext,
          other.Replaces otherNext old result ∧
          ∀ flag ∈ [.carry, .zero, .negative],
            otherNext.processor.flags.get flag = next.processor.flags.get flag := by
  obtain ⟨old, result, replaced⟩ := exists_replaces replacing
  refine ⟨machine.next, old, result, replaced, ?_⟩
  intro τ _ other operation original carry
  rw [← operation] at replacing
  obtain ⟨met, found, otherReplaced⟩ := exists_replaces replacing
  cases original.symm.trans otherReplaced.original
  obtain ⟨rfl, shared⟩ := replaced.alike otherReplaced operation carry
  exact ⟨other.next, otherReplaced, shared⟩

/-- A rotation of the accumulator. -/
def rotation : Machine View where
  processor := { Processor.startingAt 0x0200 with a := 0x01, flags := .ofByte 0x01 }
  bus := Bus.writeAll (fun _ => 0) (Image.writes ⟨0x0200, [0x6A]⟩)

/-- The same rotation of a cell, whose index wraps on page zero. -/
def cellRotation : Machine View where
  processor := { Processor.startingAt 0x0300 with x := 0x20, flags := .ofByte 0x01 }
  bus := Bus.writeAll (fun _ => 0)
    (Image.writes ⟨0x0300, [0x76, 0xF0]⟩ ++ Image.writes ⟨0x0010, [0x01]⟩)

theorem decode_rotation : decode rotation.opcode = ⟨.ror, .accumulator, 2⟩ := by
  rw [decode_eq_search]
  rfl

theorem decode_cellRotation : decode cellRotation.opcode = ⟨.ror, .zeroPageX, 6⟩ := by
  rw [decode_eq_search]
  rfl

/-- The carry comes in at the top, and the bottom bit goes out into it. -/
theorem step_replaces_rotation :
    ∃ next otherNext,
      rotation.SetsOnly [.a] [.carry, .zero, .negative] [] next ∧
      next.processor.a = 0x80 ∧
      next.processor.flags.carry = true ∧
      cellRotation.SetsOnly [] [.carry, .zero, .negative] [⟨0x0010, 0x80⟩] otherNext ∧
      otherNext.processor.flags.carry = true := by
  have decoded := decode_rotation
  have otherDecoded := decode_cellRotation
  have replacing : rotation.operation ∈ [.asl, .lsr, .rol, .ror, .inc, .dec] := by
    rw [operation, decoded]
    simp
  obtain ⟨next, old, result, replaced, alike⟩ := step_replaces replacing
  have old_eq : old = 0x01 := by
    have original := replaced.original
    rw [decoded] at original
    exact (Option.some.inj original).symm
  subst old_eq
  have arithmetic := replaced.arithmetic
  rw [operation, decoded] at arithmetic
  obtain ⟨value, carry⟩ := Replacement.mk.inj (Option.some.inj arithmetic)
  have result_eq : result = 0x80 := UInt8.toNat_inj.mp (Int.natCast_inj.mp value).symm
  subst result_eq
  obtain ⟨otherNext, otherReplaced, shared⟩ := alike cellRotation
    (by rw [operation, operation, decoded, otherDecoded]) (by rw [otherDecoded]; rfl) rfl
  obtain ⟨kept, left⟩ := replaced.inPlace (by rw [decoded])
  obtain ⟨cell, located, sent⟩ := otherReplaced.inMemory (by rw [otherDecoded]; decide)
  have cell_eq : cell = 0x0010 := by
    rw [otherDecoded] at located
    exact (Option.some.inj located).symm
  subst cell_eq
  exact ⟨next, otherNext, kept, left, carry.symm, sent, (shared .carry (by simp)).trans carry.symm⟩

end Machine

end Nmos6502
