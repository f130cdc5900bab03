import Nmos6502.Bus.Image
import Nmos6502.Proofs.Contents
import Nmos6502.Proofs.Operand
import Nmos6502.Proofs.Stack

/-!
The cells that an instruction reads: its own bytes, the pointer of an indirect mode, the operand and
the bytes it pulls. Main statement: an instruction is the same in all memories that agree on these
cells (`step_reads_footprint`).
-/

namespace Nmos6502

def View.Agree (cells : List Address) (view other : View) : Prop :=
  ∀ address ∈ cells, view address = other address

theorem View.Agree.subset {cells fewer : List Address} {view other : View}
    (agree : View.Agree cells view other) (subset : fewer ⊆ cells) :
    View.Agree fewer view other :=
  fun address inside => agree address (subset inside)

theorem View.agree_cons {first : Address} {rest : List Address} {view other : View} :
    View.Agree (first :: rest) view other ↔
      view first = other first ∧ View.Agree rest view other :=
  List.forall_mem_cons

namespace Processor

/-- A number of cells from the program counter on. -/
def cells (processor : Processor) (count : Nat) : List Address :=
  (List.range count).map fun offset => processor.pc + UInt16.ofNat offset

variable {processor : Processor} {view other : View}

theorem cells_skip_one (processor : Processor) (count : Nat) :
    (processor.skip 1).cells count ⊆ processor.cells (1 + count) := by
  intro address inside
  obtain ⟨offset, bound, rfl⟩ := List.mem_map.mp inside
  refine List.mem_map.mpr ⟨1 + offset, ?_, ?_⟩
  · have below := List.mem_range.mp bound
    exact List.mem_range.mpr (by omega)
  · rw [UInt16.ofNat_add, ← UInt16.add_assoc]
    rfl

theorem read_pc_congr {count : Nat}
    (agree : View.Agree (processor.cells (count + 1)) view other) :
    view processor.pc = other processor.pc :=
  agree processor.pc (by simp [cells, List.range_succ_eq_map])

theorem operandWord_congr (agree : View.Agree (processor.cells 2) view other) :
    operandWord view processor = operandWord other processor := by
  have low : view processor.pc = other processor.pc := read_pc_congr agree
  have high : view (processor.pc + 1) = other (processor.pc + 1) :=
    agree (processor.pc + 1) (by simp [cells, List.range_succ])
  rw [operandWord, operandWord, low, high]

end Processor

theorem zeroPageWord_congr {view other : View} {cell : Byte}
    (agree : View.Agree [cell.toUInt16, (cell + 1).toUInt16] view other) :
    zeroPageWord view cell = zeroPageWord other cell := by
  rw [View.agree_cons, View.agree_cons] at agree
  obtain ⟨low, high, _⟩ := agree
  rw [zeroPageWord, zeroPageWord, low, high]

namespace AddressingMode

/-- The cells of the pointer that a mode goes through, with the program counter at its first operand
byte. -/
def pointerCells (mode : AddressingMode) (view : View) (processor : Processor) : List Address :=
  match mode with
  | indirect =>
      let pointer := operandWord view processor
      [pointer, nextInPage pointer]
  | indirectX =>
      let cell := view processor.pc + processor.x
      [cell.toUInt16, (cell + 1).toUInt16]
  | indirectY =>
      let cell := view processor.pc
      [cell.toUInt16, (cell + 1).toUInt16]
  | _ => []

variable {mode : AddressingMode} {view other : View} {processor : Processor}

section

variable (code : View.Agree (processor.cells mode.operandBytes) view other)
  (pointer : View.Agree (mode.pointerCells view processor) view other)

include code pointer

theorem address?_congr : mode.address? view processor = mode.address? other processor := by
  cases mode with
  | implicit | accumulator | immediate | relative => rfl
  | zeroPage | zeroPageX | zeroPageY =>
      simp only [address?, Processor.read_pc_congr code]
  | absolute | absoluteX | absoluteY =>
      simp only [address?, Processor.operandWord_congr code]
  | indirect =>
      have word := Processor.operandWord_congr code
      rw [pointerCells, word, View.agree_cons, View.agree_cons, nextInPage] at pointer
      obtain ⟨low, high, _⟩ := pointer
      simp only [address?, word, low, high]
  | indirectX =>
      simp only [address?, zeroPageWord_congr pointer]
      rw [Processor.read_pc_congr code]
  | indirectY =>
      simp only [address?, zeroPageWord_congr pointer]
      rw [Processor.read_pc_congr code]

theorem indexing?_congr : mode.indexing? view processor = mode.indexing? other processor := by
  cases mode with
  | absoluteX | absoluteY => simp only [indexing?, Processor.operandWord_congr code]
  | indirectY =>
      simp only [indexing?, zeroPageWord_congr pointer]
      rw [Processor.read_pc_congr code]
  | _ => rfl

theorem address_congr : mode.address view processor = mode.address other processor := by
  rw [address, address, address?_congr code pointer]

theorem locateCycles_congr (charge : IndexCharge) :
    mode.locateCycles charge view processor = mode.locateCycles charge other processor := by
  rw [locateCycles, locateCycles, correction, correction, indexing?_congr code pointer]

theorem readCycles_congr (charge : IndexCharge) :
    mode.readCycles charge view processor = mode.readCycles charge other processor := by
  rw [readCycles, readCycles, locateCycles_congr code pointer]

end

end AddressingMode

/-- Whether an operation reads the cell that its mode names. -/
def Operation.readsCell : Operation → Bool
  | sta | stx | sty | jmp | jsr => false
  | _ => true

namespace Instruction

section

variable (instruction : Instruction) (view : View) (processor : Processor)

def operandCells : List Address :=
  if instruction.operation.readsCell then
    (instruction.mode.address? view (processor.skip 1)).toList
  else
    []

def pulledCells : List Address :=
  (List.range instruction.operation.pulls).map fun index =>
    stackCell (processor.sp + UInt8.ofNat (index + 1))

/-- The cells that an instruction reads, once a processor comes to fetch it. -/
def footprint : List Address :=
  processor.cells instruction.size ++
    instruction.mode.pointerCells view (processor.skip 1) ++
    instruction.operandCells view processor ++
    instruction.pulledCells processor

end

variable {instruction : Instruction} {view other : View} {processor : Processor}
  (agree : View.Agree (instruction.footprint view processor) view other)

include agree

theorem code_congr : View.Agree (processor.cells instruction.size) view other :=
  agree.subset (by simp [footprint])

theorem opcode_congr : view processor.pc = other processor.pc := by
  have code := code_congr agree
  rw [size, Nat.add_comm] at code
  exact Processor.read_pc_congr code

theorem operandCode_congr :
    View.Agree ((processor.skip 1).cells instruction.mode.operandBytes) view other :=
  (code_congr agree).subset (processor.cells_skip_one instruction.mode.operandBytes)

theorem pointer_congr :
    View.Agree (instruction.mode.pointerCells view (processor.skip 1)) view other :=
  agree.subset (by simp [footprint])

theorem operand_congr (reads : instruction.operation.readsCell = true)
    (named : instruction.mode.namesCell = true) :
    view (instruction.mode.address other (processor.skip 1)) =
      other (instruction.mode.address other (processor.skip 1)) := by
  have located := instruction.mode.address?_eq_some_address view (processor.skip 1) named
  rw [← AddressingMode.address_congr (operandCode_congr agree) (pointer_congr agree)]
  apply agree
  simp [footprint, operandCells, reads, located]

theorem value_congr (reads : instruction.operation.readsCell = true)
    (held : instruction.mode.holdsValue = true) :
    instruction.mode.value view (processor.skip 1) =
      instruction.mode.value other (processor.skip 1) := by
  by_cases immediate : instruction.mode = .immediate
  · have code := operandCode_congr agree
    rw [immediate] at code
    simp only [AddressingMode.value, immediate, if_true]
    exact Processor.read_pc_congr code
  · have named : instruction.mode.namesCell = true := by
      simpa [AddressingMode.holdsValue, immediate] using held
    rw [AddressingMode.value, if_neg immediate, AddressingMode.value, if_neg immediate,
      AddressingMode.address_congr (operandCode_congr agree) (pointer_congr agree)]
    exact operand_congr agree reads named

theorem pulled_congr : View.Agree (instruction.pulledCells processor) view other :=
  agree.subset (List.subset_append_right _ _)

theorem effect_congr {action : Action} (charge : IndexCharge)
    (sorted : instruction.operation.action = .ok action)
    (admitted : action.admits instruction.mode = true) :
    action.effect instruction.mode charge view (processor.skip 1) =
      action.effect instruction.mode charge other (processor.skip 1) := by
  have code := operandCode_congr agree
  have pointer := pointer_congr agree
  have address := AddressingMode.address_congr code pointer
  have locate := AddressingMode.locateCycles_congr code pointer charge
  obtain ⟨operation, mode, cycles⟩ := instruction
  -- What is read apart from the code is told by the operation, so the cases are the operations.
  cases operation with
  | lda | ldx | ldy | adc | sbc | and | eor | ora | cmp | cpx | cpy | bit =>
      cases sorted
      have held : mode.holdsValue = true := admitted
      rw [Action.effect_of_reading _ _ _ rfl, Action.effect_of_reading _ _ _ rfl,
        value_congr agree rfl held, AddressingMode.readCycles_congr code pointer]
  | sta | stx | sty | jmp =>
      cases sorted
      simp only [Action.effect, address, locate]
  | inc | dec =>
      cases sorted
      have operand := operand_congr agree rfl admitted
      simp only [Action.effect, operand, address, locate]
  | asl | lsr | rol | ror =>
      cases sorted
      by_cases inPlace : mode = .accumulator
      · subst inPlace
        rfl
      · have operand := operand_congr agree rfl (by simpa [Action.admits, inPlace] using admitted)
        simp only [Action.effect, inPlace, if_false, operand, address, locate]
  | bcc | bcs | beq | bne | bmi | bpl | bvc | bvs =>
      cases sorted
      obtain rfl : mode = .relative := by simpa [Action.admits] using admitted
      simp only [Action.effect, Processor.read_pc_congr code]
  | jsr =>
      cases sorted
      obtain rfl : mode = .absolute := by simpa [Action.admits] using admitted
      simp only [Action.effect, Processor.operandWord_congr code]
  | pla | plp =>
      cases sorted
      have pulled : View.Agree [stackCell ((processor.skip 1).sp + 1)] view other :=
        pulled_congr agree
      obtain ⟨top, _⟩ := View.agree_cons.mp pulled
      simp only [Action.effect, top]
  | rts =>
      cases sorted
      have pulled : View.Agree [stackCell ((processor.skip 1).sp + 1),
          stackCell ((processor.skip 1).sp + 2)] view other :=
        pulled_congr agree
      rw [View.agree_cons, View.agree_cons] at pulled
      obtain ⟨low, high, _⟩ := pulled
      simp only [Action.effect, low, high]
  | rti =>
      cases sorted
      have pulled : View.Agree [stackCell ((processor.skip 1).sp + 1),
          stackCell ((processor.skip 1).sp + 2), stackCell ((processor.skip 1).sp + 3)]
          view other :=
        pulled_congr agree
      rw [View.agree_cons, View.agree_cons, View.agree_cons] at pulled
      obtain ⟨status, low, high, _⟩ := pulled
      simp only [Action.effect, status, low, high]
  | brk | illegal => cases sorted
  | _ => cases sorted; rfl

end Instruction

theorem Processor.effect_congr {processor : Processor} {view other : View}
    (agree : View.Agree ((decode (view processor.pc)).footprint view processor) view other) :
    processor.effect view = processor.effect other := by
  rw [effect, effect, ← Instruction.opcode_congr agree]
  cases sorted : (decode (view processor.pc)).operation.action with
  | ok action =>
      dsimp only
      rw [Instruction.effect_congr agree _ sorted (Instruction.admits_decode sorted)]
  | error fault => rfl

namespace Machine

variable {σ τ : Type} [Bus σ] [Bus τ] (machine : Machine σ)

def footprint : List Address :=
  (decode machine.opcode).footprint (Bus.read machine.bus) machine.processor

variable {machine}

theorem step_of_agree {bus : τ}
    (agree : View.Agree machine.footprint (Bus.read machine.bus) (Bus.read bus)) :
    ∃ other,
      (Machine.mk machine.processor bus).step = .ok (machine.transition, other) ∧
      other.processor = machine.next.processor ∧
      other.bus = Bus.writeAll bus machine.transition.writes := by
  have opcode : machine.opcode = (Machine.mk machine.processor bus).opcode :=
    Instruction.opcode_congr agree
  have effect : machine.effect = (Machine.mk machine.processor bus).effect :=
    Processor.effect_congr agree
  have transition : machine.transition = (Machine.mk machine.processor bus).transition :=
    transition_congr rfl opcode effect
  rw [next, transition]
  exact ⟨_, step_eq _, rfl, rfl⟩

theorem agree_writeAll {flat : Machine Memory} {writes : List Write}
    (outside : ∀ write ∈ writes, write.address ∉ flat.footprint) :
    View.Agree flat.footprint (Bus.read flat.bus) (Bus.read (Bus.writeAll flat.bus writes)) := by
  intro address inside
  refine (flat.bus.read_writeAll_of_forall_ne fun write written same => ?_).symm
  rw [← same] at inside
  exact outside write written inside

variable (machine)

/-- One instruction does the same in any two memories that agree on its footprint. No other byte has
any influence on it: memory may be rewritten outside the footprint beforehand. -/
theorem step_reads_footprint :
    (∀ bus : τ,
      (∀ address ∈ machine.footprint, Bus.read machine.bus address = Bus.read bus address) →
      ∃ transition next other,
        machine.step = .ok (transition, next) ∧
        (Machine.mk machine.processor bus).step = .ok (transition, other) ∧
        other.processor = next.processor ∧
        next.bus = Bus.writeAll machine.bus transition.writes ∧
        other.bus = Bus.writeAll bus transition.writes) ∧
    ∀ (flat : Machine Memory) (writes : List Write),
      (∀ write ∈ writes, write.address ∉ flat.footprint) →
      ∃ transition next other,
        flat.step = .ok (transition, next) ∧
        (Machine.mk flat.processor (Bus.writeAll flat.bus writes)).step =
          .ok (transition, other) ∧
        other.processor = next.processor := by
  constructor
  · intro bus agree
    obtain ⟨other, stepped, processor, written⟩ := step_of_agree agree
    exact ⟨_, _, other, machine.step_eq, stepped, processor, rfl, written⟩
  · intro flat writes outside
    obtain ⟨other, stepped, processor, _⟩ := step_of_agree (agree_writeAll outside)
    exact ⟨_, _, other, flat.step_eq, stepped, processor⟩

/-- A load through a pointer that wraps within page zero, in memory that is otherwise filled with one
byte. -/
def wrappingLoad (filler : Byte) : Machine View where
  processor := { Processor.startingAt 0x0200 with y := 0x10 }
  bus := Bus.writeAll (fun _ => filler)
    (Image.writes ⟨0x0200, [0xB1, 0xFF]⟩ ++ Image.writes ⟨0x00FF, [0x80]⟩ ++
      Image.writes ⟨0x0000, [0x03]⟩ ++ Image.writes ⟨0x0390, [0x2A]⟩)

theorem footprint_wrappingLoad :
    (wrappingLoad 0x00).footprint = [0x0200, 0x0201, 0x00FF, 0x0000, 0x0390] := by
  decide +kernel

theorem map_footprint_wrappingLoad :
    (wrappingLoad 0x00).footprint.map (wrappingLoad 0x00).bus =
      (wrappingLoad 0x00).footprint.map (wrappingLoad 0xEA).bus := by
  rw [footprint_wrappingLoad]
  decide +kernel

/-- The byte on page one that follows the low half of the pointer is not read. -/
theorem step_reads_footprint_wrappingLoad :
    (∃ transition next other,
      (wrappingLoad 0x00).step = .ok (transition, next) ∧
      (wrappingLoad 0xEA).step = .ok (transition, other) ∧
      other.processor = next.processor) ∧
    ∃ transition next other,
      (wrappingLoad 0x00).inMemory.step = .ok (transition, next) ∧
      (Machine.mk (wrappingLoad 0x00).processor
        ((wrappingLoad 0x00).inMemory.bus.write 0x0100 0x07)).step = .ok (transition, other) ∧
      other.processor = next.processor := by
  obtain ⟨buses, memories⟩ := step_reads_footprint (τ := View) (wrappingLoad 0x00)
  constructor
  · obtain ⟨transition, next, other, stepped, alike, processor, _⟩ :=
      buses (wrappingLoad 0xEA).bus (List.map_inj_left.mp map_footprint_wrappingLoad)
    exact ⟨transition, next, other, stepped, alike, processor⟩
  · refine memories (wrappingLoad 0x00).inMemory [⟨0x0100, 0x07⟩] ?_
    have cells : (wrappingLoad 0x00).inMemory.footprint = (wrappingLoad 0x00).footprint := by
      rw [footprint, opcode_inMemory, read_inMemory]
      rfl
    rw [cells, footprint_wrappingLoad]
    decide

end Machine

end Nmos6502
