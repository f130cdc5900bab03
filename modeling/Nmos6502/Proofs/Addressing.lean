import Nmos6502.Microcode.EffectiveAddress

/-!
Where an operand lies, as a function of the registers and of the bytes the bus shows. Main
statements: a mode that names a cell is followed to its address (`effectiveAddress_of_some`), the
other modes are refused before anything is done (`effectiveAddress_of_none`), and an index reaches
another page exactly when it carries out of the low half of its base (`crossesPage_add`).
-/

namespace Nmos6502

/-- The processor once its program counter has moved past operand bytes. -/
def Processor.skip (processor : Processor) (count : Nat) : Processor :=
  { processor with pc := processor.pc + UInt16.ofNat count }

theorem Processor.skip_skip (processor : Processor) (first second : Nat) :
    (processor.skip first).skip second = processor.skip (first + second) := by
  simp [skip, UInt16.ofNat_add, UInt16.add_assoc]

@[simp] theorem Processor.flags_skip (processor : Processor) (count : Nat) :
    (processor.skip count).flags = processor.flags := rfl

@[simp] theorem Processor.get_skip (processor : Processor) (count : Nat) (register : Register) :
    (processor.skip count).get register = processor.get register := by
  cases register <;> rfl

def operandWord (view : View) (processor : Processor) : Address :=
  word (view processor.pc) (view (processor.pc + 1))

/-- The word that begins at a cell of page zero, whose high byte lies on page zero as well. -/
def zeroPageWord (view : View) (cell : Byte) : Address :=
  word (view cell.toUInt16) (view (cell + 1).toUInt16)

/-- Whether an index carries out of the low half of the address it is added to. -/
def indexCarries (base : Address) (index : Byte) : Bool :=
  decide (255 < base.toNat % 256 + index.toNat)

theorem crossesPage_add (base : Address) (index : Byte) :
    crossesPage base (base + index.toUInt16) = indexCarries base index := by
  have baseBound := base.toNat_lt
  have indexBound := index.toNat_lt
  rw [Bool.eq_iff_iff]
  simp only [crossesPage, indexCarries, bne_iff_ne, ne_eq, ← UInt8.toNat_inj, toNat_highByte,
    UInt16.toNat_add, UInt8.toNat_toUInt16, decide_eq_true_eq]
  omega

theorem nextInPage_toUInt16 (cell : Byte) : nextInPage cell.toUInt16 = (cell + 1).toUInt16 := by
  have bound := cell.toNat_lt
  apply UInt16.toNat_inj.mp
  simp only [nextInPage, toNat_word, UInt8.toNat_add, toNat_lowByte, toNat_highByte,
    UInt8.toNat_toUInt16, UInt8.toNat_one]
  omega

namespace AddressingMode

/-- The address that a mode adds an index register to, and that register. -/
def indexing? (mode : AddressingMode) (view : View) (processor : Processor) :
    Option (Address × Byte) :=
  match mode with
  | absoluteX => some (operandWord view processor, processor.x)
  | absoluteY => some (operandWord view processor, processor.y)
  | indirectY => some (zeroPageWord view (view processor.pc), processor.y)
  | _ => none

/-- The address a mode names, with the program counter at its first operand byte. -/
def address? (mode : AddressingMode) (view : View) (processor : Processor) : Option Address :=
  match mode with
  | zeroPage => some (view processor.pc).toUInt16
  | zeroPageX => some (view processor.pc + processor.x).toUInt16
  | zeroPageY => some (view processor.pc + processor.y).toUInt16
  | absolute => some (operandWord view processor)
  | absoluteX => some (operandWord view processor + processor.x.toUInt16)
  | absoluteY => some (operandWord view processor + processor.y.toUInt16)
  | indirect =>
      let pointer := operandWord view processor
      some (word (view pointer) (view (word (lowByte pointer + 1) (highByte pointer))))
  | indirectX => some (zeroPageWord view (view processor.pc + processor.x))
  | indirectY => some (zeroPageWord view (view processor.pc) + processor.y.toUInt16)
  | implicit | accumulator | immediate | relative => none

def namesCell : AddressingMode → Bool
  | implicit | accumulator | immediate | relative => false
  | _ => true

/-- The cycles it takes to find an address when no index has to be carried over. -/
def addressCycles : AddressingMode → Nat
  | zeroPage => 1
  | zeroPageX | zeroPageY | absolute | absoluteX | absoluteY => 2
  | indirectY => 3
  | indirect | indirectX => 4
  | implicit | accumulator | immediate | relative => 0

def correction (mode : AddressingMode) (charge : IndexCharge) (view : View)
    (processor : Processor) : Nat :=
  match mode.indexing? view processor with
  | some (base, index) => if charge = .always ∨ indexCarries base index then 1 else 0
  | none => 0

theorem isSome_address? (mode : AddressingMode) (view : View) (processor : Processor) :
    (mode.address? view processor).isSome = mode.namesCell := by
  cases mode <;> rfl

end AddressingMode

/-- The progress made when the processor has come to a state at the cost of some cycles. -/
def Progress.reach (progress : Progress σ) (processor : Processor) (cycles : Nat) : Progress σ :=
  { progress with processor := processor, budget := progress.budget.charge cycles }

@[simp] theorem Progress.bus_reach (progress : Progress σ) (processor : Processor) (cycles : Nat) :
    (progress.reach processor cycles).bus = progress.bus := rfl

@[simp] theorem Progress.processor_reach (progress : Progress σ) (processor : Processor)
    (cycles : Nat) : (progress.reach processor cycles).processor = processor := rfl

@[simp] theorem Progress.reach_reach (progress : Progress σ) (first second : Processor)
    (early late : Nat) :
    (progress.reach first early).reach second late = progress.reach second (early + late) := by
  simp [reach]

namespace Micro

variable {σ : Type} [Bus σ] (progress : Progress σ)

theorem fetchWord_eq_reach :
    fetchWord progress =
      .ok (operandWord (Bus.read progress.bus) progress.processor)
        (progress.reach (progress.processor.skip 2) 2) := by
  rw [fetchWord_apply, ← Processor.skip_skip progress.processor 1 1]
  rfl

theorem fetch_eq_reach :
    fetch progress =
      .ok (Bus.read progress.bus progress.processor.pc)
        (progress.reach (progress.processor.skip 1) 1) := rfl

theorem loadPointer_zeroPage (cell : Byte) :
    loadPointer cell.toUInt16 progress =
      .ok (zeroPageWord (Bus.read progress.bus) cell)
        (progress.reach progress.processor 2) := by
  rw [loadPointer_apply, nextInPage_toUInt16]
  rfl

theorem zeroPageIndexed_eq_reach (index : Byte) :
    zeroPageIndexed index progress =
      .ok (Bus.read progress.bus progress.processor.pc + index).toUInt16
        (progress.reach (progress.processor.skip 1) 2) := by
  simp [zeroPageIndexed, Progress.reach, Processor.skip]

omit [Bus σ] in
theorem indexed_eq_reach (base : Address) (index : Byte) (charge : IndexCharge) :
    indexed base index charge progress =
      .ok (base + index.toUInt16) (progress.reach progress.processor
        (if charge = .always ∨ indexCarries base index then 1 else 0)) := by
  by_cases spent : charge = .always ∨ indexCarries base index = true
  · simp [indexed, crossesPage_add, spent, Progress.reach]
  · simp [indexed, crossesPage_add, spent, Progress.reach]

theorem effectiveAddress_of_some {mode : AddressingMode} {address : Address} (charge : IndexCharge)
    (named : mode.address? (Bus.read progress.bus) progress.processor = some address) :
    effectiveAddress mode charge progress =
      .ok address (progress.reach (progress.processor.skip mode.operandBytes)
        (mode.addressCycles +
          mode.correction charge (Bus.read progress.bus) progress.processor)) := by
  cases mode <;> cases named
  case indirect =>
      simp only [effectiveAddress, bind_apply, fetchWord_eq_reach, loadPointer_apply]
      simp only [Progress.reach, Budget.charge_charge]
      rfl
  all_goals
    simp only [effectiveAddress, bind_apply, pure_apply, processor_apply, fetch_eq_reach,
      fetchWord_eq_reach, zeroPageIndexed_eq_reach, loadPointer_zeroPage, indexed_eq_reach,
      Progress.reach_reach, Progress.processor_reach, Progress.bus_reach]
    rfl

theorem effectiveAddress_of_none {mode : AddressingMode} (charge : IndexCharge)
    (unnamed : mode.namesCell = false) :
    effectiveAddress mode charge progress = .error (.noEffectiveAddress mode) progress := by
  cases mode <;> first | rfl | contradiction

end Micro

end Nmos6502
