import Nmos6502.Session
import Nmos6502.Proofs.Effect

/-!
Where the modes lead, in numbers. An index wraps on page zero or at the end of memory, and the high
byte of a pointer never leaves the page of the low one. Main statement: a mode is resolved to the
number and the cycles that its arithmetic says (`resolve_follows_arithmetic`).
-/

namespace Nmos6502

structure Resolution where
  address : Nat
  cycles : Nat
  deriving DecidableEq

/-- The number that the cells of two addresses hold, the low byte in the first. -/
def cellsValue (view : View) (low high : Nat) : Nat :=
  (view (UInt16.ofNat low)).toNat + 256 * (view (UInt16.ofNat high)).toNat

namespace AddressingMode

/-- The arithmetic of a mode, with the program counter at its first operand byte. -/
def resolution? (mode : AddressingMode) (charge : IndexCharge) (view : View)
    (processor : Processor) : Option Resolution :=
  let first := (view processor.pc).toNat
  let both := first + 256 * (view (processor.pc + 1)).toNat
  let x := processor.x.toNat
  let y := processor.y.toNat
  let carry (base index : Nat) := if charge = .always ∨ 255 < base % 256 + index then 1 else 0
  match mode with
  | zeroPage => some ⟨first, 1⟩
  | zeroPageX => some ⟨(first + x) % 256, 2⟩
  | zeroPageY => some ⟨(first + y) % 256, 2⟩
  | absolute => some ⟨both, 2⟩
  | absoluteX => some ⟨(both + x) % 65536, 2 + carry both x⟩
  | absoluteY => some ⟨(both + y) % 65536, 2 + carry both y⟩
  | indirect => some ⟨cellsValue view both (256 * (both / 256) + (both + 1) % 256), 4⟩
  | indirectX =>
      let cell := (first + x) % 256
      some ⟨cellsValue view cell ((cell + 1) % 256), 4⟩
  | indirectY =>
      let base := cellsValue view first ((first + 1) % 256)
      some ⟨(base + y) % 65536, 3 + carry base y⟩
  | implicit | accumulator | immediate | relative => none

end AddressingMode

theorem toNat_operandWord (view : View) (processor : Processor) :
    (operandWord view processor).toNat =
      (view processor.pc).toNat + 256 * (view (processor.pc + 1)).toNat :=
  toNat_word _ _

theorem toNat_word_eq_cellsValue (view : View) (low high : Address) :
    (word (view low) (view high)).toNat = cellsValue view low.toNat high.toNat := by
  rw [toNat_word, cellsValue, UInt16.ofNat_toNat, UInt16.ofNat_toNat]

theorem toNat_zeroPageWord (view : View) (cell : Byte) :
    (zeroPageWord view cell).toNat = cellsValue view cell.toNat ((cell.toNat + 1) % 256) := by
  rw [zeroPageWord, toNat_word_eq_cellsValue, UInt8.toNat_toUInt16, UInt8.toNat_toUInt16,
    UInt8.toNat_add]
  rfl

theorem toNat_nextInPage (address : Address) :
    (nextInPage address).toNat = 256 * (address.toNat / 256) + (address.toNat + 1) % 256 := by
  rw [nextInPage, toNat_word, UInt8.toNat_add, toNat_lowByte, toNat_highByte, UInt8.toNat_one]
  omega

theorem toNat_add_index (base : Address) (index : Byte) :
    (base + index.toUInt16).toNat = (base.toNat + index.toNat) % 65536 := by
  rw [UInt16.toNat_add, UInt8.toNat_toUInt16]

namespace AddressingMode

theorem resolution?_eq_map_address? (mode : AddressingMode) (charge : IndexCharge) (view : View)
    (processor : Processor) :
    mode.resolution? charge view processor =
      (mode.address? view processor).map fun address =>
        ⟨address.toNat, mode.addressCycles + mode.correction charge view processor⟩ := by
  cases mode with
  | implicit | accumulator | immediate | relative => rfl
  | zeroPage | zeroPageX | zeroPageY =>
      simp [resolution?, address?, addressCycles, correction, indexing?]
  | absolute =>
      simp only [resolution?, address?, addressCycles, correction, indexing?, Option.map_some,
        toNat_operandWord]
  | absoluteX | absoluteY =>
      simp only [resolution?, address?, addressCycles, correction, indexing?, Option.map_some,
        toNat_add_index, toNat_operandWord, indexCarries, decide_eq_true_eq]
  | indirect =>
      have pointer : ∀ address, word (view address)
          (view (word (lowByte address + 1) (highByte address))) =
            word (view address) (view (nextInPage address)) := fun _ => rfl
      simp only [resolution?, address?, addressCycles, correction, indexing?, Option.map_some,
        pointer, toNat_word_eq_cellsValue, toNat_nextInPage, toNat_operandWord]
  | indirectX =>
      simp only [resolution?, address?, addressCycles, correction, indexing?, Option.map_some,
        toNat_zeroPageWord, UInt8.toNat_add]
  | indirectY =>
      simp only [resolution?, address?, addressCycles, correction, indexing?, Option.map_some,
        toNat_add_index, toNat_zeroPageWord, indexCarries, decide_eq_true_eq]

end AddressingMode

namespace Machine

variable {σ : Type} [Bus σ] (machine : Machine σ)

theorem resolve_of_namesCell {mode : AddressingMode} (charge : IndexCharge) (budget : Budget)
    (named : mode.namesCell = true) :
    machine.resolve mode charge budget =
      .ok (mode.address (Bus.read machine.bus) machine.processor,
        { machine with processor := machine.processor.skip mode.operandBytes },
        budget.charge (mode.locateCycles charge (Bus.read machine.bus) machine.processor)) := by
  rw [resolve, carryOut, Micro.effectiveAddress_of_namesCell _ charge named]
  rfl

theorem resolve_of_unnamed {mode : AddressingMode} (charge : IndexCharge) (budget : Budget)
    (unnamed : mode.namesCell = false) :
    machine.resolve mode charge budget =
      .error ⟨.noEffectiveAddress mode, .begin machine.processor machine.bus budget⟩ := by
  rw [resolve, carryOut, Micro.effectiveAddress_of_none _ charge unnamed]
  rfl

/-- A mode is resolved to what its arithmetic says, whatever the budget its cycles are charged to.
The program counter moves past the operand, and nothing else changes. A mode without an arithmetic
is refused, and changes nothing at all. -/
theorem resolve_follows_arithmetic (mode : AddressingMode) (charge : IndexCharge)
    (budget : Budget) :
    match mode.resolution? charge (Bus.read machine.bus) machine.processor with
    | some resolution =>
        ∃ address next,
          address.toNat = resolution.address ∧
          next = { machine with processor := { machine.processor with
            pc := machine.processor.pc + UInt16.ofNat mode.operandBytes } } ∧
          machine.resolve mode charge budget =
            .ok (address, next, budget.charge resolution.cycles) ∧
          Micro.effectiveAddress mode charge
              (.begin machine.processor machine.bus budget) =
            .ok address (.begin next.processor next.bus (budget.charge resolution.cycles))
    | none =>
        machine.resolve mode charge budget =
          .error ⟨.noEffectiveAddress mode, .begin machine.processor machine.bus budget⟩ ∧
        machine.call (.resolve mode charge budget) =
          .ok (⟨.refused (.noEffectiveAddress mode) budget, [], []⟩, machine) := by
  rw [AddressingMode.resolution?_eq_map_address?]
  cases located : mode.address? (Bus.read machine.bus) machine.processor with
  | some address =>
      have found := Micro.effectiveAddress_of_some
        (.begin machine.processor machine.bus budget) charge located
      refine ⟨address, _, rfl, rfl, ?_, found⟩
      rw [resolve, carryOut, found]
      rfl
  | none =>
      have unnamed : mode.namesCell = false := by
        rw [← mode.isSome_address? (Bus.read machine.bus) machine.processor, located]
        rfl
      have refused := machine.resolve_of_unnamed charge budget unnamed
      refine ⟨refused, ?_⟩
      rw [call, refused]
      rfl

/-- The sum wraps at the end of memory, and carries out of its low half. -/
example : AddressingMode.indirectY.resolution? .onPageCross (fun _ => 0xFF)
    { Processor.startingAt 0xFFFF with y := 2 } = some ⟨1, 4⟩ := by
  decide

end Machine

end Nmos6502
