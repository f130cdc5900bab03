import Nmos6502.Proofs.GoldenTrace
import Mathlib.Data.List.Forall2

/-!
The texts in which a machine shows its state. Their fields have fixed places and fixed widths, so
that each can be read again. Main statement: two displays or two lines of the trace are equal only
if all that they show is equal (`texts_tell_states`).
-/

namespace Nmos6502

namespace Hex

def digits : List Char :=
  ['0', '1', '2', '3', '4', '5', '6', '7', '8', '9', 'A', 'B', 'C', 'D', 'E', 'F']

def readByte? (high low : Char) : Option Byte := do
  let high ← digits.idxOf? high
  let low ← digits.idxOf? low
  return UInt8.ofNat (16 * high + low)

/-- Reads a text of a given layout: the bytes whose digits stand where it has a pair of h. -/
def read? : List Char → List Char → Option (List Byte)
  | 'h' :: 'h' :: layout, high :: low :: rest => do
      let value ← readByte? high low
      let values ← read? layout rest
      return value :: values
  | mark :: layout, character :: rest => if character = mark then read? layout rest else none
  | [], [] => some []
  | _, _ => none

/-- What may stand at a place of a layout: a digit where it has an h, else its own character. -/
def Fits (mark character : Char) : Prop :=
  if mark = 'h' then character ∈ digits else character = mark

theorem idxOf?_digit : ∀ value < 16, digits.idxOf? (digit value) = some value := by
  decide

theorem digit_mem_digits : ∀ value < 16, digit value ∈ digits := by
  decide

section

variable (value : Byte)

@[simp] theorem digit_high_mem_digits : digit (value.toNat / 16) ∈ digits := by
  have bound := value.toNat_lt
  exact digit_mem_digits _ (by omega)

@[simp] theorem digit_low_mem_digits : digit (value.toNat % 16) ∈ digits :=
  digit_mem_digits _ (Nat.mod_lt _ (by decide))

@[simp] theorem readByte?_digits :
    readByte? (digit (value.toNat / 16)) (digit (value.toNat % 16)) = some value := by
  have bound := value.toNat_lt
  have whole : 16 * (value.toNat / 16) + value.toNat % 16 = value.toNat := Nat.div_add_mod _ 16
  rw [readByte?, idxOf?_digit _ (by omega), idxOf?_digit _ (by omega)]
  simp only [Option.bind_eq_bind, Option.bind_some, whole, UInt8.ofNat_toNat]
  rfl

end

theorem byteDigits_inj {left right : Byte} : byteDigits left = byteDigits right ↔ left = right := by
  constructor
  · intro equal
    simp only [byteDigits, List.cons.injEq, and_true] at equal
    have read := readByte?_digits left
    rw [equal.1, equal.2, readByte?_digits] at read
    exact (Option.some.inj read).symm
  · exact congrArg byteDigits

theorem addressDigits_inj {left right : Address} :
    addressDigits left = addressDigits right ↔ left = right := by
  constructor
  · intro equal
    obtain ⟨high, low⟩ := List.append_inj equal rfl
    rw [← word_lowByte_highByte left, byteDigits_inj.mp high, byteDigits_inj.mp low,
      word_lowByte_highByte]
  · exact congrArg addressDigits

end Hex

namespace Processor

def layout : String :=
  "A:hh X:hh Y:hh P:hh SP:hh"

/-- Processors of which the same is shown. -/
structure ShowsAlike (left right : Processor) : Prop where
  a : left.a = right.a
  x : left.x = right.x
  y : left.y = right.y
  status : left.status = right.status
  sp : left.sp = right.sp

theorem read?_display (processor : Processor) :
    Hex.read? layout.toList processor.display.toList =
      some [processor.a, processor.x, processor.y, processor.status, processor.sp] := by
  simp [layout, display, Hex.byteDigits, Hex.read?]

theorem fits_display (processor : Processor) :
    List.Forall₂ Hex.Fits layout.toList processor.display.toList := by
  simp [layout, display, Hex.byteDigits, Hex.Fits]

theorem display_eq_iff (left right : Processor) :
    left.display = right.display ↔ left.ShowsAlike right := by
  constructor
  · intro equal
    have read := read?_display left
    rw [equal, read?_display, Option.some.injEq] at read
    simp only [List.cons.injEq, and_true] at read
    obtain ⟨a, x, y, status, sp⟩ := read
    exact ⟨a.symm, x.symm, y.symm, status.symm, sp.symm⟩
  · intro alike
    rw [display, display, alike.a, alike.x, alike.y, alike.status, alike.sp]

theorem status_eq_iff (left right : Processor) :
    left.status = right.status ↔ left.flags = right.flags :=
  Flags.toByte_inj

end Processor

namespace Machine

theorem operation_congr {σ τ : Type} [Bus σ] [Bus τ] {left : Machine σ} {right : Machine τ}
    (opcode : left.opcode = right.opcode) : left.operation = right.operation :=
  congrArg (fun opcode => (decode opcode).operation) opcode

theorem goldenLine_eq_iff {σ τ : Type} [Bus σ] [Bus τ] (left : Machine σ) (right : Machine τ) :
    left.goldenLine = right.goldenLine ↔
      left.processor.pc = right.processor.pc ∧ left.opcode = right.opcode ∧
        left.processor.ShowsAlike right.processor := by
  constructor
  · intro equal
    have texts := congrArg String.toList equal
    simp only [goldenLine, String.toList_append, Hex.toList_address, Hex.toList_byte,
      List.append_assoc] at texts
    obtain ⟨address, rest⟩ := List.append_inj texts rfl
    obtain ⟨opcode, rest⟩ := List.append_inj (List.append_cancel_left rest) rfl
    have opcode := Hex.byteDigits_inj.mp opcode
    -- The opcode decides the name, so that the same name stands before both displays.
    rw [operation_congr opcode] at rest
    have display := List.append_cancel_left (List.append_cancel_left
      (List.append_cancel_left rest))
    exact ⟨Hex.addressDigits_inj.mp address, opcode,
      (Processor.display_eq_iff _ _).mp (String.toList_inj.mp display)⟩
  · rintro ⟨address, opcode, alike⟩
    rw [goldenLine, goldenLine, address, opcode, operation_congr opcode,
      (Processor.display_eq_iff _ _).mpr alike]

/-- Whatever the budget, the line of the trace about the next instruction is this one. -/
def Traces {σ : Type} [Bus σ] (machine : Machine σ) (line : String) : Prop :=
  ∀ budget, ∃ done,
    machine.advance budget = .ok done ∧
    (done.1.log.filter (·.level = .trace)).map Record.message = [line]

theorem traces_goldenLine {σ : Type} [Bus σ] (machine : Machine σ) :
    machine.Traces machine.goldenLine := fun budget =>
  ⟨_, machine.advance_eq budget, machine.traced_transition⟩

/-- Neither the display nor the trace loses anything of what it shows, and from the display it can
be read again. -/
theorem texts_tell_states :
    (∀ left right : Processor, left.display = right.display ↔ left.ShowsAlike right) ∧
    (∀ left right : Processor, left.status = right.status ↔ left.flags = right.flags) ∧
    (∀ processor : Processor,
      List.Forall₂ Hex.Fits Processor.layout.toList processor.display.toList ∧
      Hex.read? Processor.layout.toList processor.display.toList =
        some [processor.a, processor.x, processor.y, processor.status, processor.sp]) ∧
    ∀ {σ τ : Type} [Bus σ] [Bus τ] (left : Machine σ) (right : Machine τ),
      ∃ leftLine rightLine,
        left.Traces leftLine ∧ right.Traces rightLine ∧
        (leftLine = rightLine ↔
          left.processor.pc = right.processor.pc ∧ left.opcode = right.opcode ∧
            left.processor.ShowsAlike right.processor) := by
  refine ⟨Processor.display_eq_iff, Processor.status_eq_iff, ?_, ?_⟩
  · intro processor
    exact ⟨processor.fits_display, processor.read?_display⟩
  · intro σ τ _ _ left right
    exact ⟨left.goldenLine, right.goldenLine, left.traces_goldenLine, right.traces_goldenLine,
      goldenLine_eq_iff left right⟩

end Machine

end Nmos6502
