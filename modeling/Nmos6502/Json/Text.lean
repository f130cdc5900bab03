import Nmos6502.Hex

/-!
The strings of JSON. An escape names one UTF-16 code unit, so that a string is a sequence of those,
and one half of a surrogate pair may stand in it alone. Main statement: that is not so in a string
of characters (`isPaired_ofString`).
-/

namespace Nmos6502.Json

abbrev Text := List UInt16

namespace Text

/-- The code units of a character: a surrogate pair from U+10000 on, and else one unit. -/
def ofChar (character : Char) : Text :=
  let code := character.toNat
  if code < 0x10000 then
    [UInt16.ofNat code]
  else
    [UInt16.ofNat (0xD800 + (code - 0x10000) / 0x400),
      UInt16.ofNat (0xDC00 + (code - 0x10000) % 0x400)]

def ofString (string : String) : Text :=
  string.toList.flatMap ofChar

def isHighHalf (unit : UInt16) : Bool :=
  decide (0xD800 ≤ unit) && decide (unit < 0xDC00)

def isLowHalf (unit : UInt16) : Bool :=
  decide (0xDC00 ≤ unit) && decide (unit < 0xE000)

/-- Every half of a surrogate pair stands beside the other, so that the units spell characters. -/
def isPaired : Text → Bool
  | [] => true
  | unit :: rest =>
      if isHighHalf unit then
        match rest with
        | [] => false
        | other :: rest => isLowHalf other && isPaired rest
      else
        !isLowHalf unit && isPaired rest

theorem isHighHalf_ofNat {code : Nat} (small : code < 0x10000) :
    isHighHalf (UInt16.ofNat code) = (decide (0xD800 ≤ code) && decide (code < 0xDC00)) := by
  have same : (UInt16.ofNat code).toNat = code := UInt16.toNat_ofNat_of_lt' small
  simp [isHighHalf, UInt16.le_iff_toNat_le, UInt16.lt_iff_toNat_lt, same]

theorem isLowHalf_ofNat {code : Nat} (small : code < 0x10000) :
    isLowHalf (UInt16.ofNat code) = (decide (0xDC00 ≤ code) && decide (code < 0xE000)) := by
  have same : (UInt16.ofNat code).toNat = code := UInt16.toNat_ofNat_of_lt' small
  simp [isLowHalf, UInt16.le_iff_toNat_le, UInt16.lt_iff_toNat_lt, same]

/-- No character has the code of one half of a pair. -/
theorem isPaired_ofChar_append (character : Char) (rest : Text) :
    isPaired (ofChar character ++ rest) = isPaired rest := by
  have valid : character.toNat < 0xD800 ∨ 0xDFFF < character.toNat ∧ character.toNat < 0x110000 :=
    character.valid
  unfold ofChar
  dsimp only
  split
  next single =>
    have unpaired : isHighHalf (UInt16.ofNat character.toNat) = false ∧
        isLowHalf (UInt16.ofNat character.toNat) = false := by
      rw [isHighHalf_ofNat single, isLowHalf_ofNat single]
      simp
      omega
    rw [List.singleton_append, isPaired.eq_def]
    simp [unpaired]
  next pair =>
    have high : isHighHalf (UInt16.ofNat (0xD800 + (character.toNat - 0x10000) / 0x400)) =
        true := by
      rw [isHighHalf_ofNat (by omega)]
      simp
      omega
    have low : isLowHalf (UInt16.ofNat (0xDC00 + (character.toNat - 0x10000) % 0x400)) =
        true := by
      rw [isLowHalf_ofNat (by omega)]
      simp
      omega
    simp only [List.cons_append, List.nil_append, isPaired, high, low, if_true, Bool.true_and]

theorem isPaired_ofString (string : String) : (ofString string).isPaired = true := by
  unfold ofString
  induction string.toList with
  | nil => rfl
  | cons character rest induction => rwa [List.flatMap_cons, isPaired_ofChar_append]

def hexValue? (digit : Char) : Option Nat :=
  if '0' ≤ digit ∧ digit ≤ '9' then some (digit.toNat - '0'.toNat)
  else if 'a' ≤ digit ∧ digit ≤ 'f' then some (digit.toNat - 'a'.toNat + 10)
  else if 'A' ≤ digit ∧ digit ≤ 'F' then some (digit.toNat - 'A'.toNat + 10)
  else none

def unitOfDigits? (first second third fourth : Char) : Option UInt16 := do
  let first ← hexValue? first
  let second ← hexValue? second
  let third ← hexValue? third
  let fourth ← hexValue? fourth
  return UInt16.ofNat (((first * 16 + second) * 16 + third) * 16 + fourth)

def escaped? : Char → Option UInt16
  | '"' => some 0x22
  | '\\' => some 0x5C
  | '/' => some 0x2F
  | 'b' => some 0x08
  | 'f' => some 0x0C
  | 'n' => some 0x0A
  | 'r' => some 0x0D
  | 't' => some 0x09
  | _ => none

/-- Reads a string up to its closing quote, and gives what follows it. Control characters are
written as escapes only. -/
def scan : List Char → Option (Text × List Char)
  | [] => none
  | '"' :: rest => some ([], rest)
  | '\\' :: 'u' :: first :: second :: third :: fourth :: rest => do
      let unit ← unitOfDigits? first second third fourth
      let (text, after) ← scan rest
      return (unit :: text, after)
  | '\\' :: letter :: rest => do
      let unit ← escaped? letter
      let (text, after) ← scan rest
      return (unit :: text, after)
  | character :: rest => do
      if character.toNat < 0x20 then
        none
      else
        let (text, after) ← scan rest
        return (ofChar character ++ text, after)

def spellUnit (unit : UInt16) : List Char :=
  if 0x20 ≤ unit ∧ unit < 0x7F ∧ unit ≠ 0x22 ∧ unit ≠ 0x5C then
    [Char.ofNat unit.toNat]
  else
    '\\' :: 'u' :: Hex.addressDigits unit

def spell (text : Text) : List Char :=
  '"' :: text.flatMap spellUnit ++ ['"']

end Text

end Nmos6502.Json
