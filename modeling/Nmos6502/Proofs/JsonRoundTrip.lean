import Nmos6502.Json
import Mathlib.Data.List.Chain
import Mathlib.Data.List.TakeDrop

/-!
JSON that is written is read back. Every layer is undone by the one that reads it: numbers, strings,
tokens and values. Main statement: a value whose numbers are natural is read from its document
(`parse?_render`).
-/

namespace Nmos6502.Json

namespace Number

/-- What begins here does not go on with a number before it. -/
def Ends (rest : List Char) : Prop :=
  ∀ next ∈ rest.head?, next.isDigit = false ∧ next ≠ '.' ∧ next ≠ 'e' ∧ next ≠ 'E'

theorem Ends.nil : Ends [] := by
  simp [Ends]

theorem digits_append {found rest : List Char} (all : ∀ character ∈ found, character.isDigit)
    (ends : Ends rest) : digits (found ++ rest) = (found, rest) := by
  rw [digits, List.span_eq_takeWhile_dropWhile, List.takeWhile_append_of_pos all,
    List.dropWhile_append_of_pos all]
  rcases rest with _ | ⟨next, rest⟩
  · simp
  · have apart : next.isDigit = false := (ends next rfl).1
    simp [apart]

theorem isDigit_of_mem_toDigits (value : Nat) :
    ∀ character ∈ Nat.toDigits 10 value, character.isDigit :=
  fun _ found => Nat.isDigit_of_mem_toDigits (by decide) (by decide) found

theorem exists_toDigits (value : Nat) :
    ∃ first rest, Nat.toDigits 10 value = first :: rest ∧ first.isDigit := by
  obtain ⟨first, rest, spelled⟩ := List.exists_cons_of_ne_nil
    (Nat.toDigits_ne_nil (n := value) (b := 10))
  refine ⟨first, rest, spelled, isDigit_of_mem_toDigits value first ?_⟩
  rw [spelled]
  exact List.mem_cons_self

theorem head?_toDigits_ne_zero {value : Nat} (positive : 0 < value) :
    (Nat.toDigits 10 value).head? ≠ some '0' := by
  induction value using Nat.strongRecOn with
  | ind value induction =>
      rcases Nat.lt_or_ge value 10 with small | large
      · have leading : ∀ value < 10, 0 < value → Nat.digitChar value ≠ '0' := by decide
        rw [Nat.toDigits_of_lt_base small]
        simpa using leading value small positive
      · rw [Nat.toDigits_of_base_le (by decide) large,
          List.head?_append_of_ne_nil _ Nat.toDigits_ne_nil]
        exact induction (value / 10) (by omega) (by omega)

theorem integer?_toDigits (value : Nat) {rest : List Char} (ends : Ends rest) :
    integer? (Nat.toDigits 10 value ++ rest) = some (Nat.toDigits 10 value, rest) := by
  have found : digits (Nat.toDigits 10 value ++ rest) = (Nat.toDigits 10 value, rest) :=
    digits_append (isDigit_of_mem_toDigits value) ends
  obtain ⟨first, more, spelled, _⟩ := exists_toDigits value
  rcases Nat.eq_zero_or_pos value with rfl | positive
  · rfl
  · have leading : first ≠ '0' := by
      rintro rfl
      exact head?_toDigits_ne_zero positive (by rw [spelled]; rfl)
    rw [spelled, List.cons_append] at found ⊢
    simp [integer?, leading, someDigits?, found]

theorem fraction?_of_ends {rest : List Char} (ends : Ends rest) :
    fraction? rest = some ([], rest) := by
  rcases rest with _ | ⟨next, rest⟩
  · rfl
  · have apart : next ≠ '.' := (ends next rfl).2.1
    simp [fraction?, apart]

theorem exponent?_of_ends {rest : List Char} (ends : Ends rest) :
    exponent? rest = some ([], rest) := by
  rcases rest with _ | ⟨next, rest⟩
  · rfl
  · have apart : ¬(next = 'e' ∨ next = 'E') := not_or.mpr (ends next rfl).2.2
    simp [exponent?, apart]

theorem sign_of_isDigit {first : Char} (digit : first.isDigit) (rest : List Char) :
    sign (first :: rest) = ([], first :: rest) := by
  have unsigned : first ≠ '-' := by
    rintro rfl
    contradiction
  simp [sign, unsigned]

theorem scan_natural (value : Nat) {rest : List Char} (ends : Ends rest) :
    scan ((natural value).spell ++ rest) = some (natural value, rest) := by
  have unsigned : sign (Nat.toDigits 10 value ++ rest) = ([], Nat.toDigits 10 value ++ rest) := by
    obtain ⟨first, more, spelled, digit⟩ := exists_toDigits value
    rw [spelled]
    exact sign_of_isDigit digit (more ++ rest)
  have restored : valueOfDigits (Nat.toDigits 10 value) = value :=
    Nat.ofDigitChars_toDigits (by decide) (by decide)
  simp [scan, spell, unsigned, integer?_toDigits value ends, fraction?_of_ends ends,
    exponent?_of_ends ends, restored]

end Number

namespace Text

theorem hexValue?_digit : ∀ value < 16, hexValue? (Hex.digit value) = some value := by
  decide

theorem unitOfDigits?_addressDigits (unit : UInt16) :
    unitOfDigits? (Hex.digit ((highByte unit).toNat / 16)) (Hex.digit ((highByte unit).toNat % 16))
      (Hex.digit ((lowByte unit).toNat / 16)) (Hex.digit ((lowByte unit).toNat % 16)) =
      some unit := by
  have highBound := (highByte unit).toNat_lt
  have lowBound := (lowByte unit).toNat_lt
  have whole : (((highByte unit).toNat / 16 * 16 + (highByte unit).toNat % 16) * 16 +
      (lowByte unit).toNat / 16) * 16 + (lowByte unit).toNat % 16 = unit.toNat := by
    rw [toNat_highByte, toNat_lowByte]
    omega
  rw [unitOfDigits?, hexValue?_digit _ (by omega), hexValue?_digit _ (by omega),
    hexValue?_digit _ (by omega), hexValue?_digit _ (by omega)]
  simp only [Option.bind_eq_bind, Option.bind_some, whole, UInt16.ofNat_toNat]
  rfl

theorem toNat_ofNat {code : Nat} (ascii : code < 0x80) : (Char.ofNat code).toNat = code := by
  have valid : code.isValidChar := .inl (by omega)
  rw [Char.ofNat, dif_pos valid]
  rfl

theorem ofChar_ofNat {unit : UInt16} (ascii : unit.toNat < 0x80) :
    ofChar (Char.ofNat unit.toNat) = [unit] := by
  have single : unit.toNat < 0x10000 := unit.toNat_lt
  simp only [ofChar, toNat_ofNat ascii, UInt16.ofNat_toNat]
  exact if_pos single

theorem ofNat_ne {unit : UInt16} (ascii : unit.toNat < 0x80) {sign : Char}
    (distinct : unit ≠ UInt16.ofNat sign.toNat) : Char.ofNat unit.toNat ≠ sign := by
  rintro rfl
  apply distinct
  rw [toNat_ofNat ascii, UInt16.ofNat_toNat]

theorem scan_cons {character : Char} (printable : 0x20 ≤ character.toNat)
    (unquoted : character ≠ '"') (unescaped : character ≠ '\\') (rest : List Char) :
    scan (character :: rest) =
      (scan rest).map fun found => (ofChar character ++ found.1, found.2) := by
  rw [scan]
  · rw [if_neg (by omega)]
    cases scan rest <;> rfl
  all_goals simp [unquoted, unescaped]

theorem scan_spellUnit (unit : UInt16) (rest : List Char) :
    scan (spellUnit unit ++ rest) = (scan rest).map fun found => (unit :: found.1, found.2) := by
  unfold spellUnit
  split
  next plain =>
    obtain ⟨printable, small, unquoted, unescaped⟩ := plain
    have ascii : unit.toNat < 0x80 := Nat.lt_succ_of_lt small
    have visible : 0x20 ≤ (Char.ofNat unit.toNat).toNat := by
      rw [toNat_ofNat ascii]
      exact printable
    rw [List.singleton_append,
      scan_cons visible (ofNat_ne ascii unquoted) (ofNat_ne ascii unescaped), ofChar_ofNat ascii]
    rfl
  next =>
    have digits : Hex.addressDigits unit = [Hex.digit ((highByte unit).toNat / 16),
      Hex.digit ((highByte unit).toNat % 16), Hex.digit ((lowByte unit).toNat / 16),
      Hex.digit ((lowByte unit).toNat % 16)] := rfl
    rw [digits]
    simp only [List.cons_append, List.nil_append, scan, unitOfDigits?_addressDigits]
    cases scan rest <;> rfl

theorem scan_spell (text : Text) (rest : List Char) :
    scan (text.flatMap spellUnit ++ '"' :: rest) = some (text, rest) := by
  induction text with
  | nil => rfl
  | cons unit text induction =>
      rw [List.flatMap_cons, List.append_assoc, scan_spellUnit, induction]
      rfl

end Text

namespace Token

def isNumber : Token → Bool
  | number _ => true
  | _ => false

/-- All tokens but the numbers that are kept as they were written. -/
def IsPlain : Token → Prop
  | number (.other _) => False
  | _ => True

/-- Two numbers cannot stand side by side, since nothing would tell where the first ends. -/
def Apart (first second : Token) : Prop :=
  first.isNumber = false ∨ second.isNumber = false

/-- What begins here begins with a token that is no number, or with none. -/
def Closes (tokens : List Token) : Prop :=
  ∀ next ∈ tokens.head?, next.isNumber = false

theorem isChain_cons {first : Token} {tokens : List Token} (separator : first.isNumber = false)
    (chain : tokens.IsChain Apart) : (first :: tokens).IsChain Apart :=
  List.isChain_cons.mpr ⟨fun _ _ => .inl separator, chain⟩

theorem exists_spell {token : Token} (plain : token.IsPlain) :
    ∃ first rest, token.spell = first :: rest ∧ isBlank first = false ∧
      (token.isNumber = false → Number.Ends (first :: rest)) := by
  cases token with
  | number value =>
      cases value with
      | other literal => exact plain.elim
      | natural value =>
          obtain ⟨first, rest, spelled, digit⟩ := Number.exists_toDigits value
          refine ⟨first, rest, spelled, ?_, nofun⟩
          simp only [isBlank, Bool.or_eq_false_iff, beq_eq_false_iff_ne]
          refine ⟨⟨⟨?_, ?_⟩, ?_⟩, ?_⟩ <;> (rintro rfl; contradiction)
  | bool value =>
      cases value <;> exact ⟨_, _, rfl, rfl, by simp [Number.Ends]⟩
  | _ => exact ⟨_, _, rfl, rfl, by simp [Number.Ends]⟩

theorem next?_of_isDigit {first : Char} (digit : first.isDigit) (rest : List Char) :
    next? (first :: rest) =
      (Number.scan (first :: rest)).map fun found => (number found.1, found.2) := by
  rw [next?]
  · cases Number.scan (first :: rest) <;> rfl
  all_goals
    rintro _ ⟨⟩
    contradiction

theorem next?_spell {token : Token} (plain : token.IsPlain) {rest : List Char}
    (ends : token.isNumber = true → Number.Ends rest) :
    next? (token.spell ++ rest) = some (token, rest) := by
  cases token with
  | number value =>
      cases value with
      | other literal => exact plain.elim
      | natural value =>
          have scanned := Number.scan_natural value (ends rfl)
          obtain ⟨first, more, spelled, digit⟩ := Number.exists_toDigits value
          rw [Number.spell, spelled, List.cons_append] at scanned
          rw [spell, Number.spell, spelled, List.cons_append, next?_of_isDigit digit, scanned]
          rfl
  | string text =>
      have scanned := Text.scan_spell text rest
      simp [spell, Text.spell, next?, scanned]
  | bool value => cases value <;> rfl
  | _ => rfl

theorem ends_flatMap_spell {tokens : List Token} (plain : ∀ token ∈ tokens, token.IsPlain)
    (closes : Closes tokens) : Number.Ends (tokens.flatMap spell) := by
  cases tokens with
  | nil => exact Number.Ends.nil
  | cons token tokens =>
      obtain ⟨first, rest, spelled, _, ends⟩ := exists_spell (plain token List.mem_cons_self)
      rw [List.flatMap_cons, spelled]
      exact ends (closes token rfl)

theorem scanWithin_flatMap_spell {tokens : List Token} {limit : Nat}
    (plain : ∀ token ∈ tokens, token.IsPlain) (chain : tokens.IsChain Apart)
    (within : tokens.length ≤ limit) :
    scanWithin limit (tokens.flatMap spell) = some tokens := by
  induction tokens generalizing limit with
  | nil => cases limit <;> rfl
  | cons token tokens induction =>
      obtain ⟨limit, rfl⟩ := Nat.exists_eq_add_of_le' within
      obtain ⟨plainFirst, plainRest⟩ := List.forall_mem_cons.mp plain
      obtain ⟨apart, chainRest⟩ := List.isChain_cons.mp chain
      have ends : token.isNumber = true → Number.Ends (tokens.flatMap spell) := by
        intro numeric
        apply ends_flatMap_spell plainRest
        intro next found
        exact (apart next found).resolve_left (by simp [numeric])
      have read := next?_spell plainFirst ends
      have rest : scanWithin (limit + tokens.length) (tokens.flatMap spell) = some tokens :=
        induction plainRest chainRest (by omega)
      obtain ⟨first, more, spelled, visible, _⟩ := exists_spell plainFirst
      rw [spelled, List.cons_append] at read
      rw [List.flatMap_cons, spelled, List.cons_append, List.length_cons, ← Nat.add_assoc,
        scanWithin, List.dropWhile_cons_of_neg (by simp [visible])]
      simp [read, rest]

theorem length_le_length_flatMap_spell {tokens : List Token}
    (plain : ∀ token ∈ tokens, token.IsPlain) :
    tokens.length ≤ (tokens.flatMap spell).length := by
  induction tokens with
  | nil => exact Nat.le_refl 0
  | cons token tokens induction =>
      obtain ⟨plainFirst, plainRest⟩ := List.forall_mem_cons.mp plain
      have rest := induction plainRest
      obtain ⟨first, more, spelled, _⟩ := exists_spell plainFirst
      simp only [List.flatMap_cons, List.length_append, List.length_cons, spelled]
      omega

theorem scan_flatMap_spell {tokens : List Token} (plain : ∀ token ∈ tokens, token.IsPlain)
    (chain : tokens.IsChain Apart) : scan (tokens.flatMap spell) = some tokens :=
  scanWithin_flatMap_spell plain chain (length_le_length_flatMap_spell plain)

end Token

theorem ofTokensAt_openArray_toTokens (stack : List Frame) (first : Json) (rest : List Token) :
    ofTokensAt stack (.openArray :: (first.toTokens ++ rest)) =
      ofTokensAt (.array [] :: stack) (first.toTokens ++ rest) := by
  rw [ofTokensAt]
  intro after starts
  cases first with
  | array items => cases items <;> simp [toTokens] at starts
  | object members => cases members <;> simp [toTokens] at starts
  | _ => simp [toTokens] at starts

/-- A string that is an item of an array is no key. -/
theorem ofTokensAfter_comma_toTokens (before : List Json) (stack : List Frame)
    (value item : Json) (items : List Json) (rest : List Token) :
    ofTokensAfter (.array before :: stack) value
        (.comma :: (item.toTokens ++ (restOfItems items ++ rest))) =
      ofTokensAt (.array (value :: before) :: stack)
        (item.toTokens ++ (restOfItems items ++ rest)) := by
  rw [ofTokensAfter]
  intro key after starts
  cases item with
  | string text => cases items <;> simp [toTokens, restOfItems] at starts
  | array items => cases items <;> simp [toTokens] at starts
  | object members => cases members <;> simp [toTokens] at starts
  | _ => simp [toTokens] at starts

-- The rest of an array or object is read inside the frame of what came before it, so that the
-- frames stay general throughout.
mutual

theorem ofTokensAt_toTokens (value : Json) (stack : List Frame) (rest : List Token) :
    ofTokensAt stack (value.toTokens ++ rest) = ofTokensAfter stack value rest := by
  cases value with
  | null => rw [toTokens, List.singleton_append, ofTokensAt]
  | bool value => rw [toTokens, List.singleton_append, ofTokensAt]
  | number value => rw [toTokens, List.singleton_append, ofTokensAt]
  | string text => rw [toTokens, List.singleton_append, ofTokensAt]
  | array items =>
      cases items with
      | nil => simp [toTokens, ofTokensAt]
      | cons first items =>
          simp only [toTokens, List.cons_append, List.append_assoc]
          rw [ofTokensAt_openArray_toTokens, ofTokensAt_toTokens first, ofTokensAfter_restOfItems]
          rfl
  | object members =>
      cases members with
      | nil => simp [toTokens, ofTokensAt]
      | cons member members =>
          obtain ⟨key, first⟩ := member
          simp only [toTokens, List.cons_append, List.append_assoc, ofTokensAt]
          rw [ofTokensAt_toTokens first, ofTokensAfter_restOfMembers]
          rfl

theorem ofTokensAfter_restOfItems (items before : List Json) (value : Json) (stack : List Frame)
    (rest : List Token) :
    ofTokensAfter (.array before :: stack) value (restOfItems items ++ rest) =
      ofTokensAfter stack (.array (before.reverse ++ value :: items)) rest := by
  cases items with
  | nil => simp [restOfItems, ofTokensAfter]
  | cons item items =>
      simp only [restOfItems, List.cons_append, List.append_assoc]
      rw [ofTokensAfter_comma_toTokens, ofTokensAt_toTokens item, ofTokensAfter_restOfItems]
      simp

theorem ofTokensAfter_restOfMembers (members before : List (Text × Json)) (key : Text)
    (value : Json) (stack : List Frame) (rest : List Token) :
    ofTokensAfter (.object before key :: stack) value (restOfMembers members ++ rest) =
      ofTokensAfter stack (.object (before.reverse ++ (key, value) :: members)) rest := by
  cases members with
  | nil => simp [restOfMembers, ofTokensAfter]
  | cons member members =>
      obtain ⟨next, item⟩ := member
      simp only [restOfMembers, List.cons_append, List.append_assoc, ofTokensAfter]
      rw [ofTokensAt_toTokens item, ofTokensAfter_restOfMembers]
      simp

end

theorem ofTokens?_toTokens (value : Json) : ofTokens? value.toTokens = some value := by
  have read := ofTokensAt_toTokens value [] []
  rw [List.append_nil] at read
  exact read

theorem closes_restOfItems (items : List Json) (rest : List Token) :
    Token.Closes (restOfItems items ++ rest) := by
  cases items <;> simp [Token.Closes, restOfItems, Token.isNumber]

theorem closes_restOfMembers (members : List (Text × Json)) (rest : List Token) :
    Token.Closes (restOfMembers members ++ rest) := by
  cases members with
  | nil => simp [Token.Closes, restOfMembers, Token.isNumber]
  | cons member members => simp [Token.Closes, restOfMembers, Token.isNumber]

mutual

theorem isChain_toTokens (value : Json) {rest : List Token} (chain : rest.IsChain Token.Apart)
    (closes : Token.Closes rest) : (value.toTokens ++ rest).IsChain Token.Apart := by
  cases value with
  | null => exact Token.isChain_cons rfl chain
  | bool value => exact Token.isChain_cons rfl chain
  | string text => exact Token.isChain_cons rfl chain
  | number value =>
      rw [toTokens, List.singleton_append, List.isChain_cons]
      exact ⟨fun next found => .inr (closes next found), chain⟩
  | array items =>
      cases items with
      | nil => exact Token.isChain_cons rfl (Token.isChain_cons rfl chain)
      | cons first items =>
          rw [toTokens, List.cons_append, List.cons_append, List.append_assoc]
          apply Token.isChain_cons rfl
          exact isChain_toTokens first (isChain_restOfItems items chain) (closes_restOfItems items _)
  | object members =>
      cases members with
      | nil => exact Token.isChain_cons rfl (Token.isChain_cons rfl chain)
      | cons member members =>
          obtain ⟨key, first⟩ := member
          simp only [toTokens, List.cons_append, List.append_assoc]
          apply Token.isChain_cons rfl
          apply Token.isChain_cons rfl
          apply Token.isChain_cons rfl
          exact isChain_toTokens first (isChain_restOfMembers members chain)
            (closes_restOfMembers members _)

theorem isChain_restOfItems (items : List Json) {rest : List Token}
    (chain : rest.IsChain Token.Apart) : (restOfItems items ++ rest).IsChain Token.Apart := by
  cases items with
  | nil => exact Token.isChain_cons rfl chain
  | cons item items =>
      simp only [restOfItems, List.cons_append, List.append_assoc]
      apply Token.isChain_cons rfl
      exact isChain_toTokens item (isChain_restOfItems items chain) (closes_restOfItems items _)

theorem isChain_restOfMembers (members : List (Text × Json)) {rest : List Token}
    (chain : rest.IsChain Token.Apart) : (restOfMembers members ++ rest).IsChain Token.Apart := by
  cases members with
  | nil => exact Token.isChain_cons rfl chain
  | cons member members =>
      obtain ⟨key, value⟩ := member
      simp only [restOfMembers, List.cons_append, List.append_assoc]
      apply Token.isChain_cons rfl
      apply Token.isChain_cons rfl
      apply Token.isChain_cons rfl
      exact isChain_toTokens value (isChain_restOfMembers members chain)
        (closes_restOfMembers members _)

end

/-- The values that hold no numbers but natural ones. -/
def IsPlain (value : Json) : Prop :=
  ∀ token ∈ value.toTokens, token.IsPlain

theorem isPlain_restOfMembers {members : List (Text × Json)}
    (plain : ∀ member ∈ members, member.2.IsPlain) :
    ∀ token ∈ restOfMembers members, token.IsPlain := by
  induction members with
  | nil => simp [restOfMembers, Token.IsPlain]
  | cons member members induction =>
      obtain ⟨key, value⟩ := member
      obtain ⟨first, rest⟩ := List.forall_mem_cons.mp plain
      simp only [restOfMembers, List.forall_mem_cons, List.forall_mem_append]
      exact ⟨⟨trivial, trivial, trivial, first⟩, induction rest⟩

theorem isPlain_object {members : List (Text × Json)}
    (plain : ∀ member ∈ members, member.2.IsPlain) : (object members).IsPlain := by
  cases members with
  | nil => simp [IsPlain, toTokens, Token.IsPlain]
  | cons member members =>
      obtain ⟨key, value⟩ := member
      obtain ⟨first, rest⟩ := List.forall_mem_cons.mp plain
      simp only [IsPlain, toTokens, List.forall_mem_cons, List.forall_mem_append]
      exact ⟨⟨trivial, trivial, trivial, first⟩, isPlain_restOfMembers rest⟩

theorem isPlain_restOfItems {items : List Json} (plain : ∀ item ∈ items, item.IsPlain) :
    ∀ token ∈ restOfItems items, token.IsPlain := by
  induction items with
  | nil => simp [restOfItems, Token.IsPlain]
  | cons item items induction =>
      obtain ⟨first, rest⟩ := List.forall_mem_cons.mp plain
      simp only [restOfItems, List.forall_mem_cons, List.forall_mem_append]
      exact ⟨⟨trivial, first⟩, induction rest⟩

theorem isPlain_array {items : List Json} (plain : ∀ item ∈ items, item.IsPlain) :
    (array items).IsPlain := by
  cases items with
  | nil => simp [IsPlain, toTokens, Token.IsPlain]
  | cons item items =>
      obtain ⟨first, rest⟩ := List.forall_mem_cons.mp plain
      simp only [IsPlain, toTokens, List.forall_mem_cons, List.forall_mem_append]
      exact ⟨⟨trivial, first⟩, isPlain_restOfItems rest⟩

theorem IsPortable.isPlain {depth : Nat} {value : Json} (portable : value.IsPortable depth) :
    value.IsPlain := by
  induction portable with
  | array _ induction => exact isPlain_array induction
  | object _ _ induction => exact isPlain_object induction
  | _ => simp [IsPlain, Json.natural, toTokens, Token.IsPlain]

theorem parse?_render {value : Json} (plain : value.IsPlain) : parse? value.render = some value := by
  have chain : value.toTokens.IsChain Token.Apart := by
    have alone : (value.toTokens ++ []).IsChain Token.Apart := isChain_toTokens value .nil nofun
    rwa [List.append_nil] at alone
  have scanned : Token.scan value.render.toList = some value.toTokens := by
    rw [render, String.toList_ofList]
    exact Token.scan_flatMap_spell plain chain
  rw [parse?, scanned]
  exact ofTokens?_toTokens value

end Nmos6502.Json
