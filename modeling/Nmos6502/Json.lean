import Nmos6502.Json.Token

/-!
JSON documents: their values, how tokens are read as a value, and how a value is written. An object
keeps its members in their order, also those with one key.
-/

namespace Nmos6502

inductive Json where
  | null
  | bool (value : Bool)
  | number (value : Json.Number)
  | string (text : Json.Text)
  | array (items : List Json)
  | object (members : List (Json.Text × Json))

namespace Json

def natural (value : Nat) : Json :=
  .number (.natural value)

/-- Keys that spell characters, each of which stands once. -/
structure Keyed (members : List (Text × Json)) : Prop where
  spelled : ∀ member ∈ members, member.1.isPaired = true
  distinct : (members.map Prod.fst).Nodup

theorem Keyed.of_cons {member : Text × Json} {members : List (Text × Json)}
    (keyed : Keyed (member :: members)) : Keyed members :=
  ⟨(List.forall_mem_cons.mp keyed.spelled).2, (List.nodup_cons.mp keyed.distinct).2⟩

theorem Keyed.of_perm {members others : List (Text × Json)} (keyed : Keyed members)
    (perm : others.Perm members) : Keyed others where
  spelled := fun member among => keyed.spelled member (perm.mem_iff.mp among)
  distinct := (perm.map Prod.fst).nodup_iff.mpr keyed.distinct

/-- What every reader takes as it was written: values nested up to a depth, natural numbers of at
most 64 bits, strings that spell characters, and objects whose keys are distinct. -/
inductive IsPortable : Nat → Json → Prop where
  | null {depth : Nat} : IsPortable depth .null
  | bool {depth : Nat} {value : Bool} : IsPortable depth (.bool value)
  | natural {depth value : Nat} (fits : value < UInt64.size) : IsPortable depth (natural value)
  | string {depth : Nat} {text : Text} (spelled : text.isPaired = true) :
      IsPortable depth (.string text)
  | array {depth : Nat} {items : List Json} (portable : ∀ item ∈ items, IsPortable depth item) :
      IsPortable (depth + 1) (.array items)
  | object {depth : Nat} {members : List (Text × Json)} (keyed : Keyed members)
      (portable : ∀ member ∈ members, IsPortable depth member.2) :
      IsPortable (depth + 1) (.object members)

/-- An array or object that has been opened but not closed, with what it holds so far, last first.
-/
inductive Frame where
  | array (before : List Json)
  | object (before : List (Text × Json)) (key : Text)

mutual

/-- Reads tokens where a value must begin, inside the open arrays and objects of a stack. -/
def ofTokensAt (stack : List Frame) : List Token → Option Json
  | .null :: rest => ofTokensAfter stack .null rest
  | .bool value :: rest => ofTokensAfter stack (.bool value) rest
  | .number value :: rest => ofTokensAfter stack (.number value) rest
  | .string text :: rest => ofTokensAfter stack (.string text) rest
  | .openArray :: .closeArray :: rest => ofTokensAfter stack (.array []) rest
  | .openArray :: rest => ofTokensAt (.array [] :: stack) rest
  | .openObject :: .closeObject :: rest => ofTokensAfter stack (.object []) rest
  | .openObject :: .string key :: .colon :: rest => ofTokensAt (.object [] key :: stack) rest
  | _ => none

def ofTokensAfter (stack : List Frame) (value : Json) : List Token → Option Json
  | [] => if stack.isEmpty then some value else none
  | .closeArray :: rest =>
      match stack with
      | .array before :: stack => ofTokensAfter stack (.array (value :: before).reverse) rest
      | _ => none
  | .closeObject :: rest =>
      match stack with
      | .object before key :: stack =>
          ofTokensAfter stack (.object ((key, value) :: before).reverse) rest
      | _ => none
  | .comma :: .string next :: .colon :: rest =>
      match stack with
      | .object before key :: stack =>
          ofTokensAt (.object ((key, value) :: before) next :: stack) rest
      | _ => none
  | .comma :: rest =>
      match stack with
      | .array before :: stack => ofTokensAt (.array (value :: before) :: stack) rest
      | _ => none
  | _ => none

end

def ofTokens? (tokens : List Token) : Option Json :=
  ofTokensAt [] tokens

mutual

def toTokens : Json → List Token
  | null => [.null]
  | bool value => [.bool value]
  | number value => [.number value]
  | string text => [.string text]
  | array [] => [.openArray, .closeArray]
  | array (first :: rest) => .openArray :: first.toTokens ++ restOfItems rest
  | object [] => [.openObject, .closeObject]
  | object ((key, first) :: rest) =>
      .openObject :: .string key :: .colon :: first.toTokens ++ restOfMembers rest

def restOfItems : List Json → List Token
  | [] => [.closeArray]
  | item :: rest => .comma :: item.toTokens ++ restOfItems rest

def restOfMembers : List (Text × Json) → List Token
  | [] => [.closeObject]
  | (key, value) :: rest =>
      .comma :: .string key :: .colon :: value.toTokens ++ restOfMembers rest

end

def parse? (document : String) : Option Json := do
  let tokens ← Token.scan document.toList
  ofTokens? tokens

def render (value : Json) : String :=
  String.ofList (value.toTokens.flatMap Token.spell)

end Json

end Nmos6502
