import Nmos6502.Snapshot

/-!
A library to run with, which reads a record from an array of its fields too.
-/

namespace Nmos6502.Snapshot

namespace PlainLibrary

def member? (members : List (Json.Text × Json)) (name : String) : Option Json :=
  match members.filter fun member => member.1 == Json.Text.ofString name with
  | [(_, value)] => some value
  | _ => none

/-- The fields of a record in the order of their names. An object may have other members too, as
long as its keys spell characters. -/
def fields? (names : List String) : Json → Option (List Json)
  | .array items => if items.length = names.length then some items else none
  | .object members =>
      if members.all fun member => member.1.isPaired then
        names.mapM (member? members)
      else
        none
  | _ => none

def bool? : Json → Option Bool
  | .bool value => some value
  | _ => none

def natural? (size : Nat) : Json → Option Nat
  | .number (.natural value) => if value < size then some value else none
  | _ => none

def unsigned (size : Nat) (ofNat : Nat → α) (toNat : α → Nat) : Codec α where
  encode value := .natural (toNat value)
  decode? value := (natural? size value).map ofNat

def record (fields : Fields ρ γ) (make : γ) : Codec ρ where
  encode record := .object (fields.members record)
  decode? value := fields? fields.names value >>= fields.assemble? make

end PlainLibrary

open PlainLibrary

def Library.plain : Library where
  bool := ⟨.bool, bool?⟩
  byte := unsigned UInt8.size UInt8.ofNat UInt8.toNat
  address := unsigned UInt16.size UInt16.ofNat UInt16.toNat
  total := unsigned UInt64.size UInt64.ofNat UInt64.toNat
  record := PlainLibrary.record
  print := Json.render
  parse? := Json.parse?

end Nmos6502.Snapshot
