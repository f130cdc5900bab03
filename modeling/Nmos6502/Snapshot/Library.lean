import Nmos6502.Json
import Nmos6502.Word

/-!
The library that saves records as JSON. It is not written here but a parameter: all that is relied
on is what its documentation says of single values, of the fields of a record one by one, and of
documents (`Library.IsDocumented`).
-/

namespace Nmos6502.Snapshot

/-- How the values of a type are written as JSON, and what they are read from. -/
structure Codec (α : Type) where
  encode : α → Json
  decode? : Json → Option α

/-- The fields of a record as they are declared, one after the other. What is left to put the record
together takes their values in this order. -/
inductive Fields (ρ : Type) : Type → Type 1 where
  | nil : Fields ρ ρ
  | cons {α γ : Type} (name : String) (codec : Codec α) (get : ρ → α) (rest : Fields ρ γ) :
      Fields ρ (α → γ)

namespace Fields

variable {ρ γ : Type}

def names {γ : Type} : Fields ρ γ → List String
  | nil => []
  | cons name _ _ rest => name :: rest.names

def keys (fields : Fields ρ γ) : List Json.Text :=
  fields.names.map Json.Text.ofString

def values {γ : Type} (record : ρ) : Fields ρ γ → List Json
  | nil => []
  | cons _ codec get rest => codec.encode (get record) :: rest.values record

def members (fields : Fields ρ γ) (record : ρ) : List (Json.Text × Json) :=
  fields.keys.zip (fields.values record)

/-- Reads one value for each field, and puts the record together. -/
def assemble? {γ : Type} : Fields ρ γ → γ → List Json → Option ρ
  | nil, record, [] => some record
  | cons _ codec _ rest, make, value :: values => do
      let field ← codec.decode? value
      rest.assemble? (make field) values
  | _, _, _ => none

def Each (property : (α : Type) → Codec α → Prop) {γ : Type} : Fields ρ γ → Prop
  | nil => True
  | cons _ codec _ rest => property _ codec ∧ rest.Each property

/-- No field can be left out: null is no value of any of them. -/
def AllRequired (fields : Fields ρ γ) : Prop :=
  fields.Each fun _ codec => codec.decode? .null = none

end Fields

structure Library where
  bool : Codec Bool
  byte : Codec Byte
  address : Codec Address
  total : Codec UInt64
  /-- What the library derives from the declaration of a record. -/
  record {ρ γ : Type} (fields : Fields ρ γ) (make : γ) : Codec ρ
  print : Json → String
  parse? : String → Option Json

/-! What the documentation says. -/

namespace Codec

structure IsBoolean (codec : Codec Bool) : Prop where
  writes : ∀ value, codec.encode value = .bool value
  reads : ∀ value, codec.decode? (.bool value) = some value
  refusesOthers : ∀ value, (∀ flag, value ≠ .bool flag) → codec.decode? value = none

/-- An unsigned integer is written in digits. It is read if it fits, and from digits alone. -/
structure IsUnsigned {α : Type} (codec : Codec α) (size : Nat) (ofNat : Nat → α) (toNat : α → Nat) :
    Prop where
  writes : ∀ value, codec.encode value = .natural (toNat value)
  reads : ∀ number < size, codec.decode? (.natural number) = some (ofNat number)
  refusesLarge : ∀ number, size ≤ number → codec.decode? (.natural number) = none
  refusesOthers : ∀ value, (∀ number, value ≠ .natural number) → codec.decode? value = none

/-- A record is written as an object of its fields, in their order. Of an object, each field is read
from the member of its name: the order of the members does not matter, others are ignored, and it
is an error if one is missing. -/
structure IsRecord {ρ γ : Type} (codec : Codec ρ) (fields : Fields ρ γ) (make : γ) : Prop where
  writes : ∀ record, codec.encode record = .object (fields.members record)
  reads : ∀ values : List Json, fields.keys.Nodup → values.length = fields.names.length →
    codec.decode? (.object (fields.keys.zip values)) = fields.assemble? make values
  unordered : ∀ members others, Json.Keyed members → others.Perm members →
    codec.decode? (.object others) = codec.decode? (.object members)
  ignoresUnknown : ∀ key value members, Json.Keyed ((key, value) :: members) → key ∉ fields.keys →
    codec.decode? (.object ((key, value) :: members)) = codec.decode? (.object members)
  refusesMissing : ∀ key members, Json.Keyed members → fields.AllRequired → key ∈ fields.keys →
    key ∉ members.map Prod.fst → codec.decode? (.object members) = none
  refusesOthers : ∀ value, (∀ members, value ≠ .object members) →
    (∀ items, value ≠ .array items) → codec.decode? value = none

end Codec

structure Library.IsDocumented (library : Library) : Prop where
  bool : library.bool.IsBoolean
  byte : library.byte.IsUnsigned UInt8.size UInt8.ofNat UInt8.toNat
  address : library.address.IsUnsigned UInt16.size UInt16.ofNat UInt16.toNat
  total : library.total.IsUnsigned UInt64.size UInt64.ofNat UInt64.toNat
  record : ∀ {ρ γ : Type} (fields : Fields ρ γ) (make : γ),
    (library.record fields make).IsRecord fields make
  /-- Readers give up on values that are nested too deep. -/
  parse?_print : ∀ value, value.IsPortable 127 → library.parse? (library.print value) = some value

end Nmos6502.Snapshot
