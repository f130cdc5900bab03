import Nmos6502.Bus
import Nmos6502.Log

/-!
Program images: two bytes that say where a program belongs, and the program, which is sent to a bus
byte by byte. Main statements: what is sent goes to ascending addresses, wrapping at the end of
memory (`foldl_send`, `getElem?_writes`).
-/

namespace Nmos6502

inductive ImageFault where
  | tooShort (length : Nat)
  deriving DecidableEq

def ImageFault.message : ImageFault → String
  | tooShort length => "program image of " ++ length.repr ++ " bytes has no load address"

structure Image where
  start : Address
  body : List Byte
  deriving DecidableEq

namespace Image

def ofBytes : List Byte → Except ImageFault Image
  | low :: high :: body => .ok ⟨word low high, body⟩
  | short => .error (.tooShort short.length)

/-- Each byte of the body at its address. -/
def writes (image : Image) : List Write :=
  image.body.mapIdx fun index value => ⟨image.start + UInt16.ofNat index, value⟩

@[simp] theorem length_writes (image : Image) : image.writes.length = image.body.length := by
  simp [writes]

theorem getElem?_writes (image : Image) (index : Nat) :
    image.writes[index]? =
      image.body[index]?.map fun value => ⟨image.start + UInt16.ofNat index, value⟩ := by
  simp [writes]

theorem writes_cons (start : Address) (first : Byte) (rest : List Byte) :
    writes ⟨start, first :: rest⟩ = ⟨start, first⟩ :: writes ⟨start + 1, rest⟩ := by
  have later : ∀ index : Nat,
      start + (UInt16.ofNat index + 1) = start + 1 + UInt16.ofNat index := by
    intro index
    rw [UInt16.add_comm (UInt16.ofNat index), UInt16.add_assoc]
  simp [writes, List.mapIdx_cons, later]

def record (image : Image) : Record :=
  .loaded image.body.length image.start

end Image

/-- A program on its way to a bus: the address of its next byte, and what was sent so far. -/
structure Placement (σ : Type) where
  bus : σ
  address : Address
  writes : Array Write

namespace Placement

variable {σ : Type} [Bus σ]

def send (placement : Placement σ) (value : Byte) : Placement σ where
  bus := Bus.write placement.bus placement.address value
  address := placement.address + 1
  writes := placement.writes.push ⟨placement.address, value⟩

/-- The loop sends the bytes of a body to the addresses that follow each other. -/
theorem foldl_send (placement : Placement σ) (body : List Byte) :
    body.foldl send placement =
      { bus := Bus.writeAll placement.bus (Image.writes ⟨placement.address, body⟩)
        address := placement.address + UInt16.ofNat body.length
        writes := placement.writes ++ Image.writes ⟨placement.address, body⟩ } := by
  induction body generalizing placement with
  | nil => simp [Image.writes]
  | cons first rest induction =>
      rw [List.foldl_cons, induction, Image.writes_cons, Bus.writeAll_cons]
      simp [send, Nat.add_comm rest.length, UInt16.ofNat_add, UInt16.add_assoc]

end Placement

namespace Bus

variable {σ : Type} [Bus σ]

def place (bus : σ) (bytes : List Byte) : Except ImageFault (Image × Placement σ) := do
  let image ← Image.ofBytes bytes
  return (image, image.body.foldl Placement.send ⟨bus, image.start, #[]⟩)

end Bus

end Nmos6502
