import Nmos6502.Word

/-!
Hexadecimal text of fixed width, in capitals.
-/

namespace Nmos6502.Hex

def digit (value : Nat) : Char :=
  if value < 10 then Char.ofNat ('0'.toNat + value) else Char.ofNat ('A'.toNat + (value - 10))

def byteDigits (value : Byte) : List Char :=
  [digit (value.toNat / 16), digit (value.toNat % 16)]

def addressDigits (address : Address) : List Char :=
  byteDigits (highByte address) ++ byteDigits (lowByte address)

def byte (value : Byte) : String :=
  String.ofList (byteDigits value)

def address (address : Address) : String :=
  String.ofList (addressDigits address)

@[simp] theorem length_byteDigits (value : Byte) : (byteDigits value).length = 2 := rfl

@[simp] theorem length_addressDigits (address : Address) : (addressDigits address).length = 4 := rfl

@[simp] theorem toList_byte (value : Byte) : (byte value).toList = byteDigits value :=
  String.toList_ofList

@[simp] theorem toList_address (value : Address) : (address value).toList = addressDigits value :=
  String.toList_ofList

end Nmos6502.Hex
