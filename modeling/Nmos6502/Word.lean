/-!
Bytes, addresses, and how the chip builds one from the other. Main statements: a word has the value
`low + 256 * high` (`toNat_word`), and an address is the word of its two halves
(`word_lowByte_highByte`).
-/

namespace Nmos6502

abbrev Byte := UInt8

abbrev Address := UInt16

/-- The address whose low half is stored first. -/
def word (low high : Byte) : Address :=
  low.toUInt16 + 256 * high.toUInt16

def lowByte (address : Address) : Byte :=
  address.toUInt8

def highByte (address : Address) : Byte :=
  (address / 256).toUInt8

theorem toNat_word (low high : Byte) :
    (word low high).toNat = low.toNat + 256 * high.toNat := by
  have lowBound := low.toNat_lt
  have highBound := high.toNat_lt
  simp only [word, UInt16.toNat_add, UInt16.toNat_mul, UInt8.toNat_toUInt16,
    UInt16.reduceToNat]
  omega

theorem toNat_lowByte (address : Address) :
    (lowByte address).toNat = address.toNat % 256 := by
  simp [lowByte]

theorem toNat_highByte (address : Address) :
    (highByte address).toNat = address.toNat / 256 := by
  have bound := address.toNat_lt
  simp only [highByte, UInt16.toNat_toUInt8, UInt16.toNat_div, UInt16.reduceToNat]
  omega

@[simp] theorem lowByte_word (low high : Byte) : lowByte (word low high) = low := by
  have bound := low.toNat_lt
  apply UInt8.toNat_inj.mp
  rw [toNat_lowByte, toNat_word]
  omega

@[simp] theorem highByte_word (low high : Byte) : highByte (word low high) = high := by
  have bound := low.toNat_lt
  apply UInt8.toNat_inj.mp
  rw [toNat_highByte, toNat_word]
  omega

@[simp] theorem word_lowByte_highByte (address : Address) :
    word (lowByte address) (highByte address) = address := by
  apply UInt16.toNat_inj.mp
  rw [toNat_word, toNat_lowByte, toNat_highByte]
  omega

theorem sub_one_sub_one (value : Byte) : value - 1 - 1 = value - 2 := by
  simp only [UInt8.sub_eq_add_neg, UInt8.add_assoc]
  rfl

def crossesPage (before after : Address) : Bool :=
  highByte before != highByte after

/-- The successor of an address without a carry into its page. -/
def nextInPage (address : Address) : Address :=
  word (lowByte address + 1) (highByte address)

/-- Moves an address by a byte read as a two's complement number. -/
def displace (address : Address) (offset : Byte) : Address :=
  address + offset.toInt8.toInt16.toUInt16

def isNegative (value : Byte) : Bool :=
  value &&& 0x80 != 0

end Nmos6502
