import Nmos6502.Bus

/-!
Memory that keeps every byte written to it. Main statements: reading an address just written gives
the new byte (`read_write_self`), every other address keeps its own (`read_write_ne`), and memories
that read alike are equal (`ext_read`).
-/

namespace Nmos6502

structure Memory where
  bytes : ByteArray
  size_eq : bytes.size = UInt16.size

namespace Memory

def ofFn (contents : View) : Memory where
  bytes := ⟨Array.ofFn fun index : Fin UInt16.size => contents (UInt16.ofFin index)⟩
  size_eq := Array.size_ofFn

def zero : Memory :=
  ofFn fun _ => 0

instance : Inhabited Memory := ⟨zero⟩

theorem toNat_lt_size (memory : Memory) (address : Address) :
    address.toNat < memory.bytes.size := by
  rw [memory.size_eq]
  exact address.toNat_lt

def read (memory : Memory) (address : Address) : Byte :=
  memory.bytes.get address.toNat (memory.toNat_lt_size address)

def write (memory : Memory) (address : Address) (value : Byte) : Memory where
  bytes := memory.bytes.set address.toNat value (memory.toNat_lt_size address)
  size_eq := by
    rw [← memory.size_eq]
    exact Array.size_set _

instance : Bus Memory := ⟨read, write⟩

@[simp] theorem bus_read (memory : Memory) : Bus.read memory = memory.read := rfl

@[simp] theorem bus_write (memory : Memory) : Bus.write memory = memory.write := rfl

theorem getElem?_data (memory : Memory) (address : Address) :
    memory.bytes.data[address.toNat]? = some (memory.read address) :=
  Array.getElem?_eq_getElem (memory.toNat_lt_size address)

@[simp] theorem read_ofFn (contents : View) (address : Address) :
    (ofFn contents).read address = contents address := by
  apply Option.some.inj
  rw [← getElem?_data, ofFn, Array.getElem?_ofFn, dif_pos address.toNat_lt]
  rfl

theorem read_write (memory : Memory) (address other : Address) (value : Byte) :
    (memory.write address value).read other =
      if address = other then value else memory.read other := by
  have data : (memory.write address value).bytes.data =
      memory.bytes.data.set address.toNat value (memory.toNat_lt_size address) := rfl
  apply Option.some.inj
  rw [← getElem?_data, data, Array.getElem?_set, getElem?_data]
  simp only [UInt16.toNat_inj]
  split <;> rfl

@[simp] theorem read_write_self (memory : Memory) (address : Address) (value : Byte) :
    (memory.write address value).read address = value := by
  simp [read_write]

theorem read_write_ne (memory : Memory) {address other : Address} (value : Byte)
    (distinct : address ≠ other) :
    (memory.write address value).read other = memory.read other := by
  simp [read_write, distinct]

theorem read_writeAll_of_forall_ne (memory : Memory) {writes : List Write} {address : Address}
    (apart : ∀ write ∈ writes, write.address ≠ address) :
    (Bus.writeAll memory writes).read address = memory.read address := by
  induction writes generalizing memory with
  | nil => rfl
  | cons first rest induction =>
      obtain ⟨firstApart, restApart⟩ := List.forall_mem_cons.mp apart
      rw [Bus.writeAll_cons, bus_write, induction _ restApart,
        read_write_ne memory first.value firstApart]

theorem ext_read {left right : Memory} (equal : ∀ address, left.read address = right.read address) :
    left = right := by
  have data : left.bytes.data = right.bytes.data := by
    refine Array.ext (left.size_eq.trans right.size_eq.symm) fun index leftBound rightBound => ?_
    have bound : index < UInt16.size := left.size_eq ▸ leftBound
    have position : (UInt16.ofNat index).toNat = index := UInt16.toNat_ofNat_of_lt' bound
    have values := congrArg some (equal (UInt16.ofNat index))
    rw [← getElem?_data, ← getElem?_data, position] at values
    rw [Array.getElem?_eq_getElem leftBound, Array.getElem?_eq_getElem rightBound] at values
    exact Option.some.inj values
  obtain ⟨leftBytes, _⟩ := left
  obtain ⟨rightBytes, _⟩ := right
  have bytes : leftBytes = rightBytes := ByteArray.ext data
  subst bytes
  rfl

end Memory

end Nmos6502
