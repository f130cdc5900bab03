import Nmos6502.Bus.Memory

/-!
Memory wired to the bus with read-only or repeated regions.
-/

namespace Nmos6502

inductive Wiring where
  | flat
  /-- The upper half of memory drops writes. -/
  | rom
  /-- The lowest eighth of memory shows its first 2048 bytes four times. -/
  | repeated
  deriving DecidableEq

namespace Wiring

def cell : Wiring → Address → Address
  | repeated, address => if address < 0x2000 then address &&& 0x07FF else address
  | flat, address | rom, address => address

def isWritable : Wiring → Address → Bool
  | rom, address => decide (address < 0x8000)
  | flat, _ | repeated, _ => true

end Wiring

structure Board where
  wiring : Wiring
  memory : Memory

namespace Board

def read (board : Board) (address : Address) : Byte :=
  board.memory.read (board.wiring.cell address)

def write (board : Board) (address : Address) (value : Byte) : Board :=
  if board.wiring.isWritable address then
    { board with memory := board.memory.write (board.wiring.cell address) value }
  else
    board

instance : Bus Board := ⟨read, write⟩

@[simp] theorem wiring_write (board : Board) (address : Address) (value : Byte) :
    (board.write address value).wiring = board.wiring := by
  unfold write
  split <;> rfl

end Board

end Nmos6502
