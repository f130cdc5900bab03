import Nmos6502.Bus.Memory
import Nmos6502.Proofs.Step

/-!
Memory by its contents. A function from addresses to bytes is a bus too, on which programs can be
followed by computation. Main statement: in memory with the same contents a program runs alike
(`after_inMemory`).
-/

namespace Nmos6502

instance : Bus View where
  read contents := contents
  write contents address value other := if address = other then value else contents other

namespace Memory

theorem write_ofFn (contents : View) (address : Address) (value : Byte) :
    (ofFn contents).write address value = ofFn (Bus.write contents address value) := by
  apply ext_read
  intro other
  rw [read_write, read_ofFn, read_ofFn]
  rfl

theorem writeAll_ofFn (contents : View) (writes : List Write) :
    Bus.writeAll (ofFn contents) writes = ofFn (Bus.writeAll contents writes) := by
  induction writes generalizing contents with
  | nil => rfl
  | cons first rest induction =>
      rw [Bus.writeAll_cons, bus_write, write_ofFn, induction, Bus.writeAll_cons]

end Memory

namespace Machine

def inMemory (machine : Machine View) : Machine Memory where
  processor := machine.processor
  bus := .ofFn machine.bus

variable (machine : Machine View)

theorem read_inMemory : Bus.read machine.inMemory.bus = machine.bus :=
  funext (Memory.read_ofFn machine.bus)

theorem opcode_inMemory : machine.inMemory.opcode = machine.opcode := by
  rw [opcode, read_inMemory]
  rfl

theorem operation_inMemory : machine.inMemory.operation = machine.operation := by
  rw [operation, opcode_inMemory]
  rfl

theorem transition_inMemory : machine.inMemory.transition = machine.transition :=
  transition_congr_view rfl machine.read_inMemory

theorem next_inMemory : machine.inMemory.next = machine.next.inMemory := by
  rw [next, transition_inMemory, next, inMemory, inMemory, Memory.writeAll_ofFn]

theorem after_inMemory (count : Nat) :
    machine.inMemory.after count = (machine.after count).inMemory := by
  induction count generalizing machine with
  | zero => rfl
  | succ count induction => rw [after, after, next_inMemory, induction]

end Machine

end Nmos6502
