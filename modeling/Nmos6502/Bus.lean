import Nmos6502.Word

/-!
What a processor sees of memory: a byte for every address, and writes that may or may not be kept.
A bus promises nothing about how the two are related, so read-only and repeated regions are buses
too.
-/

namespace Nmos6502

/-- The bytes that reading every address would give. -/
abbrev View := Address → Byte

structure Write where
  address : Address
  value : Byte
  deriving DecidableEq

/-- Memory as the processor reaches it. Reading has no effect on it. -/
class Bus (σ : Type u) where
  read : σ → Address → Byte
  write : σ → Address → Byte → σ

namespace Bus

variable [Bus σ]

def writeAll (bus : σ) (writes : List Write) : σ :=
  writes.foldl (fun bus write => Bus.write bus write.address write.value) bus

@[simp] theorem writeAll_nil (bus : σ) : writeAll bus [] = bus := rfl

@[simp] theorem writeAll_cons (bus : σ) (first : Write) (rest : List Write) :
    writeAll bus (first :: rest) =
      writeAll (Bus.write bus first.address first.value) rest := rfl

@[simp] theorem writeAll_append (bus : σ) (first rest : List Write) :
    writeAll bus (first ++ rest) = writeAll (writeAll bus first) rest :=
  List.foldl_append

end Bus

end Nmos6502
