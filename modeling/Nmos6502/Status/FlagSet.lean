import Nmos6502.Word

/-!
The eight status flags, and sets of them as bytes with one bit for each member. What is relied on of
such packed sets is stated beside them: every byte is one and keeps all its bits, a flag is in a set
if the set includes its bit, and setting flags and joining sets change the members they name and no
others. Main statements: the members after a flag was set (`mem_set`) and of two sets joined
(`mem_union`).
-/

namespace Nmos6502

inductive Flag where
  | carry
  | zero
  | interruptDisable
  | decimal
  | breakCommand
  | unused
  | overflow
  | negative
  deriving DecidableEq

namespace Flag

def all : List Flag :=
  [carry, zero, interruptDisable, decimal, breakCommand, unused, overflow, negative]

/-- The bit a flag has in the status byte. -/
def mask : Flag → Byte
  | carry => 0x01
  | zero => 0x02
  | interruptDisable => 0x04
  | decimal => 0x08
  | breakCommand => 0x10
  | unused => 0x20
  | overflow => 0x40
  | negative => 0x80

def name : Flag → String
  | carry => "CARRY"
  | zero => "ZERO"
  | interruptDisable => "INTERRUPT_DISABLE"
  | decimal => "DECIMAL"
  | breakCommand => "BREAK"
  | unused => "UNUSED"
  | overflow => "OVERFLOW"
  | negative => "NEGATIVE"

theorem mem_all (flag : Flag) : flag ∈ all := by
  cases flag <;> simp [all]

end Flag

/-- A set of flags, kept as the status byte of its members. -/
structure FlagSet where
  bits : Byte
  deriving DecidableEq

namespace FlagSet

instance : EmptyCollection FlagSet := ⟨⟨0⟩⟩

instance : Singleton Flag FlagSet := ⟨fun flag => ⟨flag.mask⟩⟩

instance : Union FlagSet := ⟨fun left right => ⟨left.bits ||| right.bits⟩⟩

instance : Inter FlagSet := ⟨fun left right => ⟨left.bits &&& right.bits⟩⟩

instance : SDiff FlagSet := ⟨fun left right => ⟨left.bits &&& ~~~right.bits⟩⟩

instance : XorOp FlagSet := ⟨fun left right => ⟨left.bits ^^^ right.bits⟩⟩

instance : Complement FlagSet := ⟨fun flags => ⟨~~~flags.bits⟩⟩

/-- All bits of one set are in the other. -/
def includes (outer inner : FlagSet) : Bool :=
  outer.bits &&& inner.bits == inner.bits

def intersects (left right : FlagSet) : Bool :=
  left.bits &&& right.bits != 0

def isEmpty (flags : FlagSet) : Bool :=
  flags.bits == 0

def isUniv (flags : FlagSet) : Bool :=
  flags.bits == 0xFF

instance : Membership Flag FlagSet :=
  ⟨fun flags flag => flags.includes {flag} = true⟩

instance (flag : Flag) (flags : FlagSet) : Decidable (flag ∈ flags) :=
  inferInstanceAs (Decidable (flags.includes {flag} = true))

/-- Puts a flag into a set or takes it out. -/
def set (flags : FlagSet) (flag : Flag) (value : Bool) : FlagSet :=
  if value then flags ∪ {flag} else flags \ {flag}

def toList (flags : FlagSet) : List Flag :=
  Flag.all.filter (· ∈ flags)

section

variable (flag other : Flag) (flags left right : FlagSet)

/-- A flag has a single bit, which a set includes if it has any of it. -/
theorem mem_iff_and_ne_zero : flag ∈ flags ↔ flags.bits &&& flag.mask ≠ 0 := by
  have single : ∀ byte : Fin 256, ∀ flag ∈ Flag.all,
      UInt8.ofFin byte &&& flag.mask = flag.mask ↔ UInt8.ofFin byte &&& flag.mask ≠ 0 := by
    decide +kernel
  have included : flag ∈ flags ↔ flags.bits &&& flag.mask = flag.mask := beq_iff_eq
  exact included.trans (single flags.bits.toFin flag flag.mem_all)

@[simp] theorem notMem_empty : flag ∉ (∅ : FlagSet) := by
  cases flag <;> decide

@[simp] theorem mem_singleton : flag ∈ ({other} : FlagSet) ↔ flag = other := by
  cases flag <;> cases other <;> decide

@[simp] theorem mem_union : flag ∈ left ∪ right ↔ flag ∈ left ∨ flag ∈ right := by
  have joined : (left ∪ right).bits &&& flag.mask =
      (left.bits &&& flag.mask) ||| (right.bits &&& flag.mask) := by
    apply UInt8.toBitVec_inj.mp
    ext index
    simp [Union.union, Bool.and_or_distrib_right]
  rw [mem_iff_and_ne_zero, joined, Ne, UInt8.or_eq_zero_iff, Decidable.not_and_iff_or_not,
    mem_iff_and_ne_zero, mem_iff_and_ne_zero]

theorem mem_sdiff_singleton : flag ∈ flags \ {other} ↔ flag ∈ flags ∧ flag ≠ other := by
  have others : flag ≠ other → ~~~other.mask &&& flag.mask = flag.mask := by
    cases flag <;> cases other <;> decide
  have cut : (flags \ {other}).bits &&& flag.mask = flags.bits &&& (~~~other.mask &&& flag.mask) :=
    UInt8.and_assoc _ _ _
  rw [mem_iff_and_ne_zero, mem_iff_and_ne_zero, cut]
  by_cases same : flag = other
  · subst same
    simp
  · rw [others same]
    exact (and_iff_left same).symm

theorem mem_set (value : Bool) :
    flag ∈ flags.set other value ↔ if flag = other then value = true else flag ∈ flags := by
  cases value <;> by_cases same : flag = other <;>
    simp [set, same, mem_sdiff_singleton]

@[simp] theorem mem_toList : flag ∈ flags.toList ↔ flag ∈ flags := by
  simp [toList, Flag.mem_all]

end

end FlagSet

end Nmos6502
