import Nmos6502.Status.FlagSet

/-!
The status register as eight named flags, and its packed byte. Main statements: packing and
unpacking undo each other (`ofByte_toByte`, `toByte_ofByte`), and the byte on the stack unpacks to
the flags with break and unused set (`ofByte_toStackByte`).
-/

namespace Nmos6502

/-- The status register. Break and unused have no use inside the chip, but are kept so that a
pulled byte comes back unchanged. -/
structure Flags where
  carry : Bool
  zero : Bool
  interruptDisable : Bool
  decimal : Bool
  breakCommand : Bool
  unused : Bool
  overflow : Bool
  negative : Bool
  deriving DecidableEq

namespace Flags

def clear : Flags :=
  ⟨false, false, false, false, false, false, false, false⟩

instance : Inhabited Flags := ⟨clear⟩

def get (flags : Flags) : Flag → Bool
  | .carry => flags.carry
  | .zero => flags.zero
  | .interruptDisable => flags.interruptDisable
  | .decimal => flags.decimal
  | .breakCommand => flags.breakCommand
  | .unused => flags.unused
  | .overflow => flags.overflow
  | .negative => flags.negative

def set (flags : Flags) (flag : Flag) (value : Bool) : Flags :=
  match flag with
  | .carry => { flags with carry := value }
  | .zero => { flags with zero := value }
  | .interruptDisable => { flags with interruptDisable := value }
  | .decimal => { flags with decimal := value }
  | .breakCommand => { flags with breakCommand := value }
  | .unused => { flags with unused := value }
  | .overflow => { flags with overflow := value }
  | .negative => { flags with negative := value }

theorem get_set (flags : Flags) (flag other : Flag) (value : Bool) :
    (flags.set flag value).get other = if other = flag then value else flags.get other := by
  cases flag <;> cases other <;> rfl

@[simp] theorem get_set_self (flags : Flags) (flag : Flag) (value : Bool) :
    (flags.set flag value).get flag = value := by
  simp [get_set]

def ofSet (members : FlagSet) : Flags where
  carry := .carry ∈ members
  zero := .zero ∈ members
  interruptDisable := .interruptDisable ∈ members
  decimal := .decimal ∈ members
  breakCommand := .breakCommand ∈ members
  unused := .unused ∈ members
  overflow := .overflow ∈ members
  negative := .negative ∈ members

def toSet (flags : Flags) : FlagSet :=
  Flag.all.foldl (fun members flag => members.set flag (flags.get flag)) ∅

def ofByte (byte : Byte) : Flags :=
  ofSet ⟨byte⟩

def toByte (flags : Flags) : Byte :=
  flags.toSet.bits

/-- The byte that goes to the stack, where break and unused are always set. -/
def toStackByte (flags : Flags) : Byte :=
  (flags.toSet ∪ {.breakCommand} ∪ {.unused}).bits

def withResult (flags : Flags) (result : Byte) : Flags :=
  { flags with zero := result == 0, negative := isNegative result }

theorem get_withResult (flags : Flags) (flag : Flag) (result : Byte) :
    (flags.withResult result).get flag =
      if flag = .zero then result == 0
      else if flag = .negative then isNegative result
      else flags.get flag := by
  cases flag <;> rfl

theorem ext_get {left right : Flags} (equal : ∀ flag, left.get flag = right.get flag) :
    left = right := by
  obtain ⟨_, _, _, _, _, _, _, _⟩ := left
  obtain ⟨_, _, _, _, _, _, _, _⟩ := right
  simp only [Flags.mk.injEq]
  exact ⟨equal .carry, equal .zero, equal .interruptDisable, equal .decimal, equal .breakCommand,
    equal .unused, equal .overflow, equal .negative⟩

theorem get_ofSet (members : FlagSet) (flag : Flag) :
    (ofSet members).get flag = decide (flag ∈ members) := by
  cases flag <;> rfl

theorem mem_toSet (flags : Flags) (flag : Flag) : flag ∈ flags.toSet ↔ flags.get flag = true := by
  cases flag <;> simp [toSet, Flag.all, FlagSet.mem_set]

@[simp] theorem ofByte_toByte (flags : Flags) : ofByte flags.toByte = flags := by
  apply ext_get
  intro flag
  have packed : ofByte flags.toByte = ofSet flags.toSet := rfl
  rw [packed, get_ofSet, Bool.eq_iff_iff, decide_eq_true_iff, mem_toSet]

@[simp] theorem toByte_ofByte (byte : Byte) : (ofByte byte).toByte = byte := by
  have values : ∀ value : Fin 256, (ofByte (UInt8.ofFin value)).toByte = UInt8.ofFin value := by
    decide +kernel
  exact values byte.toFin

theorem toStackByte_eq (flags : Flags) : flags.toStackByte = flags.toByte ||| 0x30 := by
  have joined : flags.toStackByte = flags.toByte ||| 0x10 ||| 0x20 := rfl
  rw [joined, UInt8.or_assoc]
  rfl

@[simp] theorem ofByte_toStackByte (flags : Flags) :
    ofByte flags.toStackByte = { flags with breakCommand := true, unused := true } := by
  apply ext_get
  intro flag
  have packed : ofByte flags.toStackByte =
      ofSet (flags.toSet ∪ {.breakCommand} ∪ {.unused}) := rfl
  rw [packed, get_ofSet]
  cases flag <;> simp [mem_toSet, get]

theorem toByte_inj {left right : Flags} : left.toByte = right.toByte ↔ left = right :=
  ⟨fun equal => by rw [← ofByte_toByte left, equal, ofByte_toByte], congrArg toByte⟩

end Flags

end Nmos6502
