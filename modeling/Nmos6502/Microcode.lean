import Nmos6502.Budget
import Nmos6502.Bus
import Nmos6502.Fault
import Nmos6502.Log

/-!
The steps an instruction is made of. Each byte that crosses the bus costs a cycle of the budget, and
what the instruction sends to the bus and to the log is kept in its order. A fault ends the
instruction where it stands: what it did before stays done.
-/

namespace Nmos6502

structure Progress (σ : Type) where
  processor : Processor
  budget : Budget
  bus : σ
  writes : List Write
  log : List Record

abbrev Micro (σ : Type) := EStateM Fault (Progress σ)

namespace Progress

def begin (processor : Processor) (bus : σ) (budget : Budget) : Progress σ :=
  ⟨processor, budget, bus, [], []⟩

def write [Bus σ] (progress : Progress σ) (write : Write) : Progress σ :=
  { progress with
    bus := Bus.write progress.bus write.address write.value
    writes := progress.writes ++ [write] }

end Progress

namespace Micro

variable {σ : Type}

def tick : Micro σ Unit :=
  modify fun progress => { progress with budget := progress.budget.tick }

/-- Cycles that do not use the bus. -/
def spend (count : UInt32) : Micro σ Unit :=
  modify fun progress => { progress with budget := progress.budget.consume count }

def processor : Micro σ Processor :=
  return (← get).processor

def remaining : Micro σ Int64 :=
  return (← get).budget.remaining

def update (change : Processor → Processor) : Micro σ Unit :=
  modify fun progress => { progress with processor := change progress.processor }

def report (record : Record) : Micro σ Unit :=
  modify fun progress => { progress with log := progress.log ++ [record] }

variable [Bus σ]

def load (address : Address) : Micro σ Byte := do
  tick
  return Bus.read (← get).bus address

def store (address : Address) (value : Byte) : Micro σ Unit := do
  tick
  modify (·.write ⟨address, value⟩)

def fetch : Micro σ Byte := do
  let value ← load (← processor).pc
  update fun processor => { processor with pc := processor.pc + 1 }
  return value

def fetchWord : Micro σ Address := do
  let low ← fetch
  let high ← fetch
  return word low high

/-- Loads the word at an address; its high byte lies on the same page, also when its low byte is
the last of the page. -/
def loadPointer (pointer : Address) : Micro σ Address := do
  let low ← load pointer
  let high ← load (nextInPage pointer)
  return word low high

def push (value : Byte) : Micro σ Unit := do
  store (← processor).stackAddress value
  update fun processor => { processor with sp := processor.sp - 1 }

/-- The low byte is pushed last, so that it lies at the lower address. -/
def pushWord (value : Address) : Micro σ Unit := do
  push (highByte value)
  push (lowByte value)

def pull : Micro σ Byte := do
  update fun processor => { processor with sp := processor.sp + 1 }
  load (← processor).stackAddress

def pullWord : Micro σ Address := do
  let low ← pull
  let high ← pull
  return word low high

variable (progress : Progress σ)

omit [Bus σ]

@[simp] theorem pure_apply (value : α) :
    (pure value : Micro σ α) progress = .ok value progress := rfl

@[simp] theorem bind_apply (first : Micro σ α) (next : α → Micro σ β) :
    (first >>= next) progress =
      match first progress with
      | .ok value after => next value after
      | .error fault left => .error fault left := by
  cases outcome : first progress <;> simp [bind, EStateM.bind, outcome]

@[simp] theorem map_apply (change : α → β) (first : Micro σ α) :
    (change <$> first) progress =
      match first progress with
      | .ok value after => .ok (change value) after
      | .error fault left => .error fault left := by
  cases outcome : first progress <;> simp [Functor.map, EStateM.map, outcome]

@[simp] theorem throw_apply (fault : Fault) :
    (throw fault : Micro σ α) progress = .error fault progress := rfl

@[simp] theorem ite_apply (condition : Prop) [Decidable condition] (first second : Micro σ α) :
    (if condition then first else second) progress =
      if condition then first progress else second progress := by
  split <;> rfl

@[simp] theorem tick_apply :
    tick progress = .ok () { progress with budget := progress.budget.charge 1 } := rfl

@[simp] theorem spend_apply (count : UInt32) :
    spend count progress =
      .ok () { progress with budget := progress.budget.charge count.toNat } := by
  rw [← Budget.consume_eq_charge]
  rfl

@[simp] theorem processor_apply :
    processor progress = .ok progress.processor progress := rfl

@[simp] theorem remaining_apply :
    remaining progress = .ok progress.budget.remaining progress := rfl

@[simp] theorem update_apply (change : Processor → Processor) :
    update change progress =
      .ok () { progress with processor := change progress.processor } := rfl

@[simp] theorem report_apply (record : Record) :
    report record progress = .ok () { progress with log := progress.log ++ [record] } := rfl

variable [Bus σ]

@[simp] theorem load_apply (address : Address) :
    load address progress =
      .ok (Bus.read progress.bus address)
        { progress with budget := progress.budget.charge 1 } := rfl

@[simp] theorem store_apply (address : Address) (value : Byte) :
    store address value progress =
      .ok () { progress with
        budget := progress.budget.charge 1
        bus := Bus.write progress.bus address value
        writes := progress.writes ++ [⟨address, value⟩] } := rfl

@[simp] theorem fetch_apply :
    fetch progress =
      .ok (Bus.read progress.bus progress.processor.pc) { progress with
        processor := { progress.processor with pc := progress.processor.pc + 1 }
        budget := progress.budget.charge 1 } := rfl

@[simp] theorem fetchWord_apply :
    fetchWord progress =
      .ok (word (Bus.read progress.bus progress.processor.pc)
          (Bus.read progress.bus (progress.processor.pc + 1))) { progress with
        processor := { progress.processor with pc := progress.processor.pc + 1 + 1 }
        budget := progress.budget.charge 2 } := by
  simp [fetchWord]

@[simp] theorem loadPointer_apply (pointer : Address) :
    loadPointer pointer progress =
      .ok (word (Bus.read progress.bus pointer) (Bus.read progress.bus (nextInPage pointer)))
        { progress with budget := progress.budget.charge 2 } := by
  simp [loadPointer]

@[simp] theorem push_apply (value : Byte) :
    push value progress =
      .ok () { progress with
        processor := { progress.processor with sp := progress.processor.sp - 1 }
        budget := progress.budget.charge 1
        bus := Bus.write progress.bus progress.processor.stackAddress value
        writes := progress.writes ++ [⟨progress.processor.stackAddress, value⟩] } := rfl

@[simp] theorem pull_apply :
    pull progress =
      .ok (Bus.read progress.bus (stackCell (progress.processor.sp + 1)))
        { progress with
          processor := { progress.processor with sp := progress.processor.sp + 1 }
          budget := progress.budget.charge 1 } := rfl

@[simp] theorem pushWord_apply (value : Address) :
    pushWord value progress =
      .ok () { progress with
        processor := { progress.processor with sp := progress.processor.sp - 2 }
        budget := progress.budget.charge 2
        bus := Bus.write
          (Bus.write progress.bus (stackCell progress.processor.sp) (highByte value))
          (stackCell (progress.processor.sp - 1)) (lowByte value)
        writes := progress.writes ++ [⟨stackCell progress.processor.sp, highByte value⟩,
          ⟨stackCell (progress.processor.sp - 1), lowByte value⟩] } := by
  simp [pushWord, Processor.stackAddress, sub_one_sub_one]

@[simp] theorem pullWord_apply :
    pullWord progress =
      .ok (word (Bus.read progress.bus (stackCell (progress.processor.sp + 1)))
          (Bus.read progress.bus (stackCell (progress.processor.sp + 2))))
        { progress with
          processor := { progress.processor with sp := progress.processor.sp + 2 }
          budget := progress.budget.charge 2 } := by
  have twice : progress.processor.sp + 1 + 1 = progress.processor.sp + 2 :=
    UInt8.add_assoc _ 1 1
  simp [pullWord, twice]

end Micro

end Nmos6502
