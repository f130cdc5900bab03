import Nmos6502.Bus.Image
import Nmos6502.Proofs.Contents
import Nmos6502.Proofs.Destination
import Nmos6502.Proofs.Operand
import Nmos6502.Proofs.Resolution
import Nmos6502.Proofs.Writes

/-!
Resolving an operand beforehand. A caller may ask where the operand of the next instruction lies,
without carrying the instruction out. Main statement: the instruction then meets that very cell, and
its cycles and its program counter are those of the resolution with a fixed number of cycles more
(`step_meets_resolution`).
-/

namespace Nmos6502

/-- What an operation does with the cell that its mode names. -/
inductive Access where
  | reads
  | writes
  | rewrites
  | jumps
  | calls
  deriving DecidableEq

namespace Access

/-- The cycles beyond the fetch of the opcode and the way to the cell. -/
def cycles : Access → Nat
  | jumps => 0
  | reads | writes => 1
  | rewrites | calls => 3

end Access

def Operation.access? : Operation → Option Access
  | lda | ldx | ldy | adc | sbc | and | eor | ora | bit | cmp | cpx | cpy => some .reads
  | sta | stx | sty => some .writes
  | inc | dec | asl | lsr | rol | ror => some .rewrites
  | jmp => some .jumps
  | jsr => some .calls
  | _ => none

namespace Instruction

/-- Whether an instruction whose mode names a cell has a use for it. -/
def hasUse (instruction : Instruction) : Bool :=
  !instruction.mode.namesCell || instruction.operation.access?.isSome

theorem hasUse_decode (opcode : Byte) : (decode opcode).hasUse = true :=
  forall_decode hasUse (fun operation => by cases operation <;> rfl) rfl opcode

theorem exists_access {opcode : Byte} (named : (decode opcode).mode.namesCell = true) :
    ∃ access, (decode opcode).operation.access? = some access := by
  have used := hasUse_decode opcode
  rw [hasUse, named] at used
  exact Option.isSome_iff_exists.mp used

end Instruction

namespace Operation

variable {operation : Operation}

theorem exists_reading (accessed : operation.access? = some .reads) :
    ∃ action change, operation.action = .ok action ∧ action.reading? = some change := by
  cases operation <;> first | contradiction | exact ⟨_, _, rfl, rfl⟩

theorem exists_rewriting (processor : Processor)
    (accessed : operation.access? = some .writes ∨ operation.access? = some .rewrites) :
    ∃ action change,
      operation.action = .ok action ∧
      action.isSequential = true ∧
      operation.rewriting? processor = some change := by
  rcases accessed with writes | rewrites <;>
    (cases operation <;> first | contradiction | exact ⟨_, _, rfl, rfl, rfl⟩)

theorem eq_jmp_of_access (accessed : operation.access? = some .jumps) : operation = .jmp := by
  cases operation <;> first | rfl | contradiction

theorem eq_jsr_of_access (accessed : operation.access? = some .calls) : operation = .jsr := by
  cases operation <;> first | rfl | contradiction

theorem isSupported_of_access {access : Access} (accessed : operation.access? = some access) :
    operation.isSupported = true := by
  cases operation <;> first | rfl | contradiction

end Operation

theorem Action.isSequential_of_reading {action : Action} {change : Byte → Processor → Processor}
    (reads : action.reading? = some change) : action.isSequential = true := by
  cases action <;> first | rfl | contradiction

namespace AddressingMode

variable {mode : AddressingMode}

theorem ne_of_namesCell {other : AddressingMode} (named : mode.namesCell = true)
    (unnamed : other.namesCell = false) : mode ≠ other := by
  rintro rfl
  rw [named] at unnamed
  contradiction

theorem locateCycles_le (mode : AddressingMode) (charge : IndexCharge) (view : View)
    (processor : Processor) : mode.locateCycles charge view processor ≤ 5 := by
  have direct : mode.addressCycles ≤ 4 := by
    cases mode <;> decide
  have corrected : mode.correction charge view processor ≤ 1 := by
    unfold correction
    split
    · split <;> decide
    · decide
  rw [locateCycles]
  omega

end AddressingMode

namespace Instruction

variable {instruction : Instruction}

theorem cycles_effect_of_access {action : Action} {access : Access} (charge : IndexCharge)
    (view : View) (processor : Processor)
    (accessed : instruction.operation.access? = some access)
    (sorted : instruction.operation.action = .ok action)
    (admitted : action.admits instruction.mode = true)
    (named : instruction.mode.namesCell = true) :
    (action.effect instruction.mode charge view processor).cycles =
      instruction.mode.locateCycles charge view processor + access.cycles := by
  obtain ⟨operation, mode, cycles⟩ := instruction
  cases operation with
  | lda | ldx | ldy | adc | sbc | and | eor | ora | bit | cmp | cpx | cpy =>
      cases sorted
      cases accessed
      rw [Action.effect_of_reading charge view processor rfl]
      exact if_neg (AddressingMode.ne_of_namesCell named rfl)
  | sta | stx | sty | inc | dec | jmp =>
      cases sorted
      cases accessed
      rfl
  | asl | lsr | rol | ror =>
      cases sorted
      cases accessed
      have inMemory : mode ≠ .accumulator := AddressingMode.ne_of_namesCell named rfl
      simp only [Action.effect, inMemory, if_false]
      rfl
  | jsr =>
      cases sorted
      cases accessed
      obtain rfl : mode = .absolute := by simpa [Action.admits] using admitted
      rfl
  | _ => contradiction

theorem writes_of_rewriting {view : View} {processor : Processor} {change : Byte → Byte}
    {cell : Address} (rewrites : instruction.operation.rewriting? processor = some change)
    (located : instruction.mode.address? view (processor.skip 1) = some cell) :
    instruction.writes view processor = [⟨cell, change (view cell)⟩] := by
  have stored : instruction.store? view processor = some ⟨cell, change (view cell)⟩ := by
    rw [store?, rewrites, located]
  unfold writes
  split
  next pha => simp [pha, Operation.rewriting?] at rewrites
  next php => simp [php, Operation.rewriting?] at rewrites
  next jsr => simp [jsr, Operation.rewriting?] at rewrites
  next => rw [stored, Option.toList_some]

end Instruction

namespace Machine

variable {σ : Type} [Bus σ] (machine : Machine σ)

/-- The machine with its program counter at the operand of its next instruction. -/
def pastOpcode : Machine σ :=
  { machine with processor := machine.processor.skip 1 }

/-- What comes of an instruction at a cell, where `found` is the processor behind its operand. -/
def Meets (cell : Address) (found : Processor) (transition : Transition) (cycles : Nat) :
    Access → Prop
  | .reads => ∃ action change,
      machine.operation.action = .ok action ∧
      action.reading? = some change ∧
      transition.processor = (change (Bus.read machine.bus cell) found).elapse cycles ∧
      transition.processor.pc = found.pc ∧
      transition.writes = []
  | .writes | .rewrites => ∃ change,
      machine.operation.rewriting? machine.processor = some change ∧
      transition.writes = [⟨cell, change (Bus.read machine.bus cell)⟩] ∧
      transition.processor.pc = found.pc
  | .jumps | .calls => transition.processor.pc = cell

variable {machine}

theorem pc_transition_of_sequential {action : Action}
    (sorted : machine.operation.action = .ok action) (sequential : action.isSequential = true) :
    machine.transition.processor.pc = (machine.processor.skip (decode machine.opcode).size).pc := by
  rw [Instruction.size, ← Processor.skip_skip, transition, effect_of_action machine sorted]
  exact Action.pc_effect _ _ _ sequential (Instruction.admits_decode sorted)

theorem cost_of_access {access : Access} (accessed : machine.operation.access? = some access)
    (named : (decode machine.opcode).mode.namesCell = true) :
    machine.cost = 1 + (decode machine.opcode).mode.locateCycles machine.operation.indexCharge
      (Bus.read machine.bus) (machine.processor.skip 1) + access.cycles := by
  obtain ⟨action, sorted⟩ := exists_action (Operation.isSupported_of_access accessed)
  have cycles := Instruction.cycles_effect_of_access machine.operation.indexCharge
    (Bus.read machine.bus) (machine.processor.skip 1) accessed sorted
    (Instruction.admits_decode sorted) named
  rw [← cycles_effect_eq_cost, effect_of_action machine sorted]
  dsimp only
  rw [cycles]
  omega

/-- The cell that the mode of the next instruction names, when it names one. -/
def cell (machine : Machine σ) : Address :=
  (decode machine.opcode).mode.address (Bus.read machine.bus) (machine.processor.skip 1)

section

variable (named : (decode machine.opcode).mode.namesCell = true)

include named

theorem address?_eq_some_cell :
    (decode machine.opcode).mode.address? (Bus.read machine.bus) (machine.processor.skip 1) =
      some machine.cell :=
  (decode machine.opcode).mode.address?_eq_some_address _ _ named

theorem meets_of_reads (accessed : machine.operation.access? = some .reads) :
    machine.Meets machine.cell (machine.processor.skip (decode machine.opcode).size)
      machine.transition machine.cost .reads := by
  obtain ⟨action, change, sorted, reads⟩ := Operation.exists_reading accessed
  obtain ⟨operand, found, quiet, left⟩ := machine.next_of_reading sorted reads
  have inMemory : (decode machine.opcode).mode ≠ .immediate :=
    AddressingMode.ne_of_namesCell named rfl
  have operand_eq : Bus.read machine.bus machine.cell = operand := by
    rw [Instruction.operand?, if_neg inMemory, address?_eq_some_cell named] at found
    exact Option.some.inj found
  rw [← operand_eq] at left
  exact ⟨action, change, sorted, reads, congrArg Machine.processor left,
    pc_transition_of_sequential sorted (Action.isSequential_of_reading reads), quiet⟩

theorem meets_of_rewriting (accessed : machine.operation.access? = some .writes ∨
      machine.operation.access? = some .rewrites) :
    ∃ change,
      machine.operation.rewriting? machine.processor = some change ∧
      machine.transition.writes = [⟨machine.cell, change (Bus.read machine.bus machine.cell)⟩] ∧
      machine.transition.processor.pc =
        (machine.processor.skip (decode machine.opcode).size).pc := by
  obtain ⟨action, change, sorted, sequential, rewrites⟩ :=
    Operation.exists_rewriting machine.processor accessed
  refine ⟨change, rewrites, ?_, pc_transition_of_sequential sorted sequential⟩
  rw [writes_transition]
  exact Instruction.writes_of_rewriting rewrites (address?_eq_some_cell named)

omit named in
theorem pc_of_jumps (accessed : machine.operation.access? = some .jumps) :
    machine.transition.processor.pc = machine.cell := by
  have sorted : machine.operation.action = .ok .jump := by
    rw [Operation.eq_jmp_of_access accessed]
    rfl
  rw [transition, effect_of_action machine sorted]
  rfl

omit named in
theorem pc_of_calls (accessed : machine.operation.access? = some .calls) :
    machine.transition.processor.pc = machine.cell := by
  have sorted : machine.operation.action = .ok .call := by
    rw [Operation.eq_jsr_of_access accessed]
    rfl
  -- A call fetches its operand by itself, and is the same only because it is always absolute.
  have absolute : (decode machine.opcode).mode = .absolute := by
    simpa [Action.admits] using Instruction.admits_decode sorted
  rw [transition, effect_of_action machine sorted, cell, absolute]
  rfl

theorem meets_of_access {access : Access} (accessed : machine.operation.access? = some access) :
    machine.Meets machine.cell (machine.processor.skip (decode machine.opcode).size)
      machine.transition machine.cost access := by
  cases access with
  | reads => exact meets_of_reads named accessed
  | writes => exact meets_of_rewriting named (.inl accessed)
  | rewrites => exact meets_of_rewriting named (.inr accessed)
  | jumps => exact pc_of_jumps accessed
  | calls => exact pc_of_calls accessed

/-- The way to the cell, when it is taken on a fresh budget before the instruction itself. -/
theorem exists_resolution (charge : IndexCharge) (request : UInt32) :
    ∃ rest,
      machine.pastOpcode.resolve (decode machine.opcode).mode charge (.ofRequest request) =
        .ok (machine.cell,
          { machine with processor := machine.processor.skip (decode machine.opcode).size },
          rest) ∧
      rest.used.toNat = (decode machine.opcode).mode.locateCycles charge (Bus.read machine.bus)
        (machine.processor.skip 1) := by
  have resolved := machine.pastOpcode.resolve_of_namesCell charge (.ofRequest request) named
  have few := (decode machine.opcode).mode.locateCycles_le charge (Bus.read machine.bus)
    (machine.processor.skip 1)
  have bound : 5 < UInt64.size / 2 := by decide
  refine ⟨_, ?_, Budget.used_charge_ofRequest request (by omega)⟩
  rw [Instruction.size, ← Processor.skip_skip]
  exact resolved

end

/-- An operand that is resolved beforehand, on any budget of its own, lies where the instruction
finds it. What it took to resolve it, with the fetch of the opcode and the cycles of its use, is
what the instruction costs. -/
theorem step_meets_resolution (named : (decode machine.opcode).mode.namesCell = true)
    (request : UInt32) :
    ∃ cell aside rest transition next access cycles,
      machine.pastOpcode.resolve (decode machine.opcode).mode machine.operation.indexCharge
        (.ofRequest request) = .ok (cell, aside, rest) ∧
      machine.step = .ok (transition, next) ∧
      next.processor = transition.processor ∧
      next.bus = Bus.writeAll machine.bus transition.writes ∧
      transition.outcome = .executed machine.opcode cycles ∧
      (∀ budget, machine.advance budget = .ok (transition, next, budget.charge cycles.toNat)) ∧
      machine.operation.access? = some access ∧
      cycles.toNat = 1 + rest.used.toNat + access.cycles ∧
      machine.Meets cell aside.processor transition cycles.toNat access := by
  obtain ⟨access, accessed⟩ := Instruction.exists_access named
  obtain ⟨rest, resolved, used⟩ := exists_resolution named machine.operation.indexCharge request
  have supported : machine.operation.isSupported = true :=
    Operation.isSupported_of_access accessed
  have bound := machine.cost_le
  have reported : (UInt32.ofNat machine.cost).toNat = machine.cost :=
    UInt32.toNat_ofNat_of_lt' (by simp [UInt32.size]; omega)
  refine ⟨machine.cell, _, rest, machine.transition, machine.next, access, .ofNat machine.cost,
    resolved, machine.step_eq, rfl, rfl, ?_, ?_, accessed, ?_, ?_⟩
  · simp only [transition, supported, if_true, cycles_effect_eq_cost]
  · intro budget
    rw [advance_eq, cycles_effect_eq_cost, reported]
  · rw [reported, used]
    exact cost_of_access accessed named
  · rw [reported]
    exact meets_of_access named accessed

/-- An increment whose operand lies across the end of memory, and whose index carries into the next
page. -/
def straddlingIncrement : Machine View where
  processor := { Processor.startingAt 0xFFFE with x := 1 }
  bus := Bus.writeAll (fun _ => 0)
    (Image.writes ⟨0xFFFE, [0xFE, 0xFF, 0x12]⟩ ++ Image.writes ⟨0x1300, [0xFF]⟩)

theorem decode_straddlingIncrement :
    decode straddlingIncrement.opcode = ⟨.inc, .absoluteX, 7⟩ := by
  rw [decode_eq_search]
  rfl

theorem resolve_straddlingIncrement :
    straddlingIncrement.pastOpcode.resolve .absoluteX .always (.ofRequest 0) =
      .ok (0x1300, { straddlingIncrement with processor := straddlingIncrement.processor.skip 3 },
        (Budget.ofRequest 0).charge 3) := by
  rfl

/-- Three cycles lead to the cell, and three are spent there. -/
theorem step_meets_resolution_straddlingIncrement :
    ∃ transition next cycles,
      straddlingIncrement.step = .ok (transition, next) ∧
      transition.outcome = .executed 0xFE cycles ∧
      cycles.toNat = 1 + 3 + 3 ∧
      transition.writes = [⟨0x1300, 0⟩] ∧
      next.processor.pc = 0x0001 := by
  have decoded := decode_straddlingIncrement
  have named : (decode straddlingIncrement.opcode).mode.namesCell = true := by
    rw [decoded]
    rfl
  obtain ⟨cell, aside, rest, transition, next, access, cycles, resolved, stepped, left, _, reported,
    _, accessed, cost, met⟩ := step_meets_resolution named 0
  rw [operation, decoded] at resolved accessed
  cases resolved.symm.trans resolve_straddlingIncrement
  cases accessed
  obtain ⟨change, rewrites, written, reached⟩ := met
  rw [operation, decoded] at rewrites
  cases rewrites
  refine ⟨transition, next, cycles, stepped, reported, cost, written, ?_⟩
  rw [left, reached]
  rfl

end Machine

end Nmos6502
