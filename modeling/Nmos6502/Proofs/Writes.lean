import Nmos6502.Bus.Memory
import Nmos6502.Proofs.Step

/-!
What an instruction writes: the pushes put bytes on the stack, the stores and the operations that
rewrite a cell put a single byte where their operand lies, and nothing else writes. Main statement:
a step writes exactly this, in this order, and leaves all other memory alone (`step_writes`).
-/

namespace Nmos6502

/-- How an operation changes the cell that its operand names, when it does. -/
def Operation.rewriting? (processor : Processor) : Operation → Option (Byte → Byte)
  | sta => some fun _ => processor.a
  | stx => some fun _ => processor.x
  | sty => some fun _ => processor.y
  | inc => some fun old => old + 1
  | dec => some fun old => old - 1
  | asl => some fun old => old <<< 1
  | lsr => some fun old => old >>> 1
  | rol => some fun old => old <<< 1 ||| processor.flags.carry.toUInt8
  | ror => some fun old => old >>> 1 ||| processor.flags.carry.toUInt8 <<< 7
  | _ => none

/-- The page that every pointer of the stack points into. -/
def OnStackPage (address : Address) : Prop :=
  0x0100 ≤ address ∧ address ≤ 0x01FF

instance (address : Address) : Decidable (OnStackPage address) :=
  inferInstanceAs (Decidable (_ ∧ _))

theorem onStackPage_stackCell (pointer : Byte) : OnStackPage (stackCell pointer) := by
  have bound := pointer.toNat_lt
  simp only [OnStackPage, UInt16.le_iff_toNat_le, toNat_stackCell, UInt16.reduceToNat]
  omega

namespace Instruction

variable (instruction : Instruction) (view : View) (processor : Processor)

/-- What an instruction writes to the cell that its operand names. -/
def store? : Option Write :=
  match instruction.operation.rewriting? processor,
    instruction.mode.address? view (processor.skip 1) with
  | some change, some cell => some ⟨cell, change (view cell)⟩
  | _, _ => none

/-- What an instruction writes, in its order, once a processor comes to fetch it. -/
def writes : List Write :=
  match instruction.operation with
  | .pha => [⟨stackCell processor.sp, processor.a⟩]
  | .php => [⟨stackCell processor.sp, processor.status ||| 0x30⟩]
  | .jsr =>
      let last := processor.pc + 2
      [⟨stackCell processor.sp, highByte last⟩, ⟨stackCell (processor.sp - 1), lowByte last⟩]
  | _ => (instruction.store? view processor).toList

theorem length_writes_le : (instruction.writes view processor).length ≤ 2 := by
  unfold writes
  split
  · exact Nat.le_succ 1
  · exact Nat.le_succ 1
  · exact Nat.le_refl 2
  · have single := Option.length_toList_le (o := instruction.store? view processor)
    omega

theorem onStackPage_of_mem_writes {write : Write}
    (pushes : instruction.operation ∈ [.pha, .php, .jsr])
    (written : write ∈ instruction.writes view processor) : OnStackPage write.address := by
  have stacked : ∃ pointer, write.address = stackCell pointer := by
    simp only [List.mem_cons, List.not_mem_nil, or_false] at pushes
    rcases pushes with pha | php | jsr
    · simp only [writes, pha, List.mem_singleton] at written
      exact ⟨_, congrArg Write.address written⟩
    · simp only [writes, php, List.mem_singleton] at written
      exact ⟨_, congrArg Write.address written⟩
    · simp only [writes, jsr, List.mem_cons, List.not_mem_nil, or_false] at written
      rcases written with high | low
      · exact ⟨_, congrArg Write.address high⟩
      · exact ⟨_, congrArg Write.address low⟩
  obtain ⟨pointer, same⟩ := stacked
  rw [same]
  exact onStackPage_stackCell pointer

variable {instruction} {action : Action}

theorem writes_effect (charge : IndexCharge)
    (sorted : instruction.operation.action = .ok action)
    (admitted : action.admits instruction.mode = true) :
    (action.effect instruction.mode charge view (processor.skip 1)).writes =
      instruction.writes view processor := by
  obtain ⟨operation, mode, cycles⟩ := instruction
  have locate : mode.namesCell = true →
      mode.address? view (processor.skip 1) = some (mode.address view (processor.skip 1)) :=
    mode.address?_eq_some_address view (processor.skip 1)
  cases operation with
  | sta | stx | sty | inc | dec =>
      cases sorted
      simp only [Action.effect, writes, store?, Operation.rewriting?, locate admitted]
      rfl
  | asl | lsr | rol | ror =>
      cases sorted
      by_cases inPlace : mode = .accumulator
      · subst inPlace
        rfl
      · have named : mode.namesCell = true := by
          simpa [Action.admits, inPlace] using admitted
        simp only [Action.effect, inPlace, writes, store?, Operation.rewriting?, locate named]
        rfl
  | php =>
      cases sorted
      exact congrArg (fun value => [Write.mk (stackCell processor.sp) value])
        processor.flags.toStackByte_eq
  | jsr =>
      cases sorted
      have last : (processor.skip 1).pc + 1 = processor.pc + 2 :=
        UInt16.add_assoc processor.pc 1 1
      simp only [Action.effect, writes, last]
      rfl
  | bcc | bcs | beq | bne | bmi | bpl | bvc | bvs =>
      cases sorted
      simp only [Action.effect, apply_ite Effect.writes, ite_self]
      rfl
  | brk | illegal => cases sorted
  | _ => cases sorted; rfl

theorem writes_of_fault {fault : Fault} (refused : instruction.operation.action = .error fault) :
    instruction.writes view processor = [] := by
  obtain ⟨operation, mode, cycles⟩ := instruction
  cases operation <;> first | rfl | contradiction

end Instruction

namespace Machine

variable {σ : Type} [Bus σ] (machine : Machine σ)

def writes : List Write :=
  (decode machine.opcode).writes (Bus.read machine.bus) machine.processor

theorem writes_transition : machine.transition.writes = machine.writes := by
  cases sorted : machine.operation.action with
  | ok action =>
      rw [transition_of_action machine sorted, effect_of_action machine sorted]
      exact Instruction.writes_effect _ _ _ sorted (Instruction.admits_decode sorted)
  | error fault =>
      rw [transition_of_fault machine sorted, effect_of_fault machine sorted]
      exact (Instruction.writes_of_fault _ _ sorted).symm

theorem bus_next : machine.next.bus = Bus.writeAll machine.bus machine.writes := by
  rw [← writes_transition]
  rfl

/-- A step writes what its instruction says, whatever the bus makes of it; the pushes stay on page
one. Memory changes at most two of its bytes, and only where it was written. -/
theorem step_writes :
    (∃ transition next,
      machine.step = .ok (transition, next) ∧
      transition.writes =
        (decode machine.opcode).writes (Bus.read machine.bus) machine.processor ∧
      next.bus = Bus.writeAll machine.bus transition.writes ∧
      (machine.operation ∈ [.pha, .php, .jsr] →
        ∀ write ∈ transition.writes, OnStackPage write.address)) ∧
    ∀ flat : Machine Memory, ∃ transition next,
      flat.step = .ok (transition, next) ∧
      transition.writes.length ≤ 2 ∧
      ∀ address, next.bus.read address ≠ flat.bus.read address →
        ∃ write ∈ transition.writes, write.address = address := by
  constructor
  · refine ⟨machine.transition, machine.next, machine.step_eq, machine.writes_transition, rfl, ?_⟩
    intro pushes write written
    rw [writes_transition] at written
    exact Instruction.onStackPage_of_mem_writes _ _ _ pushes written
  · intro flat
    refine ⟨flat.transition, flat.next, flat.step_eq, ?_, ?_⟩
    · rw [writes_transition]
      exact Instruction.length_writes_le _ _ _
    · intro address changed
      have reached := mt (Memory.read_writeAll_of_forall_ne flat.bus) changed
      simpa using reached

end Machine

end Nmos6502
