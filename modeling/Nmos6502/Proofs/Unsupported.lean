import Nmos6502.Session
import Nmos6502.Proofs.Contents
import Nmos6502.Proofs.Run

/-!
Runs over bytes without a meaning. The machine warns of such a byte and goes on to the next cell,
through the end of memory as anywhere else. Main statement: however many of them follow one another,
each costs one cycle, and nothing moves but the program counter and the total
(`skips_unsupported`).
-/

namespace Nmos6502

theorem Operation.exists_fault {operation : Operation} (unsupported : operation ∈ [.illegal, .brk]) :
    ∃ fault, operation.action = .error fault := by
  simp only [List.mem_cons, List.not_mem_nil, or_false] at unsupported
  rcases unsupported with rfl | rfl
  · exact ⟨_, rfl⟩
  · exact ⟨_, rfl⟩

/-- The processor once it has passed over bytes at the cost of their fetch. -/
def Processor.pass (processor : Processor) (count : Nat) : Processor :=
  (processor.skip count).elapse count

theorem Processor.pass_zero (processor : Processor) : processor.pass 0 = processor := by
  simp [pass, skip, elapse]

theorem Processor.pass_succ (processor : Processor) (count : Nat) :
    processor.pass (count + 1) = ((processor.pass count).skip 1).elapse 1 := by
  simp [pass, skip, elapse, UInt16.ofNat_add, UInt64.ofNat_add, UInt16.add_assoc, UInt64.add_assoc]

namespace Machine

variable {σ : Type} [Bus σ] (machine : Machine σ)

/-- The cell at a distance from the program counter, counted through the end of memory. -/
def cellAhead (distance : Nat) : Address :=
  machine.processor.pc + UInt16.ofNat distance

def byteAhead (distance : Nat) : Byte :=
  Bus.read machine.bus (machine.cellAhead distance)

/-- The bytes ahead are unassigned or the software interrupt. -/
def FacesUnsupported (count : Nat) : Prop :=
  ∀ distance < count, (decode (machine.byteAhead distance)).operation ∈ [.illegal, .brk]

/-- The warning about the byte at a distance. -/
def warningAhead (distance : Nat) : Record :=
  .skipped (machine.cellAhead distance) (machine.byteAhead distance)
    (decode (machine.byteAhead distance)).operation

/-- The machine once a number of bytes have been passed over. -/
def passed (count : Nat) : Machine σ where
  processor := machine.processor.pass count
  bus := machine.bus

/-- How the byte at a distance is passed over. -/
def passing (distance : Nat) : Transition where
  outcome := .unsupported (machine.byteAhead distance) (machine.cellAhead distance)
  processor := machine.processor.pass (distance + 1)
  writes := []
  log := [.fetched (machine.cellAhead distance) (machine.byteAhead distance)
      (decode (machine.byteAhead distance)).operation ((machine.processor.pass distance).skip 1),
    machine.warningAhead distance]

variable {machine} {count : Nat}

namespace FacesUnsupported

variable (faces : machine.FacesUnsupported count)

include faces

theorem of_le {fewer : Nat} (within : fewer ≤ count) : machine.FacesUnsupported fewer := by
  intro distance below
  exact faces distance (Nat.lt_of_lt_of_le below within)

theorem refuses {distance : Nat} (below : distance < count) :
    ∃ fault, (machine.passed distance).operation.action = .error fault :=
  Operation.exists_fault (faces distance below)

theorem after : machine.after count = machine.passed count := by
  induction count with
  | zero =>
      rw [passed, Processor.pass_zero]
      rfl
  | succ count induction =>
      obtain ⟨fault, refused⟩ := faces.refuses (Nat.lt_succ_self count)
      rw [after_succ, induction (faces.of_le (Nat.le_succ count)), next_of_fault _ refused]
      exact congrArg (Machine.mk · machine.bus) (Processor.pass_succ _ count).symm

theorem transition {distance : Nat} (below : distance < count) :
    (machine.after distance).transition = machine.passing distance := by
  obtain ⟨fault, refused⟩ := faces.refuses below
  have reached := (faces.of_le (Nat.le_of_lt below)).after
  rw [reached, transition_of_fault _ refused, effect_of_fault _ refused, passing,
    Processor.pass_succ]
  rfl

theorem trace : machine.trace count = (List.range count).map machine.passing := by
  rw [trace_eq_map]
  apply List.map_congr_left
  intro distance member
  exact faces.transition (List.mem_range.mp member)

theorem elapsed : machine.elapsed count = count := by
  induction count with
  | zero => rfl
  | succ count induction =>
      have before := faces.of_le (Nat.le_succ count)
      obtain ⟨fault, refused⟩ := faces.refuses (Nat.lt_succ_self count)
      have cost : (machine.passed count).cost = 1 := Instruction.cost_of_fault _ _ _ refused
      rw [elapsed_succ, induction before, before.after, cost]

theorem isLeast_elapsed : IsLeast {spent | count ≤ machine.elapsed spent} count := by
  have least := machine.isLeast_elapsed count
  rwa [faces.elapsed] at least

/-- A bus that shows the same bytes ahead, whatever it shows elsewhere, is passed over alike. -/
theorem trace_of_same_bytes {bus : σ}
    (same : ∀ distance < count, Bus.read bus (machine.cellAhead distance) =
      machine.byteAhead distance) :
    (Machine.mk machine.processor bus).FacesUnsupported count ∧
      (Machine.mk machine.processor bus).trace count = machine.trace count := by
  have other : (Machine.mk machine.processor bus).FacesUnsupported count := by
    intro distance below
    have byte : (Machine.mk machine.processor bus).byteAhead distance =
        machine.byteAhead distance := same distance below
    rw [byte]
    exact faces distance below
  refine ⟨other, ?_⟩
  rw [other.trace, faces.trace]
  apply List.map_congr_left
  intro distance member
  have byte : (Machine.mk machine.processor bus).byteAhead distance =
      machine.byteAhead distance := same distance (List.mem_range.mp member)
  simp only [passing, warningAhead, byte]
  rfl

end FacesUnsupported

theorem warnings_passing (distance : Nat) :
    (machine.passing distance).log.filter (·.level = .warn) = [machine.warningAhead distance] := rfl

/-- What passing over a number of bytes comes to. -/
structure Passes (machine : Machine σ) (count : Nat) (history : List Transition)
    (last : Machine σ) : Prop where
  outcomes : history.map (·.outcome) = (List.range count).map fun distance =>
    .unsupported (machine.byteAhead distance) (machine.cellAhead distance)
  processor : last.processor =
    { machine.processor with
      pc := machine.processor.pc + UInt16.ofNat count
      total := machine.processor.total + UInt64.ofNat count }
  total : machine.processor.total.toNat + count < UInt64.size →
    last.processor.total.toNat = machine.processor.total.toNat + count
  bus : last.bus = machine.bus
  writes : history.flatMap (·.writes) = []
  warnings : (history.flatMap (·.log)).filter (·.level = .warn) =
    (List.range count).map machine.warningAhead

theorem FacesUnsupported.passes (faces : machine.FacesUnsupported count) :
    machine.Passes count (machine.trace count) (machine.after count) := by
  rw [faces.after, faces.trace]
  refine ⟨?_, rfl, toNat_total_add, rfl, ?_, ?_⟩
  · rw [List.map_map]
    rfl
  · rw [List.flatMap_map]
    exact List.flatMap_eq_nil_iff.mpr fun _ _ => rfl
  · rw [List.flatMap_map, List.filter_flatMap]
    simp only [warnings_passing]
    exact List.map_eq_flatMap.symm

variable (machine)

/-- Bytes without a meaning are reported one by one, each with its own address, at the cost of a
cycle. A run for as many cycles passes over all of them, whatever the bus shows elsewhere, be it on
the stack or in a vector. -/
theorem skips_unsupported (request : UInt32) (faces : machine.FacesUnsupported request.toNat) :
    ∃ history final,
      machine.steps request.toNat = .ok (history, final.machine) ∧
      Run.Completes request.toNat (Run.start machine request) final ∧
      machine.run request = .ok final ∧
      final.history.toList = history ∧
      final.budget.used.toNat = request.toNat ∧
      machine.Passes request.toNat history final.machine ∧
      ∀ bus : σ,
        (∀ distance < request.toNat, Bus.read bus (machine.cellAhead distance) =
          machine.byteAhead distance) →
        ∃ other,
          (Machine.mk machine.processor bus).run request = .ok other ∧
          other.history = final.history ∧
          other.machine = ⟨final.machine.processor, bus⟩ := by
  obtain ⟨completes, ran⟩ := run_eq_runAfter faces.isLeast_elapsed
  refine ⟨_, machine.runAfter request request.toNat, machine.steps_eq _, completes, ran, rfl,
    ?_, faces.passes, ?_⟩
  · rw [used_runAfter (Nat.le_refl _), faces.elapsed]
  · intro bus same
    obtain ⟨other, alike⟩ := faces.trace_of_same_bytes same
    obtain ⟨_, otherRan⟩ := run_eq_runAfter other.isLeast_elapsed
    have reached : (machine.runAfter request request.toNat).machine =
        machine.passed request.toNat :=
      faces.after
    refine ⟨_, otherRan, congrArg List.toArray alike, ?_⟩
    rw [reached]
    exact other.after

/-- Memory full of software interrupts, with an unassigned byte at its beginning. -/
def blankMemory : Machine View where
  processor := { Processor.startingAt 0xFFFE with total := 40 }
  bus := fun address => if address = 0 then 0x02 else 0x00

theorem facesUnsupported_blankMemory (count : Nat) : blankMemory.FacesUnsupported count := by
  intro distance _
  have first : (decode 0x02).operation ∈ [.illegal, .brk] := by
    rw [decode_eq_search]
    decide
  have other : (decode 0x00).operation ∈ [.illegal, .brk] := by
    rw [decode_eq_search]
    decide
  by_cases start : blankMemory.cellAhead distance = 0
  · have byte : blankMemory.byteAhead distance = 0x02 := if_pos start
    rw [byte]
    exact first
  · have byte : blankMemory.byteAhead distance = 0x00 := if_neg start
    rw [byte]
    exact other

/-- A run that goes round memory twice and on to its fourth byte. -/
theorem skips_unsupported_blankMemory :
    ∃ history final,
      blankMemory.run 131077 = .ok final ∧
      blankMemory.steps 131077 = .ok (history, final.machine) ∧
      final.budget.used.toNat = 131077 ∧
      final.machine.processor.pc = 0x0003 ∧
      final.machine.processor.total.toNat = 131117 ∧
      final.machine.bus = blankMemory.bus ∧
      history.flatMap (·.writes) = [] ∧
      ((history.flatMap (·.log)).filter (·.level = .warn)).length = 131077 := by
  obtain ⟨history, final, stepped, _, ran, _, used, passes, _⟩ :=
    skips_unsupported blankMemory 131077 (facesUnsupported_blankMemory _)
  have count : (131077 : UInt32).toNat = 131077 := rfl
  rw [count] at stepped used passes
  refine ⟨history, final, ran, stepped, used, ?_, passes.total (by decide), passes.bus,
    passes.writes, ?_⟩
  · rw [passes.processor]
    rfl
  · rw [passes.warnings, List.length_map, List.length_range]

end Machine

end Nmos6502
