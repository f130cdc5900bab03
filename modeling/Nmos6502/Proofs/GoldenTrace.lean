import Nmos6502.Session
import Nmos6502.Proofs.Contents
import Nmos6502.Proofs.Run

/-!
What the log tells of a run. A line is written once the opcode has been fetched, when the program
counter has already moved, and yet it shows the machine as it was before. Main statement: the log of
a run is one such line for each instruction, and a warning behind it if that was skipped
(`log_shows_states`).
-/

namespace Nmos6502

def Record.entry (record : Record) : Level × String :=
  (record.level, record.message)

namespace Machine

variable {σ : Type} [Bus σ] (machine : Machine σ)

/-- The line about the instruction that the machine is about to fetch: its address, its opcode and
name, and the registers that it finds. -/
def goldenLine : String :=
  Hex.address machine.processor.pc ++ "  " ++ Hex.byte machine.opcode ++ "  " ++
    machine.operation.mnemonic ++ "  " ++ machine.processor.display

/-- The warning that this instruction is skipped. -/
def warning : String :=
  "unsupported opcode 0x" ++ Hex.byte machine.opcode ++ " (" ++ machine.operation.mnemonic ++
    ") at $" ++ Hex.address machine.processor.pc ++ ", skipping"

/-- What belongs in the log for this instruction, given what becomes of it. -/
def entries (outcome : Outcome) : List (Level × String) :=
  (.trace, machine.goldenLine) ::
    match outcome with
    | .executed _ _ => []
    | .unsupported _ _ => [(.warn, machine.warning)]

theorem log_transition :
    machine.transition.log.map Record.entry = machine.entries machine.transition.outcome := by
  cases sorted : machine.operation.action with
  | ok action =>
      rw [transition_of_action machine sorted]
      rfl
  | error fault =>
      rw [transition_of_fault machine sorted]
      rfl

theorem traced_transition :
    (machine.transition.log.filter (·.level = .trace)).map Record.message =
      [machine.goldenLine] := by
  cases sorted : machine.operation.action with
  | ok action =>
      rw [transition_of_action machine sorted]
      rfl
  | error fault =>
      rw [transition_of_fault machine sorted]
      rfl

/-- The log of a number of instructions shows the states that they go through. -/
structure Shows (history : List Transition) : Prop where
  states : ∀ index ≤ history.length,
    machine.steps index = .ok (history.take index, machine.after index)
  log : (history.flatMap (·.log)).map Record.entry =
    (history.mapIdx fun index done => (machine.after index).entries done.outcome).flatten
  traced : ((history.flatMap (·.log)).filter (·.level = .trace)).map Record.message =
    (List.range history.length).map fun index => (machine.after index).goldenLine

theorem take_trace {index count : Nat} (within : index ≤ count) :
    (machine.trace count).take index = machine.trace index := by
  obtain ⟨rest, rfl⟩ := Nat.exists_eq_add_of_le within
  rw [trace_add]
  exact List.take_left' (machine.length_trace index)

theorem shows_trace (count : Nat) : machine.Shows (machine.trace count) := by
  refine ⟨?_, ?_, ?_⟩
  · intro index within
    rw [length_trace] at within
    rw [take_trace machine within]
    exact machine.steps_eq index
  · induction count with
    | zero => rfl
    | succ count induction =>
        rw [trace_succ, List.flatMap_append, List.map_append, induction, List.mapIdx_concat,
          List.flatten_append, length_trace, List.flatten_singleton, List.flatMap_singleton,
          log_transition]
  · rw [length_trace, trace_eq_map, List.flatMap_map, List.filter_flatMap, List.map_flatMap]
    simp only [traced_transition]
    exact List.map_eq_flatMap.symm

/-- Each instruction has one line in the log, with the registers that those before it have left, and
a warning behind it exactly when it is skipped. There is nothing else in the log, be it of single
steps or of a run. -/
theorem log_shows_states (count : Nat) (request : UInt32) :
    (∃ history last,
      machine.steps count = .ok (history, last) ∧
      history.length = count ∧
      machine.Shows history) ∧
    ∃ final,
      Run.Completes final.history.size (Run.start machine request) final ∧
      machine.run request = .ok final ∧
      final.log = final.history.toList.flatMap (·.log) ∧
      machine.Shows final.history.toList := by
  constructor
  · exact ⟨_, _, machine.steps_eq count, machine.length_trace count, machine.shows_trace count⟩
  · obtain ⟨instructions, least⟩ := machine.exists_isLeast_elapsed request.toNat
    obtain ⟨completes, ran⟩ := run_eq_runAfter least
    have size : (machine.runAfter request instructions).history.size = instructions :=
      machine.length_trace instructions
    refine ⟨machine.runAfter request instructions, ?_, ran, rfl, machine.shows_trace instructions⟩
    rwa [size]

example :
    let machine := Machine.mk { Processor.startingAt 0x0200 with x := 0x7F }
      (Bus.writeAll (fun _ => 0 : View) (Image.writes ⟨0x0200, [0xE8, 0x02]⟩))
    ((machine.trace 2).flatMap (·.log)).map Record.line =
      ["TRACE 0200  E8  INX  A:00 X:7F Y:00 P:00 SP:FF",
        "TRACE 0201  02  ???  A:00 X:80 Y:00 P:80 SP:FF",
        "WARN unsupported opcode 0x02 (???) at $0201, skipping"] := by
  decide +kernel

end Machine

end Nmos6502
