import Nmos6502.Bus.Board
import Nmos6502.Session
import Nmos6502.Proofs.Contents
import Nmos6502.Proofs.Resolution
import Nmos6502.Proofs.Run

/-!
Machines on different buses. A machine reaches its memory by reads and writes alone, so that two
buses which these cannot tell apart serve it equally well. Main statement: on such buses all calls
are answered alike, with the same writes (`calls_of_bisimilar`).
-/

namespace Nmos6502

/-- A relation between the states of two buses that read alike at every address, and that goes on
whatever is written to both. -/
structure Bus.Bisimilar [Bus σ] [Bus τ] (related : σ → τ → Prop) : Prop where
  read : ∀ {left right}, related left right →
    ∀ address, Bus.read left address = Bus.read right address
  write : ∀ {left right}, related left right →
    ∀ address value, related (Bus.write left address value) (Bus.write right address value)

theorem Bus.Bisimilar.writeAll [Bus σ] [Bus τ] {related : σ → τ → Prop}
    (bisimilar : Bus.Bisimilar related) {left : σ} {right : τ} (start : related left right)
    (writes : List Write) : related (Bus.writeAll left writes) (Bus.writeAll right writes) := by
  induction writes generalizing left right with
  | nil => exact start
  | cons first rest induction =>
      exact induction (bisimilar.write start first.address first.value)

theorem Bus.writeAll_keeps [Bus σ] {kept : σ → Prop}
    (write : ∀ bus address value, kept bus → kept (Bus.write bus address value)) {bus : σ}
    (start : kept bus) (writes : List Write) : kept (Bus.writeAll bus writes) := by
  induction writes generalizing bus with
  | nil => exact start
  | cons first rest induction =>
      exact induction (write bus first.address first.value start)

namespace Machine

section

variable {σ τ : Type} [Bus σ] [Bus τ]

/-- Machines that differ in their buses only, and there as a relation allows. -/
structure Matches (related : σ → τ → Prop) (left : Machine σ) (right : Machine τ) : Prop where
  processor : left.processor = right.processor
  bus : related left.bus right.bus

variable {related : σ → τ → Prop} {left : Machine σ} {right : Machine τ}

namespace Matches

variable (bisimilar : Bus.Bisimilar related) (alike : left.Matches related right)

include bisimilar alike

theorem view : Bus.read left.bus = Bus.read right.bus :=
  funext (bisimilar.read alike.bus)

theorem transition : left.transition = right.transition :=
  transition_congr_view alike.processor (alike.view bisimilar)

theorem next : left.next.Matches related right.next where
  processor := congrArg Transition.processor (alike.transition bisimilar)
  bus := by
    rw [Machine.next, Machine.next, alike.transition bisimilar]
    exact bisimilar.writeAll alike.bus _

theorem after (count : Nat) : (left.after count).Matches related (right.after count) := by
  induction count with
  | zero => exact alike
  | succ count induction =>
      rw [after_succ, after_succ]
      exact induction.next bisimilar

theorem trace (count : Nat) : left.trace count = right.trace count := by
  induction count with
  | zero => rfl
  | succ count induction =>
      rw [trace_succ, trace_succ, induction, (alike.after bisimilar count).transition bisimilar]

theorem runAfter (request : UInt32) (count : Nat) :
    (left.runAfter request count).budget = (right.runAfter request count).budget ∧
      (left.runAfter request count).history = (right.runAfter request count).history := by
  simp only [Machine.runAfter, elapsed, alike.trace bisimilar count, and_self]

/-- Both runs end after the same number of instructions, for these cost the same. -/
theorem run (request : UInt32) :
    ∃ count,
      left.run request = .ok (left.runAfter request count) ∧
      right.run request = .ok (right.runAfter request count) := by
  obtain ⟨count, least⟩ := left.exists_isLeast_elapsed request.toNat
  have elapsed : left.elapsed = right.elapsed :=
    funext fun count => congrArg costs (alike.trace bisimilar count)
  have rightLeast := least
  rw [elapsed] at rightLeast
  exact ⟨count, (run_eq_runAfter least).2, (run_eq_runAfter rightLeast).2⟩

end Matches

/-! What the calls amount to that do not run instructions. -/

section

variable (machine : Machine σ)

theorem call_place (bytes : List Byte) :
    machine.call (.place bytes) =
      match Image.ofBytes bytes with
      | .ok image => .ok (⟨.placed image.start, image.writes, [image.record]⟩,
          { machine with bus := Bus.writeAll machine.bus image.writes })
      | .error fault => .ok (⟨.rejected fault, [], []⟩, machine) := by
  rw [call, Bus.place]
  cases Image.ofBytes bytes with
  | ok image =>
      simp [bind, Except.bind, pure, Except.pure, Placement.foldl_send]
  | error fault => rfl

end

namespace Matches

variable (bisimilar : Bus.Bisimilar related) (alike : left.Matches related right)

include bisimilar alike

theorem call (call : Call) :
    ∃ reply leftNext rightNext,
      left.call call = .ok (reply, leftNext) ∧
      right.call call = .ok (reply, rightNext) ∧
      leftNext.Matches related rightNext := by
  have view := alike.view bisimilar
  cases call with
  | reset =>
      simp only [Machine.call, reset, view]
      exact ⟨_, _, _, rfl, rfl, rfl, alike.bus⟩
  | resetTo start => exact ⟨_, _, _, rfl, rfl, rfl, alike.bus⟩
  | place bytes =>
      rw [call_place, call_place]
      cases Image.ofBytes bytes with
      | ok image => exact ⟨_, _, _, rfl, rfl, alike.processor, bisimilar.writeAll alike.bus _⟩
      | error fault => exact ⟨_, _, _, rfl, rfl, alike⟩
  | resolve mode charge budget =>
      cases named : mode.namesCell with
      | true =>
          simp only [Machine.call, resolve_of_namesCell _ charge budget named, view,
            alike.processor]
          exact ⟨_, _, _, rfl, rfl, rfl, alike.bus⟩
      | false =>
          simp only [Machine.call, resolve_of_unnamed _ charge budget named]
          exact ⟨_, _, _, rfl, rfl, alike⟩
  | step =>
      simp only [Machine.call, step_eq, alike.transition bisimilar]
      exact ⟨_, _, _, rfl, rfl, alike.next bisimilar⟩
  | run request =>
      obtain ⟨count, leftRan, rightRan⟩ := alike.run bisimilar request
      obtain ⟨budget, history⟩ := alike.runAfter bisimilar request count
      simp only [Machine.call, leftRan, rightRan, Except.map, Run.writes, Run.log, budget, history]
      exact ⟨_, _, _, rfl, rfl, alike.after bisimilar count⟩

theorem calls (calls : List Call) :
    ∃ replies leftLast rightLast,
      left.calls calls = .ok (replies, leftLast) ∧
      right.calls calls = .ok (replies, rightLast) ∧
      leftLast.Matches related rightLast := by
  induction calls generalizing left right with
  | nil => exact ⟨[], left, right, rfl, rfl, alike⟩
  | cons first rest induction =>
      obtain ⟨reply, leftNext, rightNext, leftCalled, rightCalled, next⟩ :=
        alike.call bisimilar first
      obtain ⟨replies, leftLast, rightLast, leftRest, rightRest, last⟩ := induction next
      refine ⟨reply :: replies, leftLast, rightLast, ?_, ?_, last⟩
      · simp only [Machine.calls, leftCalled, leftRest, Except.map]
      · simp only [Machine.calls, rightCalled, rightRest, Except.map]

end Matches

/-! What the calls send to the bus is all that becomes of it. -/

section

variable {machine : Machine σ}

theorem bus_run {request : UInt32} {final : Run σ} (ran : machine.run request = .ok final) :
    final.machine.bus = Bus.writeAll machine.bus final.writes := by
  obtain ⟨count, _, whole⟩ := machine.exists_run request
  rw [whole] at ran
  cases ran
  rw [Run.writes, Machine.runAfter, List.toList_toArray]
  exact machine.bus_after count

theorem bus_call {call : Call} {reply : Reply} {next : Machine σ}
    (called : machine.call call = .ok (reply, next)) :
    next.bus = Bus.writeAll machine.bus reply.writes := by
  cases call with
  | reset | resetTo start =>
      cases called
      rfl
  | place bytes =>
      rw [call_place] at called
      cases placed : Image.ofBytes bytes <;> rw [placed] at called <;> cases called <;> rfl
  | resolve mode charge budget =>
      cases named : mode.namesCell with
      | true =>
          simp only [Machine.call, resolve_of_namesCell _ charge budget named] at called
          cases called
          rfl
      | false =>
          simp only [Machine.call, resolve_of_unnamed _ charge budget named] at called
          cases called
          rfl
  | step =>
      simp only [Machine.call, step_eq] at called
      cases called
      rfl
  | run request =>
      rw [Machine.call] at called
      cases ran : machine.run request with
      | ok final =>
          rw [ran] at called
          cases called
          exact bus_run ran
      | error fault =>
          rw [ran] at called
          contradiction

theorem bus_calls {calls : List Call} {replies : List Reply} {last : Machine σ}
    (called : machine.calls calls = .ok (replies, last)) :
    last.bus = Bus.writeAll machine.bus (replies.flatMap (·.writes)) := by
  induction calls generalizing machine replies with
  | nil =>
      cases called
      rfl
  | cons first rest induction =>
      rw [Machine.calls] at called
      cases once : machine.call first with
      | ok done =>
          obtain ⟨reply, next⟩ := done
          rw [once] at called
          cases others : next.calls rest with
          | ok done =>
              simp only [others, Except.map] at called
              cases called
              rw [List.flatMap_cons, Bus.writeAll_append, ← bus_call once]
              exact induction others
          | error fault =>
              simp only [others, Except.map] at called
              contradiction
      | error fault =>
          rw [once] at called
          contradiction

end

/-- All that a caller can ask is answered alike on both buses, by processors that stay equal. The
writes are the same too, and they are all that happens to a bus: what each of them keeps, every
session keeps. -/
theorem calls_of_bisimilar (bisimilar : Bus.Bisimilar related) {leftBus : σ} {rightBus : τ}
    (start : related leftBus rightBus) (processor : Processor) (calls : List Call) :
    ∃ replies last leftLast rightLast,
      (Machine.mk processor leftBus).calls calls = .ok (replies, ⟨last, leftLast⟩) ∧
      (Machine.mk processor rightBus).calls calls = .ok (replies, ⟨last, rightLast⟩) ∧
      related leftLast rightLast ∧
      leftLast = Bus.writeAll leftBus (replies.flatMap (·.writes)) ∧
      rightLast = Bus.writeAll rightBus (replies.flatMap (·.writes)) ∧
      ∀ kept : σ → Prop,
        (∀ bus address value, kept bus → kept (Bus.write bus address value)) →
          kept leftBus → kept leftLast := by
  have alike : (Machine.mk processor leftBus).Matches related ⟨processor, rightBus⟩ := ⟨rfl, start⟩
  obtain ⟨replies, ⟨last, leftLast⟩, ⟨_, rightLast⟩, leftCalled, rightCalled, same, buses⟩ :=
    alike.calls bisimilar calls
  cases same
  have written : leftLast = Bus.writeAll leftBus (replies.flatMap (·.writes)) :=
    bus_calls leftCalled
  refine ⟨replies, last, leftLast, rightLast, leftCalled, rightCalled, buses, written,
    bus_calls rightCalled, ?_⟩
  intro kept write initially
  rw [written]
  exact Bus.writeAll_keeps write initially _

end

end Machine

/-! Buses that serve alike, and what a bus may keep. -/

theorem Bus.bisimilar_eq [Bus σ] : Bus.Bisimilar (Eq : σ → σ → Prop) where
  read same _ := by rw [same]
  write same _ _ := by rw [same]

def Memory.Shows (contents : View) (memory : Memory) : Prop :=
  memory.read = contents

theorem Memory.bisimilar_shows : Bus.Bisimilar Memory.Shows where
  read shows address := (congrFun shows address).symm
  write shows address value := by
    funext other
    rw [bus_write, read_write, shows]
    rfl

/-- The upper half of a board holds a read-only program. -/
structure Board.HoldsRom (contents : View) (board : Board) : Prop where
  wiring : board.wiring = .rom
  read : ∀ address, 0x8000 ≤ address → board.read address = contents address

theorem Board.HoldsRom.write {contents : View} {board : Board} (held : board.HoldsRom contents)
    (address : Address) (value : Byte) : (board.write address value).HoldsRom contents where
  wiring := by rw [wiring_write, held.wiring]
  read other upper := by
    rw [← held.read other upper, Board.write, held.wiring]
    split
    · next writable =>
        have lower : address < 0x8000 := of_decide_eq_true writable
        have apart : address ≠ other := by
          rintro rfl
          exact absurd upper (by simpa using lower)
        simp only [Board.read, held.wiring, Wiring.cell]
        exact Memory.read_write_ne _ _ apart
    · rfl

namespace Machine

/-- A session that places a program and its reset vector, and runs it: the program stores to the
upper half of memory and counts in the lower. -/
def session : List Call :=
  [.place [0x00, 0x02, 0x8D, 0x00, 0x90, 0xE6, 0x10, 0x4C, 0x00, 0x02], .place [0xFC],
    .place [0xFC, 0xFF, 0x00, 0x02], .reset, .step, .run 9,
    .resolve .indirectY .always (.ofRequest 4), .resolve .relative .always (.ofRequest 4)]

/-- A board whose upper half holds a reset vector and nothing else. -/
def startupBoard : Board where
  wiring := .rom
  memory := Memory.zero.write 0xFFFD 0x02

theorem count_session :
    ((Machine.mk (.startingAt 0) (fun _ => 0 : View)).calls session).toOption.map
      (fun done => done.2.bus 0x10) = some 1 := by
  decide +kernel

/-- Flat memory answers the session as its contents do, and what the program stores to the upper half
of a board is lost. -/
theorem calls_of_bisimilar_session :
    (∃ replies last contents memory,
      (Machine.mk (.startingAt 0) (fun _ => 0 : View)).calls session =
        .ok (replies, ⟨last, contents⟩) ∧
      (Machine.mk (.startingAt 0) Memory.zero).calls session = .ok (replies, ⟨last, memory⟩) ∧
      memory.read 0x10 = 1) ∧
    ∃ replies last board,
      (Machine.mk (.startingAt 0) startupBoard).calls session = .ok (replies, ⟨last, board⟩) ∧
      ∀ address, 0x8000 ≤ address → board.read address = startupBoard.read address := by
  constructor
  · have shown : Memory.Shows (fun _ => 0) Memory.zero := funext (Memory.read_ofFn _)
    obtain ⟨replies, last, contents, memory, left, right, shows, _⟩ :=
      calls_of_bisimilar Memory.bisimilar_shows shown (.startingAt 0) session
    have count : contents 0x10 = 1 := by
      simpa [left, Except.toOption] using count_session
    exact ⟨replies, last, contents, memory, left, right, (congrFun shows 0x10).trans count⟩
  · obtain ⟨replies, last, board, _, called, _, _, _, _, keeps⟩ :=
      calls_of_bisimilar Bus.bisimilar_eq (Eq.refl startupBoard) (.startingAt 0) session
    have held : startupBoard.HoldsRom startupBoard.read := ⟨rfl, fun _ _ => rfl⟩
    have kept := keeps (Board.HoldsRom startupBoard.read)
      (fun _ address value held => held.write address value) held
    exact ⟨replies, last, board, called, kept.read⟩

end Machine

end Nmos6502
