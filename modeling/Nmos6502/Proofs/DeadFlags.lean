import Nmos6502.Bus.Image
import Nmos6502.Proofs.Contents
import Nmos6502.Proofs.Frame
import Nmos6502.Proofs.Run

/-!
Flags that nothing reads. Break and unused are not consulted by any instruction, and decimal and
interrupt disable only by the push of the status. Main statement: processors that differ in such
flags alone run alike on one bus (`runs_alike`).
-/

namespace Nmos6502

namespace Flag

def dead : List Flag :=
  [breakCommand, unused]

/-- The dead flags, and those that are read by the push of the status alone. -/
def dormant : List Flag :=
  [breakCommand, unused, decimal, interruptDisable]

end Flag

/-- The push of the status sets the dead flags, and so hides them. -/
theorem Flags.toStackByte_congr {left right : Flags}
    (equal : ∀ flag ∉ Flag.dead, left.get flag = right.get flag) :
    left.toStackByte = right.toStackByte := by
  -- The byte is compared by the flags that it unpacks to.
  have unpacked : ofByte left.toStackByte = ofByte right.toStackByte := by
    rw [ofByte_toStackByte, ofByte_toStackByte]
    apply ext_get
    intro flag
    have visible := equal flag
    cases flag with
    | breakCommand | unused => rfl
    | carry | zero | interruptDisable | decimal | overflow | negative =>
        exact visible (by decide)
  rw [← toByte_ofByte left.toStackByte, unpacked, toByte_ofByte]

namespace Processor

def withFlags (processor : Processor) (flags : Flags) (total : UInt64) : Processor :=
  { processor with flags := flags, total := total }

/-- Processors that may differ in some flags and in their totals, and agree otherwise. -/
structure Agree (hidden : List Flag) (left right : Processor) : Prop where
  rest : right = left.withFlags right.flags right.total
  flags : ∀ flag ∉ hidden, left.flags.get flag = right.flags.get flag

end Processor

namespace AddressingMode

variable (mode : AddressingMode) (charge : IndexCharge) (view : View) (processor : Processor)
  (flags : Flags) (total : UInt64)

theorem address_withFlags :
    mode.address view (processor.withFlags flags total) = mode.address view processor := by
  cases mode <;> rfl

theorem value_withFlags :
    mode.value view (processor.withFlags flags total) = mode.value view processor := by
  cases mode <;> rfl

theorem locateCycles_withFlags :
    mode.locateCycles charge view (processor.withFlags flags total) =
      mode.locateCycles charge view processor := by
  cases mode <;> rfl

theorem readCycles_withFlags :
    mode.readCycles charge view (processor.withFlags flags total) =
      mode.readCycles charge view processor := by
  cases mode <;> rfl

end AddressingMode

/-- Effects that may differ in the flags and the total of their processors, and agree otherwise. -/
structure Effect.Alike (left right : Effect) : Prop where
  cycles : left.cycles = right.cycles
  writes : left.writes = right.writes
  rest : right.processor =
    left.processor.withFlags right.processor.flags right.processor.total

namespace Action

/-- The flags that an action reads. -/
def consults : Action → List Flag
  | calculate _ | shift .rol | shift .ror => [.carry]
  | branch flag _ => [flag]
  | push .status => [.carry, .zero, .interruptDisable, .decimal, .overflow, .negative]
  | _ => []

variable {action : Action} {mode : AddressingMode} (charge : IndexCharge) (view : View)
  {processor : Processor} {flags : Flags} (total : UInt64)

theorem shift_withFlags {rule : Shift} (value : Byte)
    (consulted : ∀ flag ∈ (shift rule).consults, processor.flags.get flag = flags.get flag) :
    rule.apply value (processor.withFlags flags total).flags.carry =
      rule.apply value processor.flags.carry := by
  cases rule with
  | asl | lsr => rfl
  | rol | ror =>
      have carry : processor.flags.carry = flags.carry := consulted .carry List.mem_cons_self
      rw [carry]
      rfl

theorem effect_withFlags
    (consulted : ∀ flag ∈ action.consults, processor.flags.get flag = flags.get flag) :
    (action.effect mode charge view processor).Alike
      (action.effect mode charge view (processor.withFlags flags total)) := by
  have address := mode.address_withFlags view processor flags total
  have value := mode.value_withFlags view processor flags total
  have locate := mode.locateCycles_withFlags charge view processor flags total
  have read := mode.readCycles_withFlags charge view processor flags total
  cases action with
  | load register | compare register =>
      simp only [effect, value, read]
      cases register <;> exact ⟨rfl, rfl, rfl⟩
  | calculate rule =>
      have carry : (processor.withFlags flags total).flags.carry = processor.flags.carry :=
        (consulted .carry List.mem_cons_self).symm
      simp only [effect, value, read, carry]
      exact ⟨rfl, rfl, rfl⟩
  | combine | testBits =>
      simp only [effect, value, read]
      exact ⟨rfl, rfl, rfl⟩
  | store source =>
      simp only [effect, address, locate]
      cases source <;> exact ⟨rfl, rfl, rfl⟩
  | shift rule =>
      simp only [effect, address, locate, shift_withFlags total _ consulted]
      split <;> exact ⟨rfl, rfl, rfl⟩
  | countMemory | jump =>
      simp only [effect, address, locate]
      exact ⟨rfl, rfl, rfl⟩
  | branch flag expected =>
      have same : (processor.withFlags flags total).flags.get flag = processor.flags.get flag :=
        (consulted flag List.mem_cons_self).symm
      simp only [effect, same]
      split <;> exact ⟨rfl, rfl, rfl⟩
  | push item =>
      cases item with
      | accumulator => exact ⟨rfl, rfl, rfl⟩
      | status =>
          have stacked : processor.flags.toStackByte = flags.toStackByte := by
            apply Flags.toStackByte_congr
            intro flag visible
            apply consulted
            cases flag <;> first | decide | contradiction
          refine ⟨rfl, ?_, rfl⟩
          simp only [effect, Processor.stacked, stacked]
          rfl
  | countRegister _ register | transfer _ register =>
      cases register <;> exact ⟨rfl, rfl, rfl⟩
  | pull item => cases item <;> exact ⟨rfl, rfl, rfl⟩
  | call | returnFromCall | returnFromInterrupt | assign | rest => exact ⟨rfl, rfl, rfl⟩

theorem get_flags_effect_withFlags
    (consulted : ∀ flag ∈ action.consults, processor.flags.get flag = flags.get flag)
    {flag : Flag} (settled : flag ∈ action.flags) :
    (action.effect mode charge view processor).processor.flags.get flag =
      (action.effect mode charge view
        (processor.withFlags flags total)).processor.flags.get flag := by
  have address := mode.address_withFlags view processor flags total
  have value := mode.value_withFlags view processor flags total
  cases action with
  | load register | compare register =>
      simp only [effect, value]
      cases register <;> cases flag <;> first | rfl | simp [Action.flags] at settled
  | calculate rule =>
      have carry : (processor.withFlags flags total).flags.carry = processor.flags.carry :=
        (consulted .carry List.mem_cons_self).symm
      simp only [effect, value, carry]
      cases flag <;> first | rfl | simp [Action.flags] at settled
  | combine | testBits =>
      simp only [effect, value]
      cases flag <;> first | rfl | simp [Action.flags] at settled
  | shift rule =>
      simp only [effect, address, shift_withFlags total _ consulted]
      split <;> cases flag <;> first | rfl | simp [Action.flags] at settled
  | countMemory direction =>
      simp only [effect, address]
      cases flag <;> first | rfl | simp [Action.flags] at settled
  | countRegister _ register | transfer _ register =>
      cases register <;> cases flag <;> first | rfl | simp [Action.flags] at settled
  | pull item =>
      cases item with
      | accumulator => cases flag <;> first | rfl | simp [Action.flags] at settled
      | status => rfl
  | returnFromInterrupt => rfl
  | assign target value =>
      obtain rfl := List.mem_singleton.mp settled
      simp [effect]
  | store | branch | jump | call | returnFromCall | push | rest => contradiction

end Action

theorem Operation.consults_of_action {operation : Operation} {action : Action}
    (sorted : operation.action = .ok action) :
    ∀ flag ∈ action.consults,
      flag ∉ Flag.dead ∧ (operation ≠ .php → flag ∉ Flag.dormant) := by
  cases operation <;> cases sorted <;> decide

namespace Processor.Agree

variable {hidden : List Flag} {left right : Processor} (agree : left.Agree hidden right)

include agree

theorem mono {still : List Flag} (subset : hidden ⊆ still) : left.Agree still right where
  rest := agree.rest
  flags flag shown := agree.flags flag fun member => shown (subset member)

theorem pc : left.pc = right.pc := by
  rw [agree.rest]
  rfl

theorem skip (count : Nat) : (left.skip count).Agree hidden (right.skip count) where
  rest := by
    rw [agree.rest]
    rfl
  flags := agree.flags

theorem elapse (cycles : Nat) : (left.elapse cycles).Agree hidden (right.elapse cycles) where
  rest := by
    rw [agree.rest]
    rfl
  flags := agree.flags

/-- An action takes the same course on processors that agree on the flags it reads, and they agree
on the flags it sets from then on. -/
theorem effect {action : Action} (mode : AddressingMode) (charge : IndexCharge) (view : View)
    (visible : ∀ flag ∈ action.consults, flag ∉ hidden) {still : List Flag}
    (settled : ∀ flag ∈ hidden, flag ∈ still ∨ flag ∈ action.flags) :
    (action.effect mode charge view left).Alike (action.effect mode charge view right) ∧
      (action.effect mode charge view left).processor.Agree still
        (action.effect mode charge view right).processor := by
  have consulted : ∀ flag ∈ action.consults, left.flags.get flag = right.flags.get flag :=
    fun flag read => agree.flags flag (visible flag read)
  have alike : (action.effect mode charge view left).Alike
      (action.effect mode charge view right) := by
    rw [agree.rest]
    exact Action.effect_withFlags charge view right.total consulted
  refine ⟨alike, alike.rest, ?_⟩
  intro flag shown
  by_cases set : flag ∈ action.flags
  · rw [agree.rest]
    exact Action.get_flags_effect_withFlags charge view right.total consulted set
  · have visibleBefore : flag ∉ hidden := fun member => (settled flag member).elim shown set
    rw [Action.get_flags_effect charge view left set, Action.get_flags_effect charge view right set]
    exact agree.flags flag visibleBefore

end Processor.Agree

namespace Machine

variable {σ : Type} [Bus σ]

section

variable (machine : Machine σ) (flag : Flag)

def Consults : Prop :=
  ∃ action, machine.operation.action = .ok action ∧ flag ∈ action.consults

def Settles : Prop :=
  ∃ action, machine.operation.action = .ok action ∧ flag ∈ action.flags

end

variable {machine : Machine σ} {flag : Flag}

theorem not_consults_dead (dead : flag ∈ Flag.dead) : ¬ machine.Consults flag := by
  rintro ⟨action, sorted, read⟩
  exact (Operation.consults_of_action sorted flag read).1 dead

theorem not_consults_dormant (unpushed : machine.operation ≠ .php) (dormant : flag ∈ Flag.dormant) :
    ¬ machine.Consults flag := by
  rintro ⟨action, sorted, read⟩
  exact (Operation.consults_of_action sorted flag read).2 unpushed dormant

/-- Machines on the same bus whose processors agree but for some flags and their totals. -/
structure Agree (hidden : List Flag) (left right : Machine σ) : Prop where
  processor : left.processor.Agree hidden right.processor
  bus : left.bus = right.bus

namespace Agree

variable {hidden : List Flag} {left right : Machine σ} (agree : left.Agree hidden right)

include agree

theorem opcode : left.opcode = right.opcode := by
  rw [Machine.opcode, Machine.opcode, agree.bus, agree.processor.rest]
  rfl

theorem operation : left.operation = right.operation := by
  rw [Machine.operation, Machine.operation, agree.opcode]

section

variable (visible : ∀ flag ∈ hidden, ¬ left.Consults flag) {still : List Flag}
  (settled : ∀ flag ∈ hidden, flag ∈ still ∨ left.Settles flag)

include visible settled

theorem effect :
    left.effect.Alike right.effect ∧
      left.effect.processor.Agree still right.effect.processor := by
  cases sorted : left.operation.action with
  | ok action =>
      have sortedRight : right.operation.action = .ok action := agree.operation ▸ sorted
      have unread : ∀ flag ∈ action.consults, flag ∉ hidden := fun flag read member =>
        visible flag member ⟨action, sorted, read⟩
      have set : ∀ flag ∈ hidden, flag ∈ still ∨ flag ∈ action.flags := by
        intro flag member
        refine (settled flag member).imp_right ?_
        rintro ⟨_, same, set⟩
        rw [sorted] at same
        cases same
        exact set
      obtain ⟨alike, processor⟩ := (agree.processor.skip 1).effect (decode left.opcode).mode
        left.operation.indexCharge (Bus.read left.bus) unread set
      rw [effect_of_action left sorted, effect_of_action right sortedRight, ← agree.opcode,
        ← agree.operation, ← agree.bus]
      exact ⟨⟨congrArg (· + 1) alike.cycles, alike.writes, alike.rest⟩, processor⟩
  | error fault =>
      have refusedRight : right.operation.action = .error fault := agree.operation ▸ sorted
      have kept : hidden ⊆ still := by
        intro flag member
        refine (settled flag member).resolve_right ?_
        rintro ⟨_, same, _⟩
        rw [sorted] at same
        contradiction
      have skipped := (agree.processor.skip 1).mono kept
      rw [effect_of_fault left sorted, effect_of_fault right refusedRight]
      exact ⟨⟨rfl, rfl, skipped.rest⟩, skipped⟩

theorem next_of_settles : left.next.Agree still right.next := by
  obtain ⟨alike, processor⟩ := agree.effect visible settled
  have writes : left.transition.writes = right.transition.writes := alike.writes
  refine ⟨?_, ?_⟩
  · rw [next, next, transition, transition, alike.cycles]
    exact processor.elapse _
  · rw [next, next, writes, agree.bus]

end

section

variable (visible : ∀ flag ∈ hidden, ¬ left.Consults flag)

include visible

theorem next : left.next.Agree hidden right.next :=
  agree.next_of_settles visible fun _ member => .inl member

theorem transition :
    left.transition.outcome = right.transition.outcome ∧
      left.transition.writes = right.transition.writes := by
  obtain ⟨alike, _⟩ := agree.effect visible fun _ member => .inl member
  refine ⟨?_, alike.writes⟩
  rw [Machine.transition, Machine.transition, agree.operation, agree.opcode, agree.processor.pc,
    alike.cycles]

end

theorem after {count : Nat}
    (visible : ∀ index < count, ∀ flag ∈ hidden, ¬ (left.after index).Consults flag) :
    (left.after count).Agree hidden (right.after count) := by
  induction count with
  | zero => exact agree
  | succ count induction =>
      have before := induction fun index bound => visible index (Nat.lt_succ_of_lt bound)
      rw [after_succ, after_succ]
      exact before.next (visible count (Nat.lt_succ_self count))

theorem trace {count : Nat}
    (visible : ∀ index < count, ∀ flag ∈ hidden, ¬ (left.after index).Consults flag) :
    (left.trace count).map (·.outcome) = (right.trace count).map (·.outcome) ∧
      (left.trace count).map (·.writes) = (right.trace count).map (·.writes) := by
  induction count with
  | zero => exact ⟨rfl, rfl⟩
  | succ count induction =>
      have earlier : ∀ index < count, ∀ flag ∈ hidden, ¬ (left.after index).Consults flag :=
        fun index bound => visible index (Nat.lt_succ_of_lt bound)
      obtain ⟨outcomes, writes⟩ := induction earlier
      obtain ⟨outcome, written⟩ :=
        (agree.after earlier).transition (visible count (Nat.lt_succ_self count))
      simp only [trace_succ, List.map_append, List.map_cons, List.map_nil, outcomes, writes,
        outcome, written, and_self]

/-- Once all hidden flags have been set by one instruction, no flag is hidden any more. -/
theorem after_of_settles {index count : Nat} (bound : index < count)
    (visible : ∀ index < count, ∀ flag ∈ hidden, ¬ (left.after index).Consults flag)
    (settled : ∀ flag ∈ hidden, (left.after index).Settles flag) :
    (left.after count).Agree [] (right.after count) := by
  obtain ⟨further, rfl⟩ := Nat.exists_eq_add_of_lt bound
  have before := agree.after fun earlier below => visible earlier (Nat.lt_trans below bound)
  have met : (left.after index).next.Agree [] (right.after index).next :=
    before.next_of_settles (visible index bound) fun flag member => .inr (settled flag member)
  rw [← after_succ, ← after_succ] at met
  rw [Nat.add_right_comm, left.after_add (index + 1), right.after_add (index + 1)]
  exact met.after fun _ _ _ none => absurd none List.not_mem_nil

end Agree

/-- What a number of instructions have in common on two machines whose processors cannot be told
apart by them. -/
structure RunsAlike (hidden : List Flag) (left right : Machine σ) (count : Nat) : Prop where
  outcomes : (left.trace count).map (·.outcome) = (right.trace count).map (·.outcome)
  writes : (left.trace count).map (·.writes) = (right.trace count).map (·.writes)
  bus : (left.after count).bus = (right.after count).bus
  processor : (left.after count).processor.Agree hidden (right.after count).processor
  pulled : (∃ index < count, (left.after index).operation ∈ [.plp, .rti]) →
    (left.after count).processor.Agree [] (right.after count).processor
  total : left.processor.total.toNat + left.elapsed count < UInt64.size →
    right.processor.total.toNat + right.elapsed count < UInt64.size →
    ((left.after count).processor.total.toNat : Int) - (right.after count).processor.total.toNat =
      left.processor.total.toNat - right.processor.total.toNat

theorem settles_of_pulls {machine : Machine σ} (pulls : machine.operation ∈ [.plp, .rti])
    (flag : Flag) : machine.Settles flag := by
  simp only [List.mem_cons, List.not_mem_nil, or_false] at pulls
  rcases pulls with plp | rti
  · exact ⟨.pull .status, by rw [plp]; rfl, flag.mem_all⟩
  · exact ⟨.returnFromInterrupt, by rw [rti]; rfl, flag.mem_all⟩

theorem Agree.runsAlike {hidden : List Flag} {left right : Machine σ} {count : Nat}
    (agree : left.Agree hidden right)
    (visible : ∀ index < count, ∀ flag ∈ hidden, ¬ (left.after index).Consults flag) :
    left.RunsAlike hidden right count := by
  obtain ⟨outcomes, writes⟩ := agree.trace visible
  have elapsed : left.elapsed count = right.elapsed count := costs_congr outcomes
  refine ⟨outcomes, writes, (agree.after visible).bus, (agree.after visible).processor, ?_, ?_⟩
  · rintro ⟨index, bound, pulls⟩
    exact (agree.after_of_settles bound visible fun flag _ =>
      settles_of_pulls pulls flag).processor
  · intro leftFits rightFits
    rw [total_after, total_after, toNat_total_add leftFits, toNat_total_add rightFits, elapsed]
    omega

/-- Processors that differ in dead flags only run alike. If they differ in decimal and interrupt
disable too, they run alike until the status is pushed; arithmetic is the same for both. -/
theorem runs_alike (bus : σ) (left right : Processor) (count : Nat) :
    let first := Machine.mk left bus
    let second := Machine.mk right bus
    first.steps count = .ok (first.trace count, first.after count) ∧
    second.steps count = .ok (second.trace count, second.after count) ∧
    (left.Agree Flag.dead right → first.RunsAlike Flag.dead second count) ∧
    (left.Agree Flag.dormant right →
      (∀ index < count, (first.after index).operation ≠ .php) →
        first.RunsAlike Flag.dormant second count) ∧
    (left.Agree Flag.dormant right → first.operation ∈ [.adc, .sbc] →
      first.next.processor.a = second.next.processor.a ∧
        ∀ flag ∈ [.carry, .zero, .overflow, .negative],
          first.next.processor.flags.get flag = second.next.processor.flags.get flag) := by
  intro first second
  refine ⟨steps_eq _ count, steps_eq _ count, ?_, ?_, ?_⟩
  · intro agree
    have machines : first.Agree Flag.dead second := ⟨agree, rfl⟩
    exact machines.runsAlike fun index _ flag dead => not_consults_dead dead
  · intro agree unpushed
    have machines : first.Agree Flag.dormant second := ⟨agree, rfl⟩
    exact machines.runsAlike fun index bound flag dormant =>
      not_consults_dormant (unpushed index bound) dormant
  · intro agree calculates
    have machines : first.Agree Flag.dormant second := ⟨agree, rfl⟩
    have unpushed : first.operation ≠ .php := by
      intro php
      rw [php] at calculates
      contradiction
    have next := machines.next fun flag dormant => not_consults_dormant unpushed dormant
    refine ⟨?_, ?_⟩
    · rw [next.processor.rest]
      rfl
    · intro flag result
      apply next.processor.flags
      revert flag
      decide

/-- A processor about to add 25 to 25, after a push of its status or not. -/
def adder (start : Address) (status : Byte) (total : UInt64) : Processor :=
  { Processor.startingAt start with
    a := 0x19
    flags := .ofByte status
    total := total }

def adderProgram : View :=
  Bus.writeAll (fun _ => 0)
    (Image.writes ⟨0x0200, [0x08, 0x69, 0x19, 0x28, 0x85, 0x10]⟩)

theorem agree_adder (start : Address) :
    (adder start 0x00 0).Agree Flag.dead (adder start 0x30 100) ∧
    (adder start 0x00 0).Agree Flag.dormant (adder start 0x3C 100) := by
  constructor
  · refine ⟨rfl, fun flag shown => ?_⟩
    cases flag <;> first | rfl | simp [Flag.dead] at shown
  · refine ⟨rfl, fun flag shown => ?_⟩
    cases flag <;> first | rfl | simp [Flag.dormant] at shown

theorem operations_adder :
    ((Machine.mk (adder 0x0200 0x00 0) adderProgram).after 2).operation = .plp ∧
    (Machine.mk (adder 0x0200 0x00 0) adderProgram).elapsed 4 = 12 ∧
    (Machine.mk (adder 0x0200 0x30 100) adderProgram).elapsed 4 = 12 ∧
    (∀ index < 3, ((Machine.mk (adder 0x0201 0x00 0) adderProgram).after index).operation ≠ .php) ∧
    (Machine.mk (adder 0x0201 0x00 0) adderProgram).operation = .adc ∧
    (Machine.mk (adder 0x0201 0x00 0) adderProgram).next.processor.a = 0x32 := by
  decide +kernel

/-- A pull brings the dead flags together, and the sum is 50 in decimal mode too. -/
theorem runs_alike_adder :
    (let first := Machine.mk (adder 0x0200 0x00 0) adderProgram
      let second := Machine.mk (adder 0x0200 0x30 100) adderProgram
      (first.after 4).bus = (second.after 4).bus ∧
      (first.after 4).processor.Agree [] (second.after 4).processor ∧
      ((first.after 4).processor.total.toNat : Int) - (second.after 4).processor.total.toNat =
        -100) ∧
    (let first := Machine.mk (adder 0x0201 0x00 0) adderProgram
      let second := Machine.mk (adder 0x0201 0x3C 100) adderProgram
      (first.trace 3).map (·.outcome) = (second.trace 3).map (·.outcome) ∧
      second.next.processor.a = 0x32) := by
  obtain ⟨plp, firstElapsed, secondElapsed, unpushed, adc, sum⟩ := operations_adder
  obtain ⟨_, _, dead, _, _⟩ :=
    runs_alike adderProgram (adder 0x0200 0x00 0) (adder 0x0200 0x30 100) 4
  obtain ⟨_, _, _, dormant, arithmetic⟩ :=
    runs_alike adderProgram (adder 0x0201 0x00 0) (adder 0x0201 0x3C 100) 3
  have pushing := dead (agree_adder 0x0200).1
  have plain := dormant (agree_adder 0x0201).2 unpushed
  refine ⟨⟨pushing.bus, pushing.pulled ⟨2, by decide, by simp [plp]⟩, ?_⟩, plain.outcomes, ?_⟩
  · exact pushing.total (by rw [firstElapsed]; decide) (by rw [secondElapsed]; decide)
  · rw [← (arithmetic (agree_adder 0x0201).2 (by simp [adc])).1, sum]

end Machine

end Nmos6502
