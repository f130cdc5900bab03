import Nmos6502.Bus.Memory
import Nmos6502.Proofs.Step

/-!
The cycles an instruction costs: those its table entry promises, one more when an index carries into
the page of an operand that is only read, and one or two more for a branch that is taken. Main
statements: a step costs what this rule says (`step_charges_cost`), which is at least one cycle and
at most seven (`cost_pos`, `cost_le`).
-/

namespace Nmos6502

/-- Whether a branch is taken. Other operations are no branches. -/
def Operation.taken? (flags : Flags) : Operation → Option Bool
  | bcc => some (!flags.carry)
  | bcs => some flags.carry
  | bne => some (!flags.zero)
  | beq => some flags.zero
  | bpl => some (!flags.negative)
  | bmi => some flags.negative
  | bvc => some (!flags.overflow)
  | bvs => some flags.overflow
  | _ => none

theorem Operation.taken?_of_branch {operation : Operation} {flag : Flag} {expected : Bool}
    (flags : Flags) (sorted : operation.action = .ok (.branch flag expected)) :
    operation.taken? flags = some (flags.get flag == expected) := by
  cases operation <;> cases sorted <;> simp [taken?, Flags.get]

theorem Operation.taken?_of_ne_branch {operation : Operation} {action : Action}
    (flags : Flags) (sorted : operation.action = .ok action)
    (other : ∀ flag expected, action ≠ .branch flag expected) :
    operation.taken? flags = none := by
  cases operation <;> first | rfl | (cases sorted; exact absurd rfl (other _ _))

namespace AddressingMode

def isIndexed : AddressingMode → Bool
  | absoluteX | absoluteY | indirectY => true
  | _ => false

/-- The cycle that corrects the page of an address, where it is spent only on a carry. -/
def carryCycles (mode : AddressingMode) (charge : IndexCharge) (view : View)
    (processor : Processor) : Nat :=
  match charge, mode.indexing? view processor with
  | .onPageCross, some (base, index) => if indexCarries base index then 1 else 0
  | _, _ => 0

def steadyCycles (mode : AddressingMode) (charge : IndexCharge) : Nat :=
  if charge = .always ∧ mode.isIndexed then mode.addressCycles + 1 else mode.addressCycles

theorem locateCycles_eq (mode : AddressingMode) (charge : IndexCharge) (view : View)
    (processor : Processor) :
    mode.locateCycles charge view processor =
      mode.steadyCycles charge + mode.carryCycles charge view processor := by
  cases charge <;> cases mode <;>
    simp [locateCycles, steadyCycles, carryCycles, correction, indexing?, isIndexed]

theorem carryCycles_of_not_isIndexed {mode : AddressingMode} (charge : IndexCharge) (view : View)
    (processor : Processor) (unindexed : mode.isIndexed = false) :
    mode.carryCycles charge view processor = 0 := by
  cases charge <;> cases mode <;> first | rfl | contradiction

theorem carryCycles_le (mode : AddressingMode) (charge : IndexCharge) (view : View)
    (processor : Processor) :
    mode.carryCycles charge view processor ≤
      if charge = .onPageCross ∧ mode.isIndexed then 1 else 0 := by
  cases charge with
  | always => exact Nat.zero_le _
  | onPageCross =>
      cases indexed : mode.isIndexed with
      | false => rw [carryCycles_of_not_isIndexed .onPageCross view processor indexed]; omega
      | true =>
          unfold carryCycles
          split
          · split <;> simp
          · simp

theorem readCycles_eq {mode : AddressingMode} (charge : IndexCharge) (view : View)
    (processor : Processor) :
    mode.readCycles charge view processor =
      (if mode = .immediate then 1 else mode.steadyCycles charge + 1) +
        mode.carryCycles charge view processor := by
  by_cases immediate : mode = .immediate
  · subst immediate
    rw [carryCycles_of_not_isIndexed charge view processor rfl]
    rfl
  · rw [readCycles, if_neg immediate, if_neg immediate, locateCycles_eq]
    omega

end AddressingMode

namespace Action

/-- The cycles an action takes when no index carries and no branch is taken. -/
def baseCycles (mode : AddressingMode) (charge : IndexCharge) : Action → Nat
  | load _ | calculate _ | combine _ | compare _ | testBits =>
      if mode = .immediate then 1 else mode.steadyCycles charge + 1
  | store _ => mode.steadyCycles charge + 1
  | shift _ => if mode = .accumulator then 1 else mode.steadyCycles charge + 3
  | countMemory _ => mode.steadyCycles charge + 3
  | jump => mode.steadyCycles charge
  | call | returnFromCall | returnFromInterrupt => 5
  | pull _ => 3
  | push _ => 2
  | countRegister _ _ | branch _ _ | assign _ _ | transfer _ _ | rest => 1

/-- The cycles an action takes beyond these. -/
def surcharge (mode : AddressingMode) (charge : IndexCharge) (view : View)
    (processor : Processor) : Action → Nat
  | branch flag expected =>
      let next := processor.pc + 1
      if processor.flags.get flag = expected then
        if crossesPage next (displace next (view processor.pc)) then 2 else 1
      else
        0
  | _ => mode.carryCycles charge view processor

def maxSurcharge (mode : AddressingMode) (charge : IndexCharge) : Action → Nat
  | branch _ _ => 2
  | _ => if charge = .onPageCross ∧ mode.isIndexed then 1 else 0

theorem surcharge_le (action : Action) (mode : AddressingMode) (charge : IndexCharge)
    (view : View) (processor : Processor) :
    action.surcharge mode charge view processor ≤ action.maxSurcharge mode charge := by
  cases action with
  | branch flag expected =>
      simp only [surcharge, maxSurcharge]
      split
      · split <;> omega
      · omega
  | _ => exact mode.carryCycles_le charge view processor

theorem cycles_effect {action : Action} {mode : AddressingMode} (charge : IndexCharge)
    (view : View) (processor : Processor) (admitted : action.admits mode = true) :
    (action.effect mode charge view processor).cycles =
      action.baseCycles mode charge + action.surcharge mode charge view processor := by
  have steady : mode.isIndexed = false → mode.carryCycles charge view processor = 0 :=
    AddressingMode.carryCycles_of_not_isIndexed charge view processor
  cases action with
  | load | calculate | combine | compare | testBits =>
      exact AddressingMode.readCycles_eq charge view processor
  | store | countMemory =>
      simp only [effect, baseCycles, surcharge, AddressingMode.locateCycles_eq]
      omega
  | jump => exact AddressingMode.locateCycles_eq mode charge view processor
  | shift rule =>
      by_cases inPlace : mode = .accumulator
      · subst inPlace
        simp [effect, baseCycles, surcharge, steady rfl]
      · simp only [effect, baseCycles, surcharge, inPlace, if_false,
          AddressingMode.locateCycles_eq]
        omega
  | branch flag expected =>
      by_cases matched : processor.flags.get flag = expected
      · simp only [effect, baseCycles, surcharge, matched, if_true]
        split <;> rfl
      · simp only [effect, baseCycles, surcharge, matched, if_false]
  | _ =>
      -- The remaining actions admit a single mode, which is not indexed.
      rw [eq_of_beq admitted] at steady ⊢
      simp [effect, baseCycles, surcharge, steady rfl]

theorem total_effect (action : Action) (mode : AddressingMode) (charge : IndexCharge)
    (view : View) (processor : Processor) :
    (action.effect mode charge view processor).processor.total = processor.total := by
  cases action with
  | load target => cases target <;> rfl
  | combine rule => rfl
  | countRegister direction register => cases register <;> rfl
  | transfer source target => cases target <;> rfl
  | pull item => cases item <;> rfl
  | shift rule =>
      simp only [effect]
      split <;> rfl
  | branch flag expected =>
      simp only [effect]
      split <;> rfl
  | _ => rfl

end Action

namespace Instruction

/-- The cycles beyond those of the table. -/
def surcharge (instruction : Instruction) (view : View) (processor : Processor) : Nat :=
  match instruction.operation.taken? processor.flags with
  | some true =>
      let next := processor.pc + 2
      let target := displace next (view (processor.pc + 1))
      if highByte next = highByte target then 1 else 2
  | some false => 0
  | none =>
      match instruction.operation.indexCharge,
        instruction.mode.indexing? view (processor.skip 1) with
      | .onPageCross, some (base, index) => if indexCarries base index then 1 else 0
      | _, _ => 0

/-- The cycles that an instruction costs a processor that is about to fetch it. -/
def cost (instruction : Instruction) (view : View) (processor : Processor) : Nat :=
  match instruction.operation with
  | .brk | .illegal => 1
  | _ => instruction.cycles + instruction.surcharge view processor

theorem surcharge_of_action (instruction : Instruction) {action : Action} (view : View)
    (processor : Processor) (sorted : instruction.operation.action = .ok action) :
    instruction.surcharge view processor =
      action.surcharge instruction.mode instruction.operation.indexCharge view
        (processor.skip 1) := by
  cases action with
  | branch flag expected =>
      have past : (processor.skip 1).pc + 1 = processor.pc + 2 :=
        UInt16.add_assoc processor.pc 1 1
      have operand : (processor.skip 1).pc = processor.pc + 1 := rfl
      have flags : (processor.skip 1).flags = processor.flags := rfl
      rw [surcharge, Operation.taken?_of_branch processor.flags sorted, Action.surcharge, past,
        operand, flags]
      by_cases matched : processor.flags.get flag = expected
      · simp [matched, crossesPage]
      · have missed : (processor.flags.get flag == expected) = false := by
          simpa using matched
        simp only [missed, matched, if_false]
  | _ =>
      rw [surcharge, Operation.taken?_of_ne_branch processor.flags sorted (by simp)]
      rfl

/-- What the table must say for its cycles to be those of the action. -/
def isTimed (instruction : Instruction) : Bool :=
  match instruction.operation.action with
  | .ok action =>
      instruction.cycles ==
          action.baseCycles instruction.mode instruction.operation.indexCharge + 1 &&
        instruction.cycles +
            action.maxSurcharge instruction.mode instruction.operation.indexCharge ≤ 7
  | .error _ => true

theorem isTimed_decode (opcode : Byte) : (decode opcode).isTimed = true :=
  forall_decode isTimed (fun operation => by cases operation <;> rfl) rfl opcode

theorem cost_of_action (instruction : Instruction) {action : Action} (view : View)
    (processor : Processor) (sorted : instruction.operation.action = .ok action) :
    instruction.cost view processor =
      instruction.cycles + instruction.surcharge view processor := by
  obtain ⟨operation, mode, cycles⟩ := instruction
  cases operation <;> first | rfl | contradiction

theorem cost_of_fault (instruction : Instruction) {fault : Fault} (view : View)
    (processor : Processor) (refused : instruction.operation.action = .error fault) :
    instruction.cost view processor = 1 := by
  obtain ⟨operation, mode, cycles⟩ := instruction
  cases operation <;> first | rfl | contradiction

theorem cost_decode_pos (opcode : Byte) (view : View) (processor : Processor) :
    0 < (decode opcode).cost view processor := by
  cases sorted : (decode opcode).operation.action with
  | ok action =>
      have timed := isTimed_decode opcode
      simp only [isTimed, sorted, Bool.and_eq_true, beq_iff_eq] at timed
      rw [cost_of_action _ view processor sorted]
      omega
  | error fault =>
      rw [cost_of_fault _ view processor sorted]
      omega

theorem cost_decode_le (opcode : Byte) (view : View) (processor : Processor) :
    (decode opcode).cost view processor ≤ 7 := by
  cases sorted : (decode opcode).operation.action with
  | ok action =>
      have timed := isTimed_decode opcode
      simp only [isTimed, sorted, Bool.and_eq_true, decide_eq_true_eq] at timed
      have bound := action.surcharge_le (decode opcode).mode
        (decode opcode).operation.indexCharge view (processor.skip 1)
      rw [cost_of_action _ view processor sorted,
        surcharge_of_action _ view processor sorted]
      omega
  | error fault =>
      rw [cost_of_fault _ view processor sorted]
      omega

end Instruction

theorem toNat_total_add {total : UInt64} {cycles : Nat}
    (fits : total.toNat + cycles < UInt64.size) :
    (total + UInt64.ofNat cycles).toNat = total.toNat + cycles := by
  rw [UInt64.toNat_add, UInt64.toNat_ofNat', Nat.add_mod_mod]
  exact Nat.mod_eq_of_lt fits

namespace Machine

variable {σ : Type} [Bus σ] (machine : Machine σ)

def cost : Nat :=
  (decode machine.opcode).cost (Bus.read machine.bus) machine.processor

theorem cycles_effect_eq_cost : machine.effect.cycles = machine.cost := by
  cases sorted : machine.operation.action with
  | ok action =>
      have timed := Instruction.isTimed_decode machine.opcode
      rw [operation] at sorted
      simp only [Instruction.isTimed, sorted, Bool.and_eq_true, beq_iff_eq] at timed
      rw [effect_of_action machine sorted, cost, Instruction.cost_of_action _ _ _ sorted,
        Instruction.surcharge_of_action _ _ _ sorted, timed.1]
      dsimp only
      rw [Action.cycles_effect _ _ _ (Instruction.admits_decode sorted), operation]
      omega
  | error fault =>
      rw [effect_of_fault machine sorted, cost, Instruction.cost_of_fault _ _ _ sorted]

theorem total_effect : machine.effect.processor.total = machine.processor.total := by
  cases sorted : machine.operation.action with
  | ok action =>
      rw [effect_of_action machine sorted]
      exact Action.total_effect action _ _ _ _
  | error fault =>
      rw [effect_of_fault machine sorted]
      rfl

theorem total_next :
    machine.next.processor.total = machine.processor.total + UInt64.ofNat machine.cost := by
  have elapsed : machine.next.processor.total =
      machine.effect.processor.total + UInt64.ofNat machine.effect.cycles := rfl
  rw [elapsed, total_effect, cycles_effect_eq_cost]

theorem cost_pos : 0 < machine.cost :=
  Instruction.cost_decode_pos machine.opcode _ _

theorem cost_le : machine.cost ≤ 7 :=
  Instruction.cost_decode_le machine.opcode _ _

/-- A step spends its cycles from any budget it is charged to, and adds them to the total. An opcode
that is carried out reports them as well. -/
theorem step_charges_cost :
    ∃ transition next,
      machine.step = .ok (transition, next) ∧
      (machine.operation.isSupported = true →
        ∃ cycles, transition.outcome = .executed machine.opcode cycles ∧
          cycles.toNat = machine.cost) ∧
      (machine.processor.total.toNat + machine.cost < UInt64.size →
        next.processor.total.toNat = machine.processor.total.toNat + machine.cost) ∧
      ∀ budget, machine.advance budget = .ok (transition, next, budget.charge machine.cost) := by
  refine ⟨machine.transition, machine.next, machine.step_eq, ?_, ?_, ?_⟩
  · intro supported
    have bound := machine.cost_le
    refine ⟨UInt32.ofNat machine.cost, ?_, ?_⟩
    · simp only [transition, supported, if_true, cycles_effect_eq_cost]
    · exact UInt32.toNat_ofNat_of_lt' (by simp [UInt32.size]; omega)
  · intro fits
    rw [total_next]
    exact toNat_total_add fits
  · intro budget
    rw [advance_eq, cycles_effect_eq_cost]

def pageCrossingBytes : View := fun address =>
  if address = 0 then 0xBD else if address = 1 then 0xFF else if address = 2 then 0x12 else 0

/-- A machine about to load from the page after the one its operand names. -/
def pageCrossingLoad : Machine Memory where
  processor := { Processor.startingAt 0 with x := 1 }
  bus := .ofFn pageCrossingBytes

theorem read_pageCrossingLoad : Bus.read pageCrossingLoad.bus = pageCrossingBytes :=
  funext (Memory.read_ofFn pageCrossingBytes)

theorem opcode_pageCrossingLoad : pageCrossingLoad.opcode = 0xBD := by
  rw [opcode, read_pageCrossingLoad]
  rfl

theorem decode_pageCrossingLoad : decode pageCrossingLoad.opcode = ⟨.lda, .absoluteX, 4⟩ := by
  rw [opcode_pageCrossingLoad, decode_eq_search]
  rfl

theorem cost_pageCrossingLoad : pageCrossingLoad.cost = 5 := by
  rw [cost, decode_pageCrossingLoad, read_pageCrossingLoad]
  rfl

/-- The table says four cycles; the fifth goes into the page. -/
theorem step_charges_cost_pageCrossingLoad :
    ∃ transition next,
      pageCrossingLoad.step = .ok (transition, next) ∧
      (∃ cycles, transition.outcome = .executed 0xBD cycles ∧ cycles.toNat = 5) ∧
      next.processor.total.toNat = 5 := by
  obtain ⟨transition, next, stepped, reported, added, _⟩ := step_charges_cost pageCrossingLoad
  have supported : pageCrossingLoad.operation.isSupported = true := by
    rw [operation, decode_pageCrossingLoad]
    rfl
  rw [cost_pageCrossingLoad, opcode_pageCrossingLoad] at reported
  rw [cost_pageCrossingLoad] at added
  exact ⟨transition, next, stepped, reported supported, added (by decide)⟩

end Machine

end Nmos6502
