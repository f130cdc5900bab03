import Nmos6502.Bus.Image
import Nmos6502.Proofs.Contents
import Nmos6502.Proofs.Cost
import Mathlib.Logic.Basic

/-!
Where an instruction leads: straight on to the byte behind its operand, unless it is a jump, a call,
a return or a branch that is taken. Main statement: a step goes where its instruction leads, through
the end of memory as anywhere else, and of two opposite branches one is taken
(`step_follows_destination`).
-/

namespace Nmos6502

theorem toNat_toUInt16_eq_emod (value : Int16) :
    (value.toUInt16.toNat : Int) = value.toInt % 65536 := by
  have bound := value.toUInt16.toNat_lt
  have signed : value.toInt = Int.bmod value.toUInt16.toNat (2 ^ 16) :=
    BitVec.toInt_eq_toNat_bmod value.toBitVec
  have reduced : Int.bmod value.toUInt16.toNat (2 ^ 16) % ((2 ^ 16 : Nat) : Int) =
      value.toUInt16.toNat % ((2 ^ 16 : Nat) : Int) :=
    Int.bmod_emod
  rw [signed]
  omega

/-- An offset reaches 128 bytes backwards and 127 forwards. -/
theorem toNat_displace (address : Address) (offset : Byte) :
    ((displace address offset).toNat : Int) =
      (address.toNat + offset.toInt8.toInt) % 65536 := by
  have shifted := toNat_toUInt16_eq_emod offset.toInt8.toInt16
  rw [Int8.toInt_toInt16] at shifted
  rw [displace, UInt16.toNat_add]
  omega

example : displace 0x0002 0xFB = 0xFFFD := by decide

theorem lowByte_add_one (address : Address) : lowByte (address + 1) = lowByte address + 1 :=
  UInt16.toUInt8_add address 1

/-- The number that two cells hold, the low byte in the first. -/
def wordValue (view : View) (low high : Address) : Int :=
  (view low).toNat + 256 * (view high).toNat

theorem toNat_word_view (view : View) (low high : Address) :
    ((word (view low) (view high)).toNat : Int) = wordValue view low high % 65536 := by
  have bound := (word (view low) (view high)).toNat_lt
  rw [toNat_word] at bound ⊢
  rw [wordValue]
  omega

theorem toNat_word_view_add_one (view : View) (low high : Address) :
    ((word (view low) (view high) + 1).toNat : Int) = (wordValue view low high + 1) % 65536 := by
  rw [UInt16.toNat_add, toNat_word, UInt16.toNat_one, wordValue]
  omega

namespace Action

/-- Whether an action goes on behind its operand, whatever it finds. -/
def isSequential : Action → Bool
  | branch _ _ | jump | call | returnFromCall | returnFromInterrupt => false
  | _ => true

theorem pc_effect {action : Action} {mode : AddressingMode} (charge : IndexCharge) (view : View)
    (processor : Processor) (sequential : action.isSequential = true)
    (admitted : action.admits mode = true) :
    (action.effect mode charge view processor).processor.pc =
      processor.pc + UInt16.ofNat mode.operandBytes := by
  have implicit : mode = .implicit →
      processor.pc = processor.pc + UInt16.ofNat mode.operandBytes := by
    rintro rfl
    exact (UInt16.add_zero _).symm
  cases action with
  | load target => cases target <;> rfl
  | store | calculate | combine | compare | testBits | countMemory => rfl
  | shift rule =>
      by_cases inPlace : mode = .accumulator
      · subst inPlace
        exact (UInt16.add_zero _).symm
      · simp only [effect, inPlace, if_false]
        rfl
  | countRegister direction register => cases register <;> exact implicit (eq_of_beq admitted)
  | transfer source target => cases target <;> exact implicit (eq_of_beq admitted)
  | pull item => cases item <;> exact implicit (eq_of_beq admitted)
  | push | assign | rest => exact implicit (eq_of_beq admitted)
  | branch | jump | call | returnFromCall | returnFromInterrupt => contradiction

theorem pc_branch (flag : Flag) (expected : Bool) (mode : AddressingMode) (charge : IndexCharge)
    (view : View) (processor : Processor) :
    ((branch flag expected).effect mode charge view processor).processor.pc =
      if processor.flags.get flag = expected then displace (processor.pc + 1) (view processor.pc)
      else processor.pc + 1 := by
  simp only [effect]
  split <;> rfl

end Action

/-- The branches in pairs that look at one flag and want it the other way round. -/
def Operation.oppositeBranches : List (Operation × Operation) :=
  [(bcc, bcs), (bne, beq), (bpl, bmi), (bvc, bvs)]

theorem Operation.xor_taken? (flags : Flags) {pair : Operation × Operation}
    (opposite : pair ∈ oppositeBranches) :
    Xor (pair.1.taken? flags = some true) (pair.2.taken? flags = some true) := by
  simp only [oppositeBranches, List.mem_cons, List.not_mem_nil, or_false] at opposite
  obtain rfl | rfl | rfl | rfl := opposite
  · cases marked : flags.carry <;> simp [taken?, marked, Xor]
  · cases marked : flags.zero <;> simp [taken?, marked, Xor]
  · cases marked : flags.negative <;> simp [taken?, marked, Xor]
  · cases marked : flags.overflow <;> simp [taken?, marked, Xor]

namespace Instruction

/-- Where an instruction leads a processor that is about to fetch it, before the sum is cut down to
an address. -/
def destination (instruction : Instruction) (view : View) (processor : Processor) : Int :=
  let here := processor.pc
  let stacked (distance : Byte) : Address := stackCell (processor.sp + distance)
  match instruction.operation with
  | .brk | .illegal => here.toNat + 1
  | .jmp =>
      if instruction.mode = .indirect then
        let pointer := word (view (here + 1)) (view (here + 2))
        wordValue view pointer (word (lowByte (pointer + 1)) (highByte pointer))
      else
        wordValue view (here + 1) (here + 2)
  | .jsr => wordValue view (here + 1) (here + 2)
  | .rts => wordValue view (stacked 1) (stacked 2) + 1
  | .rti => wordValue view (stacked 2) (stacked 3)
  | operation =>
      match operation.taken? processor.flags with
      | some true => here.toNat + 2 + (view (here + 1)).toInt8.toInt
      | some false => here.toNat + 2
      | none => here.toNat + instruction.size

variable {instruction : Instruction} {action : Action} (view : View) (processor : Processor)

theorem destination_of_sequential (sorted : instruction.operation.action = .ok action)
    (sequential : action.isSequential = true) :
    instruction.destination view processor = processor.pc.toNat + instruction.size := by
  obtain ⟨operation, mode, cycles⟩ := instruction
  cases operation with
  | brk | illegal => cases sorted
  | jmp | jsr | rts | rti | bcc | bcs | beq | bne | bmi | bpl | bvc | bvs =>
      cases sorted
      contradiction
  | _ => rfl

theorem destination_of_branch {flag : Flag} {expected : Bool}
    (sorted : instruction.operation.action = .ok (.branch flag expected)) :
    instruction.destination view processor =
      if processor.flags.get flag = expected then
        processor.pc.toNat + 2 + (view (processor.pc + 1)).toInt8.toInt
      else
        processor.pc.toNat + 2 := by
  have decided : instruction.destination view processor =
      match instruction.operation.taken? processor.flags with
      | some true => processor.pc.toNat + 2 + (view (processor.pc + 1)).toInt8.toInt
      | some false => processor.pc.toNat + 2
      | none => processor.pc.toNat + instruction.size := by
    obtain ⟨operation, mode, cycles⟩ := instruction
    cases operation <;> cases sorted <;> rfl
  rw [decided, Operation.taken?_of_branch processor.flags sorted]
  by_cases matched : processor.flags.get flag = expected
  · simp [matched]
  · have missed : (processor.flags.get flag == expected) = false := by
      simpa using matched
    simp only [missed, matched, if_false]

theorem destination_of_fault {fault : Fault}
    (refused : instruction.operation.action = .error fault) :
    instruction.destination view processor = processor.pc.toNat + 1 := by
  obtain ⟨operation, mode, cycles⟩ := instruction
  cases operation <;> first | rfl | contradiction

theorem operandWord_skip_one :
    operandWord view (processor.skip 1) =
      word (view (processor.pc + 1)) (view (processor.pc + 2)) := by
  have behind : processor.pc + 1 + 1 = processor.pc + 2 := UInt16.add_assoc processor.pc 1 1
  rw [← behind]
  rfl

theorem toNat_pc_of_sequential (charge : IndexCharge)
    (sorted : instruction.operation.action = .ok action)
    (admitted : action.admits instruction.mode = true)
    (sequential : action.isSequential = true) :
    ((action.effect instruction.mode charge view (processor.skip 1)).processor.pc.toNat : Int) =
      instruction.destination view processor % 65536 := by
  have operand : (processor.skip 1).pc = processor.pc + 1 := rfl
  have short : instruction.mode.operandBytes < 65536 := by
    cases instruction.mode <;> decide
  rw [Action.pc_effect charge view _ sequential admitted,
    destination_of_sequential view processor sorted sequential, operand, UInt16.toNat_add,
    UInt16.toNat_add, UInt16.toNat_ofNat_of_lt' short, UInt16.toNat_one, size]
  omega

theorem toNat_pc_branch (mode : AddressingMode) (charge : IndexCharge) {flag : Flag}
    {expected : Bool} (sorted : instruction.operation.action = .ok (.branch flag expected)) :
    (((Action.branch flag expected).effect mode charge view
      (processor.skip 1)).processor.pc.toNat : Int) =
      instruction.destination view processor % 65536 := by
  have next : (processor.skip 1).pc + 1 = processor.pc + 2 := UInt16.add_assoc processor.pc 1 1
  have operand : (processor.skip 1).pc = processor.pc + 1 := rfl
  have flags : (processor.skip 1).flags = processor.flags := rfl
  have behind : (processor.pc + 2).toNat = (processor.pc.toNat + 2) % 65536 :=
    UInt16.toNat_add processor.pc 2
  rw [Action.pc_branch, destination_of_branch view processor sorted, next, operand, flags]
  split
  · rw [toNat_displace, behind]
    omega
  · rw [behind]
    omega

theorem toNat_pc_effect (charge : IndexCharge)
    (sorted : instruction.operation.action = .ok action)
    (admitted : action.admits instruction.mode = true)
    (pointed : instruction.operation = .jmp →
      instruction.mode = .absolute ∨ instruction.mode = .indirect) :
    ((action.effect instruction.mode charge view (processor.skip 1)).processor.pc.toNat : Int) =
      instruction.destination view processor % 65536 := by
  have operand := operandWord_skip_one view processor
  -- Each action that leaves the straight way, but for the branch, is that of a single operation.
  cases action with
  | branch flag expected => exact toNat_pc_branch view processor _ charge sorted
  | jump =>
      obtain ⟨operation, mode, cycles⟩ := instruction
      cases operation <;> cases sorted
      rcases pointed rfl with rfl | rfl
      · have target : AddressingMode.absolute.address view (processor.skip 1) =
            operandWord view (processor.skip 1) := rfl
        simp only [Action.effect, target, operand]
        exact toNat_word_view view _ _
      · have target : AddressingMode.indirect.address view (processor.skip 1) =
            let pointer := operandWord view (processor.skip 1)
            word (view pointer) (view (word (lowByte pointer + 1) (highByte pointer))) := rfl
        simp only [Action.effect, target, operand, ← lowByte_add_one]
        exact toNat_word_view view _ _
  | call =>
      obtain ⟨operation, mode, cycles⟩ := instruction
      cases operation <;> cases sorted
      simp only [Action.effect, operand]
      exact toNat_word_view view _ _
  | returnFromCall =>
      obtain ⟨operation, mode, cycles⟩ := instruction
      cases operation <;> cases sorted
      exact toNat_word_view_add_one view _ _
  | returnFromInterrupt =>
      obtain ⟨operation, mode, cycles⟩ := instruction
      cases operation <;> cases sorted
      exact toNat_word_view view _ _
  | _ => exact toNat_pc_of_sequential view processor charge sorted admitted rfl

/-- A jump names its target by a word, or by a pointer to one. -/
def isPointed (instruction : Instruction) : Bool :=
  instruction.operation != .jmp || instruction.mode == .absolute || instruction.mode == .indirect

theorem isPointed_decode (opcode : Byte) : (decode opcode).isPointed = true :=
  forall_decode isPointed (fun operation => by cases operation <;> rfl) rfl opcode

theorem mode_of_jmp {opcode : Byte} (jump : (decode opcode).operation = .jmp) :
    (decode opcode).mode = .absolute ∨ (decode opcode).mode = .indirect := by
  have pointed := isPointed_decode opcode
  simpa [isPointed, jump] using pointed

end Instruction

namespace Machine

variable {σ : Type} [Bus σ] (machine : Machine σ)

theorem toNat_pc_next :
    (machine.next.processor.pc.toNat : Int) =
      (decode machine.opcode).destination (Bus.read machine.bus) machine.processor % 65536 := by
  cases sorted : machine.operation.action with
  | ok action =>
      rw [next_of_action machine sorted]
      exact Instruction.toNat_pc_effect _ _ _ sorted (Instruction.admits_decode sorted)
        Instruction.mode_of_jmp
  | error fault =>
      have skipped : (machine.processor.pc + 1).toNat = (machine.processor.pc.toNat + 1) % 65536 :=
        UInt16.toNat_add machine.processor.pc 1
      rw [next_of_fault machine sorted, Instruction.destination_of_fault _ _ sorted]
      exact congrArg Int.ofNat skipped

/-- A step goes where its instruction leads by the bytes that the bus shows before it. Of two
opposite branches exactly one is taken. -/
theorem step_follows_destination :
    (∃ transition next,
      machine.step = .ok (transition, next) ∧
      (next.processor.pc.toNat : Int) =
        (decode machine.opcode).destination (Bus.read machine.bus) machine.processor % 65536) ∧
    ∀ (flags : Flags), ∀ pair ∈ Operation.oppositeBranches,
      Xor (pair.1.taken? flags = some true) (pair.2.taken? flags = some true) := by
  constructor
  · exact ⟨machine.transition, machine.next, machine.step_eq, machine.toNat_pc_next⟩
  · intro flags pair opposite
    exact Operation.xor_taken? flags opposite

/-- A jump that lies across the end of memory, through a pointer at the end of its page. -/
def wrappingJump : Machine View where
  processor := .startingAt 0xFFFE
  bus := Bus.writeAll (fun _ => 0)
    (Image.writes ⟨0xFFFE, [0x6C, 0xFF, 0x12]⟩ ++ Image.writes ⟨0x12FF, [0x34, 0x99]⟩ ++
      Image.writes ⟨0x1200, [0x56]⟩)

theorem destination_wrappingJump :
    (decode wrappingJump.opcode).destination wrappingJump.bus wrappingJump.processor = 0x5634 := by
  rw [decode_eq_search]
  rfl

theorem step_follows_destination_wrappingJump :
    (∃ transition next,
      wrappingJump.step = .ok (transition, next) ∧ next.processor.pc.toNat = 0x5634) ∧
    Xor (Operation.bcc.taken? wrappingJump.processor.flags = some true)
      (Operation.bcs.taken? wrappingJump.processor.flags = some true) := by
  obtain ⟨⟨transition, next, stepped, reached⟩, opposite⟩ := step_follows_destination wrappingJump
  have target : (next.processor.pc.toNat : Int) = 0x5634 % 65536 :=
    reached.trans (congrArg (· % 65536) destination_wrappingJump)
  constructor
  · exact ⟨transition, next, stepped, Int.ofNat.inj target⟩
  · exact opposite _ (.bcc, .bcs) (by decide)

end Machine

end Nmos6502
