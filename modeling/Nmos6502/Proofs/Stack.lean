import Nmos6502.Proofs.Writes

/-!
What one instruction does to the stack: it pulls some of the bytes above the pointer, or pushes some
of its own, or leaves the stack alone. Main statements: bytes lie above the pointer as they were
pushed, through any wrap of the pointer, as long as no more than a page of them are outstanding
(`StackHolds.push`, `StackHolds.drop`), and an instruction that spares the stack changes them by its
own pushes and pulls only (`holds_next`).
-/

namespace Nmos6502

/-- The bytes that lie on the stack above a pointer, the top first. -/
def StackHolds (view : View) (pointer : Byte) : List Byte → Prop
  | [] => True
  | top :: rest => view (stackCell (pointer + 1)) = top ∧ StackHolds view (pointer + 1) rest

namespace StackHolds

variable {view : View} {pointer : Byte} {bytes : List Byte}

/-- The pointers of a page are told apart by their distance from one of them. -/
theorem ne_add_of_lt (pointer : Byte) {distance : Nat} (ahead : distance + 1 < 256) :
    pointer ≠ pointer + 1 + UInt8.ofNat distance := by
  intro same
  have values := congrArg UInt8.toNat same
  have bound := pointer.toNat_lt
  simp only [UInt8.toNat_add, UInt8.toNat_ofNat', UInt8.toNat_one] at values
  omega

theorem congr {other : View} (held : StackHolds view pointer bytes)
    (agree : ∀ index < bytes.length,
      other (stackCell (pointer + 1 + UInt8.ofNat index)) =
        view (stackCell (pointer + 1 + UInt8.ofNat index))) :
    StackHolds other pointer bytes := by
  induction bytes generalizing pointer with
  | nil => trivial
  | cons top rest induction =>
      obtain ⟨atTop, above⟩ := held
      have agreeTop := agree 0 (Nat.succ_pos _)
      rw [show UInt8.ofNat 0 = 0 from rfl, UInt8.add_zero] at agreeTop
      refine ⟨agreeTop.trans atTop, induction above fun index bound => ?_⟩
      have agreeAbove := agree (index + 1) (Nat.succ_lt_succ bound)
      rwa [UInt8.ofNat_add, UInt8.add_comm (UInt8.ofNat index), ← UInt8.add_assoc] at agreeAbove

/-- The bytes lie at growing distances from the pointer. -/
theorem read_of_getElem? (held : StackHolds view pointer bytes) {index : Nat} {value : Byte}
    (found : bytes[index]? = some value) :
    view (stackCell (pointer + UInt8.ofNat (index + 1))) = value := by
  induction bytes generalizing pointer index with
  | nil => cases found
  | cons top rest induction =>
      obtain ⟨atTop, above⟩ := held
      cases index with
      | zero => exact atTop.trans (Option.some.inj found)
      | succ index =>
          have deeper := induction above found
          rwa [UInt8.add_assoc, UInt8.add_comm 1, ← UInt8.ofNat_one, ← UInt8.ofNat_add] at deeper

theorem drop (held : StackHolds view pointer bytes) {count : Nat}
    (covered : count ≤ bytes.length) :
    StackHolds view (pointer + UInt8.ofNat count) (bytes.drop count) := by
  induction count generalizing pointer bytes with
  | zero => simpa using held
  | succ count induction =>
      cases bytes with
      | nil => contradiction
      | cons top rest =>
          have above := induction held.2 (Nat.le_of_succ_le_succ covered)
          rwa [UInt8.add_assoc, UInt8.add_comm 1, ← UInt8.ofNat_one, ← UInt8.ofNat_add] at above

theorem push {memory : Memory} (held : StackHolds memory.read pointer bytes) (value : Byte)
    (room : bytes.length < 256) :
    StackHolds (memory.write (stackCell pointer) value).read (pointer - 1) (value :: bytes) := by
  have back : pointer - 1 + 1 = pointer := UInt8.sub_add_cancel pointer 1
  rw [StackHolds, back]
  refine ⟨memory.read_write_self _ _, held.congr fun index bound => ?_⟩
  apply Memory.read_write_ne
  rw [Ne, stackCell_inj]
  exact ne_add_of_lt pointer (by omega)

end StackHolds

namespace Operation

/-- The stack pointer that an operation leaves. -/
def pointer (processor : Processor) : Operation → Byte
  | pha | php => processor.sp - 1
  | jsr => processor.sp - 2
  | pla | plp => processor.sp + 1
  | rts => processor.sp + 2
  | rti => processor.sp + 3
  | txs => processor.x
  | _ => processor.sp

/-- How many bytes an operation pulls. -/
def pulls : Operation → Nat
  | pla | plp => 1
  | rts => 2
  | rti => 3
  | _ => 0

/-- The bytes an operation pushes, the one it pushes last in front. -/
def pushes (processor : Processor) : Operation → List Byte
  | pha => [processor.a]
  | php => [processor.status ||| 0x30]
  | jsr =>
      let last := processor.pc + 2
      [lowByte last, highByte last]
  | _ => []

theorem pointer_eq {operation : Operation} (processor : Processor) (kept : operation ≠ .txs) :
    operation.pointer processor =
      processor.sp + UInt8.ofNat operation.pulls -
        UInt8.ofNat (operation.pushes processor).length := by
  cases operation <;> first | contradiction | simp [pointer, pulls, pushes]

/-- No operation both pushes and pulls. -/
theorem pulls_eq_zero {operation : Operation} {processor : Processor}
    (pushing : operation.pushes processor ≠ []) : operation.pulls = 0 := by
  cases operation <;> first | rfl | exact absurd rfl pushing

end Operation

namespace Instruction

/-- An instruction writes the bytes it pushes, or its store. -/
theorem writes_cases (instruction : Instruction) (view : View) (processor : Processor) :
    (instruction.operation.pushes processor = [] ∧
      instruction.writes view processor = (instruction.store? view processor).toList) ∨
    (∃ value, instruction.operation.pushes processor = [value] ∧
      instruction.writes view processor = [⟨stackCell processor.sp, value⟩]) ∨
    ∃ low high, instruction.operation.pushes processor = [low, high] ∧
      instruction.writes view processor =
        [⟨stackCell processor.sp, high⟩, ⟨stackCell (processor.sp - 1), low⟩] := by
  obtain ⟨operation, mode, cycles⟩ := instruction
  cases operation with
  | pha | php => exact .inr (.inl ⟨_, rfl, rfl⟩)
  | jsr => exact .inr (.inr ⟨_, _, rfl, rfl⟩)
  | _ => exact .inl ⟨rfl, rfl⟩

theorem sp_effect {instruction : Instruction} {action : Action} (charge : IndexCharge)
    (view : View) (processor : Processor)
    (sorted : instruction.operation.action = .ok action) :
    (action.effect instruction.mode charge view (processor.skip 1)).processor.sp =
      instruction.operation.pointer processor := by
  obtain ⟨operation, mode, cycles⟩ := instruction
  cases operation with
  | asl | lsr | rol | ror | bcc | bcs | beq | bne | bmi | bpl | bvc | bvs =>
      cases sorted
      simp only [Action.effect]
      split <;> rfl
  | brk | illegal => cases sorted
  | _ => cases sorted; rfl

end Instruction

namespace Machine

section

variable {σ : Type} [Bus σ] (machine : Machine σ)

def store? : Option Write :=
  (decode machine.opcode).store? (Bus.read machine.bus) machine.processor

def pulls : Nat :=
  machine.operation.pulls

def pushes : List Byte :=
  machine.operation.pushes machine.processor

/-- The next instruction neither sets the stack pointer nor stores among the bytes of the stack. -/
structure SparesStack : Prop where
  pointer : machine.operation ≠ .txs
  cells : ∀ write ∈ machine.store?, ¬ OnStackPage write.address

instance : Decidable machine.SparesStack :=
  decidable_of_iff
    (machine.operation ≠ .txs ∧ ∀ write ∈ machine.store?, ¬ OnStackPage write.address)
    ⟨fun ⟨pointer, cells⟩ => ⟨pointer, cells⟩, fun ⟨pointer, cells⟩ => ⟨pointer, cells⟩⟩

theorem sp_next : machine.next.processor.sp = machine.operation.pointer machine.processor := by
  cases sorted : machine.operation.action with
  | ok action =>
      rw [next_of_action machine sorted]
      exact Instruction.sp_effect _ _ _ sorted
  | error fault =>
      rw [next_of_fault machine sorted]
      generalize machine.operation = operation at sorted
      cases operation <;> first | rfl | contradiction

variable {machine} in
theorem pulls_eq_zero (pushing : machine.pushes ≠ []) : machine.pulls = 0 :=
  Operation.pulls_eq_zero pushing

/-- Away from the transfer to it, the stack pointer follows the pushes and pulls. -/
theorem sp_next_of_sparesStack (spares : machine.SparesStack) :
    machine.next.processor.sp =
      machine.processor.sp + UInt8.ofNat machine.pulls - UInt8.ofNat machine.pushes.length := by
  rw [sp_next, Operation.pointer_eq machine.processor spares.pointer]
  rfl

/-! What the pulling instructions make of the bytes above the pointer. -/

theorem flags_next_of_plp (plp : machine.operation = .plp) :
    machine.next.processor.flags =
      .ofByte (Bus.read machine.bus (stackCell (machine.processor.sp + 1))) := by
  have sorted : machine.operation.action = .ok (.pull .status) := by
    rw [plp]
    rfl
  rw [next_of_action machine sorted]
  rfl

theorem next_of_rts (rts : machine.operation = .rts) :
    machine.next =
      { processor :=
          { machine.processor with
            pc := word (Bus.read machine.bus (stackCell (machine.processor.sp + 1)))
              (Bus.read machine.bus (stackCell (machine.processor.sp + 2))) + 1
            sp := machine.processor.sp + 2
            total := machine.processor.total + 6 }
        bus := machine.bus } := by
  have sorted : machine.operation.action = .ok .returnFromCall := by
    rw [rts]
    rfl
  rw [next_of_action machine sorted]
  rfl

theorem next_of_rti (rti : machine.operation = .rti) :
    machine.next =
      { processor :=
          { machine.processor with
            pc := word (Bus.read machine.bus (stackCell (machine.processor.sp + 2)))
              (Bus.read machine.bus (stackCell (machine.processor.sp + 3)))
            sp := machine.processor.sp + 3
            flags := .ofByte (Bus.read machine.bus (stackCell (machine.processor.sp + 1)))
            total := machine.processor.total + 6 }
        bus := machine.bus } := by
  have sorted : machine.operation.action = .ok .returnFromInterrupt := by
    rw [rti]
    rfl
  rw [next_of_action machine sorted]
  rfl

theorem flags_next_of_php (php : machine.operation = .php) :
    machine.next.processor.flags = machine.processor.flags := by
  have sorted : machine.operation.action = .ok (.push .status) := by
    rw [php]
    rfl
  rw [next_of_action machine sorted]
  rfl

end

variable {machine : Machine Memory}

theorem read_next_of_store (spares : machine.SparesStack)
    (stored : machine.writes = machine.store?.toList) (pointer : Byte) :
    machine.next.bus.read (stackCell pointer) = machine.bus.read (stackCell pointer) := by
  rw [bus_next, stored]
  apply Memory.read_writeAll_of_forall_ne
  intro write written same
  refine spares.cells write (Option.mem_toList.mp written) ?_
  rw [same]
  exact onStackPage_stackCell pointer

theorem holds_next (spares : machine.SparesStack) {bytes : List Byte}
    (held : StackHolds machine.bus.read machine.processor.sp bytes)
    (covered : machine.pulls ≤ bytes.length)
    (fits : (machine.pushes ++ bytes.drop machine.pulls).length ≤ 256) :
    StackHolds machine.next.bus.read machine.next.processor.sp
      (machine.pushes ++ bytes.drop machine.pulls) := by
  have pointer := machine.sp_next_of_sparesStack spares
  rcases (decode machine.opcode).writes_cases (Bus.read machine.bus) machine.processor with
    ⟨pushed, stored⟩ | ⟨value, pushed, written⟩ | ⟨low, high, pushed, written⟩
  · have pushed : machine.pushes = [] := pushed
    rw [pointer, pushed]
    simp only [List.length_nil, List.nil_append, UInt8.sub_zero, UInt8.reduceOfNat]
    exact (held.drop covered).congr fun index _ => read_next_of_store spares stored _
  · have pushed : machine.pushes = [value] := pushed
    have none : machine.pulls = 0 := pulls_eq_zero (by simp [pushed])
    have bus : machine.next.bus = machine.bus.write (stackCell machine.processor.sp) value := by
      rw [bus_next, writes, written]
      rfl
    have room : bytes.length < 256 := by
      rwa [pushed, none] at fits
    have last := held.push value room
    simpa [pushed, none, pointer, bus] using last
  · have pushed : machine.pushes = [low, high] := pushed
    have none : machine.pulls = 0 := pulls_eq_zero (by simp [pushed])
    have bus : machine.next.bus =
        (machine.bus.write (stackCell machine.processor.sp) high).write
          (stackCell (machine.processor.sp - 1)) low := by
      rw [bus_next, writes, written]
      rfl
    have room : bytes.length + 1 < 256 := by
      rwa [pushed, none] at fits
    have last := (held.push high (Nat.lt_of_succ_lt room)).push low room
    rw [sub_one_sub_one] at last
    simpa [pushed, none, pointer, bus] using last

end Machine

end Nmos6502
