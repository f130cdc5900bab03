import Nmos6502.Alu
import Nmos6502.Fault
import Nmos6502.Processor

/-!
The operations sorted by what they do: an action names the register, the flag or the rule that an
operation works with. An operation is first sorted into its family, and the family then names the
details; a family that an operation does not belong to refuses it. Main statement: exactly the
supported operations have an action (`isOk_action`).
-/

namespace Nmos6502

inductive Stacked where
  | accumulator
  | status
  deriving DecidableEq

inductive Action where
  | load (target : Register)
  | store (source : Register)
  | calculate (rule : Arithmetic)
  | combine (rule : Logic)
  | compare (register : Register)
  | testBits
  | shift (rule : Shift)
  | countMemory (direction : Count)
  | countRegister (direction : Count) (register : Register)
  | branch (flag : Flag) (expected : Bool)
  | jump
  | call
  | returnFromCall
  | returnFromInterrupt
  | push (item : Stacked)
  | pull (item : Stacked)
  | assign (flag : Flag) (value : Bool)
  | transfer (source target : Register)
  | rest
  deriving DecidableEq

namespace Operation

/-! The families. Each one picks what its operations work with. -/

def loadTarget : Operation → Except Fault Register
  | lda => .ok .a
  | ldx => .ok .x
  | ldy => .ok .y
  | other => .error (.invalidSelector other .load)

def storeSource : Operation → Except Fault Register
  | sta => .ok .a
  | stx => .ok .x
  | sty => .ok .y
  | other => .error (.invalidSelector other .store)

def arithmetic : Operation → Except Fault Arithmetic
  | adc => .ok .add
  | sbc => .ok .subtract
  | other => .error (.invalidSelector other .arithmetic)

def logic : Operation → Except Fault Logic
  | and => .ok .and
  | eor => .ok .eor
  | ora => .ok .ora
  | other => .error (.invalidSelector other .logical)

def comparedRegister : Operation → Except Fault Register
  | cmp => .ok .a
  | cpx => .ok .x
  | cpy => .ok .y
  | other => .error (.invalidSelector other .compare)

def shift : Operation → Except Fault Shift
  | asl => .ok .asl
  | lsr => .ok .lsr
  | rol => .ok .rol
  | ror => .ok .ror
  | other => .error (.invalidSelector other .shift)

def memoryCount : Operation → Except Fault Count
  | inc => .ok .up
  | dec => .ok .down
  | other => .error (.invalidSelector other .memoryIncrement)

def registerCount : Operation → Except Fault (Count × Register)
  | inx => .ok (.up, .x)
  | iny => .ok (.up, .y)
  | dex => .ok (.down, .x)
  | dey => .ok (.down, .y)
  | other => .error (.invalidSelector other .registerIncrement)

def condition : Operation → Except Fault (Flag × Bool)
  | bcc => .ok (.carry, false)
  | bcs => .ok (.carry, true)
  | bne => .ok (.zero, false)
  | beq => .ok (.zero, true)
  | bpl => .ok (.negative, false)
  | bmi => .ok (.negative, true)
  | bvc => .ok (.overflow, false)
  | bvs => .ok (.overflow, true)
  | other => .error (.invalidSelector other .branch)

def pushed : Operation → Except Fault Stacked
  | pha => .ok .accumulator
  | php => .ok .status
  | other => .error (.invalidSelector other .push)

def pulled : Operation → Except Fault Stacked
  | pla => .ok .accumulator
  | plp => .ok .status
  | other => .error (.invalidSelector other .pull)

def assignment : Operation → Except Fault (Flag × Bool)
  | clc => .ok (.carry, false)
  | sec => .ok (.carry, true)
  | cli => .ok (.interruptDisable, false)
  | sei => .ok (.interruptDisable, true)
  | cld => .ok (.decimal, false)
  | sed => .ok (.decimal, true)
  | clv => .ok (.overflow, false)
  | other => .error (.invalidSelector other .flag)

def transfer : Operation → Except Fault (Register × Register)
  | tax => .ok (.a, .x)
  | tay => .ok (.a, .y)
  | txa => .ok (.x, .a)
  | tya => .ok (.y, .a)
  | tsx => .ok (.sp, .x)
  | txs => .ok (.x, .sp)
  | other => .error (.invalidSelector other .transfer)

/-! The sorting into families. -/

def action (operation : Operation) : Except Fault Action :=
  match operation with
  | lda | ldx | ldy => .load <$> operation.loadTarget
  | sta | stx | sty => .store <$> operation.storeSource
  | adc | sbc => .calculate <$> operation.arithmetic
  | and | eor | ora => .combine <$> operation.logic
  | cmp | cpx | cpy => .compare <$> operation.comparedRegister
  | bit => .ok .testBits
  | asl | lsr | rol | ror => .shift <$> operation.shift
  | inc | dec => .countMemory <$> operation.memoryCount
  | inx | iny | dex | dey => operation.registerCount.map fun (direction, register) =>
      .countRegister direction register
  | bcc | bcs | beq | bne | bmi | bpl | bvc | bvs => operation.condition.map fun (flag, expected) =>
      .branch flag expected
  | jmp => .ok .jump
  | jsr => .ok .call
  | rts => .ok .returnFromCall
  | rti => .ok .returnFromInterrupt
  | nop => .ok .rest
  | pha | php => .push <$> operation.pushed
  | pla | plp => .pull <$> operation.pulled
  | clc | sec | cli | sei | cld | sed | clv => operation.assignment.map fun (flag, value) =>
      .assign flag value
  | tax | tay | txa | tya | tsx | txs => operation.transfer.map fun (source, target) =>
      .transfer source target
  | brk | illegal => .error (.invalidSelector operation .dispatch)

/-- Operations that write to their operand always spend the correcting cycle of an indexed address.
-/
def indexCharge : Operation → IndexCharge
  | sta | stx | sty | asl | lsr | rol | ror | inc | dec => .always
  | _ => .onPageCross

theorem isOk_action (operation : Operation) :
    operation.action.isOk = operation.isSupported := by
  cases operation <;> rfl

end Operation

end Nmos6502
