import Nmos6502.AddressingMode
import Nmos6502.Operation
import Nmos6502.Word

/-!
The instruction set: which bytes encode which operation, and the table that decodes a byte. Main
statement: the table holds what the encodings say (`decode_eq_search`).
-/

namespace Nmos6502

/-- One documented form of an operation, with the cycles it takes when no page is crossed and no
branch is taken. -/
structure Encoding where
  opcode : Byte
  mode : AddressingMode
  cycles : Nat
  deriving DecidableEq

def Operation.encodings : Operation → List Encoding
  | adc =>
    [⟨0x69, .immediate, 2⟩, ⟨0x65, .zeroPage, 3⟩, ⟨0x75, .zeroPageX, 4⟩, ⟨0x6D, .absolute, 4⟩,
      ⟨0x7D, .absoluteX, 4⟩, ⟨0x79, .absoluteY, 4⟩, ⟨0x61, .indirectX, 6⟩, ⟨0x71, .indirectY, 5⟩]
  | and =>
    [⟨0x29, .immediate, 2⟩, ⟨0x25, .zeroPage, 3⟩, ⟨0x35, .zeroPageX, 4⟩, ⟨0x2D, .absolute, 4⟩,
      ⟨0x3D, .absoluteX, 4⟩, ⟨0x39, .absoluteY, 4⟩, ⟨0x21, .indirectX, 6⟩, ⟨0x31, .indirectY, 5⟩]
  | asl =>
    [⟨0x0A, .accumulator, 2⟩, ⟨0x06, .zeroPage, 5⟩, ⟨0x16, .zeroPageX, 6⟩, ⟨0x0E, .absolute, 6⟩,
      ⟨0x1E, .absoluteX, 7⟩]
  | bcc => [⟨0x90, .relative, 2⟩]
  | bcs => [⟨0xB0, .relative, 2⟩]
  | beq => [⟨0xF0, .relative, 2⟩]
  | bit => [⟨0x24, .zeroPage, 3⟩, ⟨0x2C, .absolute, 4⟩]
  | bmi => [⟨0x30, .relative, 2⟩]
  | bne => [⟨0xD0, .relative, 2⟩]
  | bpl => [⟨0x10, .relative, 2⟩]
  | brk => [⟨0x00, .implicit, 7⟩]
  | bvc => [⟨0x50, .relative, 2⟩]
  | bvs => [⟨0x70, .relative, 2⟩]
  | clc => [⟨0x18, .implicit, 2⟩]
  | cld => [⟨0xD8, .implicit, 2⟩]
  | cli => [⟨0x58, .implicit, 2⟩]
  | clv => [⟨0xB8, .implicit, 2⟩]
  | cmp =>
    [⟨0xC9, .immediate, 2⟩, ⟨0xC5, .zeroPage, 3⟩, ⟨0xD5, .zeroPageX, 4⟩, ⟨0xCD, .absolute, 4⟩,
      ⟨0xDD, .absoluteX, 4⟩, ⟨0xD9, .absoluteY, 4⟩, ⟨0xC1, .indirectX, 6⟩, ⟨0xD1, .indirectY, 5⟩]
  | cpx => [⟨0xE0, .immediate, 2⟩, ⟨0xE4, .zeroPage, 3⟩, ⟨0xEC, .absolute, 4⟩]
  | cpy => [⟨0xC0, .immediate, 2⟩, ⟨0xC4, .zeroPage, 3⟩, ⟨0xCC, .absolute, 4⟩]
  | dec =>
    [⟨0xC6, .zeroPage, 5⟩, ⟨0xD6, .zeroPageX, 6⟩, ⟨0xCE, .absolute, 6⟩, ⟨0xDE, .absoluteX, 7⟩]
  | dex => [⟨0xCA, .implicit, 2⟩]
  | dey => [⟨0x88, .implicit, 2⟩]
  | eor =>
    [⟨0x49, .immediate, 2⟩, ⟨0x45, .zeroPage, 3⟩, ⟨0x55, .zeroPageX, 4⟩, ⟨0x4D, .absolute, 4⟩,
      ⟨0x5D, .absoluteX, 4⟩, ⟨0x59, .absoluteY, 4⟩, ⟨0x41, .indirectX, 6⟩, ⟨0x51, .indirectY, 5⟩]
  | inc =>
    [⟨0xE6, .zeroPage, 5⟩, ⟨0xF6, .zeroPageX, 6⟩, ⟨0xEE, .absolute, 6⟩, ⟨0xFE, .absoluteX, 7⟩]
  | inx => [⟨0xE8, .implicit, 2⟩]
  | iny => [⟨0xC8, .implicit, 2⟩]
  | jmp => [⟨0x4C, .absolute, 3⟩, ⟨0x6C, .indirect, 5⟩]
  | jsr => [⟨0x20, .absolute, 6⟩]
  | lda =>
    [⟨0xA9, .immediate, 2⟩, ⟨0xA5, .zeroPage, 3⟩, ⟨0xB5, .zeroPageX, 4⟩, ⟨0xAD, .absolute, 4⟩,
      ⟨0xBD, .absoluteX, 4⟩, ⟨0xB9, .absoluteY, 4⟩, ⟨0xA1, .indirectX, 6⟩, ⟨0xB1, .indirectY, 5⟩]
  | ldx =>
    [⟨0xA2, .immediate, 2⟩, ⟨0xA6, .zeroPage, 3⟩, ⟨0xB6, .zeroPageY, 4⟩, ⟨0xAE, .absolute, 4⟩,
      ⟨0xBE, .absoluteY, 4⟩]
  | ldy =>
    [⟨0xA0, .immediate, 2⟩, ⟨0xA4, .zeroPage, 3⟩, ⟨0xB4, .zeroPageX, 4⟩, ⟨0xAC, .absolute, 4⟩,
      ⟨0xBC, .absoluteX, 4⟩]
  | lsr =>
    [⟨0x4A, .accumulator, 2⟩, ⟨0x46, .zeroPage, 5⟩, ⟨0x56, .zeroPageX, 6⟩, ⟨0x4E, .absolute, 6⟩,
      ⟨0x5E, .absoluteX, 7⟩]
  | nop => [⟨0xEA, .implicit, 2⟩]
  | ora =>
    [⟨0x09, .immediate, 2⟩, ⟨0x05, .zeroPage, 3⟩, ⟨0x15, .zeroPageX, 4⟩, ⟨0x0D, .absolute, 4⟩,
      ⟨0x1D, .absoluteX, 4⟩, ⟨0x19, .absoluteY, 4⟩, ⟨0x01, .indirectX, 6⟩, ⟨0x11, .indirectY, 5⟩]
  | pha => [⟨0x48, .implicit, 3⟩]
  | php => [⟨0x08, .implicit, 3⟩]
  | pla => [⟨0x68, .implicit, 4⟩]
  | plp => [⟨0x28, .implicit, 4⟩]
  | rol =>
    [⟨0x2A, .accumulator, 2⟩, ⟨0x26, .zeroPage, 5⟩, ⟨0x36, .zeroPageX, 6⟩, ⟨0x2E, .absolute, 6⟩,
      ⟨0x3E, .absoluteX, 7⟩]
  | ror =>
    [⟨0x6A, .accumulator, 2⟩, ⟨0x66, .zeroPage, 5⟩, ⟨0x76, .zeroPageX, 6⟩, ⟨0x6E, .absolute, 6⟩,
      ⟨0x7E, .absoluteX, 7⟩]
  | rti => [⟨0x40, .implicit, 6⟩]
  | rts => [⟨0x60, .implicit, 6⟩]
  | sbc =>
    [⟨0xE9, .immediate, 2⟩, ⟨0xE5, .zeroPage, 3⟩, ⟨0xF5, .zeroPageX, 4⟩, ⟨0xED, .absolute, 4⟩,
      ⟨0xFD, .absoluteX, 4⟩, ⟨0xF9, .absoluteY, 4⟩, ⟨0xE1, .indirectX, 6⟩, ⟨0xF1, .indirectY, 5⟩]
  | sec => [⟨0x38, .implicit, 2⟩]
  | sed => [⟨0xF8, .implicit, 2⟩]
  | sei => [⟨0x78, .implicit, 2⟩]
  | sta =>
    [⟨0x85, .zeroPage, 3⟩, ⟨0x95, .zeroPageX, 4⟩, ⟨0x8D, .absolute, 4⟩, ⟨0x9D, .absoluteX, 5⟩,
      ⟨0x99, .absoluteY, 5⟩, ⟨0x81, .indirectX, 6⟩, ⟨0x91, .indirectY, 6⟩]
  | stx => [⟨0x86, .zeroPage, 3⟩, ⟨0x96, .zeroPageY, 4⟩, ⟨0x8E, .absolute, 4⟩]
  | sty => [⟨0x84, .zeroPage, 3⟩, ⟨0x94, .zeroPageX, 4⟩, ⟨0x8C, .absolute, 4⟩]
  | tax => [⟨0xAA, .implicit, 2⟩]
  | tay => [⟨0xA8, .implicit, 2⟩]
  | tsx => [⟨0xBA, .implicit, 2⟩]
  | txa => [⟨0x8A, .implicit, 2⟩]
  | txs => [⟨0x9A, .implicit, 2⟩]
  | tya => [⟨0x98, .implicit, 2⟩]
  | illegal => []

structure Instruction where
  operation : Operation
  mode : AddressingMode
  cycles : Nat
  deriving DecidableEq

namespace Instruction

/-- A byte without a documented instruction costs its fetch. -/
def unassigned : Instruction :=
  ⟨.illegal, .implicit, 1⟩

instance : Inhabited Instruction := ⟨unassigned⟩

def size (instruction : Instruction) : Nat :=
  1 + instruction.mode.operandBytes

def isIllegal (instruction : Instruction) : Bool :=
  instruction.operation == .illegal

def search (opcode : Byte) : Instruction :=
  (Operation.all.findSome? fun operation =>
    (operation.encodings.find? (·.opcode == opcode)).map fun encoding =>
      ⟨operation, encoding.mode, encoding.cycles⟩).getD unassigned

def table : Array Instruction :=
  Array.ofFn fun opcode : Fin 256 => search (UInt8.ofFin opcode)

@[simp] theorem size_table : table.size = 256 := by
  simp [table]

end Instruction

def decode (opcode : Byte) : Instruction :=
  have bound : opcode.toNat < Instruction.table.size := by
    simpa using opcode.toNat_lt
  Instruction.table[opcode.toNat]

theorem decode_eq_search (opcode : Byte) : decode opcode = Instruction.search opcode := by
  simp [decode, Instruction.table]

-- No proof opens the table by computation: what a byte means is said by `decode_eq_search`.
attribute [irreducible] decode

end Nmos6502
