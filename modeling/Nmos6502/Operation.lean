/-!
The operations of the instruction set, with their assembler names.
-/

namespace Nmos6502

/-- What an instruction does, whatever the mode it does it in. Bytes without a documented
instruction stand for the illegal operation. -/
inductive Operation where
  | adc | and | asl | bcc | bcs | beq | bit | bmi
  | bne | bpl | brk | bvc | bvs | clc | cld | cli
  | clv | cmp | cpx | cpy | dec | dex | dey | eor
  | inc | inx | iny | jmp | jsr | lda | ldx | ldy
  | lsr | nop | ora | pha | php | pla | plp | rol
  | ror | rti | rts | sbc | sec | sed | sei | sta
  | stx | sty | tax | tay | tsx | txa | txs | tya
  | illegal
  deriving DecidableEq

namespace Operation

def all : List Operation :=
  [adc, and, asl, bcc, bcs, beq, bit, bmi, bne, bpl, brk, bvc, bvs, clc, cld, cli, clv, cmp, cpx,
    cpy, dec, dex, dey, eor, inc, inx, iny, jmp, jsr, lda, ldx, ldy, lsr, nop, ora, pha, php, pla,
    plp, rol, ror, rti, rts, sbc, sec, sed, sei, sta, stx, sty, tax, tay, tsx, txa, txs, tya,
    illegal]

def mnemonic : Operation → String
  | adc => "ADC"
  | and => "AND"
  | asl => "ASL"
  | bcc => "BCC"
  | bcs => "BCS"
  | beq => "BEQ"
  | bit => "BIT"
  | bmi => "BMI"
  | bne => "BNE"
  | bpl => "BPL"
  | brk => "BRK"
  | bvc => "BVC"
  | bvs => "BVS"
  | clc => "CLC"
  | cld => "CLD"
  | cli => "CLI"
  | clv => "CLV"
  | cmp => "CMP"
  | cpx => "CPX"
  | cpy => "CPY"
  | dec => "DEC"
  | dex => "DEX"
  | dey => "DEY"
  | eor => "EOR"
  | inc => "INC"
  | inx => "INX"
  | iny => "INY"
  | jmp => "JMP"
  | jsr => "JSR"
  | lda => "LDA"
  | ldx => "LDX"
  | ldy => "LDY"
  | lsr => "LSR"
  | nop => "NOP"
  | ora => "ORA"
  | pha => "PHA"
  | php => "PHP"
  | pla => "PLA"
  | plp => "PLP"
  | rol => "ROL"
  | ror => "ROR"
  | rti => "RTI"
  | rts => "RTS"
  | sbc => "SBC"
  | sec => "SEC"
  | sed => "SED"
  | sei => "SEI"
  | sta => "STA"
  | stx => "STX"
  | sty => "STY"
  | tax => "TAX"
  | tay => "TAY"
  | tsx => "TSX"
  | txa => "TXA"
  | txs => "TXS"
  | tya => "TYA"
  | illegal => "???"

def name : Operation → String
  | illegal => "Illegal"
  | operation => operation.mnemonic.toLower.capitalize

def ofName? (name : String) : Option Operation :=
  all.find? (·.name == name)

/-- Illegal operations and the software interrupt are fetched, but not carried out. -/
def isSupported : Operation → Bool
  | brk | illegal => false
  | _ => true

end Operation

end Nmos6502
