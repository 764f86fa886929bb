import Rv32.Alu
import Rv32.Instruction.Kind

/-!
# The instruction table

Each mnemonic has one table entry: its class, the minor opcodes that its word must hold, and what
the arithmetic unit does for it.  The assembler encodes from the table and the control unit looks
words up in it, so the two cannot disagree.  A minor opcode is absent where the bits belong to an
immediate.
-/

namespace Rv32

/-- The instructions, by mnemonic. -/
inductive Mnemonic where
  | add | sub | sll | slt | sltu | xor | srl | sra | or | and
  | addi | slti | sltiu | xori | ori | andi | slli | srli | srai
  | lb | lh | lw | lbu | lhu
  | sb | sh | sw
  | beq | bne | blt | bge | bltu | bgeu
  | lui | auipc | jal | jalr
  deriving DecidableEq, Repr

/-- A table entry.  For a branch, `operation` is the comparison and `inverted` says that the
branch is taken where the comparison fails. -/
structure Entry where
  kind : Kind
  funct3 : Option Int := none
  funct7 : Option Int := none
  operation : AluOp := .add
  inverted : Bool := false
  deriving DecidableEq, Repr

namespace Mnemonic

/-- All mnemonics, in the order of the table. -/
def all : List Mnemonic :=
  [.add, .sub, .sll, .slt, .sltu, .xor, .srl, .sra, .or, .and,
   .addi, .slti, .sltiu, .xori, .ori, .andi, .slli, .srli, .srai,
   .lb, .lh, .lw, .lbu, .lhu, .sb, .sh, .sw,
   .beq, .bne, .blt, .bge, .bltu, .bgeu, .lui, .auipc, .jal, .jalr]

theorem mem_all (m : Mnemonic) : m ∈ all := by
  cases m <;> decide

/-- The name of a mnemonic, in capitals. -/
def name : Mnemonic → String
  | add => "ADD" | sub => "SUB" | sll => "SLL" | slt => "SLT" | sltu => "SLTU"
  | xor => "XOR" | srl => "SRL" | sra => "SRA" | or => "OR" | and => "AND"
  | addi => "ADDI" | slti => "SLTI" | sltiu => "SLTIU" | xori => "XORI" | ori => "ORI"
  | andi => "ANDI" | slli => "SLLI" | srli => "SRLI" | srai => "SRAI"
  | lb => "LB" | lh => "LH" | lw => "LW" | lbu => "LBU" | lhu => "LHU"
  | sb => "SB" | sh => "SH" | sw => "SW"
  | beq => "BEQ" | bne => "BNE" | blt => "BLT" | bge => "BGE" | bltu => "BLTU" | bgeu => "BGEU"
  | lui => "LUI" | auipc => "AUIPC" | jal => "JAL" | jalr => "JALR"

/-- The name in small letters, as canonical text shows it. -/
def small (m : Mnemonic) : String := String.ofList (m.name.toList.map Char.toLower)

/-- The mnemonic of that name, which must be in capitals. -/
def ofName? (cs : List Char) : Option Mnemonic := all.find? fun m => m.name.toList == cs

@[simp] theorem ofName?_name (m : Mnemonic) : ofName? m.name.toList = some m := by
  cases m <;> decide

/-- The table. -/
def entry : Mnemonic → Entry
  | add => { kind := .register, funct3 := some 0b000, funct7 := some 0, operation := .add }
  | sub => { kind := .register, funct3 := some 0b000, funct7 := some 0b0100000, operation := .sub }
  | sll => { kind := .register, funct3 := some 0b001, funct7 := some 0, operation := .sll }
  | slt => { kind := .register, funct3 := some 0b010, funct7 := some 0, operation := .slt }
  | sltu => { kind := .register, funct3 := some 0b011, funct7 := some 0, operation := .sltu }
  | xor => { kind := .register, funct3 := some 0b100, funct7 := some 0, operation := .xor }
  | srl => { kind := .register, funct3 := some 0b101, funct7 := some 0, operation := .srl }
  | sra => { kind := .register, funct3 := some 0b101, funct7 := some 0b0100000, operation := .sra }
  | or => { kind := .register, funct3 := some 0b110, funct7 := some 0, operation := .or }
  | and => { kind := .register, funct3 := some 0b111, funct7 := some 0, operation := .and }
  | addi => { kind := .immediate, funct3 := some 0b000, operation := .add }
  | slti => { kind := .immediate, funct3 := some 0b010, operation := .slt }
  | sltiu => { kind := .immediate, funct3 := some 0b011, operation := .sltu }
  | xori => { kind := .immediate, funct3 := some 0b100, operation := .xor }
  | ori => { kind := .immediate, funct3 := some 0b110, operation := .or }
  | andi => { kind := .immediate, funct3 := some 0b111, operation := .and }
  | slli => { kind := .immediate, funct3 := some 0b001, funct7 := some 0, operation := .sll }
  | srli => { kind := .immediate, funct3 := some 0b101, funct7 := some 0, operation := .srl }
  | srai =>
      { kind := .immediate, funct3 := some 0b101, funct7 := some 0b0100000, operation := .sra }
  | lb => { kind := .load, funct3 := some 0b000 }
  | lh => { kind := .load, funct3 := some 0b001 }
  | lw => { kind := .load, funct3 := some 0b010 }
  | lbu => { kind := .load, funct3 := some 0b100 }
  | lhu => { kind := .load, funct3 := some 0b101 }
  | sb => { kind := .store, funct3 := some 0b000 }
  | sh => { kind := .store, funct3 := some 0b001 }
  | sw => { kind := .store, funct3 := some 0b010 }
  | beq => { kind := .branch, funct3 := some 0b000, operation := .seq }
  | bne => { kind := .branch, funct3 := some 0b001, operation := .seq, inverted := true }
  | blt => { kind := .branch, funct3 := some 0b100, operation := .slt }
  | bge => { kind := .branch, funct3 := some 0b101, operation := .slt, inverted := true }
  | bltu => { kind := .branch, funct3 := some 0b110, operation := .sltu }
  | bgeu => { kind := .branch, funct3 := some 0b111, operation := .sltu, inverted := true }
  | lui => { kind := .lui }
  | auipc => { kind := .auipc }
  | jal => { kind := .jal }
  | jalr => { kind := .jalr, funct3 := some 0b000 }

/-- The class of an instruction. -/
def kind (m : Mnemonic) : Kind := m.entry.kind

/-- Shifts by a constant, whose immediate holds five bits under a minor opcode. -/
def isShift : Mnemonic → Bool
  | slli | srli | srai => true
  | _ => false

/-- The instruction whose entry has exactly this class and these minor opcodes. -/
def withKey? (k : Kind) (funct3 funct7 : Option Int) : Option Mnemonic :=
  all.find? fun m => m.entry.kind == k && m.entry.funct3 == funct3 && m.entry.funct7 == funct7

/-- The instruction of a class that the minor opcodes of a word select.  Three classes have no
minor opcode; in the others an entry may leave the second one open. -/
def select? (k : Kind) (funct3 funct7 : Option Int) : Option Mnemonic :=
  match k with
  | .lui | .auipc | .jal => withKey? k none none
  | _ => (withKey? k funct3 funct7).or (withKey? k funct3 none)

end Mnemonic

/-- An instruction that stands for another one with fixed operands. -/
structure Pseudo where
  name : String
  target : Mnemonic
  operands : List String

namespace Pseudo

/-- The instruction that does nothing. -/
def nop : Pseudo := ⟨"NOP", .addi, ["x0", "x0", "0"]⟩

/-- All such instructions. -/
def all : List Pseudo := [nop]

/-- The one of that name. -/
def ofName? (cs : List Char) : Option Pseudo := all.find? fun p => p.name.toList == cs

end Pseudo

end Rv32
