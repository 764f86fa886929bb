import Rv32.Word

/-!
# Instruction classes

The instructions fall into nine classes.  A class has its own major opcode, a layout of its
immediate, and one set of control signals for the datapath, so that the control unit needs to
know the class of a word and little more.

An immediate is spread over its word in one of five layouts.  `generate` gathers the bits and
extends the sign.  An offset fits a layout if it lies in the range of its significant bits; the
layouts of branches and jumps leave out bit 0, which is always clear.
-/

namespace Rv32

/-- The five layouts of an immediate within an instruction word. -/
inductive ImmediateFormat where
  | i | s | b | u | j
  deriving DecidableEq, Repr

namespace ImmediateFormat

/-- All layouts. -/
def all : List ImmediateFormat := [.i, .s, .b, .u, .j]

/-- The letter of a layout. -/
def letter : ImmediateFormat → String
  | i => "I"
  | s => "S"
  | b => "B"
  | u => "U"
  | j => "J"

/-- The layout of that letter. -/
def ofLetter? (cs : List Char) : Option ImmediateFormat :=
  all.find? fun f => f.letter.toList == cs

/-- The immediate of a word, by layout. -/
def generate (f : ImmediateFormat) (w : Int) : Int :=
  match f with
  | i => Word.signExtend 12 (Word.field 20 12 w)
  | s => Word.signExtend 12 (Word.field 25 7 w * 32 + Word.field 7 5 w)
  | b =>
    Word.signExtend 13
      (Word.field 31 1 w * 4096 + Word.field 7 1 w * 2048 + Word.field 25 6 w * 32 +
        Word.field 8 4 w * 2)
  | u => Word.signed (Word.field 12 20 w * 4096)
  | j =>
    Word.signExtend 21
      (Word.field 31 1 w * 1048576 + Word.field 12 8 w * 4096 + Word.field 20 1 w * 2048 +
        Word.field 21 10 w * 2)

/-- The number of significant bits of a layout. -/
def bits : ImmediateFormat → Nat
  | i => 12
  | s => 12
  | b => 13
  | u => 32
  | j => 21

/-- Whether `x` lies in the range of the significant bits. -/
def fits (f : ImmediateFormat) (x : Int) : Bool :=
  -(Nat.pow 2 (f.bits - 1) : Int) ≤ x && x < Nat.pow 2 (f.bits - 1)

end ImmediateFormat

/-- The classes of instructions. -/
inductive Kind where
  | register | immediate | load | store | branch | lui | auipc | jal | jalr
  deriving DecidableEq, Repr

namespace Kind

/-- All classes. -/
def all : List Kind :=
  [.register, .immediate, .load, .store, .branch, .lui, .auipc, .jal, .jalr]

/-- The short name of a class. -/
def code : Kind → String
  | register => "R"
  | immediate => "I"
  | load => "L"
  | store => "S"
  | branch => "B"
  | lui => "LUI"
  | auipc => "AUIPC"
  | jal => "JAL"
  | jalr => "JALR"

/-- The name of a class in complaints. -/
def label : Kind → String
  | register => "R"
  | immediate => "I_ALU"
  | load => "LOAD"
  | store => "STORE"
  | branch => "BRANCH"
  | lui => "LUI"
  | auipc => "AUIPC"
  | jal => "JAL"
  | jalr => "JALR"

/-- The class of that short name. -/
def ofCode? (cs : List Char) : Option Kind := all.find? fun k => k.code.toList == cs

/-- The major opcode of a class. -/
def opcode : Kind → Int
  | register => 0b0110011
  | immediate => 0b0010011
  | load => 0b0000011
  | store => 0b0100011
  | branch => 0b1100011
  | lui => 0b0110111
  | auipc => 0b0010111
  | jal => 0b1101111
  | jalr => 0b1100111

/-- The class of that major opcode. -/
def ofOpcode? (n : Int) : Option Kind := all.find? fun k => k.opcode == n

@[simp] theorem ofOpcode?_opcode (k : Kind) : ofOpcode? k.opcode = some k := by
  cases k <;> decide

end Kind

/-- The control signals of a class. -/
structure Signals where
  /-- The destination register is written. -/
  regWrite : Bool := false
  /-- Data memory is read. -/
  memRead : Bool := false
  /-- Data memory is written. -/
  memWrite : Bool := false
  /-- What is read from memory, and not the result of the arithmetic unit, is written back. -/
  memToReg : Bool := false
  /-- The second operand of the arithmetic unit is the immediate. -/
  aluSrcImm : Bool := false
  branch : Bool := false
  jump : Bool := false
  immediate : Option ImmediateFormat := none
  deriving DecidableEq, Repr

/-- The control table. -/
def Kind.signals : Kind → Signals
  | register => { regWrite := true }
  | immediate => { regWrite := true, aluSrcImm := true, immediate := some .i }
  | load =>
    { regWrite := true, memRead := true, memToReg := true, aluSrcImm := true,
      immediate := some .i }
  | store => { memWrite := true, aluSrcImm := true, immediate := some .s }
  | branch => { branch := true, immediate := some .b }
  | lui => { regWrite := true, aluSrcImm := true, immediate := some .u }
  | auipc => { regWrite := true, aluSrcImm := true, immediate := some .u }
  | jal => { regWrite := true, aluSrcImm := true, jump := true, immediate := some .j }
  | jalr => { regWrite := true, aluSrcImm := true, jump := true, immediate := some .i }

end Rv32
