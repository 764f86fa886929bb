import Rv32.Instruction.Kind
import Rv32.Instruction.Mnemonic
import Rv32.Register

/-!
# Instructions

An instruction is a 32-bit word that the table accepts, with its mnemonic.  Everything else that
the datapath needs, from register numbers to control signals, is read off the two.  `decode` finds
the class by the major opcode and the mnemonic by the minor ones.

`Instruction.text` is the canonical text of an instruction, which the assembler reads back.  A
shift shows its amount, an upper immediate its twenty bits in hexadecimal, and every other
immediate its signed value.  `Instruction.controlText` lists the control signals.

A caller may choose an operation of the arithmetic unit or an immediate layout by a value that
nothing has checked.  An operation is chosen by its name in letters of any case, a layout by its
capital letter; any other value is refused and shown.  A caller may also choose the place and the
width of a field.  Where these are computed, they may come out negative; reading such a field is
refused.
-/

namespace Rv32

/-! ## Words that the table accepts -/

/-- A word that the table accepts, with its mnemonic. -/
structure Instruction where
  word : Int
  mnemonic : Mnemonic
  deriving DecidableEq, Repr

namespace Instruction

/-- The destination register of a word. -/
def rdOf (w : Int) : Register :=
  ⟨(Word.rdField w).toNat, Word.toNat_field_lt 7 5 w⟩

/-- The first source register of a word. -/
def rs1Of (w : Int) : Register :=
  ⟨(Word.rs1Field w).toNat, Word.toNat_field_lt 15 5 w⟩

/-- The second source register of a word. -/
def rs2Of (w : Int) : Register :=
  ⟨(Word.rs2Field w).toNat, Word.toNat_field_lt 20 5 w⟩

/-- The destination register. -/
def rd (i : Instruction) : Register := rdOf i.word

/-- The first source register. -/
def rs1 (i : Instruction) : Register := rs1Of i.word

/-- The second source register. -/
def rs2 (i : Instruction) : Register := rs2Of i.word

/-- The class. -/
def kind (i : Instruction) : Kind := i.mnemonic.kind

/-- The control signals. -/
def signals (i : Instruction) : Signals := i.kind.signals

/-- What the arithmetic unit does. -/
def operation (i : Instruction) : AluOp := i.mnemonic.entry.operation

/-- Whether a branch is taken where its comparison fails. -/
def inverted (i : Instruction) : Bool := i.mnemonic.entry.inverted

/-- The immediate, where the class has one. -/
def immediate? (i : Instruction) : Option Int := i.signals.immediate.map (·.generate i.word)

/-- The instruction that a word stands for. -/
def decode (x : Int) : Except Fault Instruction :=
  let w := Word.unsigned x
  match Kind.ofOpcode? (Word.opcode w) with
  | none => .error (.unknownOpcode w)
  | some k =>
    match Mnemonic.select? k (some (Word.funct3 w)) (some (Word.funct7 w)) with
    | none => .error (.unknownFunction k w)
    | some m => .ok ⟨w, m⟩

end Instruction

/-! ## Instructions as text -/

/-- A signal as one or zero. -/
def signalText (name : String) (up : Bool) : String := s!"{name}={if up then 1 else 0}"

namespace Instruction

/-- A register of an instruction by its number. -/
def regText (r : Register) : String := Register.numeric r.val

/-- The operands of an instruction as text. -/
def operandText (i : Instruction) : String :=
  let rd := regText i.rd
  let rs1 := regText i.rs1
  let rs2 := regText i.rs2
  let x := i.immediate?.getD 0
  match i.kind with
  | .register => s!"{rd}, {rs1}, {rs2}"
  | .immediate => s!"{rd}, {rs1}, {if i.mnemonic.isShift then (i.rs2.val : Int) else x}"
  | .load | .jalr => s!"{rd}, {x}({rs1})"
  | .store => s!"{rs2}, {x}({rs1})"
  | .branch => s!"{rs1}, {rs2}, {x}"
  | .lui | .auipc => s!"{rd}, {Numeral.marked 1 (Word.field 12 20 i.word)}"
  | .jal => s!"{rd}, {x}"

/-- The canonical text of an instruction. -/
def text (i : Instruction) : String := s!"{i.mnemonic.small} {i.operandText}"

/-- The canonical text of a word. -/
def disassemble (w : Int) : Except Fault String := return (← decode w).text

/-- The mnemonic, class, fields and control signals of an instruction. -/
def controlText (i : Instruction) : String :=
  let s := i.signals
  let format := (s.immediate.map (·.letter)).getD "-"
  s!"{i.mnemonic.small} kind={i.kind.code} rd={i.rd.val} rs1={i.rs1.val} rs2={i.rs2.val} " ++
    String.intercalate " "
      [signalText "regWrite" s.regWrite, signalText "memRead" s.memRead,
       signalText "memWrite" s.memWrite, signalText "memToReg" s.memToReg,
       signalText "aluSrcImm" s.aluSrcImm, signalText "branch" s.branch,
       signalText "branchInvert" i.inverted, signalText "jump" s.jump] ++
    s!" imm={format} aluOp={i.operation.name}"

end Instruction

/-! ## Choices made from outside -/

/-- The operation that a value names. -/
def AluOp.ofDatum (d : Datum) : Except Fault AluOp :=
  match d with
  | .text cs => ((ofName? (Text.upper cs)).map .ok).getD (.error (.unknownOperation d))
  | _ => .error (.unknownOperation d)

/-- The layout that a value names. -/
def ImmediateFormat.ofDatum (d : Datum) : Except Fault ImmediateFormat :=
  match d with
  | .text cs => ((ofLetter? cs).map .ok).getD (.error (.unknownFormat d))
  | _ => .error (.unknownFormat d)

namespace Word

/-- A count of bits that must not be negative. -/
def bitCount (n : Int) : Except Fault Nat :=
  if n < 0 then .error .negativeShift else .ok n.toNat

/-- The bit of `w` at place `i`. -/
def bitAt (i w : Int) : Except Fault Int := do
  let low ← bitCount i
  return field low 1 w

/-- The field of `w` from bit `low` up to and including bit `high`. -/
def span (high low w : Int) : Except Fault Int := do
  let start ← bitCount low
  let width ← bitCount (high - low + 1)
  return field start width w

/-- `signExtend`, for a width that may turn out not to be positive. -/
def extend (bits x : Int) : Except Fault Int := do
  let sign ← bitCount (bits - 1)
  return signExtend (sign + 1) x

end Word

end Rv32
