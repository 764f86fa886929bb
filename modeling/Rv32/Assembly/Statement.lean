import Rv32.Assembly.Line
import Rv32.Assembly.Remark
import Rv32.Text.Basic
import Rv32.Text.Uppercase

/-!
# Statements and their addresses

Going through the lines of a source once, the assembler gives every line its address and binds the
labels.  A line that carries an operation, known or not, takes up one word; any other line takes
up none, so that its labels are bound to the word that follows.  A label is bound to its first
definition.
-/

namespace Rv32.Assembly

/-- What a line asks for. -/
inductive Operation where
  | none
  | known (mnemonic : Mnemonic)
  | unknown (name : List Char)
  deriving DecidableEq, Repr

namespace Operation

/-- The name of an operation, in capitals. -/
def name? : Operation → Option (List Char)
  | none => Option.none
  | known m => some m.name.toList
  | unknown cs => some cs

/-- The number of bytes that an operation takes up. -/
def size : Operation → Nat
  | none => 0
  | known _ => 4
  | unknown _ => 4

end Operation

/-- A line of source with its address. -/
structure Statement where
  number : Nat
  address : Nat
  source : List Char
  parts : Line
  operation : Operation
  operands : List (List Char)
  remarks : List Remark
  deriving DecidableEq, Repr

/-- A label with its address, the line that defines it and the lines that use it. -/
structure Symbol where
  name : List Char
  address : Nat
  line : Nat
  uses : List Nat := []
  deriving DecidableEq, Repr

/-- The symbol of that name. -/
def findSymbol? (symbols : List Symbol) (name : List Char) : Option Symbol :=
  symbols.find? fun s => s.name == name

/-- The operation of a line, its operands, and the remarks on them. -/
def readOperation (parts : Line) : Operation × List (List Char) × List Remark :=
  let name := Text.upper parts.operation
  if parts.operation.isEmpty then (.none, parts.operands, [])
  else
    match Pseudo.ofName? name with
    | some p =>
      let operands := p.operands.map String.toList
      (.known p.target, operands,
        (if parts.operands.isEmpty then [] else [.problem (.takesNoOperands p.name)]) ++
          [.rewritten p.target operands])
    | none =>
      match Mnemonic.ofName? name with
      | some m => (.known m, parts.operands, [])
      | none =>
        (.unknown name, parts.operands, [.problem (.unknownMnemonic parts.operation)])

/-- The remark on a label that is defined at an address. -/
def bindLabel (symbols : List Symbol) (address : Nat) (label : List Char) : Remark :=
  if !isName label then .problem (.invalidLabel label)
  else if (findSymbol? symbols label).isSome then .problem (.duplicateLabel label)
  else .bound label address

/-- The symbols after a remark. -/
def record (symbols : List Symbol) (line : Nat) : Remark → List Symbol
  | .bound label address => symbols ++ [{ name := label, address, line }]
  | _ => symbols

/-- The remarks on the labels of a line, and the symbols after them. -/
def bindLabels (symbols : List Symbol) (address line : Nat) :
    List (List Char) → List Remark × List Symbol
  | [] => ([], symbols)
  | label :: labels =>
    let remark := bindLabel symbols address label
    let (remarks, symbols) := bindLabels (record symbols line remark) address line labels
    (remark :: remarks, symbols)

/-- The statement of a line at an address, and the symbols after it. -/
def place (symbols : List Symbol) (number address : Nat) (source : List Char) :
    Statement × List Symbol :=
  let parts := Line.parse source
  let (operation, operands, remarks) := readOperation parts
  let (labelRemarks, symbols) := bindLabels symbols address number parts.labels
  ({ number, address, source, parts, operation, operands, remarks := remarks ++ labelRemarks },
    symbols)

/-- The statements of a source, its symbols, and the address after its last word. -/
structure Layout where
  statements : List Statement
  symbols : List Symbol
  location : Nat
  deriving DecidableEq, Repr

/-- The layout of lines that start with the given number and address. -/
def layoutFrom (symbols : List Symbol) (number address : Nat) : List (List Char) → Layout
  | [] => ⟨[], symbols, address⟩
  | line :: lines =>
    let (s, symbols) := place symbols number address line
    let rest := layoutFrom symbols (number + 1) (address + s.operation.size) lines
    { rest with statements := s :: rest.statements }

/-- The lines of a source: carriage returns do not count. -/
def sourceLines (source : List Char) : List (List Char) := Text.lines (Text.dropReturns source)

/-- The layout of a source. -/
def layout (source : List Char) : Layout := layoutFrom [] 1 0 (sourceLines source)

/-- The problems found while a statement was given its address. -/
def Statement.problems (s : Statement) : List Problem := s.remarks.filterMap Remark.problem?

end Rv32.Assembly
