import Rv32.Instruction.Mnemonic
import Rv32.Text.Basic
import Rv32.Text.Quoted

/-!
# Remarks on statements

While it goes through the statements of a source, the assembler remarks what it finds: a problem,
an instruction put in the place of another, a label bound to its address, a label resolved to an
offset.  The remarks on a statement stand in the order in which they were made.  A source with any
problem is refused.  A number with too many digits is no problem among others: it stops the
assembler on the spot, so that no remark after it counts.
-/

namespace Rv32.Assembly

/-- What a number among the operands stands for. -/
inductive Quantity where
  | immediate | shiftAmount | offset | upperImmediate
  deriving DecidableEq, Repr

namespace Quantity

/-- The name of a quantity. -/
def name : Quantity → String
  | immediate => "immediate"
  | shiftAmount => "shift amount"
  | offset => "offset"
  | upperImmediate => "upper immediate"

/-- The least value that can be encoded. -/
def least : Quantity → Int
  | immediate => -2048
  | shiftAmount => 0
  | offset => -2048
  | upperImmediate => -524288

/-- The greatest value that can be encoded. -/
def greatest : Quantity → Int
  | immediate => 2047
  | shiftAmount => 31
  | offset => 2047
  | upperImmediate => 1048575

end Quantity

/-- The numbers of operands that a class allows. -/
def operandCounts : Kind → List Nat
  | .register | .immediate | .branch => [3]
  | .load | .store | .lui | .auipc => [2]
  | .jal => [1, 2]
  | .jalr => [1, 2, 3]

/-- What can be wrong with a statement. -/
inductive Problem where
  | takesNoOperands (name : String)
  | unknownMnemonic (written : List Char)
  | invalidLabel (label : List Char)
  | duplicateLabel (label : List Char)
  | operandCount (mnemonic : Mnemonic) (given : Nat)
  | emptyOperand
  | notRegister (operand : List Char)
  | notNumber (what : Quantity) (operand : List Char)
  | outsideRange (what : Quantity) (value : Int)
  | notMemory (operand : List Char)
  | invalidTarget (operand : List Char)
  | undefinedLabel (label : List Char)
  | oddOffset (offset : Int)
  | offsetTooFar (format : ImmediateFormat) (offset : Int)
  deriving DecidableEq, Repr

/-- The wording of a problem. -/
def Problem.message : Problem → String
  | takesNoOperands name => s!"{name} takes no operands"
  | unknownMnemonic cs => s!"unknown mnemonic {String.ofList cs}"
  | invalidLabel cs => s!"{String.ofList cs} is not a valid label"
  | duplicateLabel cs => s!"{String.ofList cs} has already been defined"
  | operandCount m given =>
    let allowed := String.intercalate " or " ((operandCounts m.kind).map toString)
    s!"{m.name} has {given} operands but {allowed} required"
  | emptyOperand => "empty operand"
  | notRegister cs => s!"{String.ofList cs} is not a register"
  | notNumber what cs => s!"{String.ofList cs} is not a valid {what.name}"
  | outsideRange what x => s!"{what.name} {x} is outside {what.least}..{what.greatest}"
  | notMemory cs => s!"{String.ofList cs} must be offset(register)"
  | invalidTarget cs => s!"{String.ofList cs} is not a valid target"
  | undefinedLabel cs => s!"label {String.ofList cs} is not defined"
  | oddOffset x => s!"target offset {x} is not even"
  | offsetTooFar f x => s!"target offset {x} does not fit in a {f.letter}-format immediate"

/-- What the assembler notes about a statement. -/
inductive Remark where
  | problem (p : Problem)
  | rewritten (target : Mnemonic) (operands : List (List Char))
  | bound (label : List Char) (address : Nat)
  | resolved (label : List Char) (address : Nat) (offset : Int)
  | stopped (e : Text.Excess)
  deriving DecidableEq, Repr

namespace Remark

/-- The problem that a remark reports. -/
def problem? : Remark → Option Problem
  | problem p => some p
  | _ => none

/-- The excess of digits at which a remark says that the assembler stopped. -/
def excess? : Remark → Option Text.Excess
  | stopped e => some e
  | _ => none

/-- The label that a remark resolves. -/
def resolved? : Remark → Option (List Char)
  | resolved label _ _ => some label
  | _ => none

/-- The text of a remark on the statement of a line. -/
def text (line : Nat) : Remark → String
  | problem p => s!"line {line}: {p.message}"
  | rewritten target operands =>
    s!"pseudo instruction rewritten to {target.name} {String.ofList (Text.quotedList operands)}"
  | bound label address => s!"label {String.ofList label} = {Numeral.marked 1 address}"
  | resolved label address offset =>
    s!"target {String.ofList label} = {Numeral.marked 1 address} offset={offset}"
  | stopped e => e.message

end Remark

/-- A counter of problems after more remarks. -/
def tally (count : Nat) (remarks : List Remark) : Nat :=
  remarks.foldl (fun n r => if r.problem?.isSome then n + 1 else n) count

theorem tally_eq (count : Nat) (remarks : List Remark) :
    tally count remarks = count + (remarks.filterMap Remark.problem?).length := by
  unfold tally
  induction remarks generalizing count with
  | nil => rfl
  | cons r remarks ih =>
      rw [List.foldl_cons, ih]
      cases hproblem : r.problem? with
      | none => simp [hproblem]
      | some p => simp [hproblem, Nat.add_assoc, Nat.add_comm 1]

end Rv32.Assembly
