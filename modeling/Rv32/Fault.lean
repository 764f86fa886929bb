import Rv32.Datum
import Rv32.Instruction.Kind
import Rv32.Text.Basic
import Rv32.Word

/-!
# Faults

A fault is the cause for which an operation is refused.  `Fault.report` says what a caller is told
of it: the class of the failure, the value it is about where the class has one, and the wording.
A wording that would have to show a number with too many decimal digits is never completed, and the
caller is told of the excess of digits instead.

Many faults name one of the two word stores of a machine, the one for its program or the one for
its data.  The stores differ in their names and in the view of a word that they keep.
-/

namespace Rv32

/-! ## The two word stores -/

/-- Which store is meant. -/
inductive StoreKind where
  | program | data
  deriving DecidableEq, Repr

namespace StoreKind

/-- The name of a store. -/
def name : StoreKind → String
  | program => "program"
  | data => "data"

/-- The view that a store keeps of a word. -/
def view : StoreKind → Int → Int
  | program => Word.unsigned
  | data => Word.signed

@[simp] theorem view_view (k : StoreKind) (x : Int) : k.view (k.view x) = k.view x := by
  cases k <;> simp [view]

@[simp] theorem unsigned_view (k : StoreKind) (x : Int) :
    Word.unsigned (k.view x) = Word.unsigned x := by
  cases k <;> simp [view]

end StoreKind

/-! ## The causes -/

/-- The causes for which an operation is refused. -/
inductive Fault where
  | addressNotInteger (store : StoreKind) (address : Datum)
  | addressUnaligned (store : StoreKind) (address : Datum)
  | addressOutside (store : StoreKind) (address : Datum)
  | loadTooLong (store : StoreKind) (base : Datum) (count : Nat) (size : Datum)
  | counterUnaligned (counter : Int)
  | noSuchRegister (index : Datum)
  | unknownOpcode (word : Int)
  | unknownFunction (kind : Kind) (word : Int)
  | unknownOperation (operation : Datum)
  | unknownFormat (format : Datum)
  | invalidCapacity (store : StoreKind) (size : Datum)
  | noWordList (store : StoreKind)
  | wordCount (store : StoreKind) (given : Nat) (size : Datum)
  | registerCount
  | stateNotRecord
  | stateWithout (key : String)
  | dataWordCount (size : Datum)
  | counterRejected (counter : Datum)
  | cyclesRejected (cycles : Datum)
  | programWordCount (size : Datum)
  | negativeShift
  | excess (e : Text.Excess)

/-- The classes of failures that a caller can tell apart. -/
inductive FailureClass where
  | address | register | instruction | operation | state | general | value
  deriving DecidableEq, Repr

/-- What a caller is told of a failure. -/
structure Report where
  failure : FailureClass
  subject : Option Datum := none
  message : String

namespace Report

/-- A failure about an address. -/
def address (address : Datum) (message : String) : Report :=
  { failure := .address, subject := some address, message }

/-- A failure about a register index. -/
def register (index : Datum) : Report :=
  { failure := .register, subject := some index
    message := s!"register index {index} is outside 0..31" }

/-- A failure about an instruction word, which is shown after the reason. -/
def instruction (word : Int) (reason : String) : Report :=
  { failure := .instruction, subject := some (.integer word)
    message := s!"{reason} (instruction 0x{Word.hex8 word})" }

/-- A failure to read a number from its digits or to show it in them. -/
def excess (e : Text.Excess) : Report := { failure := .value, message := e.message }

end Report

namespace Fault

/-- The values that the wording of a fault shows in decimal digits and that nothing bounds.  The
size of a store that was built is no such value, since its words are all held in memory. -/
def shown : Fault → List Datum
  | addressNotInteger _ a => [a]
  | addressOutside _ a => [.integer (a.toInt / 4)]
  | noSuchRegister index => [index]
  | unknownOperation op => [op]
  | unknownFormat format => [format]
  | invalidCapacity _ size => [size]
  | counterRejected pc => [pc]
  | cyclesRejected cycles => [cycles]
  | _ => []

/-- The class of a fault, the value that it is about and its wording. -/
def account : Fault → Report
  | addressNotInteger store a =>
    .address a s!"{store.name} address {String.ofList a.quoted} is not an integer"
  | addressUnaligned store a =>
    .address a s!"{store.name} address {Numeral.marked 1 a.toInt} is not word aligned"
  | addressOutside store a =>
    .address a
      s!"{store.name} address {Numeral.marked 1 a.toInt} is out of range (word {a.toInt / 4})"
  | loadTooLong store base count size =>
    .address base
      (s!"{count} words do not fit in {store.name} memory at {Numeral.marked 1 base.toInt} " ++
        s!"({size} words)")
  | counterUnaligned pc =>
    .address (.integer pc) s!"pc {Numeral.marked 1 pc} is not word aligned"
  | noSuchRegister index => .register index
  | unknownOpcode word =>
    .instruction word s!"unsupported opcode 0b{Numeral.binary 7 (Word.opcode word).toNat}"
  | unknownFunction kind word =>
    .instruction word
      (s!"unsupported {kind.label} instruction " ++
        s!"funct3={Numeral.binary 3 (Word.funct3 word).toNat} " ++
        s!"funct7={Numeral.binary 7 (Word.funct7 word).toNat}")
  | unknownOperation op =>
    { failure := .operation, message := s!"unsupported ALU operation {String.ofList op.quoted}" }
  | unknownFormat format =>
    { failure := .operation
      message := s!"unknown immediate format {String.ofList format.quoted}" }
  | invalidCapacity store size =>
    { failure := .state, message := s!"invalid {store.name} memory size: {size}" }
  | noWordList store =>
    { failure := .state, message := s!"{store.name} memory state has no word list" }
  | wordCount store given size =>
    { failure := .state
      message := s!"{store.name} memory state has {given} words, memory has {size}" }
  | registerCount => { failure := .state, message := "register state must hold 32 values" }
  | stateNotRecord => { failure := .state, message := "machine state must be a dict" }
  | stateWithout key => { failure := .state, message := s!"machine state has no {key}" }
  | dataWordCount size =>
    { failure := .state, message := s!"data memory state must hold {size} words" }
  | counterRejected pc =>
    { failure := .state, message := s!"pc {String.ofList pc.quoted} is not a word aligned address" }
  | cyclesRejected cycles =>
    { failure := .state
      message := s!"cycle count {String.ofList cycles.quoted} is not a non-negative integer" }
  | programWordCount size =>
    { failure := .state, message := s!"snapshot must hold {size} program words" }
  | negativeShift => { failure := .value, message := "negative shift count" }
  | excess e => .excess e

/-- Whether the wording of a fault would show a number with too many digits. -/
def overlong (f : Fault) : Bool := f.shown.any Datum.exceedsLimit

/-- What a caller is told of a fault. -/
def report (f : Fault) : Report := if f.overlong then .excess .shown else f.account

/-- A fault is reported as what it is, unless its wording is too long to show. -/
theorem report_eq_account {f : Fault} (h : f.overlong = false) : f.report = f.account := by
  simp [report, h]

theorem report_eq_excess {f : Fault} (h : f.overlong = true) : f.report = .excess .shown := by
  simp [report, h]

end Fault

end Rv32
