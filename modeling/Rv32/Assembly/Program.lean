import Rv32.Assembly.Encoding
import Rv32.Word

/-!
# Programs

A second walk through the statements builds the words, with every label known.  The result is a
program: each statement with its word, if it has one, and the symbols with the lines that use them.
Machine code, line map and source map are read off it; the source map says from which line each
word came, and where several of its pairs share an address, the first one counts.  `assemble` gives
the program of a source in which nothing is wrong, and otherwise every complaint, in the order of
the lines, unless a number with too many digits stopped the assembler.

Whether anything is wrong is told by a counter of its own, which goes up with every problem in
either walk; `errorCount_eq` says that the counter and the complaints agree.

When details are asked for, the assembler tells what it does line by line: how it reads a line and
what address it gives it, then how it builds the word, and last what came of it.  Where a number
with too many digits stops it, it tells nothing more.
-/

namespace Rv32.Assembly

/-! ## Source maps -/

/-- Pairs of an address and a source line, and the lines of the listing. -/
structure SourceMap where
  pairs : List (Int × Int) := []
  listing : List String := []
  deriving DecidableEq, Repr

namespace SourceMap

/-- The map with one more pair. -/
def addPair (s : SourceMap) (address line : Int) : SourceMap :=
  { s with pairs := s.pairs ++ [(address, line)] }

/-- The map with one more line of listing. -/
def addLine (s : SourceMap) (line : String) : SourceMap :=
  { s with listing := s.listing ++ [line] }

/-- The source line of the word at an address. -/
def lineOf? (s : SourceMap) (address : Int) : Option Int := s.pairs.lookup address

/-- The listing as text. -/
def text (s : SourceMap) : String := String.intercalate "\n" s.listing

end SourceMap

/-! ## Statements with their words -/

/-- A statement with its word and the remarks made on the way to it. -/
structure Encoded where
  statement : Statement
  word : Option Int
  remarks : List Remark
  deriving DecidableEq, Repr

/-- What is wrong with a line of source. -/
structure Complaint where
  line : Int
  source : List Char
  message : String
  deriving DecidableEq, Repr

/-- The wording of a complaint about a line of source. -/
def complaintText (line source message : String) : String :=
  s!"Error on line {line} (\"{source}\"): {message}"

/-- The wording of a complaint, with its line. -/
def Complaint.text (c : Complaint) : String :=
  complaintText (toString c.line) (String.ofList c.source) c.message

namespace Encoded

/-- The problems of a statement. -/
def problems (e : Encoded) : List Problem :=
  e.statement.problems ++ e.remarks.filterMap Remark.problem?

/-- The complaints about a statement. -/
def complaints (e : Encoded) : List Complaint :=
  e.problems.map fun p => ⟨e.statement.number, e.statement.source, p.message⟩

theorem length_complaints (e : Encoded) :
    e.complaints.length =
      (e.statement.remarks.filterMap Remark.problem?).length +
        (e.remarks.filterMap Remark.problem?).length := by
  simp [complaints, problems, Statement.problems]

/-- The excess of digits that stopped the assembler at a statement, if any. -/
def excess? (e : Encoded) : Option Text.Excess := e.remarks.findSome? Remark.excess?

/-- The word that a statement puts into the program: zero in the place of one that is missing, and
none where the line carries no operation. -/
def emitted (e : Encoded) : Option Int :=
  match e.statement.operation with
  | .none => none
  | _ => some (e.word.getD 0)

/-- The line of the listing: number, address and word, and the source. -/
def listingLine (e : Encoded) : String :=
  let s := e.statement
  match e.word with
  | some w =>
    s!"{Numeral.column 4 s.number} {Numeral.hex 4 s.address} {Word.hex8 w} " ++
      String.ofList s.source
  | none => Numeral.column 4 s.number ++ String.ofList (List.replicate 15 ' ' ++ s.source)

end Encoded

/-- The statements of a source with their words, and its symbols. -/
structure Program where
  statements : List Encoded
  symbols : List Symbol
  location : Nat
  deriving DecidableEq, Repr

/-- A statement with its word. -/
def encodeStatement (symbols : List Symbol) (s : Statement) : Encoded :=
  match s.operation with
  | .known m =>
    let checked := encode symbols s.address m s.operands
    ⟨s, checked.value, checked.remarks⟩
  | _ => ⟨s, none, []⟩

/-- The lines that use a label, in order. -/
def usesOf (statements : List Encoded) (label : List Char) : List Nat :=
  statements.flatMap fun e =>
    (e.remarks.filterMap Remark.resolved?).filterMap fun l =>
      if l == label then some e.statement.number else none

/-- The program of a layout. -/
def Layout.program (l : Layout) : Program :=
  let statements := l.statements.map (encodeStatement l.symbols)
  { statements
    symbols := l.symbols.map fun s => { s with uses := usesOf statements s.name }
    location := l.location }

/-- The heading of a listing. -/
def listingHeading : String := "Line Addr Code     Source"

namespace Program

/-- The words of a program. -/
def machineCode (p : Program) : List Int := p.statements.filterMap Encoded.emitted

/-- The source line of each word. -/
def lineMap (p : Program) : List Nat :=
  p.statements.filterMap fun s => s.emitted.map fun _ => s.statement.number

/-- The source map of a program, with the lines of the listing after those given. -/
def sourceMap (p : Program) (heading : List String) : SourceMap :=
  { pairs := p.statements.filterMap fun s =>
      s.emitted.map fun _ => ((s.statement.address : Int), (s.statement.number : Int))
    listing := heading ++ p.statements.map Encoded.listingLine }

/-- The complaints about all statements. -/
def complaints (p : Program) : List Complaint := p.statements.flatMap Encoded.complaints

/-- The excess of digits that stopped the assembler, if any. -/
def excess? (p : Program) : Option Text.Excess := p.statements.findSome? Encoded.excess?

/-- The counter of the problems that the assembler has come across.  The first walk goes through the
remarks on the lines, the second through those on the words. -/
def errorCount (p : Program) : Nat :=
  p.statements.foldl (fun n e => tally n e.remarks)
    (p.statements.foldl (fun n e => tally n e.statement.remarks) 0)

/-- A walk adds to the counter what it records of the statements. -/
theorem foldl_tally (remarks : Encoded → List Remark) (statements : List Encoded) (n : Nat) :
    statements.foldl (fun n e => tally n (remarks e)) n =
      n + (statements.flatMap fun e => (remarks e).filterMap Remark.problem?).length := by
  induction statements generalizing n with
  | nil => rfl
  | cons e statements ih =>
      rw [List.foldl_cons, ih, tally_eq, List.flatMap_cons, List.length_append, Nat.add_assoc]

/-- There are as many complaints as problems were counted. -/
theorem errorCount_eq (p : Program) : p.errorCount = p.complaints.length := by
  rw [errorCount, foldl_tally Encoded.remarks, foldl_tally fun e => e.statement.remarks, complaints]
  induction p.statements with
  | nil => rfl
  | cons e statements ih =>
      simp only [List.flatMap_cons, List.length_append, ← ih, Encoded.length_complaints]
      omega

theorem complaints_ne_nil {p : Program} (h : p.errorCount ≠ 0) : p.complaints ≠ [] := by
  intro hnil
  rw [errorCount_eq, hnil] at h
  exact h rfl

/-- The listing with its heading. -/
def listing (p : Program) : String := (p.sourceMap [listingHeading]).text

end Program

/-- The symbols in the order of their names. -/
def sortSymbols (symbols : List Symbol) : List Symbol :=
  symbols.mergeSort fun a b => !b.name.lex a.name fun c d => Nat.blt c.toNat d.toNat

/-- A symbol as a line of the table: name, address, definition and uses. -/
def Symbol.row (s : Symbol) : String :=
  String.ofList (List.rightpad 12 ' ' s.name) ++
    s!"  {Numeral.hex 4 s.address}  {Numeral.column 4 s.line}  " ++
    String.intercalate "," (s.uses.map toString)

/-- The table of the symbols. -/
def symbolTable (symbols : List Symbol) : String :=
  String.join ((["Symbol table", "Name          Addr   Def  Used"] ++
    (sortSymbols symbols).map Symbol.row).map (· ++ "\n"))

/-- Why a source is refused: the first complaint and all of them, or an excess of digits. -/
inductive Refusal where
  | complaints (first : Complaint) (all : List Complaint)
  | excess (e : Text.Excess)
  deriving DecidableEq, Repr

/-- The refusal of a program in which something is wrong. -/
def Program.refusal (p : Program) (h : p.errorCount ≠ 0) : Refusal :=
  .complaints (p.complaints.head (Program.complaints_ne_nil h)) p.complaints

/-- The program of a source in which nothing is wrong. -/
def assemble (source : List Char) : Except Refusal Program :=
  let p := (layout source).program
  match p.excess? with
  | some e => .error (.excess e)
  | none => if h : p.errorCount = 0 then .ok p else .error (p.refusal h)

section Assemble

variable {source : List Char}

theorem assemble_of_excess {x : Text.Excess} (h : (layout source).program.excess? = some x) :
    assemble source = .error (.excess x) := by
  simp only [assemble, h]

/-- A source is accepted where no problem was counted, which is where there is no complaint. -/
theorem assemble_of_complaints_nil (hexcess : (layout source).program.excess? = none)
    (h : (layout source).program.complaints = []) :
    assemble source = .ok (layout source).program := by
  have hcount : (layout source).program.errorCount = 0 := by
    rw [Program.errorCount_eq, h, List.length_nil]
  simp only [assemble, hexcess, dif_pos hcount]

theorem assemble_of_complaints_cons {c : Complaint} {cs : List Complaint}
    (hexcess : (layout source).program.excess? = none)
    (h : (layout source).program.complaints = c :: cs) :
    assemble source = .error (.complaints c (c :: cs)) := by
  have hcount : (layout source).program.errorCount ≠ 0 := by
    rw [Program.errorCount_eq, h, List.length_cons]
    exact Nat.succ_ne_zero _
  simp only [assemble, hexcess, dif_neg hcount, Program.refusal, h, List.head_cons]

end Assemble

/-! ## Narration -/

/-- How a line was read and placed. -/
def Statement.narration (s : Statement) : List String :=
  [s!"parse_asm_line {s.number}",
   s!"  fieldLabels = {String.ofList (Text.quotedList s.parts.labels)}",
   s!"  fieldOperation = /{String.ofList s.parts.operation}/",
   s!"  operands = {String.ofList (Text.quotedList s.parts.operands)}",
   s!"  fieldComment = /{String.ofList s.parts.comment}/"] ++
  s.remarks.map (Remark.text s.number) ++
  [s!"Pass 1 line {s.number} address={Numeral.marked 1 s.address} " ++
    s!"lc={Numeral.marked 1 (s.address + s.operation.size : Nat)}"]

/-- How the source map takes up a pair. -/
def pairNarration (address line : Int) : String :=
  s!"metadata add_mapping {Numeral.marked 1 address} -> line {line}"

/-- How a word was built. -/
def Encoded.narration (e : Encoded) : List String :=
  let s := e.statement
  [s!"Pass2 line {s.number} = /{String.ofList s.source}/"] ++
  (e.remarks.takeWhile (·.excess?.isNone)).map (Remark.text s.number) ++
  match e.excess?, e.emitted with
  | none, some w =>
    [pairNarration s.address s.number,
     s!"Pass2 {Numeral.marked 4 s.address} {Word.hex8 w}"]
  | _, _ => []

/-- How the words of statements were built, up to a statement at which the assembler stopped. -/
def encodedNarration : List Encoded → List String
  | [] => []
  | e :: es => e.narration ++ if e.excess?.isSome then [] else encodedNarration es

/-- What the assembler tells of a source. -/
def Program.narration (p : Program) : List String :=
  [s!"Assembler Pass 1: {p.statements.length} source lines"] ++
  p.statements.flatMap (·.statement.narration) ++
  ["Assembler Pass 2"] ++
  encodedNarration p.statements ++
  match p.excess? with
  | some _ => []
  | none =>
    if p.errorCount = 0 then [symbolTable p.symbols] else [s!"{p.errorCount} errors detected"]

end Rv32.Assembly
