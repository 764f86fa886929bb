import Rv32.Assembly.Program
import Rv32.Command.Arguments
import Rv32.Machine.Display
import Rv32.Machine.Request
import Rv32.Text.Utf8

/-!
# What a command does

The console shows ordinary lines always, details only when they are asked for, and complaints
unless they are switched off.  An alarm is shown in bold red.  Each function gives the text that
appears, with its line end, or nothing.

A command assembles a source, runs it or decodes words, and leaves an exit status and the text that
appeared on the console while it was carried out.  What is refused is told in an alarm; such a
command ends with status one, and what it has shown before stays.  A number with too many digits to
be shown stops a command like any other failure, also a command that has come to its last words,
which then remain unsaid.  The reading of source files is left to the caller, who hands over their
bytes.
-/

namespace Rv32

/-! ## The console -/

/-- What the console shows. -/
structure Console where
  details : Bool := false
  complaints : Bool := true
  deriving DecidableEq, Repr

namespace Console

/-- A line of output. -/
def line (text : String) : String := text ++ "\n"

/-- A detail, if details are asked for. -/
def detail (c : Console) (text : String) : String := if c.details then line text else ""

/-- A complaint, unless complaints are switched off. -/
def complaint (c : Console) (text : String) : String := if c.complaints then line text else ""

/-- A text in bold red. -/
def alarm (text : String) : String := line s!"\x1b[91m\x1b[1m{text}\x1b[0m"

/-- Several details, which are not even computed unless they are asked for. -/
def narrate (c : Console) (texts : Unit → List String) : String :=
  if c.details then String.join ((texts ()).map line) else ""

end Console

/-! ## Outcomes -/

namespace Command

/-- The result of a command. -/
structure Outcome where
  status : Nat
  text : String
  deriving DecidableEq, Repr

namespace Outcome

/-- A command that came through. -/
def success (text : String) : Outcome := ⟨0, text⟩

/-- A command that was refused, with the text that says why. -/
def refused (text : String) : Outcome := ⟨1, text⟩

/-- An outcome with text before its own. -/
def following (text : String) (o : Outcome) : Outcome := { o with text := text ++ o.text }

@[simp] theorem status_following (text : String) (o : Outcome) :
    (o.following text).status = o.status := rfl

@[simp] theorem text_following (text : String) (o : Outcome) :
    (o.following text).text = text ++ o.text := rfl

end Outcome

/-! ## Commands -/

/-- The text that explains the commands. -/
def overview : String :=
  String.join ([
    "usage: rv32i-sim [-h] \x7bassemble,run,decode\x7d ...",
    "",
    "RV32I assembler and datapath simulator",
    "",
    "positional arguments:",
    "  \x7bassemble,run,decode\x7d",
    "                        Available commands",
    "    assemble            Assemble an RV32I assembly file",
    "    run                 Assemble and run an RV32I assembly file",
    "    decode              Decode hexadecimal instruction words",
    "",
    "options:",
    "  -h, --help            show this help message and exit"].map Console.line)

/-- The alarm for what is wrong with a source: its first complaint, then the others plainly. -/
def refusalText (console : Console) : Assembly.Refusal → String
  | .complaints first all =>
    Console.alarm first.text ++
      String.join ((all.drop 1).map fun c => console.complaint c.text)
  | .excess e => Console.alarm s!"Error: {e.message}"

/-- The alarm for a failure, which is marked as an error where it is about a plain value. -/
def failureText (r : Report) : String :=
  Console.alarm (if r.failure = .value then s!"Error: {r.message}" else r.message)

/-- Reads the source in the bytes of a file and goes on with its text.  No file has a null
character in its name. -/
def withSource (file : List Char) (bytes? : Option (List UInt8))
    (next : List Char → Outcome) : Outcome :=
  if file.contains '\x00' then .refused (Console.alarm "Error: embedded null byte")
  else match bytes? with
  | none => .refused (Console.alarm s!"Error: File not found at {String.ofList file}")
  | some bytes =>
    match Text.Utf8.decode bytes with
    | .error m => .refused (Console.alarm s!"Error: {m.message}")
    | .ok cs => next (Text.normalizeNewlines cs)

/-- Assembles a source and goes on with its program. -/
def withProgram (console : Console) (source : List Char)
    (next : Assembly.Program → Outcome) : Outcome :=
  .following
    (console.narrate fun _ => (Assembly.layout source).program.narration) <|
  match Assembly.assemble source with
  | .error r => .refused (refusalText console r)
  | .ok p => next p

/-- Shows the listing and the symbols of a source. -/
def assembleSource (console : Console) (source : List Char) : Outcome :=
  withProgram console source fun p =>
    .success (String.join (["Assembly successful!", p.listing, "",
      Assembly.symbolTable p.symbols].map Console.line))

/-- What appears for one instruction of a run. -/
def showStep (console : Console) (trace : Bool) (map : Assembly.SourceMap)
    (before after : Machine) (outcome : Except Fault Trace) : String :=
  console.narrate (fun _ => before.stepNarration) ++
  match outcome with
  | .error _ => ""
  | .ok t =>
    if trace && !Text.exceedsLimit after.cycles then
      let line := match map.lineOf? t.counterBefore with
        | some n => toString n
        | none => "None"
      console.narrate (fun _ => t.instruction.textNarration) ++
        Console.line s!"[{after.cycles}] line {line}: {t.text}"
    else ""

/-- A text that shows a number in decimal digits, unless there are too many of them. -/
def showing (x : Int) (text : String) : Except Report String :=
  if Text.exceedsLimit x then .error (.excess .shown) else .ok text

/-- The last words on a run, unless they cannot be shown.  They are about the faults of a machine; a
failure that is about a plain value ends the command. -/
def summary (words limit : Int) (m : Machine) (fault : Option Fault) : Except Report String :=
  match fault with
  | some e =>
    if e.report.failure = .value then .error e.report
    else showing m.cycles <| Console.alarm <|
      s!"Stopped at pc={Numeral.marked 1 m.counter.value} " ++
        s!"after {m.cycles} instructions: {e.report.message}"
  | none =>
    if m.finished words then
      showing m.cycles (Console.line s!"Program finished after {m.cycles} instructions.")
    else
      showing limit (Console.line s!"Emulator stopped after {limit} instructions (limit reached).")

/-- Runs a loaded program. -/
def runLoaded (console : Console) (settings : Settings) (p : Assembly.Program)
    (m : Machine) : Outcome :=
  let words : Int := p.machineCode.length
  let map := p.sourceMap []
  let d := m.drive words settings.steps
    (fun seen before after outcome =>
      seen ++ showStep console settings.trace map before after outcome) ""
  .following (Console.line "\n--- Running Emulator ---" ++ d.seen) <|
  match summary words settings.steps d.machine d.fault with
  | .error r => .refused (failureText r)
  | .ok text =>
    ⟨if d.fault.isSome then 1 else 0,
      text ++ Console.line "------------------------" ++
        (if settings.regDump then Console.line d.machine.registers.table else "") ++
        (if settings.memDump then Console.line d.machine.memoryTable else "")⟩

/-- Assembles a source, loads it into a new machine and runs it. -/
def runSource (console : Console) (settings : Settings) (source : List Char) : Outcome :=
  withProgram console source fun p =>
    let programWords := settings.programWords.getD Machine.defaultWords
    let dataWords := settings.dataWords.getD Machine.defaultWords
    let start := settings.pc.getD 0
    .following
      (console.narrate fun _ => [Machine.createNarration programWords dataWords start]) <|
    match Machine.create (.integer programWords) (.integer dataWords) start with
    | .error e => .refused (failureText e.report)
    | .ok m =>
      .following (console.narrate fun _ => Machine.loadNarration p.machineCode) <|
      match m.loadProgram p.machineCode with
      | (_, .error e) => .refused (failureText e.report)
      | (m, .ok _) => runLoaded console settings p m

/-- The complaint about a text that is no hexadecimal integer, of which the beginning is shown. -/
def invalidLiteral (cs : List Char) : String :=
  s!"Error: invalid literal for int() with base 16: {String.ofList ((Text.quoted cs).take 200)}"

/-- Shows what each word means, until one is refused. -/
def decodeWords (console : Console) : List (List Char) → Outcome
  | [] => .success ""
  | cs :: rest =>
    match integer? .hexadecimal cs with
    | none => .refused (Console.alarm (invalidLiteral cs))
    | some x =>
      match Instruction.decode x with
      | .error e => .refused (failureText e.report)
      | .ok i =>
        .following
          (console.narrate (fun _ => i.textNarration) ++
            Console.line s!"{Word.hex8 i.word}  {i.text}" ++
            console.detail i.decodeNarration ++
            Console.line s!"  {i.controlText}")
          (decodeWords console rest)

/-- The file that a command reads. -/
def Invocation.file? : Invocation → Option (List Char)
  | .assemble file _ => some file
  | .run file _ _ => some file
  | _ => none

/-- The outcome of a command, given the bytes of the file that it reads. -/
def perform (bytes? : Option (List UInt8)) : Invocation → Outcome
  | .overview => .refused overview
  | .assemble file verbose =>
    withSource file bytes? (assembleSource { details := verbose })
  | .run file settings verbose =>
    withSource file bytes? (runSource { details := verbose } settings)
  | .decode words verbose => decodeWords { details := verbose } words

/-- The outcome of the arguments.  A misuse shows nothing here. -/
def respond (contents : List Char → Option (List UInt8)) (args : List (List Char)) : Outcome :=
  match parse args with
  | .error .help => .success overview
  | .error .misuse => ⟨2, ""⟩
  | .ok invocation => perform (invocation.file?.bind contents) invocation

end Command

end Rv32
