import Rv32.Command.Integer

/-!
# Command-line arguments

The program has three commands, each with options and one kind of operand.  An option may be
shortened as long as no other option of its command starts the same way.  Its value is the next
argument or follows an equals sign.  An argument that starts with a dash is an option unless it
reads as a negative number or holds a space; a bare double dash ends the options.  Arguments that
fit nowhere make a misuse, and so do missing operands and values that are no integers.
-/

namespace Rv32.Command

/-- The options of all commands. -/
inductive Flag where
  | help | verbose | steps | trace | memDump | regDump | programWords | dataWords | pc
  deriving DecidableEq, Repr

namespace Flag

/-- The spellings of an option. -/
def spellings : Flag → List String
  | help => ["-h", "--help"]
  | verbose => ["--verbose"]
  | steps => ["--steps"]
  | trace => ["--trace"]
  | memDump => ["--mem-dump"]
  | regDump => ["--reg-dump"]
  | programWords => ["--program-words"]
  | dataWords => ["--data-words"]
  | pc => ["--pc"]

/-- How an option reads its value, if it takes one. -/
def base? : Flag → Option Base
  | steps | programWords | dataWords => some .decimal
  | pc => some .marked
  | _ => none

end Flag

/-- Why the arguments ask for no command. -/
inductive Stop where
  | help
  | misuse
  deriving DecidableEq, Repr

/-- What an argument is. -/
inductive Token where
  | operand (text : List Char)
  | mark
  | flag (f : Flag) (value : Option (List Char))
  | stray
  deriving DecidableEq, Repr

/-- Whether a text reads as a negative number.  One line feed at its end does not count. -/
def looksNegative : List Char → Bool
  | '-' :: cs =>
    let digit (c : Char) : Bool := (Text.decimalValue? c).isSome
    let cs := if cs.getLast? = some '\n' then cs.dropLast else cs
    match cs.dropWhile digit with
    | [] => !cs.isEmpty
    | '.' :: part => !part.isEmpty && part.all digit
    | _ => false
  | _ => false

/-- A text before its first equals sign, and what follows the sign. -/
def splitEquals (cs : List Char) : List Char × Option (List Char) :=
  (cs.takeWhile (· != '='), match cs.dropWhile (· != '=') with
    | [] => none
    | _ :: value => some value)

/-- What follows an option of one letter within its argument, as a value.  Letters that are options
themselves are joined to it and are no value. -/
def joined (flags : List Flag) (cs : List Char) : Option (List Char) :=
  let isOption (c : Char) : Bool :=
    flags.any fun f => f.spellings.any fun s => s.toList == ['-', c]
  if !cs.isEmpty && cs.all isOption then none else some cs

/-- The options that a text may be short for, with the value that is part of it. -/
def expand (flags : List Flag) (cs : List Char) : List (Flag × Option (List Char)) :=
  match cs with
  | '-' :: '-' :: _ =>
    let (stem, value) := splitEquals cs
    flags.flatMap fun f =>
      (f.spellings.filter fun s => stem.isPrefixOf s.toList).map fun _ => (f, value)
  | _ =>
    flags.flatMap fun f =>
      (f.spellings.filter fun s => s.toList == cs.take 2).map fun _ => (f, joined flags (cs.drop 2))

/-- The option that a text spells out. -/
def spelled? (flags : List Flag) (cs : List Char) : Option Flag :=
  flags.find? fun f => f.spellings.any fun s => s.toList == cs

/-- What an argument is, before any mark. -/
def classify (flags : List Flag) (cs : List Char) : Except Stop Token :=
  match cs with
  | '-' :: rest =>
    match spelled? flags cs with
    | some f => .ok (.flag f none)
    | none =>
      if rest.isEmpty then .ok (.operand cs)
      else
        let (stem, value) := splitEquals cs
        match if value.isSome then spelled? flags stem else none with
        | some f => .ok (.flag f (if stem.length = 2 then value.bind (joined flags) else value))
        | none =>
          match expand flags cs with
          | [(f, v)] => .ok (.flag f v)
          | [] =>
            if looksNegative cs || cs.contains ' ' then .ok (.operand cs) else .ok .stray
          | _ => .error .misuse
  | _ => .ok (.operand cs)

/-- What the arguments are: after a mark, all are operands. -/
def tokens (flags : List Flag) : List (List Char) → Except Stop (List Token)
  | [] => .ok []
  | cs :: rest =>
    if cs = ['-', '-'] then .ok (.mark :: rest.map .operand)
    else do
      let t ← classify flags cs
      let ts ← tokens flags rest
      return t :: ts

/-- Where the reader stands among the operands: they must stand together. -/
inductive Stage where
  | before | inside | behind
  deriving DecidableEq, Repr

/-- What has been read so far. -/
structure Reading where
  stage : Stage := .before
  operands : List (List Char) := []
  raised : List Flag := []
  numbers : List (Flag × Int) := []
  stray : Bool := false

namespace Reading

/-- One more operand; a command takes one operand or many. -/
def addOperand (many : Bool) (r : Reading) (cs : List Char) : Reading :=
  match r.stage with
  | .before => { r with stage := .inside, operands := [cs] }
  | .inside =>
    if many then { r with operands := r.operands ++ [cs] } else { r with stray := true }
  | .behind => { r with stray := true }

/-- One more mark. -/
def addMark (r : Reading) : Reading :=
  match r.stage with
  | .behind => { r with stray := true }
  | _ => r

/-- An option ends the operands. -/
def close (r : Reading) : Reading :=
  match r.stage with
  | .inside => { r with stage := .behind }
  | _ => r

/-- One more value of an option. -/
def addNumber (r : Reading) (f : Flag) (base : Base) (cs : List Char) : Except Stop Reading :=
  match integer? base cs with
  | some n => .ok { r with numbers := (f, n) :: r.numbers }
  | none => .error .misuse

/-- The value of an option; where it is given several times, the last one counts. -/
def number? (r : Reading) (f : Flag) : Option Int := r.numbers.lookup f

/-- Whether an option without a value is given. -/
def has (r : Reading) (f : Flag) : Bool := r.raised.contains f

/-- The reading after an option that takes no value. -/
def raise (r : Reading) (f : Flag) : Except Stop Reading :=
  if f = .help then .error .help else .ok { r with raised := f :: r.raised }

end Reading

/-- Reads the arguments of a command. -/
def read (many : Bool) (r : Reading) : List Token → Except Stop Reading
  | [] => if r.stray || r.stage = .before then .error .misuse else .ok r
  | .operand cs :: ts => read many (r.addOperand many cs) ts
  | .mark :: ts => read many r.addMark ts
  | .stray :: ts => read many { r.close with stray := true } ts
  | .flag f (some cs) :: ts =>
    match f.base? with
    | some base => do read many (← r.close.addNumber f base cs) ts
    | none => .error .misuse
  | .flag f none :: .operand cs :: ts =>
    match f.base? with
    | some base => do read many (← r.close.addNumber f base cs) ts
    | none => do read many (← r.close.raise f) (.operand cs :: ts)
  | .flag f none :: ts =>
    match f.base? with
    | some _ => .error .misuse
    | none => do read many (← r.close.raise f) ts
termination_by ts => ts.length

/-- How a program is run. -/
structure Settings where
  steps : Int := 1000
  trace : Bool := false
  memDump : Bool := false
  regDump : Bool := false
  programWords : Option Int := none
  dataWords : Option Int := none
  pc : Option Int := none
  deriving DecidableEq, Repr

/-- What the arguments ask for. -/
inductive Invocation where
  | overview
  | assemble (file : List Char) (verbose : Bool)
  | run (file : List Char) (settings : Settings) (verbose : Bool)
  | decode (words : List (List Char)) (verbose : Bool)
  deriving DecidableEq, Repr

/-- The options of running a program. -/
def runFlags : List Flag :=
  [.help, .steps, .trace, .memDump, .regDump, .programWords, .dataWords, .pc, .verbose]

/-- Reads the arguments that follow the name of a command. -/
def readCommand (name : List Char) (args : List (List Char)) : Except Stop Invocation :=
  if name = "assemble".toList then do
    let r ← read false {} (← tokens [.help, .verbose] args)
    return .assemble (r.operands.headD []) (r.has .verbose)
  else if name = "run".toList then do
    let r ← read false {} (← tokens runFlags args)
    let settings : Settings :=
      { steps := (r.number? .steps).getD 1000
        trace := r.has .trace
        memDump := r.has .memDump
        regDump := r.has .regDump
        programWords := r.number? .programWords
        dataWords := r.number? .dataWords
        pc := r.number? .pc }
    return .run (r.operands.headD []) settings (r.has .verbose)
  else if name = "decode".toList then do
    let r ← read true {} (← tokens [.help, .verbose] args)
    return .decode r.operands (r.has .verbose)
  else .error .misuse

/-- Reads all arguments: the name of the command comes first.  A stray option before it is a
misuse, unless the command is asked for help. -/
def parse : List (List Char) → Except Stop Invocation
  | [] => .ok .overview
  | cs :: rest =>
    if cs = ['-', '-'] then .error .misuse
    else
      match classify [.help] cs with
      | .error stop => .error stop
      | .ok (.operand name) => readCommand name rest
      | .ok .mark => .error .misuse
      | .ok (.flag _ none) => .error .help
      | .ok (.flag _ (some _)) => .error .misuse
      | .ok .stray =>
        match parse rest with
        | .error stop => .error stop
        | .ok _ => .error .misuse

end Rv32.Command
