import Rv32.Instruction.Basic
import Rv32.Machine.Step

/-!
# What a machine shows

The trace of an instruction is shown on several lines: where and what it is, its control signals,
the values in the datapath, and then only what happened: an access to memory, a taken branch, a
value written back.

When details are asked for, the machine tells what each stage of an instruction does.  A stage
that is refused tells nothing, and neither do the stages after it.
-/

namespace Rv32

/-! ## Traces and memory -/

/-- The trace of an instruction as text. -/
def Trace.text (t : Trace) : String :=
  let i := t.instruction
  let immediate := match t.immediate with
    | some x => toString x
    | none => "None"
  let memory := match t.memoryAddress with
    | none => ""
    | some a =>
      s!"\n  mem[{Numeral.marked 1 a}]" ++
        (match t.memoryRead with
          | some x => s!" -> {x}"
          | none => "") ++
        (if i.signals.memWrite then s!" <- {t.rs2}" else "")
  let written := match t.writeBack with
    | some x => s!"\n  x{i.rd.val} := {x}"
    | none => ""
  s!"pc={Numeral.marked 4 t.counterBefore} {Word.hex8 i.word}  {i.text}\n" ++
    s!"  {i.controlText}\n" ++
    s!"  imm={immediate} rs1={t.rs1} rs2={t.rs2} a={t.operandA} b={t.operandB} " ++
    s!"alu={t.alu.value} flags={t.alu.flags}" ++
    memory ++ (if t.taken then "\n  branch taken" else "") ++ written ++
    s!"\n  pc -> {Numeral.marked 4 t.counterAfter}"

/-- The words of data memory other than zero, a line each. -/
def Machine.memoryTable (m : Machine) : String :=
  match m.data.nonzero with
  | [] => "(all data memory words are zero)"
  | words => String.intercalate "\n"
      (words.map fun (a, x) => s!"0x{Numeral.hex 4 a.toNat}: 0x{Word.hex8 x} ({x})")

/-! ## Details -/

namespace Instruction

/-- How an instruction was decoded. -/
def decodeNarration (i : Instruction) : String := s!"decode {Word.hex8 i.word} {i.controlText}"

/-- How the immediate of an instruction was gathered, where it has one. -/
def immediateNarration (i : Instruction) : List String :=
  match i.signals.immediate with
  | none => []
  | some f => [s!"immediate {f.letter} word={Word.hex8 i.word} imm={f.generate i.word}"]

/-- How an instruction was turned into text. -/
def textNarration (i : Instruction) : List String := i.decodeNarration :: i.immediateNarration

end Instruction

/-- A word read from a store. -/
def readNarration (kind : StoreKind) (address value : Int) : String :=
  s!"{kind.name} read {Numeral.marked 1 address} = {Word.shown value}"

/-- A word written to a store. -/
def writeNarration (kind : StoreKind) (address value : Int) : String :=
  s!"{kind.name} write {Numeral.marked 1 address} := {Word.shown value}"

/-- What the arithmetic unit did. -/
def Execution.narration (i : Instruction) (x : Execution) : String :=
  s!"alu {i.operation.name} a={Word.shown x.operandA} b={Word.shown x.operandB} {x.alu}"

namespace Machine

/-- A store reset. -/
def resetNarration (kind : StoreKind) : String := s!"reset {kind.name} memory"

/-- How a machine was built. -/
def createNarration (programWords dataWords start : Int) : String :=
  s!"new EmulatorState program_words={programWords} data_words={dataWords} " ++
    s!"pc={Numeral.marked 1 start}"

/-- How a program was loaded. -/
def loadNarration (words : List Int) : List String :=
  [s!"load_program {words.length} words", resetNarration .program, "reset the processor",
   "Resetting registers", resetNarration .data]

/-- What happened in memory. -/
def accessNarration (i : Instruction) (x : Execution) (a : Access) : List String :=
  match a.loaded with
  | some value => [readNarration .data x.alu.value value]
  | none => if i.signals.memWrite then [writeNarration .data x.alu.value x.rs2] else []

/-- What was written back. -/
def writtenNarration (i : Instruction) : Option Int → List String
  | some value => [s!"x{i.rd.val} := {Word.shown value}"]
  | none => []

/-- What the machine tells of its next instruction. -/
def stepNarration (m : Machine) : List String :=
  if Text.exceedsLimit m.cycles then [] else
  let pc := m.counter.value
  s!"step pc={Numeral.marked 1 pc} cycle={m.cycles}" ::
  match m.program.read pc with
  | .error _ => []
  | .ok w =>
    readNarration .program pc w ::
    match Instruction.decode w with
    | .error _ => []
    | .ok i =>
      let x := m.execute i
      i.textNarration ++ x.narration i ::
      match m.access i x with
      | .error _ => []
      | .ok a => accessNarration i x a ++ writtenNarration i (m.writeBack i x a.loaded)

end Machine

end Rv32
