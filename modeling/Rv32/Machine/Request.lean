import Rv32.Machine.Step

/-!
# Requests to a machine

`runSteps` carries out a given number of instructions.  `drive` carries out instructions until the
program counter has passed the program, a limit on the cycles is reached, or an instruction is
refused, and shows every attempt to an observer.  The cycle count grows by one with each
instruction, so what is left below the limit bounds the run.  What one instruction does is a
parameter of `driveFor`, which serves machines that announce their instructions and bare steps
alike.

The state of a machine can be kept outside and put back.  An exported state holds the program
counter, the cycle count, the registers and the data words; a snapshot also holds the program, so
that restoring it rebuilds the whole machine.  A state that is put back is checked as a whole
before anything is changed.  A machine that was restored announces itself with its cycle count;
where that count has too many digits to be shown, the caller is told so although the whole machine
has been put back.

What a user may ask of a machine is also here as data.  A request leaves a machine and has a reply
or is refused; what a refused request leaves depends on how far it got.
-/

namespace Rv32.Machine

/-! ## Runs -/

/-- Carries out `n` instructions and gives their traces, unless one is refused. -/
def runSteps (m : Machine) : Nat → Machine × Except Fault (List Trace)
  | 0 => (m, .ok [])
  | n + 1 =>
    match m.advance with
    | (m', .error e) => (m', .error e)
    | (m', .ok t) =>
      match m'.runSteps n with
      | (m'', .error e) => (m'', .error e)
      | (m'', .ok ts) => (m'', .ok (t :: ts))

/-- How a driven run ended: the machine, what the observer has gathered, and the fault that
stopped it, if any. -/
structure Drive (σ : Type) where
  machine : Machine
  seen : σ
  fault : Option Fault

/-- Carries out at most `fuel` instructions, each by `next`, while the program is not finished. -/
def driveFor {σ : Type} (next : Machine → Machine × Except Fault Trace) (words : Int)
    (observe : σ → Machine → Machine → Except Fault Trace → σ) :
    Nat → σ → Machine → Drive σ
  | 0, seen, m => ⟨m, seen, none⟩
  | fuel + 1, seen, m =>
    if m.finished words then ⟨m, seen, none⟩
    else
      match next m with
      | (m', .error e) => ⟨m', observe seen m m' (.error e), some e⟩
      | (m', .ok t) => driveFor next words observe fuel (observe seen m m' (.ok t)) m'

/-- Carries out instructions while the program of `words` words is not finished and fewer than
`limit` cycles have passed. -/
def drive {σ : Type} (words limit : Int)
    (observe : σ → Machine → Machine → Except Fault Trace → σ) (seen : σ) (m : Machine) :
    Drive σ :=
  driveFor advance words observe (limit - m.cycles).toNat seen m

/-! ## Kept states -/

/-- The parts of an exported state. -/
def stateFields (m : Machine) : List (List Char × Datum) :=
  [("pc".toList, .integer m.counter.value),
   ("cycles".toList, .integer m.cycles),
   ("registers".toList, .ofInts m.registers.toList),
   ("words".toList, .ofInts m.data.words.toList)]

/-- The state of a machine without its program. -/
def exportState (m : Machine) : Datum := .record m.stateFields

/-- The state of a machine with its program. -/
def snapshot (m : Machine) : Datum :=
  .record (m.stateFields ++ [("program".toList, .ofInts m.program.words.toList)])

/-- The value under a key of a kept state, which must be there. -/
def part (state : Datum) (key : String) : Except Fault Datum :=
  match state.get? key with
  | some d => .ok d
  | none => .error (.stateWithout key)

/-- A list of exactly `n` items. -/
def itemsOf (n : Nat) (fault : Fault) (d : Datum) : Except Fault (List Datum) :=
  match d.items? with
  | some items => if items.length = n then .ok items else .error fault
  | none => .error fault

/-- The program counter of a kept state: an aligned integer. -/
def counterOf (d : Datum) : Except Fault Int :=
  match d.integer? with
  | some n => if n % 4 = 0 then .ok n else .error (.counterRejected d)
  | none => .error (.counterRejected d)

/-- The cycle count of a kept state: an integer, not a truth value, and not negative. -/
def cyclesOf (d : Datum) : Except Fault Nat :=
  match d with
  | .integer n => if 0 ≤ n then .ok n.toNat else .error (.cyclesRejected d)
  | _ => .error (.cyclesRejected d)

/-- The machine with a kept state put back. -/
def importState (m : Machine) (state : Datum) : Except Fault Machine := do
  match state with
  | .record _ => pure ()
  | _ => throw .stateNotRecord
  let pc ← part state "pc"
  let cycles ← part state "cycles"
  let registers ← part state "registers"
  let words ← part state "words"
  let registerItems ← itemsOf 32 .registerCount registers
  let wordItems ← itemsOf m.data.capacity (.dataWordCount m.data.size) words
  let counter ← counterOf pc
  let cycles ← cyclesOf cycles
  let file ← RegisterFile.ofState (.record [("registers".toList, .list registerItems)])
  let data ← m.data.importState (.record [("words".toList, .list wordItems)])
  let counter ← m.counter.set counter
  return { m with data, registers := file, counter, cycles }

/-- The machine with a snapshot put back. -/
def restored (m : Machine) (state : Datum) : Except Fault Machine := do
  let program ← itemsOf m.program.capacity (.programWordCount m.program.size)
    ((state.get? "program").getD .null)
  let m' ← m.importState state
  return { m' with
    program := ← m.program.importState (.record [("words".toList, .list program)]) }

/-- The machine after a snapshot is put back and announced, or as it was where the snapshot is
refused. -/
def restore (m : Machine) (state : Datum) : Machine × Except Fault Unit :=
  match m.restored state with
  | .error e => (m, .error e)
  | .ok m' => (m', m'.announce)

/-! ## Requests and replies -/

/-- What may be asked of a machine. -/
inductive Request where
  | load (words : List Int)
  | step
  | steps (n : Int)
  | reset
  | exportState
  | snapshot
  | importState (state : Datum)
  | restore (state : Datum)
  | writeRegister (index : Datum) (value : Int)
  | writeData (address : Datum) (value : Int)
  | writeProgram (address : Datum) (value : Int)
  | setCounter (x : Int)

/-- What a machine replies. -/
inductive Reply where
  | done
  | written (b : Bool)
  | trace (t : Trace)
  | traces (ts : List Trace)
  | state (d : Datum)

/-- The machine that an all-or-nothing request leaves, and its reply. -/
def settle (m : Machine) (reply : Reply) (x : Except Fault Machine) :
    Machine × Except Fault Reply :=
  match x with
  | .ok m' => (m', .ok reply)
  | .error e => (m, .error e)

/-- The machine after a request, and the reply unless the request is refused. -/
def serve (m : Machine) : Request → Machine × Except Fault Reply
  | .load words => let (m', x) := m.loadProgram words; (m', x.map fun _ => .done)
  | .step => let (m', x) := m.advance; (m', x.map .trace)
  | .steps n => let (m', x) := m.runSteps n.toNat; (m', x.map .traces)
  | .reset => (m.reset, .ok .done)
  | .exportState => (m, .ok (.state m.exportState))
  | .snapshot => (m, .ok (.state m.snapshot))
  | .importState state => m.settle .done (m.importState state)
  | .restore state => let (m', x) := m.restore state; (m', x.map fun _ => .done)
  | .writeRegister index value =>
    match Register.ofIndex index with
    | .error e => (m, .error e)
    | .ok r => ({ m with registers := m.registers.write r value }, .ok (.written (r.val != 0)))
  | .writeData address value => m.settle (.written true) <| do
    return { m with data := ← m.data.write address value }
  | .writeProgram address value => m.settle (.written true) <| do
    return { m with program := ← m.program.write address value }
  | .setCounter x => m.settle .done <| do
    return { m with counter := ← m.counter.set x }

end Rv32.Machine
