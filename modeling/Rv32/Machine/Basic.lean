import Rv32.Fault
import Rv32.Register
import Rv32.Store

/-!
# The machine

A machine holds a program store, a data store, the registers, the program counter and the number
of instructions carried out since the last reset.  A reset clears all but the program store and
returns to the address that the machine was built with; loading a program clears everything.

The program counter holds the unsigned byte address of the next instruction and the address to
return to on a reset.  Both are multiples of four: an address is wrapped to a word and refused if
it is not aligned.
-/

namespace Rv32

/-! ## The program counter -/

/-- The program counter. -/
structure ProgramCounter where
  value : Int
  initial : Int
  deriving DecidableEq, Repr

namespace ProgramCounter

/-- An address wrapped to a word, which must be aligned. -/
def aligned (x : Int) : Except Fault Int :=
  let a := Word.unsigned x
  if a % 4 = 0 then .ok a else .error (.counterUnaligned a)

/-- The accepted addresses are those whose unsigned view is a multiple of four. -/
theorem aligned_eq_ok_iff {x a : Int} :
    aligned x = .ok a ↔ Word.unsigned x = a ∧ a % 4 = 0 := by
  constructor
  · intro h
    by_cases ha : Word.unsigned x % 4 = 0
    · rw [aligned, if_pos ha] at h
      cases h
      exact ⟨rfl, ha⟩
    · rw [aligned, if_neg ha] at h
      exact nomatch h
  · intro ⟨hx, ha⟩
    subst hx
    exact if_pos ha

/-- A program counter that starts at an address. -/
def create (start : Int) : Except Fault ProgramCounter := do
  let a ← aligned start
  return ⟨a, a⟩

/-- The counter after an address is put in. -/
def set (pc : ProgramCounter) (x : Int) : Except Fault ProgramCounter :=
  return { pc with value := ← aligned x }

/-- The counter moved on by `k` bytes. -/
def advance (pc : ProgramCounter) (k : Int) : Except Fault ProgramCounter := pc.set (pc.value + k)

/-- The counter back at its start. -/
def reset (pc : ProgramCounter) : ProgramCounter := { pc with value := pc.initial }

end ProgramCounter

/-! ## The state of a machine -/

/-- The state of a machine. -/
structure Machine where
  program : Store
  data : Store
  registers : RegisterFile
  counter : ProgramCounter
  cycles : Nat
  deriving DecidableEq, Repr

namespace Machine

/-- The number of words of a store that is not asked for otherwise. -/
def defaultWords : Nat := 1024

/-- A new machine, with the sizes of its stores and the address to start at. -/
def create (programWords dataWords : Datum) (start : Int) : Except Fault Machine := do
  let program ← Store.create .program programWords
  let data ← Store.create .data dataWords
  let counter ← ProgramCounter.create start
  return { program, data, registers := .empty, counter, cycles := 0 }

/-- The machine back at its start, with its program. -/
def reset (m : Machine) : Machine :=
  { m with data := m.data.reset, registers := .empty, counter := m.counter.reset, cycles := 0 }

/-- The machine with nothing in it. -/
def clear (m : Machine) : Machine := { m with program := m.program.reset }.reset

/-- The machine with a new program, which is put at address zero of a cleared machine.  A program
that does not fit is refused and leaves the machine cleared. -/
def loadProgram (m : Machine) (words : List Int) : Machine × Except Fault Unit :=
  let m := m.clear
  match m.program.load words (.integer 0) with
  | .error e => (m, .error e)
  | .ok program => ({ m with program }, .ok ())

/-- Whether the program counter has passed the first `words` words of the program. -/
def finished (m : Machine) (words : Int) : Bool := words * 4 ≤ m.counter.value

end Machine

end Rv32
