import Rv32.Instruction.Basic
import Rv32.Machine.Basic

/-!
# One instruction

An instruction passes through the machine in stages: it is fetched and decoded, its operands go
through the arithmetic unit, data memory is accessed, a result is written back, and the program
counter moves on.  A stage may be refused.  Then the machine is left as far as it got, which for a
jump to an unaligned address means that the return address is already in its register.

The program counter moves to the next word, by a branch or jump offset, or to an address computed
from a register.  `Flow.select` turns the signals into one of the four cases, in order of priority:
jump to a register, jump, taken branch, next word.

All this is `step`.  A machine that is asked for its next instruction announces it first, with the
number of cycles that have passed, and only then takes the step: this is `advance`.  The
announcement is made up whether anybody listens or not, and a machine whose cycles have too many
digits to be shown is refused before it has done anything.
-/

namespace Rv32

/-! ## Where execution continues -/

/-- The ways to continue. -/
inductive Flow where
  | next
  | branch (offset : Int)
  | jump (offset : Int)
  | indirect (base offset : Int)
  deriving DecidableEq, Repr

namespace Flow

/-- The way that the signals select. -/
def select (taken jump indirect : Bool) (branchOffset immediate base : Int) : Flow :=
  if indirect then .indirect base immediate
  else if jump then .jump immediate
  else if taken then .branch branchOffset
  else .next

/-- The next program counter.  A jump to a register clears bit 0 of the sum. -/
def target (pc : Int) : Flow → Int
  | next => Word.unsigned (pc + 4)
  | branch offset => Word.unsigned (pc + offset)
  | jump offset => Word.unsigned (pc + offset)
  | indirect base offset => Word.unsigned ((base + offset) / 2 * 2)

/-- Whether a branch is taken, given the word that its comparison left. -/
def taken (branch inverted : Bool) (comparison : Int) : Bool :=
  branch && (comparison != 0) != inverted

end Flow

namespace Instruction

/-- The first operand of the arithmetic unit: the program counter, zero or a register. -/
def operandA (i : Instruction) (pc rs1 : Int) : Int :=
  match i.kind with
  | .auipc | .jal => Word.signed pc
  | .lui => 0
  | _ => rs1

/-- The value that a signal selects: the first where it is up, else the second. -/
def choose {α : Type} (up : Bool) (high low : α) : α := if up then high else low

end Instruction

/-! ## The stages of an instruction -/

/-- The values in the datapath once the arithmetic unit is done. -/
structure Execution where
  immediate : Option Int
  rs1 : Int
  rs2 : Int
  operandA : Int
  operandB : Int
  alu : AluResult
  taken : Bool
  deriving DecidableEq, Repr

/-- What one instruction did. -/
structure Trace extends Execution where
  counterBefore : Int
  counterAfter : Int
  instruction : Instruction
  memoryAddress : Option Int
  memoryRead : Option Int
  writeBack : Option Int
  deriving DecidableEq, Repr

/-- An access to data memory: its address and what was read, if any, and the store after it. -/
structure Access where
  address : Option Int
  loaded : Option Int
  data : Store

namespace Machine

/-- The instruction at the program counter. -/
def fetch (m : Machine) : Except Fault Instruction := do
  Instruction.decode (← m.program.read m.counter.value)

/-- The values that an instruction puts into the datapath. -/
def execute (m : Machine) (i : Instruction) : Execution :=
  let rs1 := m.registers.read i.rs1
  let rs2 := m.registers.read i.rs2
  let operandA := i.operandA m.counter.value rs1
  let operandB := Instruction.choose i.signals.aluSrcImm (i.immediate?.getD 0) rs2
  let alu := i.operation.execute operandA operandB
  { immediate := i.immediate?, rs1, rs2, operandA, operandB, alu
    taken := Flow.taken i.signals.branch i.inverted alu.value }

/-- The access of an instruction to data memory, at the address that the arithmetic unit made. -/
def access (m : Machine) (i : Instruction) (x : Execution) : Except Fault Access :=
  if i.signals.memRead then do
    return ⟨some x.alu.value, some (← m.data.read x.alu.value), m.data⟩
  else if i.signals.memWrite then do
    return ⟨some x.alu.value, none, ← m.data.write x.alu.value x.rs2⟩
  else .ok ⟨none, none, m.data⟩

/-- What an instruction writes back to its destination, unless that is register zero. -/
def writeBack (m : Machine) (i : Instruction) (x : Execution) (loaded : Option Int) :
    Option Int :=
  if i.signals.regWrite && i.rd.val != 0 then
    if i.signals.jump then some (Word.signed (m.counter.value + 4))
    else some (Instruction.choose i.signals.memToReg (loaded.getD 0) x.alu.value)
  else none

/-- Where execution continues after an instruction. -/
def flow (i : Instruction) (x : Execution) : Flow :=
  let offset := x.immediate.getD 0
  .select x.taken i.signals.jump (i.kind == .jalr) offset offset x.rs1

/-- The machine after memory access and write-back. -/
def commit (m : Machine) (i : Instruction) (data : Store) (written : Option Int) : Machine :=
  { m with
    data
    registers := match written with
      | some value => m.registers.write i.rd value
      | none => m.registers }

/-- One instruction: the machine after it, and its trace unless a stage was refused. -/
def step (m : Machine) : Machine × Except Fault Trace :=
  match m.fetch with
  | .error e => (m, .error e)
  | .ok i =>
    let x := m.execute i
    match m.access i x with
    | .error e => (m, .error e)
    | .ok a =>
      let written := m.writeBack i x a.loaded
      let target := (flow i x).target m.counter.value
      let m' := m.commit i a.data written
      match m'.counter.set target with
      | .error e => (m', .error e)
      | .ok counter =>
        ({ m' with counter, cycles := m.cycles + 1 },
          .ok { x with
            counterBefore := m.counter.value
            counterAfter := target
            instruction := i
            memoryAddress := a.address
            memoryRead := a.loaded
            writeBack := written })

/-- The announcement of the cycle count, which must not have too many digits. -/
def announce (m : Machine) : Except Fault Unit :=
  if Text.exceedsLimit m.cycles then .error (.excess .shown) else .ok ()

theorem announce_eq_ok {m : Machine} (h : Text.exceedsLimit m.cycles = false) :
    m.announce = .ok () := by
  simp [announce, h]

theorem announce_eq_error {m : Machine} (h : Text.exceedsLimit m.cycles = true) :
    m.announce = .error (.excess .shown) := by
  simp [announce, h]

/-- The next instruction: the announcement, then the step. -/
def advance (m : Machine) : Machine × Except Fault Trace :=
  match m.announce with
  | .error e => (m, .error e)
  | .ok _ => m.step

/-- While the cycles can be announced, a machine advances by steps. -/
theorem advance_eq_step {m : Machine} (h : Text.exceedsLimit m.cycles = false) :
    m.advance = m.step := by
  simp [advance, announce_eq_ok h]

theorem advance_eq_error {m : Machine} (h : Text.exceedsLimit m.cycles = true) :
    m.advance = (m, .error (.excess .shown)) := by
  simp [advance, announce_eq_error h]

/-- A machine advances where its cycles can be announced and the step succeeds. -/
theorem advance_eq_ok_iff {m m' : Machine} {t : Trace} :
    m.advance = (m', .ok t) ↔ Text.exceedsLimit m.cycles = false ∧ m.step = (m', .ok t) := by
  cases h : Text.exceedsLimit m.cycles with
  | false => simp [advance_eq_step h]
  | true => simp [advance_eq_error h]

/-- A machine is refused where its cycles cannot be announced, and otherwise as its step is. -/
theorem advance_eq_error_iff {m m' : Machine} {f : Fault} :
    m.advance = (m', .error f) ↔
      (Text.exceedsLimit m.cycles = true ∧ m' = m ∧ f = .excess .shown) ∨
      (Text.exceedsLimit m.cycles = false ∧ m.step = (m', .error f)) := by
  cases h : Text.exceedsLimit m.cycles with
  | false => simp [advance_eq_step h]
  | true => simp [advance_eq_error h, eq_comm]

end Machine

end Rv32
