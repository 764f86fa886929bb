import Mathlib
import Rv32.Machine.Request
import Rv32.Proofs.Machine.Stages
import Rv32.Proofs.Store.Views

/-!
# The invariant of a machine

Registers and data words are signed words, program words are unsigned ones, register zero holds
zero, and the counter and the address that it returns to are aligned unsigned words.  A new machine
is like that, and whatever is done to it afterwards keeps it so: every writer wraps to the view of
the place that it writes.

A refused operation may have done a part of its work.  The invariant is therefore stated for what
an operation leaves, not for what it yields.
-/

namespace Rv32

/-! ## Registers and the counter -/

/-- Registers that hold signed words, with zero in register zero. -/
structure RegisterFile.WellFormed (f : RegisterFile) : Prop where
  zero : f.slots[(0 : Register)] = 0
  signed : ∀ r : Register, Word.signed f.slots[r] = f.slots[r]

namespace RegisterFile

theorem wellFormed_empty : empty.WellFormed where
  zero := rfl
  signed := by
    intro r
    simp only [empty, Fin.getElem_fin, Vector.getElem_replicate]
    rfl

namespace WellFormed

variable {f : RegisterFile}

theorem write (hf : f.WellFormed) (r : Register) (x : Int) : (f.write r x).WellFormed := by
  by_cases hr : r.val = 0
  · simpa [RegisterFile.write, hr] using hf
  · constructor
    · simpa [RegisterFile.write, hr] using hf.zero
    · intro s
      by_cases hs : r = s
      · subst hs
        simp [RegisterFile.write, hr]
      · have hne : r.val ≠ s.val := fun h => hs (Fin.ext h)
        simpa [RegisterFile.write, hr, hne] using hf.signed s

theorem signed_read (hf : f.WellFormed) (r : Register) : Word.signed (f.read r) = f.read r := by
  by_cases hr : r = 0
  · subst hr
    rw [read_zero]
    rfl
  · have hne : r.val ≠ 0 := fun h => hr (Fin.ext h)
    rw [read, if_neg hne]
    exact hf.signed r

end WellFormed

theorem wellFormed_of_ofState {state : Datum} {f : RegisterFile} (h : ofState state = .ok f) :
    f.WellFormed := by
  unfold ofState at h
  split at h
  · next g hg =>
      obtain rfl := Except.ok.inj h
      obtain ⟨items, -, hg⟩ := Option.bind_eq_some_iff.mp hg
      simp only [ofItems?] at hg
      split at hg
      · obtain rfl := Option.some.inj hg
        constructor
        · simp
        · intro r
          by_cases hr : r = 0
          · subst hr
            simp only [Fin.getElem_fin, Fin.val_zero, Vector.getElem_set_self]
            rfl
          · have hne : 0 ≠ r.val := fun h => hr (Fin.ext h.symm)
            simp [hne]
      · cases hg
  · cases h

end RegisterFile

/-- An aligned unsigned word. -/
structure ProgramCounter.Valid (a : Int) : Prop where
  unsigned : Word.unsigned a = a
  aligned : a % 4 = 0

namespace ProgramCounter

theorem Valid.bounds {a : Int} (h : Valid a) : a % 4 = 0 ∧ 0 ≤ a ∧ a < 4294967296 :=
  ⟨h.aligned, Word.unsigned_eq_self_iff.mp h.unsigned⟩

theorem valid_of_aligned {x a : Int} (h : aligned x = .ok a) : Valid a := by
  obtain ⟨rfl, hfour⟩ := aligned_eq_ok_iff.mp h
  exact ⟨Word.unsigned_unsigned x, hfour⟩

theorem valid_of_create {start : Int} {c : ProgramCounter} (h : create start = .ok c) :
    Valid c.value ∧ c.initial = c.value := by
  obtain ⟨a, ha, hc⟩ := Fault.bind_eq_ok h
  obtain rfl := Except.ok.inj hc
  exact ⟨valid_of_aligned ha, rfl⟩

theorem valid_of_set {c c' : ProgramCounter} {x : Int} (h : c.set x = .ok c') :
    Valid c'.value ∧ c'.initial = c.initial := by
  obtain ⟨a, ha, hc⟩ := Fault.bind_eq_ok h
  obtain rfl := Except.ok.inj hc
  exact ⟨valid_of_aligned ha, rfl⟩

end ProgramCounter

namespace Machine

/-! ## Operations -/

/-- What may be done to a machine: something that is asked of the machine, or of one of its
stores. -/
inductive Operation where
  | machine (r : Request)
  | program (r : Store.Request)
  | data (r : Store.Request)

/-- What an operation leaves, refused or not. -/
def operate (m : Machine) : Operation → Machine
  | .machine r => (m.serve r).1
  | .program r => { m with program := m.program.after r }
  | .data r => { m with data := m.data.after r }

/-- What several operations leave, refused or not. -/
def after (m : Machine) (ops : List Operation) : Machine := ops.foldl operate m

/-- The states that a machine can be brought to. -/
def Reachable (m : Machine) : Prop :=
  ∃ programWords dataWords start m₀ ops,
    create programWords dataWords start = .ok m₀ ∧ m = m₀.after ops

/-! ## Well-formed machines -/

/-- A machine with `p` program words, `d` data words and the given address to start at, in which
every word is in its view. -/
structure WellFormed (p d : Nat) (start : Int) (m : Machine) : Prop where
  program : m.program.WellFormed .program p
  data : m.data.WellFormed .data d
  registers : m.registers.WellFormed
  counter : ProgramCounter.Valid m.counter.value
  initial : m.counter.initial = start
  start : ProgramCounter.Valid start

theorem wellFormed_of_create {programWords dataWords : Datum} {start : Int} {m : Machine}
    (h : create programWords dataWords start = .ok m) :
    m.WellFormed m.program.capacity m.data.capacity m.counter.initial := by
  obtain ⟨program, hprogram, h⟩ := Fault.bind_eq_ok h
  obtain ⟨data, hdata, h⟩ := Fault.bind_eq_ok h
  obtain ⟨counter, hcounter, h⟩ := Fault.bind_eq_ok h
  obtain rfl := Except.ok.inj h
  obtain ⟨hvalid, hinitial⟩ := ProgramCounter.valid_of_create hcounter
  refine ⟨Store.wellFormed_of_create hprogram, Store.wellFormed_of_create hdata,
    RegisterFile.wellFormed_empty, hvalid, rfl, ?_⟩
  rw [hinitial]
  exact hvalid

/-- A kept state is put back part by part, each part as it would be put back alone. -/
theorem importState_eq_ok {m m' : Machine} {state : Datum} (h : m.importState state = .ok m') :
    ∃ registers file words data x counter cycles,
      RegisterFile.ofState registers = .ok file ∧ m.data.importState words = .ok data ∧
        m.counter.set x = .ok counter ∧
        m' = { m with data, registers := file, counter, cycles } := by
  simp only [importState] at h
  split at h
  · obtain ⟨pc, -, h⟩ := Fault.bind_eq_ok h
    obtain ⟨cycles, -, h⟩ := Fault.bind_eq_ok h
    obtain ⟨registers, -, h⟩ := Fault.bind_eq_ok h
    obtain ⟨words, -, h⟩ := Fault.bind_eq_ok h
    obtain ⟨registerItems, -, h⟩ := Fault.bind_eq_ok h
    obtain ⟨wordItems, -, h⟩ := Fault.bind_eq_ok h
    obtain ⟨x, -, h⟩ := Fault.bind_eq_ok h
    obtain ⟨cycles, -, h⟩ := Fault.bind_eq_ok h
    obtain ⟨file, hfile, h⟩ := Fault.bind_eq_ok h
    obtain ⟨data, hdata, h⟩ := Fault.bind_eq_ok h
    obtain ⟨counter, hcounter, h⟩ := Fault.bind_eq_ok h
    exact ⟨_, file, _, data, x, counter, cycles, hfile, hdata, hcounter, (Except.ok.inj h).symm⟩
  · cases h

/-! ## What an operation may change -/

/-- What an operation leaves of a machine.  The stores are reworded, registers that hold signed
words hold such words again, the counter stays aligned, and it returns to the address it returned
to. -/
structure Evolves (m m' : Machine) : Prop where
  program : m.program.Rewords m'.program
  data : m.data.Rewords m'.data
  registers : m.registers.WellFormed → m'.registers.WellFormed
  counter : ProgramCounter.Valid m.counter.initial → ProgramCounter.Valid m.counter.value →
    ProgramCounter.Valid m'.counter.value
  initial : m'.counter.initial = m.counter.initial

namespace Evolves

variable {m m' m'' : Machine}

theorem refl (m : Machine) : m.Evolves m where
  program := .refl m.program
  data := .refl m.data
  registers := id
  counter := fun _ h => h
  initial := rfl

theorem trans (h : m.Evolves m') (h' : m'.Evolves m'') : m.Evolves m'' where
  program := h.program.trans h'.program
  data := h.data.trans h'.data
  registers := h'.registers ∘ h.registers
  counter := by
    intro hinitial hvalue
    have hcounter := h.counter hinitial hvalue
    rw [← h.initial] at hinitial
    exact h'.counter hinitial hcounter
  initial := h'.initial.trans h.initial

theorem reset (m : Machine) : m.Evolves m.reset :=
  { refl m with
    data := .reset m.data
    registers := fun _ => RegisterFile.wellFormed_empty
    counter := fun hinitial _ => hinitial }

theorem clear (m : Machine) : m.Evolves m.clear := by
  have hprogram : m.Evolves { m with program := m.program.reset } :=
    { refl m with program := .reset m.program }
  exact hprogram.trans (reset _)

theorem loadProgram (m : Machine) (words : List Int) : m.Evolves (m.loadProgram words).1 := by
  simp only [Machine.loadProgram]
  split
  · exact clear m
  · next program hload => exact (clear m).trans { refl m.clear with program := .load hload }

/-! ## Steps and runs -/

theorem commit {i : Instruction} {x : Execution} {a : Access} (ha : m.access i x = .ok a)
    (written : Option Int) : m.Evolves (m.commit i a.data written) := by
  have hdata : m.data.Rewords a.data := by
    rcases access_eq_ok ha with ⟨-, v, -, rfl⟩ | ⟨-, -, data, hwrite, rfl⟩ | ⟨-, -, rfl⟩
    · exact .refl m.data
    · exact .write hwrite
    · exact .refl m.data
  cases written with
  | none => exact { refl m with data := hdata }
  | some v => exact { refl m with data := hdata, registers := fun hf => hf.write i.rd v }

/-- The same holds of a step, also where it is refused halfway. -/
theorem step (m : Machine) : m.Evolves m.step.1 := by
  rcases hstep : m.step with ⟨m', f | t⟩
  · rcases step_eq_error hstep with ⟨-, rfl⟩ | ⟨i, -, ⟨-, rfl⟩ | ⟨a, ha, -, rfl⟩⟩
    · exact refl _
    · exact refl _
    · exact commit ha _
  · have hdone := completes_of_step hstep
    have hvalid : ProgramCounter.Valid t.counterAfter := by
      refine ⟨?_, hdone.aligned⟩
      rw [hdone.after, Flow.unsigned_target]
    change m.Evolves m'
    rw [hdone.state]
    exact { commit hdone.access t.writeBack with counter := fun _ _ => hvalid }

theorem advance (m : Machine) : m.Evolves m.advance.1 := by
  cases hlimit : Text.exceedsLimit m.cycles with
  | false =>
      rw [advance_eq_step hlimit]
      exact step m
  | true =>
      rw [advance_eq_error hlimit]
      exact refl m

theorem runSteps (m : Machine) (n : Nat) : m.Evolves (m.runSteps n).1 := by
  induction n generalizing m with
  | zero => exact refl m
  | succ n ih =>
      have hfirst := advance m
      rw [Machine.runSteps]
      split
      · next m' f hstep =>
          rw [hstep] at hfirst
          exact hfirst
      · next m' t hstep =>
          rw [hstep] at hfirst
          have hrest := ih m'
          split
          · next hrun =>
              rw [hrun] at hrest
              exact hfirst.trans hrest
          · next hrun =>
              rw [hrun] at hrest
              exact hfirst.trans hrest

/-! ## Everything else -/

/-- What is done as a whole or not at all need only be looked at where it is done. -/
theorem settle {x : Except Fault Machine} (reply : Reply)
    (hx : ∀ m', x = .ok m' → m.Evolves m') : m.Evolves (m.settle reply x).1 := by
  cases x with
  | error e => exact refl m
  | ok m' => exact hx m' rfl

theorem importState {state : Datum} (h : m.importState state = .ok m') : m.Evolves m' := by
  obtain ⟨_, file, _, data, x, counter, cycles, hfile, hdata, hset, rfl⟩ := importState_eq_ok h
  obtain ⟨hvalid, hinitial⟩ := ProgramCounter.valid_of_set hset
  exact ⟨.refl m.program, .importState hdata, fun _ => RegisterFile.wellFormed_of_ofState hfile,
    fun _ _ => hvalid, hinitial⟩

theorem restored {state : Datum} (h : m.restored state = .ok m') : m.Evolves m' := by
  obtain ⟨items, -, h⟩ := Fault.bind_eq_ok h
  obtain ⟨m₁, himport, h⟩ := Fault.bind_eq_ok h
  obtain ⟨program, hprogram, h⟩ := Fault.bind_eq_ok h
  obtain rfl := Except.ok.inj h
  exact { importState himport with program := .importState hprogram }

theorem restore (m : Machine) (state : Datum) : m.Evolves (m.restore state).1 := by
  unfold Machine.restore
  split
  · exact refl m
  · next m' h => exact restored h

theorem serve (m : Machine) (r : Request) : m.Evolves (m.serve r).1 := by
  cases r with
  | load words => exact loadProgram m words
  | step => exact advance m
  | steps n => exact runSteps m n.toNat
  | reset => exact reset m
  | exportState => exact refl m
  | snapshot => exact refl m
  | importState state => exact settle .done fun _ => importState
  | restore state => exact restore m state
  | writeRegister index value =>
      simp only [Machine.serve]
      split
      · exact refl m
      · next r _ => exact { refl m with registers := fun hf => hf.write r value }
  | writeData address value =>
      apply settle
      intro m' h
      obtain ⟨data, hwrite, h⟩ := Fault.bind_eq_ok h
      obtain rfl := Except.ok.inj h
      exact { refl m with data := .write hwrite }
  | writeProgram address value =>
      apply settle
      intro m' h
      obtain ⟨program, hwrite, h⟩ := Fault.bind_eq_ok h
      obtain rfl := Except.ok.inj h
      exact { refl m with program := .write hwrite }
  | setCounter x =>
      apply settle
      intro m' h
      obtain ⟨counter, hset, h⟩ := Fault.bind_eq_ok h
      obtain rfl := Except.ok.inj h
      obtain ⟨hvalid, hinitial⟩ := ProgramCounter.valid_of_set hset
      exact { refl m with counter := fun _ _ => hvalid, initial := hinitial }

theorem operate (m : Machine) (op : Operation) : m.Evolves (m.operate op) := by
  cases op with
  | machine r => exact serve m r
  | program r => exact { refl m with program := .after m.program r }
  | data r => exact { refl m with data := .after m.data r }

theorem after (m : Machine) (ops : List Operation) : m.Evolves (m.after ops) := by
  induction ops generalizing m with
  | nil => exact refl m
  | cons op ops ih => exact (operate m op).trans (ih (m.operate op))

end Evolves

namespace WellFormed

variable {p d : Nat} {start : Int} {m m' : Machine}

theorem of_evolves (hm : m.WellFormed p d start) (h : m.Evolves m') : m'.WellFormed p d start where
  program := hm.program.of_rewords h.program
  data := hm.data.of_rewords h.data
  registers := h.registers hm.registers
  counter := by
    have hstart := hm.start
    rw [← hm.initial] at hstart
    exact h.counter hstart hm.counter
  initial := h.initial.trans hm.initial
  start := hm.start

/-- A step keeps the invariant, also where it is refused halfway. -/
theorem step (hm : m.WellFormed p d start) : m.step.1.WellFormed p d start :=
  hm.of_evolves (.step m)

theorem advance (hm : m.WellFormed p d start) : m.advance.1.WellFormed p d start :=
  hm.of_evolves (.advance m)

theorem runSteps (hm : m.WellFormed p d start) (n : Nat) :
    (m.runSteps n).1.WellFormed p d start :=
  hm.of_evolves (.runSteps m n)

theorem serve (hm : m.WellFormed p d start) (r : Request) :
    (m.serve r).1.WellFormed p d start :=
  hm.of_evolves (.serve m r)

theorem after (hm : m.WellFormed p d start) (ops : List Operation) :
    (m.after ops).WellFormed p d start :=
  hm.of_evolves (.after m ops)

end WellFormed

theorem Reachable.wellFormed {m : Machine} (h : m.Reachable) :
    ∃ p d start, m.WellFormed p d start := by
  obtain ⟨_, _, _, m₀, ops, hcreate, rfl⟩ := h
  exact ⟨_, _, _, (wellFormed_of_create hcreate).after ops⟩

/-- The state of a machine at its start, but for the number of cycles. -/
def stateAtCycle (n : Nat) : Datum :=
  .record
    [("pc".toList, .integer 0), ("cycles".toList, .integer n),
     ("registers".toList, .ofInts (List.replicate 32 0)), ("words".toList, .ofInts [0])]

/-- Any number of cycles can be put into a machine. -/
theorem reachable_atCycle (n : Nat) :
    Reachable ⟨⟨.program, #[19], false⟩, .empty .data 1, .empty, ⟨0, 0⟩, n⟩ :=
  ⟨.integer 1, .integer 1, 0, ⟨.empty .program 1, .empty .data 1, .empty, ⟨0, 0⟩, 0⟩,
    [.machine (.load [19]), .machine (.importState (stateAtCycle n))], rfl, rfl⟩

/-! ## The bounds -/

/-- What a machine that was built as `m₀` holds, in numbers.  It still has 32 registers and as many
words as it was built with, and each place holds a number of its own range. -/
structure InBounds (m₀ m : Machine) : Prop where
  count : m.registers.toList.length = 32
  register : ∀ r : Register,
    -2147483648 ≤ m.registers.slots[r] ∧ m.registers.slots[r] < 2147483648
  zero : m.registers.slots[(0 : Register)] = 0
  read_zero : m.registers.read 0 = 0
  dataSize : m.data.capacity = m₀.data.capacity
  data : ∀ x ∈ m.data.words, -2147483648 ≤ x ∧ x < 2147483648
  programSize : m.program.capacity = m₀.program.capacity
  program : ∀ x ∈ m.program.words, 0 ≤ x ∧ x < 4294967296
  counter : m.counter.value % 4 = 0 ∧ 0 ≤ m.counter.value ∧ m.counter.value < 4294967296
  initial : m.counter.initial % 4 = 0 ∧ 0 ≤ m.counter.initial ∧ m.counter.initial < 4294967296
  cycles : 0 ≤ (m.cycles : Int)

/-- Whatever is done to a new machine, in whatever order and with whatever arguments, refused or
not, leaves it within its bounds. -/
theorem after_inBounds {programWords dataWords : Datum} {start : Int} {m : Machine}
    (h : create programWords dataWords start = .ok m) (ops : List Operation) :
    InBounds m (m.after ops) := by
  have hm := (wellFormed_of_create h).after ops
  constructor
  · simp [RegisterFile.toList, Register.all]
  · intro r
    exact Word.signed_eq_self_iff.mp (hm.registers.signed r)
  · exact hm.registers.zero
  · exact RegisterFile.read_zero _
  · exact hm.data.capacity
  · intro x hx
    exact Word.signed_eq_self_iff.mp (hm.data.view x hx)
  · exact hm.program.capacity
  · intro x hx
    exact Word.unsigned_eq_self_iff.mp (hm.program.view x hx)
  · exact hm.counter.bounds
  · rw [hm.initial]
    exact hm.start.bounds
  · exact Int.natCast_nonneg _

/-- Numbers far out of range are written, a refused address and a refused program follow, and a run
stops halfway. -/
theorem after_inBounds_overflow :
    ∃ m, create (.integer 2) (.flag true) (-8) = .ok m ∧
      InBounds m (m.after
        [.machine (.load [3178727, -1]), .machine (.writeRegister (.integer 1) 4294967337),
          .machine (.writeRegister (.integer 0) 7), .data (.write (.integer 0) (-6442450945) true),
          .machine (.setCounter 4294967300), .machine (.setCounter 2), .machine (.steps 3),
          .machine (.load [1, 2, 3])]) := by
  have h : create (.integer 2) (.flag true) (-8) =
      .ok ⟨.empty .program 2, { Store.empty .data 1 with sizedByTruth := true }, .empty,
        ⟨4294967288, 4294967288⟩, 0⟩ := rfl
  exact ⟨_, h, after_inBounds h _⟩

end Machine

end Rv32
