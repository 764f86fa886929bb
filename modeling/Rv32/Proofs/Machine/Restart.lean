import Mathlib
import Rv32.Proofs.Machine.Loading
import Rv32.Proofs.Machine.Snapshots

/-!
# Loading and resetting forget the past

Whatever was done to a machine, loading a program clears it to what was built, and the program is
put into that.  What is left depends on the sizes, the address to start at and the words alone.

Steps never write the program store.  Of a machine on which only steps were taken, a reset
therefore makes the machine that stood there before the first of them, however they ended, and what
was seen once is seen again.
-/

namespace Rv32

namespace Store

/-! ## Cleared stores -/

/-- Stores that differ in their words only are the same once they are reset. -/
theorem Rewords.reset_eq {s t : Store} (h : s.Rewords t) : t.reset = s.reset := by
  have hcapacity := h.capacity
  obtain ⟨words, rfl⟩ := h.eq
  simp only [Store.reset, hcapacity]

/-! ## Programs in cleared stores -/

theorem getElem?_fill_of_ge (view : Int → Int) {words : Array Int} {start j : Nat} (xs : List Int)
    (hj : start + xs.length ≤ j) : (fill view words start xs)[j]? = words[j]? := by
  induction xs generalizing words start with
  | nil => rfl
  | cons x xs ih =>
      rw [List.length_cons] at hj
      rw [fill, ih (by omega), Array.getElem?_setIfInBounds_ne (by omega)]

/-- Words put into zeros from the first place on are followed by the zeros that are left. -/
theorem toList_fill_replicate (view : Int → Int) {n : Nat} {xs : List Int} (hfit : xs.length ≤ n) :
    (fill view (Array.replicate n 0) 0 xs).toList =
      xs.map view ++ List.replicate (n - xs.length) 0 := by
  apply List.ext_getElem?
  intro j
  rw [Array.getElem?_toList]
  by_cases hj : j < xs.length
  · have hroom : 0 + xs.length ≤ (Array.replicate n (0 : Int)).size := by simpa using hfit
    have hfound := getElem?_fill view hroom (List.getElem?_eq_getElem hj)
    rw [Nat.zero_add] at hfound
    rw [hfound, List.getElem?_append_left (by simpa using hj), List.getElem?_map,
      List.getElem?_eq_getElem hj]
    rfl
  · have hge : xs.length ≤ j := not_lt.mp hj
    rw [getElem?_fill_of_ge view xs (by omega), List.getElem?_append_right (by simpa using hge),
      List.length_map, Array.getElem?_replicate, List.getElem?_replicate]
    by_cases hn : j < n
    · rw [if_pos hn, if_pos (by omega)]
    · rw [if_neg hn, if_neg (by omega)]

/-- A list of words that does not fit is refused. -/
theorem load_zero_of_lt {s : Store} {xs : List Int} (hpos : 0 < s.capacity)
    (hlong : s.capacity < xs.length) :
    s.load xs (.integer 0) = .error (.loadTooLong s.kind (.integer 0) xs.length s.size) := by
  have hslot : s.slot (.integer 0) = .ok ⟨0, hpos⟩ := slot_eq_ok_iff.mpr rfl
  simp only [load, hslot]
  change (if s.capacity < 0 + xs.length then _ else _) = _
  rw [if_pos (by omega)]
  rfl

end Store

namespace Machine

variable {m m' new : Machine} {programWords dataWords : Datum} {start : Int}

/-! ## Cleared machines -/

theorem clear_of_create (h : create programWords dataWords start = .ok new) :
    new.clear = new := by
  obtain ⟨program, hprogram, h⟩ := Fault.bind_eq_ok h
  obtain ⟨data, hdata, h⟩ := Fault.bind_eq_ok h
  obtain ⟨counter, hcounter, h⟩ := Fault.bind_eq_ok h
  obtain rfl := Except.ok.inj h
  have hreset : counter.reset = counter := by
    obtain ⟨a, -, hcounter⟩ := Fault.bind_eq_ok hcounter
    obtain rfl := Except.ok.inj hcounter
    rfl
  simp only [clear, reset, Store.reset_of_create hprogram, Store.reset_of_create hdata, hreset]

theorem Evolves.counter_reset (h : m.Evolves m') : m'.counter.reset = m.counter.reset := by
  simp only [ProgramCounter.reset, ProgramCounter.mk.injEq]
  exact ⟨h.initial, h.initial⟩

/-- Clearing a machine undoes whatever was done to it. -/
theorem Evolves.clear_eq (h : m.Evolves m') : m'.clear = m.clear := by
  simp only [Machine.clear, Machine.reset, h.program.reset_eq, h.data.reset_eq, h.counter_reset]

/-- A reset undoes whatever was done to anything but the program store. -/
theorem Evolves.reset_eq (h : m.Evolves m') (hprogram : m'.program = m.program) :
    m'.reset = m.reset := by
  simp only [Machine.reset, h.data.reset_eq, h.counter_reset, hprogram]

/-- A cleared machine stays what it is under a reset, whatever program is put into it. -/
theorem reset_of_clear_eq (h : m.clear = m) (program : Store) :
    { m with program }.reset = { m with program } :=
  congrArg (fun n : Machine => { n with program }) h

/-- Only the cleared machine matters for loading. -/
theorem loadProgram_congr (h : m'.clear = m.clear) (words : List Int) :
    m'.loadProgram words = m.loadProgram words := by
  simp only [loadProgram, h]

/-! ## Steps and the program store -/

/-- A step leaves the program store as it is, also where it is refused halfway. -/
theorem program_step (m : Machine) : m.step.1.program = m.program := by
  rcases hstep : m.step with ⟨m', f | t⟩
  · rcases step_eq_error hstep with ⟨-, rfl⟩ | ⟨i, -, ⟨-, rfl⟩ | ⟨a, -, -, rfl⟩⟩ <;> rfl
  · change m'.program = m.program
    rw [(completes_of_step hstep).state]
    rfl

theorem program_advance (m : Machine) : m.advance.1.program = m.program := by
  cases hlimit : Text.exceedsLimit m.cycles with
  | false =>
      rw [advance_eq_step hlimit]
      exact program_step m
  | true => rw [advance_eq_error hlimit]

theorem program_runSteps (m : Machine) (n : Nat) : (m.runSteps n).1.program = m.program := by
  induction n generalizing m with
  | zero => rfl
  | succ n ih =>
      have hfirst := program_advance m
      rw [runSteps]
      split
      · next m' f hstep =>
          rw [hstep] at hfirst
          exact hfirst
      · next m' t hstep =>
          rw [hstep] at hfirst
          have hrest := ih m'
          split
          · next hrun =>
              rw [hrun] at hrest
              exact hrest.trans hfirst
          · next hrun =>
              rw [hrun] at hrest
              exact hrest.trans hfirst

/-- The operations that carry out instructions. -/
def Operation.Executes : Operation → Prop
  | .machine .step | .machine (.steps _) => True
  | _ => False

theorem program_operate {op : Operation} (h : op.Executes) :
    (m.operate op).program = m.program := by
  match op, h with
  | .machine .step, _ => exact program_advance m
  | .machine (.steps n), _ => exact program_runSteps m n.toNat

theorem program_after {runs : List Operation} (h : ∀ op ∈ runs, op.Executes) :
    (m.after runs).program = m.program := by
  induction runs generalizing m with
  | nil => rfl
  | cons op runs ih =>
      rw [List.forall_mem_cons] at h
      exact (ih h.2).trans (program_operate h.1)

/-! ## Machines that start again -/

/-- However often and however far instructions are carried out, a reset brings the machine back,
and what is seen of it afterwards is what would have been seen at first. -/
structure Restarts (m : Machine) : Prop where
  state : ∀ runs : List Operation, (∀ op ∈ runs, op.Executes) →
    (m.after runs).operate (.machine .reset) = m
  history : ∀ runs : List Operation, (∀ op ∈ runs, op.Executes) →
    ∀ ops, ((m.after runs).operate (.machine .reset)).history ops = m.history ops

theorem restarts_of_reset (h : m.reset = m) : m.Restarts := by
  have hstate (runs : List Operation) (hruns : ∀ op ∈ runs, op.Executes) :
      (m.after runs).operate (.machine .reset) = m :=
    ((Evolves.after m runs).reset_eq (program_after hruns)).trans h
  refine ⟨hstate, ?_⟩
  intro runs hruns ops
  rw [hstate runs hruns]

/-- What loading `words` into `m` comes to, where `new` is `m` as it was built: a program that fits
is put into the new machine, the rest of which stays zero, and one that does not fit leaves the new
machine. -/
structure LoadsAfresh (new m : Machine) (words : List Int) : Prop where
  loaded : words.length ≤ new.program.capacity →
    ∃ program, new.program.load words (.integer 0) = .ok program ∧
      program.words.toList = words.map Word.unsigned ++
        List.replicate (new.program.capacity - words.length) 0 ∧
      m.loadProgram words = ({ new with program }, .ok ()) ∧
      Restarts { new with program }
  refused : new.program.capacity < words.length →
    ∃ f, m.loadProgram words = (new, .error f) ∧ f.report.failure = .address

theorem loadsAfresh_of_create (h : create programWords dataWords start = .ok new)
    (words : List Int) : LoadsAfresh new new words := by
  have hclear := clear_of_create h
  obtain ⟨program, hprogram, h⟩ := Fault.bind_eq_ok h
  obtain ⟨data, -, h⟩ := Fault.bind_eq_ok h
  obtain ⟨counter, -, h⟩ := Fault.bind_eq_ok h
  obtain rfl := Except.ok.inj h
  obtain ⟨hkind, hpos⟩ := Store.create_eq_ok hprogram
  have hwords := Store.words_of_create hprogram
  constructor
  · intro hfit
    have hload := Store.load_zero hpos hfit
    refine ⟨_, hload, ?_, ?_, restarts_of_reset (reset_of_clear_eq hclear _)⟩
    · rw [hwords, hkind]
      exact Store.toList_fill_replicate _ hfit
    · simp only [loadProgram, hclear, hload]
  · intro hlong
    have hload := Store.load_zero_of_lt hpos hlong
    refine ⟨.loadTooLong program.kind (.integer 0) words.length program.size, ?_, rfl⟩
    simp only [loadProgram, hclear, hload]

/-! ## The past of a machine -/

/-- What two machines of one size hold is the same. -/
structure SameContents (m m' : Machine) : Prop where
  program : m'.program.words = m.program.words
  data : m'.data.words = m.data.words
  registers : m'.registers = m.registers
  counter : m'.counter = m.counter
  cycles : m'.cycles = m.cycles

theorem contents_clear (hprogram : m'.program.capacity = m.program.capacity)
    (hdata : m'.data.capacity = m.data.capacity)
    (hinitial : m'.counter.initial = m.counter.initial) : SameContents m.clear m'.clear where
  program := congrArg (fun n => Array.replicate n 0) hprogram
  data := congrArg (fun n => Array.replicate n 0) hdata
  registers := rfl
  counter := congrArg (fun a => (⟨a, a⟩ : ProgramCounter)) hinitial
  cycles := rfl

/-- Machines that hold the same hold the same once a program is loaded afresh into them. -/
theorem SameContents.loadProgram {new new' : Machine} {words : List Int}
    (hsame : SameContents new new') (hcapacity : new'.program.capacity = new.program.capacity)
    (h : LoadsAfresh new m words) (h' : LoadsAfresh new' m' words) :
    SameContents (m.loadProgram words).1 (m'.loadProgram words).1 := by
  by_cases hfit : words.length ≤ new.program.capacity
  · obtain ⟨program, -, hwords, hload, -⟩ := h.loaded hfit
    obtain ⟨program', -, hwords', hload', -⟩ := h'.loaded (hfit.trans_eq hcapacity.symm)
    have heq : program'.words = program.words := by
      rw [← Array.toList_inj, hwords, hwords', hcapacity]
    rw [hload, hload']
    exact { hsame with program := heq }
  · have hlong : new.program.capacity < words.length := not_le.mp hfit
    obtain ⟨f, hload, -⟩ := h.refused hlong
    obtain ⟨f', hload', -⟩ := h'.refused (hcapacity.trans_lt hlong)
    rw [hload, hload']
    exact hsame

/-- What was done to a machine before does not matter for loading. -/
theorem LoadsAfresh.after {words : List Int} (h : LoadsAfresh new m words) (ops : List Operation) :
    LoadsAfresh new (m.after ops) words := by
  have hload := loadProgram_congr (Evolves.after m ops).clear_eq words
  constructor
  · intro hfit
    rw [hload]
    exact h.loaded hfit
  · intro hlong
    rw [hload]
    exact h.refused hlong

/-- Loading a program forgets whatever was done to a machine before: the program stands in the
machine as it was built, or is refused and leaves that machine.  What is held then is the same for
any other machine with as much room and the same start.  Of a loaded machine on which instructions
were carried out, refused ones among them, a reset makes the loaded machine again. -/
theorem loadProgram_forgets (h : create programWords dataWords start = .ok new)
    (before : List Operation) (words : List Int) :
    LoadsAfresh new (new.after before) words ∧
      ∀ m' : Machine, m'.Reachable → m'.program.capacity = new.program.capacity →
        m'.data.capacity = new.data.capacity → m'.counter.initial = new.counter.initial →
        SameContents ((new.after before).loadProgram words).1 (m'.loadProgram words).1 := by
  have hafresh := (loadsAfresh_of_create h words).after before
  refine ⟨hafresh, ?_⟩
  rintro m' ⟨p, d, s, new', ops, h', rfl⟩ hprogram hdata hinitial
  have hevolves := Evolves.after new' ops
  rw [hevolves.program.capacity] at hprogram
  rw [hevolves.data.capacity] at hdata
  rw [hevolves.initial] at hinitial
  have hsame : SameContents new new' := by
    rw [← clear_of_create h, ← clear_of_create h']
    exact contents_clear hprogram hdata hinitial
  exact hsame.loadProgram hprogram hafresh ((loadsAfresh_of_create h' words).after ops)

/-- A call to an unaligned address has left the return address in its register when a program is
loaded, here and into a machine that was asked for in other terms. -/
theorem loadProgram_forgets_refused_call :
    ∃ new new' m : Machine, create (.integer 2) (.flag true) 4 = .ok new ∧
      create (.integer 2) (.integer 1) 4294967300 = .ok new' ∧
      m = new.after [.machine (.load [2097383]), .machine (.setCounter 0), .machine .step,
        .data (.write (.integer 0) 5 true)] ∧
      m.registers.read 1 = 4 ∧ LoadsAfresh new m [1048723, -1] ∧
      SameContents (m.loadProgram [1048723, -1]).1 (new'.loadProgram [1048723, -1]).1 := by
  let new : Machine :=
    ⟨.empty .program 2, { Store.empty .data 1 with sizedByTruth := true }, .empty, ⟨4, 4⟩, 0⟩
  let new' : Machine := ⟨.empty .program 2, .empty .data 1, .empty, ⟨4, 4⟩, 0⟩
  have hcreate : create (.integer 2) (.flag true) 4 = .ok new := rfl
  have hcreate' : create (.integer 2) (.integer 1) 4294967300 = .ok new' := rfl
  have hnew' : new'.Reachable := ⟨_, _, _, new', [], hcreate', rfl⟩
  obtain ⟨hafresh, hsame⟩ := loadProgram_forgets hcreate
    [.machine (.load [2097383]), .machine (.setCounter 0), .machine .step,
      .data (.write (.integer 0) 5 true)] [1048723, -1]
  exact ⟨new, new', _, hcreate, hcreate', rfl, by decide +kernel, hafresh,
    hsame new' hnew' rfl rfl rfl⟩

end Machine

end Rv32
