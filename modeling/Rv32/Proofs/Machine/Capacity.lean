import Mathlib
import Rv32.Proofs.Machine.Loading
import Rv32.Proofs.Machine.Replay

/-!
# More memory

The sizes of the memories only decide which addresses are refused.  A machine with more memory that
is otherwise the same carries out every instruction that the smaller one carries out, with the same
trace, and is still the same with more memory afterwards: `Extends` is kept by every completed step,
and so by every run.  The further words are never reached, so that they stay zero.
-/

namespace Rv32

namespace Store

/-! ## Larger stores -/

/-- The store `large` begins with the words of `small`, and its further words are zero. -/
structure Extends (small large : Store) : Prop where
  kind : large.kind = small.kind
  capacity : small.capacity ≤ large.capacity
  word : ∀ i < small.capacity, large.words[i]? = small.words[i]?
  further : ∀ i x, small.capacity ≤ i → large.words[i]? = some x → x = 0

namespace Extends

variable {small large : Store} {a x : Int}

theorem reset (hkind : large.kind = small.kind) (hcapacity : small.capacity ≤ large.capacity) :
    small.reset.Extends large.reset where
  kind := hkind
  capacity := by
    rw [capacity_reset, capacity_reset]
    exact hcapacity
  word := by
    intro i hi
    rw [capacity_reset] at hi
    simp [Store.reset, hi, hi.trans_le hcapacity]
  further := by
    intro i x _ hx
    exact (Array.mem_replicate.mp (Array.mem_of_getElem? hx)).2

/-- The same word may be put in the same place of both. -/
theorem set (h : small.Extends large) {i : Nat} (hi : i < small.capacity) (x : Int) :
    Extends { small with words := small.words.setIfInBounds i x }
      { large with words := large.words.setIfInBounds i x } where
  kind := h.kind
  capacity := by
    simpa [Store.capacity] using h.capacity
  word := by
    intro j hj
    have hlt : i < small.words.size := hi
    have hlarge : i < large.words.size := hi.trans_le h.capacity
    have hsame : large.words[j]? = small.words[j]? := by
      apply h.word
      simpa [Store.capacity] using hj
    simp [Array.getElem?_setIfInBounds, hlt, hlarge, hsame]
  further := by
    intro j y hj hy
    have hlast : small.capacity ≤ j := by
      simpa [Store.capacity] using hj
    -- The new word is put in a place of the smaller store, and so not in a further one.
    have hne : i ≠ j := by
      omega
    rw [Array.getElem?_setIfInBounds_ne hne] at hy
    exact h.further j y hlast hy

theorem fill (h : small.Extends large) (view : Int → Int) {start : Nat} {xs : List Int}
    (hfit : start + xs.length ≤ small.capacity) :
    Extends { small with words := Store.fill view small.words start xs }
      { large with words := Store.fill view large.words start xs } := by
  induction xs generalizing small large start with
  | nil => exact h
  | cons x xs ih =>
      rw [List.length_cons] at hfit
      have hset := h.set (by omega : start < small.capacity) (view x)
      refine ih hset ?_
      rw [Store.capacity, Array.size_setIfInBounds]
      change _ ≤ small.capacity
      omega

/-- A larger store reads what the smaller one reads. -/
theorem read (h : small.Extends large) (hread : small.read (.integer a) = .ok x) :
    large.read (.integer a) = .ok x := by
  obtain ⟨hfour, hnonneg, hword⟩ := getElem?_of_read_eq_ok hread
  have hplace : (a / 4).toNat < small.capacity := (Array.getElem?_eq_some_iff.mp hword).1
  have haddress : a = 4 * ((a / 4).toNat : Int) := by
    omega
  rw [← h.word _ hplace] at hword
  rw [haddress]
  exact read_integer hword

/-- What the smaller store writes is written to a larger one as well. -/
theorem write (h : small.Extends large) {small' : Store}
    (hwrite : small.write (.integer a) x = .ok small') :
    ∃ large', large.write (.integer a) x = .ok large' ∧ small'.Extends large' := by
  obtain ⟨i, rfl, rfl⟩ := exists_put_of_write_eq_ok hwrite
  have hi : i.val < large.words.size := i.isLt.trans_le h.capacity
  have hslot : large.slot (.integer (4 * i.val)) = .ok ⟨i.val, hi⟩ := slot_eq_ok_iff.mpr rfl
  refine ⟨large.put ⟨i.val, hi⟩ x, ?_, ?_⟩
  · rw [Store.write, hslot]
    rfl
  · have hset := h.set i.isLt (small.kind.view x)
    rw [Array.setIfInBounds_def, dif_pos i.isLt, Array.setIfInBounds_def, dif_pos hi] at hset
    have hput : large.put ⟨i.val, hi⟩ x =
        { large with words := large.words.set i.val (small.kind.view x) hi } := by
      rw [put, h.kind]
    rw [hput]
    exact hset

end Extends

end Store

namespace Machine

/-! ## Larger machines -/

/-- The machine `large` is `small` with more memory. -/
structure Extends (small large : Machine) : Prop where
  program : small.program.Extends large.program
  data : small.data.Extends large.data
  registers : large.registers = small.registers
  counter : large.counter = small.counter
  cycles : large.cycles = small.cycles

namespace Extends

variable {small large small' : Machine} {i : Instruction} {x : Execution}

theorem fetch (h : small.Extends large) (hfetch : small.fetch = .ok i) : large.fetch = .ok i := by
  obtain ⟨w, hread, hdecode⟩ := Fault.bind_eq_ok hfetch
  rw [Machine.fetch, h.counter, h.program.read hread]
  exact hdecode

theorem execute (h : small.Extends large) (i : Instruction) :
    large.execute i = small.execute i := by
  simp only [Machine.execute, h.registers, h.counter]

theorem access (h : small.Extends large) {a : Access} (haccess : small.access i x = .ok a) :
    ∃ data, large.access i x = .ok ⟨a.address, a.loaded, data⟩ ∧ a.data.Extends data := by
  rw [Machine.access]
  rcases access_eq_ok haccess with
    ⟨hread, v, hv, rfl⟩ | ⟨hread, hwrite, data, hdata, rfl⟩ | ⟨hread, hwrite, rfl⟩
  · refine ⟨large.data, ?_, h.data⟩
    rw [if_pos hread, h.data.read hv]
    rfl
  · obtain ⟨data', hdata', hextends⟩ := h.data.write hdata
    refine ⟨data', ?_, hextends⟩
    rw [if_neg (by simp [hread]), if_pos hwrite, hdata']
    rfl
  · refine ⟨large.data, ?_, h.data⟩
    rw [if_neg (by simp [hread]), if_neg (by simp [hwrite])]

/-- A larger machine carries out what the smaller one carries out, with the same trace. -/
theorem step (h : small.Extends large) {t : Trace} (hstep : small.step = (small', .ok t)) :
    ∃ large', large.step = (large', .ok t) ∧ small'.Extends large' := by
  have hsmall := completes_of_step hstep
  obtain ⟨data, haccess, hdata⟩ := h.access hsmall.access
  -- Nothing but the access looks at a memory, so the other stages are those of the smaller machine.
  let large' : Machine :=
    { large.commit t.instruction data t.writeBack with
      counter := { large.counter with value := t.counterAfter }
      cycles := large.cycles + 1 }
  have hlarge : large.Completes large' t :=
    { fetch := h.fetch hsmall.fetch
      execution := by
        rw [h.execute]
        exact hsmall.execution
      access := haccess
      writeBack := by
        rw [hsmall.writeBack, Machine.writeBack, Machine.writeBack, h.counter]
      before := by
        rw [h.counter]
        exact hsmall.before
      after := by
        rw [h.counter]
        exact hsmall.after
      aligned := hsmall.aligned
      state := rfl }
  refine ⟨large', hlarge.step, ?_⟩
  rw [hsmall.state]
  refine ⟨h.program, hdata, ?_, ?_, ?_⟩
  · change (large.commit t.instruction data t.writeBack).registers =
      (small.commit t.instruction small'.data t.writeBack).registers
    simp only [commit, h.registers]
  · change ProgramCounter.mk t.counterAfter large.counter.initial =
      ProgramCounter.mk t.counterAfter small.counter.initial
    rw [h.counter]
  · change large.cycles + 1 = small.cycles + 1
    rw [h.cycles]

theorem advance (h : small.Extends large) {t : Trace} (hstep : small.advance = (small', .ok t)) :
    ∃ large', large.advance = (large', .ok t) ∧ small'.Extends large' := by
  obtain ⟨hlimit, hstep⟩ := advance_eq_ok_iff.mp hstep
  obtain ⟨large', hstep', h'⟩ := h.step hstep
  rw [← h.cycles] at hlimit
  exact ⟨large', advance_eq_ok_iff.mpr ⟨hlimit, hstep'⟩, h'⟩

/-- A larger machine repeats every run of the smaller one.  The induction is on the number of
steps. -/
theorem runSteps (h : small.Extends large) {k : Nat} {ts : List Trace}
    (hrun : small.runSteps k = (small', .ok ts)) :
    ∃ large', large.runSteps k = (large', .ok ts) ∧ small'.Extends large' := by
  induction k generalizing small large ts with
  | zero =>
      obtain ⟨rfl, hts⟩ := Prod.mk.inj hrun
      obtain rfl := Except.ok.inj hts
      exact ⟨large, rfl, h⟩
  | succ k ih =>
      obtain ⟨small₁, t, rest, hstep, hrest, rfl⟩ := runSteps_succ_eq_ok.mp hrun
      obtain ⟨large₁, hstep', h₁⟩ := h.advance hstep
      obtain ⟨large', hrest', h'⟩ := ih h₁ hrest
      exact ⟨large', runSteps_succ_eq_ok.mpr ⟨large₁, t, rest, hstep', hrest', rfl⟩, h'⟩

end Extends

/-! ## The same program -/

theorem Reachable.program_pos {m : Machine} (h : m.Reachable) : 0 < m.program.capacity := by
  obtain ⟨programWords, dataWords, start, m₀, ops, hcreate, rfl⟩ := h
  rw [(Evolves.after m₀ ops).program.capacity]
  obtain ⟨program, hprogram, hcreate⟩ := Fault.bind_eq_ok hcreate
  obtain ⟨data, -, hcreate⟩ := Fault.bind_eq_ok hcreate
  obtain ⟨counter, -, hcreate⟩ := Fault.bind_eq_ok hcreate
  obtain rfl := Except.ok.inj hcreate
  exact (Store.create_eq_ok hprogram).2

/-- A program that fits is loaded into a larger machine too, which then extends the smaller one. -/
theorem exists_extends_loadProgram {small large : Machine}
    (hkind : large.program.kind = small.program.kind)
    (hdataKind : large.data.kind = small.data.kind)
    (hinitial : large.counter.initial = small.counter.initial)
    (hprogram : small.program.capacity ≤ large.program.capacity)
    (hdata : small.data.capacity ≤ large.data.capacity) {code : List Int}
    (hpos : 0 < small.program.capacity) (hfit : code.length ≤ small.program.capacity) :
    ∃ s l, small.loadProgram code = (s, .ok ()) ∧ large.loadProgram code = (l, .ok ()) ∧
      s.Extends l := by
  refine ⟨_, _, loadProgram_eq_ok hpos hfit,
    loadProgram_eq_ok (hpos.trans_le hprogram) (hfit.trans hprogram), ?_⟩
  rw [hkind]
  have hroom : 0 + code.length ≤ small.program.reset.capacity := by
    rw [Store.capacity_reset]
    omega
  refine ⟨(Store.Extends.reset hkind hprogram).fill small.program.kind.view hroom,
    Store.Extends.reset hdataKind hdata, rfl, ?_, rfl⟩
  change ProgramCounter.mk large.counter.initial large.counter.initial =
    ProgramCounter.mk small.counter.initial small.counter.initial
  rw [hinitial]

theorem evolves_of_loadProgram_runSteps {m s s' : Machine} {code : List Int} {k : Nat}
    {ts : List Trace} (hload : m.loadProgram code = (s, .ok ()))
    (hrun : s.runSteps k = (s', .ok ts)) : m.Evolves s' := by
  have hfirst := Evolves.loadProgram m code
  have hrest := Evolves.runSteps s k
  rw [hload] at hfirst
  rw [hrun] at hrest
  exact hfirst.trans hrest

/-- More memory never changes a run.  Of two machines with the same start, the larger one repeats
every run of the smaller one on the same program with the same traces, and ends in the same state
with more memory, in which all further words are zero. -/
theorem runSteps_extends {small large : Machine} (hsmall : small.Reachable)
    (hlarge : large.Reachable) (hinitial : large.counter.initial = small.counter.initial)
    (hprogram : small.program.capacity ≤ large.program.capacity)
    (hdata : small.data.capacity ≤ large.data.capacity) {code : List Int}
    (hfit : code.length ≤ small.program.capacity) :
    ∃ s l, small.loadProgram code = (s, .ok ()) ∧ large.loadProgram code = (l, .ok ()) ∧
      ∀ k s' ts, s.runSteps k = (s', .ok ts) →
        s'.program.capacity = small.program.capacity ∧ s'.data.capacity = small.data.capacity ∧
        ∃ l', l.runSteps k = (l', .ok ts) ∧
          l'.program.capacity = large.program.capacity ∧ l'.data.capacity = large.data.capacity ∧
          s'.Extends l' := by
  obtain ⟨p, d, start, hwell⟩ := hsmall.wellFormed
  obtain ⟨p', d', start', hwell'⟩ := hlarge.wellFormed
  obtain ⟨s, l, hs, hl, hextends⟩ := exists_extends_loadProgram
    (hwell'.program.kind.trans hwell.program.kind.symm)
    (hwell'.data.kind.trans hwell.data.kind.symm) hinitial hprogram hdata hsmall.program_pos hfit
  refine ⟨s, l, hs, hl, ?_⟩
  intro k s' ts hrun
  obtain ⟨l', hrun', hextends'⟩ := hextends.runSteps hrun
  have hevolves := evolves_of_loadProgram_runSteps hs hrun
  have hevolves' := evolves_of_loadProgram_runSteps hl hrun'
  exact ⟨hevolves.program.capacity, hevolves.data.capacity, l', hrun',
    hevolves'.program.capacity, hevolves'.data.capacity, hextends'⟩

/-- A number is stored and loaded again where there is one data word, and where there are two. -/
theorem runSteps_extends_store :
    ∃ (small large s l s' l' : Machine) (ts : List Trace), small.Reachable ∧ large.Reachable ∧
      small.data.capacity = 1 ∧ large.data.capacity = 2 ∧
      small.loadProgram [5243027, 1056803, 8451] = (s, .ok ()) ∧
      large.loadProgram [5243027, 1056803, 8451] = (l, .ok ()) ∧
      s.runSteps 3 = (s', .ok ts) ∧ l.runSteps 3 = (l', .ok ts) ∧
      s'.Extends l' ∧ l'.data.words = #[5, 0] := by
  let small : Machine := ⟨.empty .program 3, .empty .data 1, .empty, ⟨0, 0⟩, 0⟩
  let large : Machine := ⟨.empty .program 5, .empty .data 2, .empty, ⟨0, 0⟩, 0⟩
  have hsmall : small.Reachable := ⟨.integer 3, .integer 1, 0, small, [], rfl, rfl⟩
  have hlarge : large.Reachable := ⟨.integer 5, .integer 2, 0, large, [], rfl, rfl⟩
  have hdone : ((small.loadProgram [5243027, 1056803, 8451]).1.runSteps 3).2.isOk = true := by
    decide +kernel
  have hwords : ((large.loadProgram [5243027, 1056803, 8451]).1.runSteps 3).1.data.words =
      #[5, 0] := by
    decide +kernel
  have hfit : ([5243027, 1056803, 8451] : List Int).length ≤ small.program.capacity := by
    decide
  obtain ⟨s, l, hs, hl, hruns⟩ :=
    runSteps_extends hsmall hlarge rfl (by decide) (by decide) hfit
  rw [hs] at hdone
  rw [hl] at hwords
  rcases hrun : s.runSteps 3 with ⟨s', f | ts⟩
  · rw [hrun] at hdone
    cases hdone
  · obtain ⟨-, -, l', hrun', -, -, hextends⟩ := hruns 3 s' ts hrun
    rw [hrun'] at hwords
    exact ⟨small, large, s, l, s', l', ts, hsmall, hlarge, rfl, rfl, hs, hl, hrun, hrun', hextends,
      hwords⟩

end Machine

end Rv32
