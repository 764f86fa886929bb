import Mathlib
import Rv32.Machine.Request
import Rv32.Proofs.Machine.Arithmetic
import Rv32.Proofs.Machine.Invariant

/-!
# Traces are a complete log

A trace names the register and the word that a step has written, with the numbers that were put
there, and the counter that it has left.  Replaying a trace puts these numbers in place and does
nothing else: no instruction is decoded and no number is wrapped.

The replay of a run ends in the state that the run has ended in.  One step is enough for this,
since it is the same for every step from a well-formed machine; the run follows by induction on the
number of steps.
-/

namespace Rv32

/-! ## Replay -/

namespace Trace

/-- The registers after the write-back that a trace reports. -/
def replayRegisters (t : Trace) (f : RegisterFile) : RegisterFile :=
  match t.writeBack with
  | some x => ⟨f.slots.setIfInBounds t.instruction.rd x⟩
  | none => f

/-- The data store after the write that a trace reports. -/
def replayData (t : Trace) (s : Store) : Store :=
  match t.memoryAddress with
  | some a =>
    if t.instruction.signals.memWrite then
      { s with words := s.words.setIfInBounds (a / 4).toNat t.rs2 }
    else s
  | none => s

variable {t : Trace}

theorem eq_of_replayRegisters_ne {f : RegisterFile} {r : Register}
    (h : (t.replayRegisters f).slots.get r ≠ f.slots.get r) :
    t.instruction.rd = r ∧ t.writeBack = some ((t.replayRegisters f).slots.get r) := by
  simp only [Vector.get_eq_getElem] at h ⊢
  unfold replayRegisters at h ⊢
  cases hx : t.writeBack with
  | none => simp [hx] at h
  | some x =>
      by_cases hr : t.instruction.rd = r
      · subst hr
        simp
      · have hne : t.instruction.rd.val ≠ r.val := fun h => hr (Fin.ext h)
        simp [hx, hne] at h

theorem eq_of_replayData_ne {s : Store} {k : Nat}
    (h : (t.replayData s).words[k]? ≠ s.words[k]?) :
    t.instruction.signals.memWrite = true ∧
      (∃ a, t.memoryAddress = some a ∧ (a / 4).toNat = k) ∧
      (t.replayData s).words[k]? = some t.rs2 := by
  unfold replayData at h ⊢
  cases ha : t.memoryAddress with
  | none => simp [ha] at h
  | some a =>
      by_cases hwrite : t.instruction.signals.memWrite = true
      · simp only [ha, hwrite, if_true, Array.getElem?_setIfInBounds] at h ⊢
        by_cases hk : (a / 4).toNat = k
        · by_cases hlt : k < s.words.size
          · simp [hk, hlt]
          · simp [hk, hlt] at h
        · simp [hk] at h
      · simp [ha, hwrite] at h

end Trace

namespace Machine

/-- The machine after what a trace reports. -/
def replayStep (m : Machine) (t : Trace) : Machine :=
  { m with
    registers := t.replayRegisters m.registers
    data := t.replayData m.data
    counter := { m.counter with value := t.counterAfter }
    cycles := m.cycles + 1 }

/-- The machine after what several traces report. -/
def replay (m : Machine) (ts : List Trace) : Machine := ts.foldl replayStep m

/-- A trace holds what was read before a step, and accounts for all that the step has changed. -/
structure Records (s s' : Machine) (t : Trace) : Prop where
  before : t.counterBefore = s.counter.value
  after : t.counterAfter = s'.counter.value
  rs1 : t.rs1 = s.registers.read t.instruction.rs1
  rs2 : t.rs2 = s.registers.read t.instruction.rs2
  loads : t.memoryRead.isSome = t.instruction.signals.memRead
  loaded : ∀ x, t.memoryRead = some x →
    ∃ a, t.memoryAddress = some a ∧ s.data.read (.integer a) = .ok x
  program : s'.program = s.program
  register : ∀ r : Register, s'.registers.slots[r] ≠ s.registers.slots[r] →
    t.instruction.rd = r ∧ t.writeBack = some s'.registers.slots[r]
  word : ∀ k : Nat, s'.data.words[k]? ≠ s.data.words[k]? →
    t.instruction.signals.memWrite = true ∧ t.memoryAddress = some (4 * k) ∧
      s'.data.words[k]? = some t.rs2
  exclusive : s'.registers = s.registers ∨ s'.data = s.data

variable {m m' : Machine} {t : Trace}

/-! ## One step -/

/-- A step reads data memory, writes to it, or does neither, and its trace says which. -/
theorem Completes.access_cases (h : m.Completes m' t) :
    (t.instruction.signals.memRead = true ∧ t.instruction.signals.memWrite = false ∧
        m'.data = m.data ∧
        ∃ a x, t.memoryAddress = some a ∧ t.memoryRead = some x ∧
          m.data.read (.integer a) = .ok x) ∨
      (t.instruction.signals.memRead = false ∧ t.instruction.signals.memWrite = true ∧
        t.memoryRead = none ∧
        ∃ a, t.memoryAddress = some a ∧ m.data.write (.integer a) t.rs2 = .ok m'.data) ∨
      (t.instruction.signals.memRead = false ∧ t.instruction.signals.memWrite = false ∧
        t.memoryRead = none ∧ m'.data = m.data) := by
  have hboth : t.instruction.signals.memRead = true → t.instruction.signals.memWrite = false := by
    rw [Instruction.signals]
    cases t.instruction.kind <;> simp [Kind.signals]
  rcases access_eq_ok h.access with
    ⟨hread, v, hv, ha⟩ | ⟨hread, hwrite, data, hdata, ha⟩ | ⟨hread, hwrite, ha⟩
  · obtain ⟨haddress, hloaded, hkept⟩ := Access.mk.inj ha
    exact Or.inl ⟨hread, hboth hread, hkept, _, v, haddress, hloaded, hv⟩
  · obtain ⟨haddress, hloaded, rfl⟩ := Access.mk.inj ha
    exact Or.inr (Or.inl ⟨hread, hwrite, hloaded, _, haddress, hdata⟩)
  · obtain ⟨-, hloaded, hkept⟩ := Access.mk.inj ha
    exact Or.inr (Or.inr ⟨hread, hwrite, hloaded, hkept⟩)

/-- What a trace reports as read was read from data memory. -/
theorem Completes.loaded (h : m.Completes m' t) {x : Int} (hx : t.memoryRead = some x) :
    ∃ a, t.memoryAddress = some a ∧ m.data.read (.integer a) = .ok x := by
  rcases h.access_cases with ⟨-, -, -, a, y, ha, hy, hread⟩ | ⟨-, -, hnone, -⟩ | ⟨-, -, hnone, -⟩
  · obtain rfl := Option.some.inj (hx.symm.trans hy)
    exact ⟨a, ha, hread⟩
  · rw [hnone] at hx
    cases hx
  · rw [hnone] at hx
    cases hx

section Step

variable {p d : Nat} {start : Int}

/-- A number that was read from a well-formed data store is a signed word. -/
theorem signed_of_read {s : Store} (hs : s.WellFormed .data d) {a x : Int}
    (h : s.read (.integer a) = .ok x) : Word.signed x = x := by
  obtain ⟨-, -, hx⟩ := Store.getElem?_of_read_eq_ok h
  exact hs.view x (Array.mem_of_getElem? hx)

/-- What is written back is a signed word, and its destination is not register zero. -/
theorem Completes.writeBack_eq_some (hm : m.WellFormed p d start) (h : m.Completes m' t) {x : Int}
    (hx : t.writeBack = some x) :
    t.instruction.rd.val ≠ 0 ∧ t.instruction.signals.regWrite = true ∧ Word.signed x = x := by
  have hloaded : Word.signed (t.memoryRead.getD 0) = t.memoryRead.getD 0 := by
    cases hread : t.memoryRead with
    | none => rfl
    | some v =>
        obtain ⟨a, -, ha⟩ := h.loaded hread
        exact signed_of_read hm.data ha
  have halu : Word.signed t.alu.value = t.alu.value := by
    have hvalue : t.alu.value = (m.execute t.instruction).alu.value :=
      congrArg (fun e => e.alu.value) h.execution
    rw [hvalue, execute, AluOp.value_execute]
    exact Word.signed_toInt _
  rw [h.writeBack, Machine.writeBack] at hx
  split at hx
  · next hwrite =>
      obtain ⟨hreg, hrd⟩ := Bool.and_eq_true_iff.mp hwrite
      refine ⟨bne_iff_ne.mp hrd, hreg, ?_⟩
      split at hx
      · obtain rfl := Option.some.inj hx
        exact Word.signed_signed _
      · obtain rfl := Option.some.inj hx
        unfold Instruction.choose
        split
        · exact hloaded
        · exact halu
  · cases hx

theorem Completes.registers (h : m.Completes m' t) :
    m'.registers = (m.commit t.instruction m'.data t.writeBack).registers := by
  conv_lhs => rw [h.state]

theorem Completes.replayRegisters (hm : m.WellFormed p d start) (h : m.Completes m' t) :
    t.replayRegisters m.registers = m'.registers := by
  rw [h.registers]
  unfold Trace.replayRegisters commit
  cases hx : t.writeBack with
  | none => rfl
  | some x =>
      obtain ⟨hrd, -, hsigned⟩ := h.writeBack_eq_some hm hx
      simp only [RegisterFile.write, if_neg hrd, hsigned]
      congr 1
      ext k hk
      rw [Vector.getElem_setIfInBounds, Vector.getElem_set]

/-- The second source register holds a signed word. -/
theorem Completes.signed_rs2 (hm : m.WellFormed p d start) (h : m.Completes m' t) :
    Word.signed t.rs2 = t.rs2 := by
  have hvalue : t.rs2 = m.registers.read t.instruction.rs2 :=
    congrArg Execution.rs2 h.execution
  rw [hvalue]
  exact hm.registers.signed_read _

theorem Completes.replayData (hm : m.WellFormed p d start) (h : m.Completes m' t) :
    t.replayData m.data = m'.data := by
  unfold Trace.replayData
  rcases h.access_cases with
    ⟨-, hwrite, hkept, a, -, ha, -⟩ | ⟨-, hwrite, -, a, ha, hdata⟩ | ⟨-, hwrite, -, hkept⟩
  · simp [ha, hwrite, hkept]
  · obtain ⟨i, rfl, hput⟩ := Store.exists_put_of_write_eq_ok hdata
    have hplace : (4 * (i.val : Int) / 4).toNat = i.val := by
      omega
    have hview : m.data.kind.view t.rs2 = t.rs2 := by
      rw [hm.data.kind]
      exact h.signed_rs2 hm
    simp only [ha, hwrite, if_true, hput, Store.put, hplace, hview]
    rw [Array.setIfInBounds_def, dif_pos i.isLt]
  · split <;> simp [hwrite, hkept]

/-- Replaying the trace of a step is as good as the step. -/
theorem Completes.replayStep (hm : m.WellFormed p d start) (h : m.Completes m' t) :
    m.replayStep t = m' := by
  rw [Machine.replayStep, h.replayRegisters hm, h.replayData hm, h.registers]
  exact h.state.symm

/-- A step that writes to data memory writes nothing back. -/
theorem Completes.eq_registers_or_eq_data (hm : m.WellFormed p d start) (h : m.Completes m' t) :
    m'.registers = m.registers ∨ m'.data = m.data := by
  by_cases hwrite : t.instruction.signals.memWrite = true
  · left
    have hreg : t.instruction.signals.regWrite = false := by
      rw [Instruction.signals] at hwrite ⊢
      cases hk : t.instruction.kind <;> simp_all [Kind.signals]
    have hnone : t.writeBack = none := by
      cases hx : t.writeBack with
      | none => rfl
      | some x =>
          obtain ⟨-, hregWrite, -⟩ := h.writeBack_eq_some hm hx
          rw [hreg] at hregWrite
          cases hregWrite
    rw [← h.replayRegisters hm, Trace.replayRegisters, hnone]
  · right
    rcases h.access_cases with ⟨-, -, hkept, -⟩ | ⟨-, htrue, -⟩ | ⟨-, -, -, hkept⟩
    · exact hkept
    · exact absurd htrue hwrite
    · exact hkept

/-- The trace of a step is a record of it. -/
theorem Completes.records (hm : m.WellFormed p d start) (h : m.Completes m' t) :
    Records m m' t where
  before := h.before
  after := by
    rw [h.state]
  rs1 := congrArg Execution.rs1 h.execution
  rs2 := congrArg Execution.rs2 h.execution
  loads := by
    rcases h.access_cases with
      ⟨hread, -, -, _, x, -, hx, -⟩ | ⟨hread, -, hx, -⟩ | ⟨hread, -, hx, -⟩ <;>
      rw [hx, hread] <;> rfl
  loaded := fun _ => h.loaded
  program := by
    conv_lhs => rw [h.state]
    rfl
  register := by
    intro r hr
    rw [← h.replayRegisters hm] at hr ⊢
    exact Trace.eq_of_replayRegisters_ne hr
  word := by
    intro k hk
    rw [← h.replayData hm] at hk ⊢
    obtain ⟨hwrite, ⟨a, ha, rfl⟩, hword⟩ := Trace.eq_of_replayData_ne hk
    refine ⟨hwrite, ?_, hword⟩
    rcases h.access_cases with ⟨-, hfalse, -⟩ | ⟨-, -, -, b, hb, hdata⟩ | ⟨-, hfalse, -⟩
    · rw [hwrite] at hfalse
      cases hfalse
    · obtain ⟨i, rfl, -⟩ := Store.exists_put_of_write_eq_ok hdata
      obtain rfl := Option.some.inj (ha.symm.trans hb)
      rw [ha]
      congr 1
      omega
    · rw [hwrite] at hfalse
      cases hfalse
  exclusive := h.eq_registers_or_eq_data hm

end Step

/-! ## Runs -/

theorem runSteps_succ_eq_ok {n : Nat} {ts : List Trace} :
    m.runSteps (n + 1) = (m', .ok ts) ↔
      ∃ m₁ t rest, m.advance = (m₁, .ok t) ∧ m₁.runSteps n = (m', .ok rest) ∧ ts = t :: rest := by
  rw [runSteps]
  constructor
  · intro h
    split at h
    · cases h
    · next m₁ t hstep =>
        split at h
        · cases h
        · next m₂ rest hrun =>
            obtain ⟨rfl, hts⟩ := Prod.mk.inj h
            exact ⟨m₁, t, rest, hstep, hrun, (Except.ok.inj hts).symm⟩
  · rintro ⟨m₁, t, rest, hstep, hrun, rfl⟩
    simp only [hstep, hrun]

theorem length_of_runSteps {n : Nat} {ts : List Trace} (h : m.runSteps n = (m', .ok ts)) :
    ts.length = n := by
  induction n generalizing m ts with
  | zero =>
      obtain ⟨-, hts⟩ := Prod.mk.inj h
      rw [← Except.ok.inj hts]
      rfl
  | succ n ih =>
      obtain ⟨m₁, t, rest, -, hrun, rfl⟩ := runSteps_succ_eq_ok.mp h
      rw [List.length_cons, ih hrun]

/-- A run stops at each of its traces, with the step there as the next one. -/
theorem exists_step_of_runSteps {n k : Nat} {ts : List Trace} (h : m.runSteps n = (m', .ok ts))
    (hk : ts[k]? = some t) :
    ∃ s s', m.runSteps k = (s, .ok (ts.take k)) ∧ s.advance = (s', .ok t) ∧
      m.runSteps (k + 1) = (s', .ok (ts.take (k + 1))) := by
  induction n generalizing m ts k with
  | zero =>
      obtain ⟨-, hts⟩ := Prod.mk.inj h
      rw [← Except.ok.inj hts] at hk
      cases hk
  | succ n ih =>
      obtain ⟨m₁, t₀, rest, hstep, hrun, rfl⟩ := runSteps_succ_eq_ok.mp h
      cases k with
      | zero =>
          obtain rfl := Option.some.inj hk
          exact ⟨m, m₁, rfl, hstep, runSteps_succ_eq_ok.mpr ⟨m₁, t₀, [], hstep, rfl, rfl⟩⟩
      | succ k =>
          obtain ⟨s, s', hbefore, hnext, hafter⟩ := ih hrun hk
          exact ⟨s, s', runSteps_succ_eq_ok.mpr ⟨m₁, t₀, _, hstep, hbefore, rfl⟩, hnext,
            runSteps_succ_eq_ok.mpr ⟨m₁, t₀, _, hstep, hafter, rfl⟩⟩

section Run

variable {p d : Nat} {start : Int} {n : Nat} {ts : List Trace}

/-- Replaying the traces of a run is as good as the run. -/
theorem WellFormed.replay_of_runSteps (hm : m.WellFormed p d start)
    (h : m.runSteps n = (m', .ok ts)) : m.replay ts = m' := by
  induction n generalizing m ts with
  | zero =>
      obtain ⟨rfl, hts⟩ := Prod.mk.inj h
      rw [← Except.ok.inj hts]
      rfl
  | succ n ih =>
      obtain ⟨m₁, t, rest, hstep, hrun, rfl⟩ := runSteps_succ_eq_ok.mp h
      have hm₁ := hm.advance
      rw [hstep] at hm₁
      rw [replay, List.foldl_cons, (completes_of_advance hstep).replayStep hm]
      exact ih hm₁ hrun

/-- Each trace of a run is a record of what was done between the states that the traces before it
and those up to it lead to. -/
theorem WellFormed.records_of_runSteps (hm : m.WellFormed p d start)
    (h : m.runSteps n = (m', .ok ts)) {k : Nat} (hk : ts[k]? = some t) :
    m.runSteps k = (m.replay (ts.take k), .ok (ts.take k)) ∧
      Records (m.replay (ts.take k)) (m.replay (ts.take (k + 1))) t := by
  obtain ⟨s, s', hbefore, hstep, hafter⟩ := exists_step_of_runSteps h hk
  rw [hm.replay_of_runSteps hbefore, hm.replay_of_runSteps hafter]
  have hs := hm.runSteps k
  rw [hbefore] at hs
  exact ⟨hbefore, (completes_of_advance hstep).records hs⟩

end Run

/-- The traces of a run are a complete log of it.  They follow each other without a gap, replaying
them ends where the run has ended, and each of them records what was done between the state that
those before it lead to and the next one. -/
theorem runSteps_records (h : m.Reachable) {n : Nat} {ts : List Trace}
    (hrun : m.runSteps n = (m', .ok ts)) :
    m.replay ts = m' ∧ ts.length = n ∧
      (∀ t, ts[0]? = some t → t.counterBefore = m.counter.value) ∧
      (∀ k t u, ts[k]? = some t → ts[k + 1]? = some u → t.counterAfter = u.counterBefore) ∧
      ∀ k t, ts[k]? = some t →
        m.runSteps k = (m.replay (ts.take k), .ok (ts.take k)) ∧
          Records (m.replay (ts.take k)) (m.replay (ts.take (k + 1))) t := by
  obtain ⟨p, d, start, hm⟩ := h.wellFormed
  refine ⟨hm.replay_of_runSteps hrun, length_of_runSteps hrun, ?_, ?_, ?_⟩
  · intro t ht
    exact (hm.records_of_runSteps hrun ht).2.before
  · intro k t u ht hu
    obtain ⟨-, hfirst⟩ := hm.records_of_runSteps hrun ht
    obtain ⟨-, hsecond⟩ := hm.records_of_runSteps hrun hu
    rw [hfirst.after, hsecond.before]
  · intro k t ht
    exact hm.records_of_runSteps hrun ht

/-- A number is computed, stored and loaded again. -/
theorem runSteps_records_memory :
    ∃ (m m' : Machine) (ts : List Trace), m.Reachable ∧ m.runSteps 3 = (m', .ok ts) ∧
      m.replay ts = m' ∧ m'.registers.read 2 = 5 ∧
      ts.map Trace.writeBack = [some 5, none, some 5] ∧
      ∀ k t, ts[k]? = some t → Records (m.replay (ts.take k)) (m.replay (ts.take (k + 1))) t := by
  let m₀ : Machine := ⟨.empty .program 3, .empty .data 1, .empty, ⟨0, 0⟩, 0⟩
  let m := m₀.after [.machine (.load [5243027, 1056803, 8451])]
  have hreachable : m.Reachable := ⟨.integer 3, .integer 1, 0, m₀, _, rfl, rfl⟩
  have hread : (m.runSteps 3).1.registers.read 2 = 5 := by
    decide +kernel
  have hwritten : (m.runSteps 3).2.toOption.map (List.map Trace.writeBack) =
      some [some 5, none, some 5] := by
    decide +kernel
  rcases hrun : m.runSteps 3 with ⟨m', f | ts⟩
  · rw [hrun] at hwritten
    cases hwritten
  · rw [hrun] at hread hwritten
    obtain ⟨hreplay, -, -, -, hrecords⟩ := runSteps_records hreachable hrun
    exact ⟨m, m', ts, hreachable, hrun, hreplay, hread, Option.some.inj hwritten,
      fun k t ht => (hrecords k t ht).2⟩

end Machine

end Rv32
