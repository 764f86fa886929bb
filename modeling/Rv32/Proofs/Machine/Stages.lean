import Mathlib
import Rv32.Machine.Step
import Rv32.Proofs.Store.Access

/-!
# The stages of a step

A step ends in one of four ways: the fetch is refused, the access to data memory is refused, the
next address is refused, or the instruction is carried out.  The lemmas here say what each end
leaves, so that later proofs need not take `Machine.step` apart.  A completed step is described
through its trace, which names everything that the stages made.
-/

namespace Rv32

/-- An address to continue at is an unsigned word already. -/
theorem Flow.unsigned_target (pc : Int) (f : Flow) :
    Word.unsigned (f.target pc) = f.target pc := by
  cases f <;> exact Word.unsigned_unsigned _

namespace ProgramCounter

variable {c c' : ProgramCounter} {x : Int}

/-- An unsigned word is accepted as it is, if it is aligned. -/
theorem set_eq_ok (h : c.set x = .ok c') (hx : Word.unsigned x = x) :
    x % 4 = 0 ∧ c' = { c with value := x } := by
  by_cases hfour : x % 4 = 0
  · have haligned : aligned x = .ok x := aligned_eq_ok_iff.mpr ⟨hx, hfour⟩
    rw [set, haligned] at h
    exact ⟨hfour, (Except.ok.inj h).symm⟩
  · simp only [set, aligned, hx, if_neg hfour] at h
    cases h

theorem set_eq_error {f : Fault} (h : c.set x = .error f) (hx : Word.unsigned x = x) :
    x % 4 ≠ 0 ∧ f = .counterUnaligned x := by
  by_cases hfour : x % 4 = 0
  · have haligned : aligned x = .ok x := aligned_eq_ok_iff.mpr ⟨hx, hfour⟩
    rw [set, haligned] at h
    cases h
  · simp only [set, aligned, hx, if_neg hfour] at h
    exact ⟨hfour, (Except.error.inj h).symm⟩

end ProgramCounter

namespace Machine

variable {m m' : Machine}

/-- An access reads a word, writes one, or leaves data memory alone. -/
theorem access_eq_ok {i : Instruction} {x : Execution} {a : Access} (h : m.access i x = .ok a) :
    (i.signals.memRead = true ∧
        ∃ v, m.data.read x.alu.value = .ok v ∧ a = ⟨some x.alu.value, some v, m.data⟩) ∨
      (i.signals.memRead = false ∧ i.signals.memWrite = true ∧
        ∃ data, m.data.write x.alu.value x.rs2 = .ok data ∧
          a = ⟨some x.alu.value, none, data⟩) ∨
      (i.signals.memRead = false ∧ i.signals.memWrite = false ∧ a = ⟨none, none, m.data⟩) := by
  unfold access at h
  by_cases hread : i.signals.memRead = true
  · rw [if_pos hread] at h
    obtain ⟨v, hv, h⟩ := Fault.bind_eq_ok h
    exact Or.inl ⟨hread, v, hv, (Except.ok.inj h).symm⟩
  · rw [if_neg hread] at h
    rw [Bool.not_eq_true] at hread
    by_cases hwrite : i.signals.memWrite = true
    · rw [if_pos hwrite] at h
      obtain ⟨data, hdata, h⟩ := Fault.bind_eq_ok h
      exact Or.inr (Or.inl ⟨hread, hwrite, data, hdata, (Except.ok.inj h).symm⟩)
    · rw [if_neg hwrite] at h
      rw [Bool.not_eq_true] at hwrite
      exact Or.inr (Or.inr ⟨hread, hwrite, (Except.ok.inj h).symm⟩)

/-- What a step from `m` to `m'` with trace `t` did, stage by stage. -/
structure Completes (m m' : Machine) (t : Trace) : Prop where
  fetch : m.fetch = .ok t.instruction
  execution : t.toExecution = m.execute t.instruction
  access : m.access t.instruction t.toExecution = .ok ⟨t.memoryAddress, t.memoryRead, m'.data⟩
  writeBack : t.writeBack = m.writeBack t.instruction t.toExecution t.memoryRead
  before : t.counterBefore = m.counter.value
  after : t.counterAfter = (flow t.instruction t.toExecution).target m.counter.value
  aligned : t.counterAfter % 4 = 0
  state : m' =
    { m.commit t.instruction m'.data t.writeBack with
      counter := { m.counter with value := t.counterAfter }
      cycles := m.cycles + 1 }

theorem completes_of_step {t : Trace} (h : m.step = (m', .ok t)) : m.Completes m' t := by
  unfold step at h
  split at h
  · cases h
  · next i hi =>
      simp only at h
      split at h
      · cases h
      · next a ha =>
          split at h
          · cases h
          · next counter hc =>
              obtain ⟨hfour, rfl⟩ := ProgramCounter.set_eq_ok hc (Flow.unsigned_target _ _)
              obtain ⟨rfl, ht⟩ := Prod.mk.inj h
              obtain rfl := Except.ok.inj ht
              exact ⟨hi, rfl, ha, rfl, rfl, rfl, hfour, rfl⟩

theorem completes_of_advance {t : Trace} (h : m.advance = (m', .ok t)) : m.Completes m' t :=
  completes_of_step (advance_eq_ok_iff.mp h).2

/-- The stages make up the step. -/
theorem Completes.step {t : Trace} (h : m.Completes m' t) : m.step = (m', .ok t) := by
  have hset : m.counter.set t.counterAfter = .ok { m.counter with value := t.counterAfter } := by
    have haligned : ProgramCounter.aligned t.counterAfter = .ok t.counterAfter := by
      apply ProgramCounter.aligned_eq_ok_iff.mpr
      rw [h.after]
      refine ⟨Flow.unsigned_target _ _, ?_⟩
      rw [← h.after]
      exact h.aligned
    rw [ProgramCounter.set, haligned]
    rfl
  have hcounter : (m.commit t.instruction m'.data t.writeBack).counter = m.counter := rfl
  simp only [Machine.step, h.fetch]
  rw [← h.execution, h.access]
  simp only [← h.writeBack, ← h.after, hcounter, hset]
  rw [Prod.mk.injEq, ← h.before]
  exact ⟨h.state.symm, rfl⟩

/-- Where a step is refused, the machine is left as it was, unless only the next address was
refused. -/
theorem step_eq_error {f : Fault} (h : m.step = (m', .error f)) :
    (m.fetch = .error f ∧ m' = m) ∨
      ∃ i, m.fetch = .ok i ∧
        ((m.access i (m.execute i) = .error f ∧ m' = m) ∨
          ∃ a, m.access i (m.execute i) = .ok a ∧
            (flow i (m.execute i)).target m.counter.value % 4 ≠ 0 ∧
            m' = m.commit i a.data (m.writeBack i (m.execute i) a.loaded)) := by
  unfold step at h
  split at h
  · next e he =>
      obtain ⟨rfl, hf⟩ := Prod.mk.inj h
      obtain rfl := Except.error.inj hf
      exact Or.inl ⟨he, rfl⟩
  · next i hi =>
      refine Or.inr ⟨i, hi, ?_⟩
      simp only at h
      split at h
      · next e he =>
          obtain ⟨rfl, hf⟩ := Prod.mk.inj h
          obtain rfl := Except.error.inj hf
          exact Or.inl ⟨he, rfl⟩
      · next a ha =>
          split at h
          · next e he =>
              obtain ⟨rfl, -⟩ := Prod.mk.inj h
              obtain ⟨hfour, -⟩ := ProgramCounter.set_eq_error he (Flow.unsigned_target _ _)
              exact Or.inr ⟨a, ha, hfour, rfl⟩
          · cases h

/-! ## Cycles -/

theorem cycles_of_step {t : Trace} (h : m.step = (m', .ok t)) : m'.cycles = m.cycles + 1 := by
  rw [(completes_of_step h).state]

/-- A refused instruction is not counted. -/
theorem cycles_of_step_error {f : Fault} (h : m.step = (m', .error f)) :
    m'.cycles = m.cycles := by
  obtain ⟨-, rfl⟩ | ⟨i, -, ⟨-, rfl⟩ | ⟨a, -, -, rfl⟩⟩ := step_eq_error h <;> rfl

theorem cycles_of_advance {t : Trace} (h : m.advance = (m', .ok t)) :
    m'.cycles = m.cycles + 1 :=
  cycles_of_step (advance_eq_ok_iff.mp h).2

theorem cycles_of_advance_error {f : Fault} (h : m.advance = (m', .error f)) :
    m'.cycles = m.cycles := by
  rcases advance_eq_error_iff.mp h with ⟨-, rfl, -⟩ | ⟨-, h⟩
  · rfl
  · exact cycles_of_step_error h

end Machine

end Rv32
