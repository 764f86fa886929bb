import Mathlib
import Rv32.Proofs.Machine.Replay

/-!
# Driven runs

A driven run goes on until, before an instruction, the program counter has passed the program or the
limit on the instructions is reached, or until an instruction is refused.  `Due` says that one of
these is the case, and `Ending` that a run has come to the first state where it is.

A completed instruction adds one to the cycles, so that what is left below the limit always suffices
for the rest of a run: `drive_eq` is the loop with its own conditions, in which nothing else can end
it.
-/

namespace Rv32.Machine

variable {m m₁ m' s final : Machine} {k : Nat} {words limit : Int} {fault : Option Fault}

/-! ## Completed instructions -/

/-- The first `k` instructions are carried out and lead from `m` to `s`. -/
def Reaches (m : Machine) (k : Nat) (s : Machine) : Prop := ∃ ts, m.runSteps k = (s, .ok ts)

theorem reaches_zero : m.Reaches 0 s ↔ m = s := by
  constructor
  · rintro ⟨ts, h⟩
    exact congrArg Prod.fst h
  · rintro rfl
    exact ⟨[], rfl⟩

theorem reaches_succ :
    m.Reaches (k + 1) s ↔ ∃ m₁ t, m.advance = (m₁, .ok t) ∧ m₁.Reaches k s := by
  constructor
  · rintro ⟨ts, h⟩
    obtain ⟨m₁, t, rest, hstep, hrest, -⟩ := runSteps_succ_eq_ok.mp h
    exact ⟨m₁, t, hstep, rest, hrest⟩
  · rintro ⟨m₁, t, hstep, rest, hrest⟩
    exact ⟨t :: rest, runSteps_succ_eq_ok.mpr ⟨m₁, t, rest, hstep, hrest, rfl⟩⟩

theorem Reaches.cycles (h : m.Reaches k s) : s.cycles = m.cycles + k := by
  induction k generalizing m with
  | zero =>
      rw [← reaches_zero.mp h, Nat.add_zero]
  | succ k ih =>
      obtain ⟨m₁, t, hstep, hrest⟩ := reaches_succ.mp h
      rw [ih hrest, cycles_of_advance hstep]
      omega

/-! ## The end of a run -/

/-- A run of a program of `words` words goes no further than a state with `k` instructions done. -/
def Due (words limit : Int) (k : Nat) (s : Machine) : Prop :=
  4 * words ≤ s.counter.value ∨ limit ≤ k ∨ ∃ s' f, s.advance = (s', .error f)

/-- A run from `m` ends after `k` completed instructions, in the state `s`.  There is a fault
exactly if the next instruction was tried and refused, and `final` is what it has left then. -/
structure Ending (words limit : Int) (m : Machine) (k : Nat) (s final : Machine)
    (fault : Option Fault) : Prop where
  reaches : m.Reaches k s
  due : Due words limit k s
  first : ∀ j < k, ∃ r, m.Reaches j r ∧ ¬ Due words limit j r
  refused : ∀ f s', fault = some f ∧ final = s' ↔
    s.counter.value < 4 * words ∧ (k : Int) < limit ∧ s.advance = (s', .error f)
  kept : fault = none → final = s

/-- One instruction more is as good as a limit that is lower by one. -/
theorem due_succ : Due words limit (k + 1) s ↔ Due words (limit - 1) k s := by
  have hlimit : limit ≤ ((k + 1 : Nat) : Int) ↔ limit - 1 ≤ k := by
    omega
  rw [Due, Due, hlimit]

/-- A run that is finished or has reached its limit ends before the next instruction. -/
theorem ending_of_le (h : 4 * words ≤ m.counter.value ∨ limit ≤ 0) :
    Ending words limit m 0 m m none where
  reaches := reaches_zero.mpr rfl
  due := h.imp id Or.inl
  first := by
    intro j hj
    exact absurd hj (Nat.not_lt_zero j)
  refused := by
    intro f s'
    constructor
    · rintro ⟨hnone, -⟩
      cases hnone
    · rintro ⟨hcounter, hlimit, -⟩
      omega
  kept := fun _ => rfl

/-- A run ends with an instruction that is refused. -/
theorem ending_of_advance_error {f : Fault} (hcounter : m.counter.value < 4 * words)
    (hlimit : 0 < limit) (hstep : m.advance = (m', .error f)) :
    Ending words limit m 0 m m' (some f) where
  reaches := reaches_zero.mpr rfl
  due := Or.inr (Or.inr ⟨m', f, hstep⟩)
  first := by
    intro j hj
    exact absurd hj (Nat.not_lt_zero j)
  refused := by
    intro g s'
    constructor
    · rintro ⟨hg, rfl⟩
      obtain rfl := Option.some.inj hg
      exact ⟨hcounter, hlimit, hstep⟩
    · rintro ⟨-, -, hg⟩
      rw [hstep] at hg
      obtain ⟨hleft, hfault⟩ := Prod.mk.inj hg
      exact ⟨congrArg some (Except.error.inj hfault), hleft⟩
  kept := by
    intro hnone
    cases hnone

/-- A run goes on with an instruction that is carried out, and ends where the rest of it ends. -/
theorem Ending.cons {t : Trace} (hcounter : m.counter.value < 4 * words) (hlimit : 0 < limit)
    (hstep : m.advance = (m₁, .ok t)) (h : Ending words (limit - 1) m₁ k s final fault) :
    Ending words limit m (k + 1) s final fault where
  reaches := reaches_succ.mpr ⟨m₁, t, hstep, h.reaches⟩
  due := due_succ.mpr h.due
  first := by
    intro j hj
    cases j with
    | zero =>
        -- The first instruction is carried out, so none of the three was the case before it.
        refine ⟨m, reaches_zero.mpr rfl, ?_⟩
        rintro (hfinished | hreached | ⟨s', f, hrefused⟩)
        · exact absurd hcounter (not_lt.mpr hfinished)
        · exact absurd hlimit (not_lt.mpr hreached)
        · rw [hstep] at hrefused
          cases hrefused
    | succ j =>
        obtain ⟨r, hr, hnot⟩ := h.first j (Nat.lt_of_succ_lt_succ hj)
        exact ⟨r, reaches_succ.mpr ⟨m₁, t, hstep, hr⟩, mt due_succ.mp hnot⟩
  refused := by
    intro f s'
    have hbelow : (k : Int) < limit - 1 ↔ ((k + 1 : Nat) : Int) < limit := by
      omega
    rw [h.refused f s', hbelow]
  kept := h.kept

/-- A refused instruction is not counted, so the last state has as many cycles as were completed. -/
theorem Ending.cycles (h : Ending words limit m k s final fault) :
    final.cycles = m.cycles + k := by
  rw [← h.reaches.cycles]
  cases hfault : fault with
  | none => rw [h.kept hfault]
  | some f =>
      obtain ⟨-, -, hstep⟩ := (h.refused f final).mp ⟨hfault, rfl⟩
      exact cycles_of_advance_error hstep

/-- No instruction is carried out beyond the limit. -/
theorem Ending.le_max (h : Ending words limit m k s final fault) : (k : Int) ≤ max limit 0 := by
  cases k with
  | zero => exact le_max_right _ _
  | succ j =>
      obtain ⟨r, -, hnot⟩ := h.first j (Nat.lt_succ_self j)
      have hbelow : ¬ limit ≤ j := fun hle => hnot (Or.inr (Or.inl hle))
      omega

/-- A run that is neither refused nor finished has gone up to its limit, unless it had no room below
it from the start. -/
theorem Ending.eq_max (h : Ending words limit m k s final fault) (hfault : fault = none)
    (hcounter : s.counter.value < 4 * words) : (k : Int) = max limit 0 := by
  have hle := h.le_max
  rcases h.due with hfinished | hreached | ⟨s', f, hrefused⟩
  · omega
  · omega
  · by_cases hlimit : (k : Int) < limit
    · have hsome := (h.refused f s').mpr ⟨hcounter, hlimit, hrefused⟩
      rw [hfault] at hsome
      cases hsome.1
    · omega

/-! ## The loop -/

section Loop

variable {σ : Type} (words limit : Int)
  (observe : σ → Machine → Machine → Except Fault Trace → σ) (seen : σ) (m : Machine)

/-- The loop of a driven run: nothing but its conditions and a refused instruction end it. -/
theorem drive_eq :
    drive words limit observe seen m =
      if m.finished words = true ∨ limit ≤ m.cycles then ⟨m, seen, none⟩
      else
        match m.advance with
        | (m', .error e) => ⟨m', observe seen m m' (.error e), some e⟩
        | (m', .ok t) => drive words limit observe (observe seen m m' (.ok t)) m' := by
  rw [drive]
  cases hfuel : (limit - m.cycles).toNat with
  | zero =>
      have hreached : limit ≤ m.cycles := by
        omega
      rw [driveFor, if_pos (Or.inr hreached)]
  | succ fuel =>
      have hbelow : ¬ limit ≤ m.cycles := by
        omega
      rw [driveFor]
      by_cases hfinished : m.finished words = true
      · rw [if_pos hfinished, if_pos (Or.inl hfinished)]
      · rw [if_neg hfinished, if_neg (not_or.mpr ⟨hfinished, hbelow⟩)]
        rcases hstep : m.advance with ⟨m', e | t⟩
        · rfl
        · have hrest : (limit - m'.cycles).toNat = fuel := by
            rw [cycles_of_advance hstep]
            omega
          simp only [drive, hrest]

/-- A driven run comes to its end.  The induction is on what is left below the limit. -/
theorem exists_ending_drive :
    ∃ k s, Ending words (limit - m.cycles) m k s
      (drive words limit observe seen m).machine (drive words limit observe seen m).fault := by
  induction hleft : (limit - m.cycles).toNat generalizing seen m with
  | zero =>
      have hreached : limit ≤ m.cycles := by
        omega
      rw [drive_eq, if_pos (Or.inr hreached)]
      exact ⟨0, m, ending_of_le (Or.inr (by omega))⟩
  | succ left ih =>
      have hbelow : ¬ limit ≤ m.cycles := by
        omega
      rw [drive_eq]
      by_cases hfinished : m.finished words = true
      · rw [if_pos (Or.inl hfinished)]
        have hcounter : 4 * words ≤ m.counter.value := by
          rw [finished, decide_eq_true_eq] at hfinished
          omega
        exact ⟨0, m, ending_of_le (Or.inl hcounter)⟩
      · rw [if_neg (not_or.mpr ⟨hfinished, hbelow⟩)]
        have hcounter : m.counter.value < 4 * words := by
          rw [finished, decide_eq_true_eq] at hfinished
          omega
        rcases hstep : m.advance with ⟨m', e | t⟩
        · exact ⟨0, m, ending_of_advance_error hcounter (by omega) hstep⟩
        · -- The rest of the run starts with one cycle more, and so with one step less to go.
          have hcycles := cycles_of_advance hstep
          obtain ⟨k, s, hrest⟩ := ih (observe seen m m' (.ok t)) m' (by omega)
          have hlimit : limit - (m'.cycles : Int) = limit - m.cycles - 1 := by
            omega
          rw [hlimit] at hrest
          exact ⟨k + 1, s, hrest.cons hcounter (by omega) hstep⟩

end Loop

end Rv32.Machine
