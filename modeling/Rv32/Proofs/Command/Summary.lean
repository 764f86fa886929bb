import Mathlib
import Rv32.Proofs.Command.Numbers
import Rv32.Proofs.Command.Running

/-!
# The summary of a run

The last words on a run name a number of instructions, in one of three messages.  Two of them show
the cycles of the machine, and the third shows the limit.  A run that is stopped by its limit has
counted up to it, so that the number is in each case that of the completed instructions, except
where the limit is negative: then nothing is carried out, and the summary shows the limit all the
same.
-/

namespace Rv32

namespace Command

/-- What a summary says of how a run came to its end. -/
inductive Verdict where
  | finished | limitReached | refused (f : Fault)

/-- The message for an end, with the number of instructions that it names. -/
def Verdict.text (count : Int) (m : Machine) : Verdict → String
  | finished => Console.line s!"Program finished after {count} instructions."
  | limitReached =>
    Console.line s!"Emulator stopped after {count} instructions (limit reached)."
  | refused f =>
    Console.alarm (s!"Stopped at pc={Numeral.marked 1 m.counter.value} " ++
      s!"after {count} instructions: {f.report.message}")

/-- The end that a run has come to. -/
def verdict (words : Int) (m : Machine) : Option Fault → Verdict
  | some f => .refused f
  | none => if m.finished words then .finished else .limitReached

/-- The number of instructions that the summary names. -/
def shownCount (limit : Int) (m : Machine) : Verdict → Int
  | .limitReached => limit
  | _ => m.cycles

theorem eq_of_showing {x : Int} {text said : String} (h : showing x text = .ok said) :
    said = text := by
  rw [showing] at h
  split at h
  · cases h
  · exact (Except.ok.inj h).symm

/-- The last words on a run, where they are said, are the message for its end. -/
theorem eq_of_summary {words limit : Int} {m : Machine} {fault : Option Fault} {said : String}
    (h : summary words limit m fault = .ok said) :
    said = (verdict words m fault).text (shownCount limit m (verdict words m fault)) m := by
  cases fault with
  | some f =>
      simp only [summary] at h
      split at h
      · cases h
      · exact eq_of_showing h
  | none =>
      simp only [summary] at h
      simp only [verdict]
      split at h
      · rename_i hfinished
        rw [if_pos hfinished]
        exact eq_of_showing h
      · rename_i hunfinished
        rw [if_neg hunfinished]
        exact eq_of_showing h

theorem verdict_eq_limitReached_iff {words : Int} {m : Machine} {fault : Option Fault} :
    verdict words m fault = .limitReached ↔ fault = none ∧ m.finished words = false := by
  cases fault with
  | some f => simp [verdict]
  | none => cases hfinished : m.finished words <;> simp [verdict, hfinished]

theorem shownCount_of_ne {limit : Int} {m : Machine} {v : Verdict} (h : v ≠ .limitReached) :
    shownCount limit m v = m.cycles := by
  cases v with
  | limitReached => exact absurd rfl h
  | finished => rfl
  | refused f => rfl

variable {settings : Settings} {source : List Char} {p : Assembly.Program}

/-- A run that its limit has stopped has counted up to it, or nothing where it is negative. -/
theorem eq_max_of_limitReached {words limit : Int} {m s final : Machine} {k : Nat}
    {fault : Option Fault} (hending : m.Ending words limit k s final fault)
    (h : verdict words final fault = .limitReached) : (k : Int) = max limit 0 := by
  obtain ⟨hfault, hunfinished⟩ := verdict_eq_limitReached_iff.mp h
  refine hending.eq_max hfault ?_
  rw [Machine.finished, decide_eq_false_iff_not, hending.kept hfault] at hunfinished
  omega

variable {settings : Settings} {source : List Char} {p : Assembly.Program}

/-- The summary of a run tells how many instructions were completed.  For every source that
assembles, with memories that can be built and hold its program and an aligned start, and for every
limit: the run comes to an end after `k` completed instructions, which are the cycles of the machine
that is left, and the message for this end names `k` if the limit is not negative or was not what
stopped the run.  Where a negative limit stopped it, nothing was carried out and the limit is named.
The message is missing only where it is unsayable, which it never is in a run that the arguments of
a command can ask for. -/
theorem runSource_summary (console : Console) (hp : Assembly.assemble source = .ok p)
    (h : settings.Admits p) :
    ∃ m k s final fault shown,
      settings.Loads p m ∧
      m.Ending p.machineCode.length settings.steps k s final fault ∧
      final.cycles = k ∧
      (∀ args file verbose, parse args = .ok (.run file settings verbose) →
        ¬ Unsayable p.machineCode.length settings.steps k s) ∧
      (¬ Unsayable p.machineCode.length settings.steps k s →
        ∃ count,
          (runSource console settings source).text =
            shown ++ (verdict p.machineCode.length final fault).text count final ++
              Console.line "------------------------" ++ settings.dumps final ∧
          (0 ≤ settings.steps ∨ verdict p.machineCode.length final fault ≠ .limitReached →
            count = k) ∧
          (settings.steps < 0 → verdict p.machineCode.length final fault = .limitReached →
            count = settings.steps ∧ k = 0)) := by
  obtain ⟨m, hm⟩ := h.exists_loads
  obtain ⟨before, hbefore⟩ := runSource_eq console hp hm
  obtain ⟨k, s, final, fault, shown, hending, houtcome⟩ := exists_ending_runLoaded console hm
  have hcycles : final.cycles = k := by
    rw [hending.cycles, hm.cycles, Nat.zero_add]
  refine ⟨m, k, s, final, fault, before ++ shown, hm, hending, hcycles,
    fun _ _ _ hasked => not_unsayable (exceedsLimit_steps_of_parse hasked) hending, ?_⟩
  intro hsayable
  obtain ⟨hunsayable, -⟩ | ⟨-, said, hsaid, houtcome⟩ := houtcome
  · exact absurd hunsayable hsayable
  refine ⟨shownCount settings.steps final (verdict p.machineCode.length final fault), ?_, ?_, ?_⟩
  · rw [hbefore, houtcome, ← eq_of_summary hsaid]
    simp only [Outcome.following, String.append_assoc]
  · intro h
    by_cases hverdict : verdict p.machineCode.length final fault = .limitReached
    · have hnonneg : 0 ≤ settings.steps := h.resolve_right (not_not.mpr hverdict)
      rw [hverdict, eq_max_of_limitReached hending hverdict, max_eq_left hnonneg]
      rfl
    · rw [shownCount_of_ne hverdict, hcycles]
  · intro hnegative hverdict
    have hk := eq_max_of_limitReached hending hverdict
    rw [max_eq_right hnegative.le] at hk
    rw [hverdict]
    exact ⟨rfl, Int.ofNat.inj hk⟩

/-- The last instruction within the limit is refused. -/
theorem runSource_summary_refused :
    ∃ p m k s final fault shown,
      Assembly.assemble "addi x2, x0, 6\njalr x1, 0(x2)".toList = .ok p ∧
      Settings.Loads { steps := 2, dataWords := some 1 } p m ∧
      m.Ending p.machineCode.length 2 k s final fault ∧ final.cycles = k ∧
      (runSource {} { steps := 2, dataWords := some 1 }
        "addi x2, x0, 6\njalr x1, 0(x2)".toList).text =
          shown ++ (verdict p.machineCode.length final fault).text k final ++
            Console.line "------------------------" ++
            Settings.dumps { steps := 2, dataWords := some 1 } final := by
  have hp : Assembly.assemble "addi x2, x0, 6\njalr x1, 0(x2)".toList =
      .ok (Assembly.layout "addi x2, x0, 6\njalr x1, 0(x2)".toList).program := by
    decide +kernel
  have hadmits : Settings.Admits { steps := 2, dataWords := some 1 }
      (Assembly.layout "addi x2, x0, 6\njalr x1, 0(x2)".toList).program :=
    ⟨by decide, by decide, by decide +kernel, by decide⟩
  have hasked : parse (["run", "--steps", "2", "--data-words", "1", "p.s"].map String.toList) =
      .ok (.run "p.s".toList { steps := 2, dataWords := some 1 } false) := by
    decide +kernel
  obtain ⟨m, k, s, final, fault, shown, hloads, hending, hcycles, hsayable, hsummary⟩ :=
    runSource_summary {} hp hadmits
  obtain ⟨count, htext, hcount, -⟩ := hsummary (hsayable _ _ _ hasked)
  rw [hcount (Or.inl (by decide))] at htext
  exact ⟨_, m, k, s, final, fault, shown, hp, hloads, hending, hcycles, htext⟩

/-- A negative limit is shown as the number of instructions of a run that has carried out none. -/
theorem summary_of_negative_limit :
    ∃ p m, Assembly.assemble "nop".toList = .ok p ∧
      Settings.Admits { steps := -5, dataWords := some 1 } p ∧
      Settings.Loads { steps := -5, dataWords := some 1 } p m ∧
      (∀ k s final fault, m.Ending p.machineCode.length (-5) k s final fault →
        k = 0 ∧ final.cycles = 0) ∧
      (runSource {} { steps := -5, dataWords := some 1 } "nop".toList).text =
        Console.line "\n--- Running Emulator ---" ++
          Verdict.limitReached.text (-5) m ++ Console.line "------------------------" := by
  have hp : Assembly.assemble "nop".toList = .ok (Assembly.layout "nop".toList).program := by
    decide +kernel
  have hadmits : Settings.Admits { steps := -5, dataWords := some 1 }
      (Assembly.layout "nop".toList).program :=
    ⟨by decide, by decide, by decide +kernel, by decide⟩
  obtain ⟨m, hm⟩ := hadmits.exists_loads
  refine ⟨_, m, hp, hadmits, hm, ?_, ?_⟩
  · intro k s final fault hending
    have hk : k = 0 := by
      have hle := hending.le_max
      rw [max_eq_right (by decide)] at hle
      omega
    rw [hending.cycles, hm.cycles, hk]
    exact ⟨rfl, rfl⟩
  · have htext : (runSource {} { steps := -5, dataWords := some 1 } "nop".toList).text =
        "\n--- Running Emulator ---\n" ++
          "Emulator stopped after -5 instructions (limit reached).\n" ++
          "------------------------\n" := by
      decide +kernel
    exact htext

end Command

end Rv32
