import Mathlib
import Rv32.Proofs.Assembly.Fidelity
import Rv32.Proofs.Machine.Replay
import Rv32.Proofs.Machine.Safety

/-!
# Labels mean the same to the assembler and to the machine

The assembler turns the label of a branch or jump into its distance from the statement, and the
machine adds the distance to the program counter.  The two meet at the address of the label: when
the instruction of such a statement is carried out, the counter is at the address of the statement,
since the program store holds the program from address zero on, and nothing in a run changes it.
-/

namespace Rv32

open Assembly

namespace Machine

variable {m m' : Machine} {code : List Int}

/-! ## Runs of a loaded program -/

/-- A run keeps the program held. -/
theorem Holds.runSteps (hm : m.Holds code) {n : Nat} {ts : List Trace}
    (h : m.runSteps n = (m', .ok ts)) : m'.Holds code := by
  induction n generalizing m ts with
  | zero =>
      obtain ⟨rfl, -⟩ := Prod.mk.inj h
      exact hm
  | succ n ih =>
      obtain ⟨m₁, t, rest, hstep, hrun, -⟩ := runSteps_succ_eq_ok.mp h
      exact ih (hm.of_step (advance_eq_ok_iff.mp hstep).2) hrun

/-- A machine that a program was loaded into holds it. -/
theorem Reachable.holds (hm : m.Reachable) (h : m.loadProgram code = (m', .ok ())) :
    m'.Holds code := by
  obtain ⟨p, d, start, hwell⟩ := hm.wellFormed
  obtain ⟨hfour, hnonneg, -⟩ := hwell.start.bounds
  rw [← hwell.initial] at hfour hnonneg
  exact holds_of_loadProgram h hwell.program.kind hwell.data.kind hfour hnonneg

/-- A branch or jump by a multiple of four is not refused. -/
theorem Holds.exists_step (hm : m.Holds code) {i : Instruction} {k : Int} (hi : m.fetch = .ok i)
    (hkind : i.kind = .branch ∨ i.kind = .jal) (hk : i.immediate? = some k) (hfour : k % 4 = 0) :
    ∃ m' t, m.step = (m', .ok t) := by
  rcases hstep : m.step with ⟨m', f | t⟩
  · exfalso
    have htarget := hm.aligned_offset hfour
    have hrefused : m.reference i = .error f := by
      rw [← outcome_eq_reference hi, outcome, hstep]
      rfl
    rw [reference, Instruction.effect_eq] at hrefused
    rcases hkind with hkind | hkind
    · simp only [hkind, hk, Option.getD_some] at hrefused
      exact (hm.perform_eq_error hrefused).2.1 htarget
    · simp only [hkind, hk, Option.getD_some] at hrefused
      exact (hm.perform_eq_error hrefused).1 htarget
  · exact ⟨m', t, rfl⟩

/-- A branch that is taken, and a jump, go on at the distance that the immediate gives. -/
theorem Completes.after_eq_offset {t : Trace} {k : Int} (h : m.Completes m' t)
    (hkind : t.instruction.kind = .branch ∧ t.taken = true ∨ t.instruction.kind = .jal)
    (hk : t.instruction.immediate? = some k) :
    t.counterAfter = Word.unsigned (m.counter.value + k) := by
  have himmediate : t.immediate = some k := by
    rw [← hk]
    exact congrArg Execution.immediate h.execution
  rw [h.after, flow]
  rcases hkind with ⟨hkind, htaken⟩ | hkind
  · simp [Flow.select, Flow.target, Instruction.signals, hkind, Kind.signals, htaken, himmediate]
  · simp [Flow.select, Flow.target, Instruction.signals, hkind, Kind.signals, himmediate]

/-- A branch or jump by a multiple of four is carried out.  Where it branches or jumps, it goes on
at that distance. -/
theorem Holds.step_offset (hm : m.Holds code) {i : Instruction} {k : Int} (hi : m.fetch = .ok i)
    (hkind : i.kind = .branch ∨ i.kind = .jal) (hk : i.immediate? = some k) (hfour : k % 4 = 0) :
    ∃ m' t, m.step = (m', .ok t) ∧ t.instruction = i ∧
      (t.taken = true ∨ i.kind = .jal →
        t.counterAfter = Word.unsigned (m.counter.value + k) ∧
          m'.counter.value = t.counterAfter) := by
  obtain ⟨m', t, hstep⟩ := hm.exists_step hi hkind hk hfour
  have hdone := completes_of_step hstep
  obtain rfl : t.instruction = i := Except.ok.inj (hdone.fetch.symm.trans hi)
  refine ⟨m', t, hstep, rfl, ?_⟩
  intro hgoes
  have hcounter : m'.counter.value = t.counterAfter := by
    rw [hdone.state]
  refine ⟨hdone.after_eq_offset ?_ hk, hcounter⟩
  rcases hkind with hbranch | hjal
  · refine Or.inl ⟨hbranch, hgoes.resolve_right ?_⟩
    rw [hbranch]
    exact Kind.noConfusion
  · exact Or.inr hjal

/-- Labels mean the same to the assembler and to the machine.  The word of a branch or jump to a
label holds the distance of the label from the statement.  In every run of the loaded program, the
instruction is carried out whenever the counter is at the statement and the cycles can be announced,
and where it branches or jumps it goes on at the address of the label. -/
theorem step_label {source : List Char} {p : Program} (h : assemble source = .ok p) {k : Nat}
    {line label : List Char} {n : Mnemonic} (hline : (sourceLines source)[k]? = some line)
    (htargets : (Line.parse line).Targets n label) :
    ∃ e w s, p.statements[k]? = some e ∧ e.word = some w ∧
      Instruction.decode w = .ok ⟨w, n⟩ ∧ findSymbol? p.symbols label = some s ∧
      Instruction.immediate? ⟨w, n⟩ = some ((s.address : Int) - e.statement.address) ∧
      ∀ m m₀ m₁ steps ts, Reachable m → m.loadProgram p.machineCode = (m₀, .ok ()) →
        m₀.runSteps steps = (m₁, .ok ts) → m₁.counter.value = e.statement.address →
        ∃ m₂ t, m₁.step = (m₂, .ok t) ∧
          (Text.exceedsLimit m₁.cycles = false → m₁.advance = (m₂, .ok t)) ∧
          t.instruction = ⟨w, n⟩ ∧
          (t.taken = true ∨ n.kind = .jal →
            t.counterAfter = (s.address : Int) % 4294967296 ∧
              m₂.counter.value = t.counterAfter) := by
  obtain ⟨e, w, s, j, hk, hw, hdecode, hs, himm, haddress, hsymbol, hcode, hrange⟩ :=
    exists_word_of_targets h hline htargets
  refine ⟨e, w, s, hk, hw, hdecode, hs, himm, ?_⟩
  intro m m₀ m₁ steps ts hreachable hload hrun hcounter
  have hholds := (hreachable.holds hload).runSteps hrun
  have hfetch : m₁.fetch = .ok ⟨w, n⟩ := by
    rw [fetch, hholds.read hcode hrange (by omega)]
    exact hdecode
  obtain ⟨m₂, t, hstep, hinstruction, hgoes⟩ :=
    hholds.step_offset hfetch htargets.kind himm (by omega)
  rw [hcounter, add_sub_cancel] at hgoes
  have hadvance (hlimit : Text.exceedsLimit m₁.cycles = false) : m₁.advance = (m₂, .ok t) := by
    rw [advance_eq_step hlimit, hstep]
  exact ⟨m₂, t, hstep, hadvance, hinstruction, hgoes⟩

/-- A call of a label that stands behind the last word is carried out after one step. -/
theorem step_label_past :
    ∃ (p : Program) (s : Symbol) (m₀ m₁ m₂ : Machine) (ts : List Trace) (t : Trace),
      assemble "nop\nloop: again: jal past  # leave\n\nnop\npast:".toList = .ok p ∧
        findSymbol? p.symbols "past".toList = some s ∧ m₀.runSteps 1 = (m₁, .ok ts) ∧
        m₁.counter.value = 4 ∧ m₁.step = (m₂, .ok t) ∧
        m₂.counter.value = (s.address : Int) % 4294967296 := by
  let source := "nop\nloop: again: jal past  # leave\n\nnop\npast:".toList
  let p := (layout source).program
  let m : Machine := ⟨.empty .program 3, .empty .data 1, .empty, ⟨0, 0⟩, 0⟩
  have h : assemble source = .ok p := by
    decide +kernel
  have hline : (sourceLines source)[1]? = some "loop: again: jal past  # leave".toList := by
    decide +kernel
  have htargets : (Line.parse "loop: again: jal past  # leave".toList).Targets .jal
      "past".toList :=
    ⟨by decide +kernel, Or.inr rfl, by decide +kernel, by decide +kernel⟩
  obtain ⟨e, w, s, hk, -, -, hs, -, hall⟩ := step_label h hline htargets
  have hreachable : m.Reachable := ⟨.integer 3, .integer 1, 0, m, [], rfl, rfl⟩
  have hload : (m.loadProgram p.machineCode).2.isOk = true := by
    decide +kernel
  have hrun : ((m.loadProgram p.machineCode).1.runSteps 1).2.isOk = true ∧
      ((m.loadProgram p.machineCode).1.runSteps 1).1.counter.value = 4 := by
    decide +kernel
  have haddress : p.statements[1]?.map (fun e => e.statement.address) = some 4 := by
    decide +kernel
  rw [hk, Option.map_some, Option.some.injEq] at haddress
  rcases hloaded : m.loadProgram p.machineCode with ⟨m₀, f | ⟨⟩⟩
  · rw [hloaded] at hload
    cases hload
  · rw [hloaded] at hrun
    rcases hsteps : m₀.runSteps 1 with ⟨m₁, f | ts⟩
    · rw [hsteps] at hrun
      cases hrun.1
    · rw [hsteps] at hrun
      have hcounter : m₁.counter.value = e.statement.address := by
        rw [haddress]
        exact hrun.2
      obtain ⟨m₂, t, hstep, -, -, hgoes⟩ := hall m m₀ m₁ 1 ts hreachable hloaded hsteps hcounter
      obtain ⟨hafter, hvalue⟩ := hgoes (Or.inr rfl)
      exact ⟨p, s, m₀, m₁, m₂, ts, t, h, hs, hsteps, hrun.2, hstep, hvalue.trans hafter⟩

end Machine

end Rv32
