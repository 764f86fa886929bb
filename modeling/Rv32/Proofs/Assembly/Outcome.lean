import Mathlib
import Rv32.Proofs.Assembly.Fidelity

/-!
# What comes of a source

Assembling is all or nothing.  Either nothing was found wrong, and then every statement with an
operation has its own word in the machine code; or the source is refused with all that was found
wrong, line by line.  No check fails in silence, and none hides what another one finds.  The only
other way to end is a number with more digits than are read or shown.
-/

namespace Rv32.Assembly

/-! ## Statements and lines -/

/-- The statements of a walk stand for its lines, which are numbered from its start on. -/
theorem map_number_layoutFrom (symbols : List Symbol) (number address : Nat)
    (lines : List (List Char)) :
    (layoutFrom symbols number address lines).statements.map (fun s => (s.source, s.number)) =
      lines.zipIdx number := by
  induction lines generalizing symbols number address with
  | nil => rfl
  | cons line lines ih =>
      rw [layoutFrom_cons, List.map_cons, List.zipIdx_cons, ih]
      rfl

/-- Each line has one statement, with the number of the line. -/
def Program.Follows (p : Program) (lines : List (List Char)) : Prop :=
  p.statements.map (fun e => (e.statement.source, e.statement.number)) = lines.zipIdx 1

theorem follows_program (source : List Char) :
    (layout source).program.Follows (sourceLines source) := by
  have hnumber := map_number_layoutFrom [] 1 0 (sourceLines source)
  rw [Program.Follows, ← hnumber]
  simp [Layout.program, layout, encodeStatement_statement]

theorem Program.Follows.pairwise_number {p : Program} {lines : List (List Char)}
    (h : p.Follows lines) :
    p.statements.Pairwise fun e f => e.statement.number < f.statement.number := by
  have hnumbers := congrArg (List.map Prod.snd) h
  rw [List.zipIdx_map_snd, List.map_map] at hnumbers
  have hsorted : (List.range' 1 lines.length).Pairwise (· < ·) := List.pairwise_lt_range'
  rw [← hnumbers, List.pairwise_map] at hsorted
  exact hsorted

/-! ## The counter -/

/-- No problem was counted exactly if nothing was recorded of any statement. -/
theorem Program.errorCount_eq_zero_iff {p : Program} :
    p.errorCount = 0 ↔ ∀ e ∈ p.statements, e.problems = [] := by
  rw [errorCount_eq, List.length_eq_zero_iff]
  simp [complaints, Encoded.complaints]

/-! ## Reports -/

/-- What is reported of a program: everything that was recorded of each statement, once and in
order, and nothing else, in the order of the lines, so that the first complaint is about the first
line on which something is wrong. -/
structure Program.Reports (p : Program) (first : Complaint) (all : List Complaint) : Prop where
  recorded : ∃ e ∈ p.statements, e.problems ≠ []
  each : ∀ e ∈ p.statements,
    (all.filter fun c => c.line = (e.statement.number : Int)) = e.complaints
  only : ∀ c ∈ all, ∃ e ∈ p.statements, c ∈ e.complaints
  sorted : all.Pairwise fun c d => c.line ≤ d.line
  head : all.head? = some first
  earliest : ∀ e ∈ p.statements, e.problems ≠ [] → first.line ≤ e.statement.number

/-- A program in which nothing is wrong and no word is missing. -/
structure Program.Complete (p : Program) : Prop where
  problems : ∀ e ∈ p.statements, e.problems = []
  words : ∀ e ∈ p.statements, e.statement.operation ≠ .none → ∃ w, e.word = some w
  machineCode : p.machineCode.map some =
    (p.statements.filter fun e => e.statement.operation ≠ .none).map Encoded.word

/-- Some operand of a layout stops the assembler. -/
def Layout.StopsAt (l : Layout) (x : Text.Excess) : Prop :=
  ∃ s ∈ l.statements, ∃ o ∈ s.operands, Exceeds l.symbols s.address o x

theorem Encoded.mem_complaints {e : Encoded} {c : Complaint} :
    c ∈ e.complaints ↔ ∃ q ∈ e.problems,
      c = ⟨e.statement.number, e.statement.source, q.message⟩ := by
  simp [complaints, eq_comm]

theorem Encoded.line_of_mem_complaints {e : Encoded} {c : Complaint} (hc : c ∈ e.complaints) :
    c.line = e.statement.number := by
  obtain ⟨q, -, rfl⟩ := mem_complaints.mp hc
  rfl

theorem Program.mem_complaints {p : Program} {c : Complaint} :
    c ∈ p.complaints ↔ ∃ e ∈ p.statements, c ∈ e.complaints :=
  List.mem_flatMap

/-- Among the complaints about statements on different lines, those about one line are those about
its statement. -/
theorem filter_flatMap_complaints {statements : List Encoded}
    (hnumbers : statements.Pairwise fun e f => e.statement.number < f.statement.number)
    {e : Encoded} (he : e ∈ statements) :
    ((statements.flatMap Encoded.complaints).filter fun c => c.line = (e.statement.number : Int)) =
      e.complaints := by
  induction statements with
  | nil => exact absurd he List.not_mem_nil
  | cons d statements ih =>
      obtain ⟨hd, hrest⟩ := List.pairwise_cons.mp hnumbers
      rw [List.flatMap_cons, List.filter_append]
      rcases List.mem_cons.mp he with rfl | he
      · have hkeep : (e.complaints.filter fun c => c.line = (e.statement.number : Int)) =
            e.complaints := by
          rw [List.filter_eq_self]
          intro c hc
          exact decide_eq_true (Encoded.line_of_mem_complaints hc)
        have hdrop : ((statements.flatMap Encoded.complaints).filter
            fun c => c.line = (e.statement.number : Int)) = [] := by
          rw [List.filter_eq_nil_iff]
          intro c hc
          obtain ⟨f, hf, hc⟩ := List.mem_flatMap.mp hc
          have hlt := hd f hf
          rw [Encoded.line_of_mem_complaints hc, decide_eq_true_eq]
          omega
        rw [hkeep, hdrop, List.append_nil]
      · have hdrop : (d.complaints.filter fun c => c.line = (e.statement.number : Int)) = [] := by
          rw [List.filter_eq_nil_iff]
          intro c hc
          have hlt := hd e he
          rw [Encoded.line_of_mem_complaints hc, decide_eq_true_eq]
          omega
        rw [hdrop, List.nil_append, ih hrest he]

/-- The complaints about statements stand in the order of their lines. -/
theorem pairwise_flatMap_complaints {statements : List Encoded}
    (hnumbers : statements.Pairwise fun e f => e.statement.number < f.statement.number) :
    (statements.flatMap Encoded.complaints).Pairwise fun c d => c.line ≤ d.line := by
  rw [List.pairwise_flatMap]
  constructor
  · intro e _
    refine List.pairwise_of_forall_mem_list fun c hc d hd => ?_
    rw [Encoded.line_of_mem_complaints hc, Encoded.line_of_mem_complaints hd]
  · refine hnumbers.imp fun {e f} hlt c hc d hd => ?_
    rw [Encoded.line_of_mem_complaints hc, Encoded.line_of_mem_complaints hd]
    omega

theorem Program.reports_complaints {p : Program} {first : Complaint} {rest : List Complaint}
    (hnumbers : p.statements.Pairwise fun e f => e.statement.number < f.statement.number)
    (hcomplaints : p.complaints = first :: rest) : p.Reports first (first :: rest) := by
  have hsorted := pairwise_flatMap_complaints hnumbers
  have honly : ∀ c ∈ first :: rest, ∃ e ∈ p.statements, c ∈ e.complaints := by
    intro c hc
    rw [← hcomplaints] at hc
    exact mem_complaints.mp hc
  rw [← complaints, hcomplaints] at hsorted
  refine ⟨?_, ?_, honly, hsorted, rfl, ?_⟩
  · obtain ⟨e, he, hc⟩ := honly first List.mem_cons_self
    obtain ⟨q, hq, -⟩ := Encoded.mem_complaints.mp hc
    exact ⟨e, he, List.ne_nil_of_mem hq⟩
  · intro e he
    rw [← hcomplaints]
    exact filter_flatMap_complaints hnumbers he
  · intro e he hproblems
    obtain ⟨q, hq⟩ := List.exists_mem_of_ne_nil _ hproblems
    have hc := Encoded.mem_complaints.mpr ⟨q, hq, rfl⟩
    have hmem := mem_complaints.mpr ⟨e, he, hc⟩
    rw [hcomplaints] at hmem
    rcases List.mem_cons.mp hmem with heq | hmem
    · rw [← heq]
    · exact (List.pairwise_cons.mp hsorted).1 _ hmem

/-! ## Programs without a missing word -/

/-- Where every statement with an operation has a word, the words are those of these statements. -/
theorem map_some_machineCode {statements : List Encoded}
    (hwords : ∀ e ∈ statements, e.statement.operation ≠ .none → ∃ w, e.word = some w) :
    (statements.filterMap Encoded.emitted).map some =
      (statements.filter fun e => e.statement.operation ≠ .none).map Encoded.word := by
  induction statements with
  | nil => rfl
  | cons e statements ih =>
      have hrest := ih fun f hf => hwords f (List.mem_cons_of_mem _ hf)
      by_cases hop : e.statement.operation = .none
      · have hnone : e.emitted = none := by
          rw [emitted_eq_none_iff, hop]
          rfl
        rw [List.filterMap_cons_none hnone, List.filter_cons_of_neg (by simpa using hop), hrest]
      · obtain ⟨w, hw⟩ := hwords e List.mem_cons_self hop
        have hsome : e.emitted = some w := by
          unfold Encoded.emitted
          cases hcase : e.statement.operation with
          | none => exact absurd hcase hop
          | known m => simp [hw]
          | unknown name => simp [hw]
        rw [List.filterMap_cons_some hsome, List.filter_cons_of_pos (by simpa using hop),
          List.map_cons, List.map_cons, hrest, hw]

/-- What is accepted is complete. -/
theorem complete_of_assemble {source : List Char} {p : Program} (h : assemble source = .ok p) :
    p.Complete := by
  have hwords : ∀ e ∈ p.statements, e.statement.operation ≠ .none → ∃ w, e.word = some w := by
    intro e he hop
    obtain ⟨m, w, hw, -⟩ := faithful_of_mem h he ((readOff_of_mem h he).operation_ne_nil hop)
    exact ⟨w, hw⟩
  refine ⟨?_, hwords, map_some_machineCode hwords⟩
  intro e he
  obtain ⟨hproblems, hharmless⟩ := (assemble_eq_ok_iff.mp h).2 e he
  rw [Encoded.problems, hproblems, List.nil_append, List.filterMap_eq_nil_iff]
  exact fun r hr => (hharmless r hr).1

/-! ## All or nothing -/

/-- What stops the assembler is a number among the operands, or the distance of a label. -/
theorem stopsAt_of_excess? {l : Layout} {x : Text.Excess} (h : l.program.excess? = some x) :
    l.StopsAt x := by
  obtain ⟨e, he, hx⟩ := List.exists_of_findSome?_eq_some h
  obtain ⟨r, hr, hstopped⟩ := List.exists_of_findSome?_eq_some hx
  obtain ⟨s, hs, rfl⟩ := List.mem_map.mp he
  unfold encodeStatement at hr
  split at hr
  · next m _ =>
      cases onOperands_encode l.symbols s.address s.operands m r hr with
      | problem p => cases hstopped
      | stopped ho hexceeds =>
          obtain rfl := Option.some.inj hstopped
          exact ⟨s, hs, _, ho, hexceeds⟩
      | resolved ho hs => cases hstopped
  · exact absurd hr List.not_mem_nil

/-- Assembling is all or nothing and reports everything.  The lines of a source have one statement
each, and the counter of the problems is zero exactly if nothing was recorded of any of them.
Unless a number has more digits than are read or shown, the source is accepted, and then nothing was
recorded and every statement with an operation has its own word; or something was recorded, and then
it is refused with all of it, in the order of the lines. -/
theorem assemble_all_or_nothing (source : List Char) :
    (layout source).program.Follows (sourceLines source) ∧
      ((layout source).program.errorCount = 0 ↔
        ∀ e ∈ (layout source).program.statements, e.problems = []) ∧
      ((assemble source = .ok (layout source).program ∧ (layout source).program.Complete) ∨
        (∃ first all, assemble source = .error (.complaints first all) ∧
          (layout source).program.Reports first all) ∨
        ∃ x, assemble source = .error (.excess x) ∧ (layout source).StopsAt x) := by
  refine ⟨follows_program source, Program.errorCount_eq_zero_iff, ?_⟩
  cases hexcess : (layout source).program.excess? with
  | some x =>
      exact Or.inr (Or.inr ⟨x, assemble_of_excess hexcess, stopsAt_of_excess? hexcess⟩)
  | none =>
      cases hcomplaints : (layout source).program.complaints with
      | nil =>
          have haccepted := assemble_of_complaints_nil hexcess hcomplaints
          exact Or.inl ⟨haccepted, complete_of_assemble haccepted⟩
      | cons first rest =>
          have hrefused := assemble_of_complaints_cons hexcess hcomplaints
          have hnumbers := (follows_program source).pairwise_number
          have hreports := Program.reports_complaints hnumbers hcomplaints
          exact Or.inr (Or.inl ⟨first, first :: rest, hrefused, hreports⟩)

/-- Problems with an operation, with labels and with operands stand side by side. -/
example : (layout "nop 1\nl: l: frob\n\naddi x1, 0x\nl: add q, x1, r".toList).program.statements.map
    Encoded.problems = [[.takesNoOperands "NOP"],
      [.unknownMnemonic "frob".toList, .duplicateLabel "l".toList], [], [.operandCount .addi 2],
      [.duplicateLabel "l".toList, .notRegister "q".toList, .notRegister "r".toList]] := by
  decide +kernel

end Rv32.Assembly
