import Mathlib
import Rv32.Assembly.Program
import Rv32.Proofs.Assembly.Operands

/-!
# The layout of a source

Going through the lines of a source gives one statement a line.  A statement is read off its line,
and the statements that take up a word stand at consecutive multiples of four, in the order of
their words.  Labels are bound to such addresses only.

The facts are stated for a walk that starts anywhere, with any symbols, since the walk through the
rest of the lines is such a walk; the layout of a source starts with no symbols at address zero.
-/

namespace Rv32.Assembly

/-- A statement is what its line says, and keeps the remarks on its operation. -/
structure Statement.ReadOff (s : Statement) : Prop where
  parts : s.parts = Line.parse s.source
  operation : s.operation = (readOperation s.parts).1
  operands : s.operands = (readOperation s.parts).2.1
  remarks : ∀ r ∈ (readOperation s.parts).2.2, r ∈ s.remarks

/-! ## One line -/

section Place

variable (symbols : List Symbol) (number address : Nat) (source : List Char)

theorem place_source : (place symbols number address source).1.source = source := rfl

theorem place_readOff : (place symbols number address source).1.ReadOff where
  parts := rfl
  operation := rfl
  operands := rfl
  remarks := fun _ hr => List.mem_append_left _ hr

end Place

/-! ## Addresses of labels -/

/-- All labels stand at word addresses. -/
def Aligned (symbols : List Symbol) : Prop := ∀ s ∈ symbols, s.address % 4 = 0

theorem Operation.size_mod_four (o : Operation) : o.size % 4 = 0 := by
  cases o <;> simp [size]

/-- A label is recorded if it is a name that is not known yet. -/
theorem record_bindLabel (symbols : List Symbol) (address line : Nat) (label : List Char) :
    record symbols line (bindLabel symbols address label) = symbols ∨
      (isName label = true ∧ findSymbol? symbols label = none ∧
        record symbols line (bindLabel symbols address label) =
          symbols ++ [{ name := label, address, line }]) := by
  unfold bindLabel
  split
  · exact Or.inl rfl
  · next hname =>
      split
      · exact Or.inl rfl
      · next hknown => exact Or.inr ⟨by simpa using hname, by simpa using hknown, rfl⟩

theorem aligned_record {symbols : List Symbol} {address : Nat} (line : Nat) (label : List Char)
    (hsymbols : Aligned symbols) (haddress : address % 4 = 0) :
    Aligned (record symbols line (bindLabel symbols address label)) := by
  rcases record_bindLabel symbols address line label with hsame | ⟨-, -, hnew⟩
  · rw [hsame]
    exact hsymbols
  · rw [hnew]
    intro s hs
    rw [List.mem_append, List.mem_singleton] at hs
    rcases hs with hs | rfl
    · exact hsymbols s hs
    · exact haddress

theorem aligned_bindLabels {symbols : List Symbol} {address : Nat} (line : Nat)
    (labels : List (List Char)) (hsymbols : Aligned symbols) (haddress : address % 4 = 0) :
    Aligned (bindLabels symbols address line labels).2 := by
  induction labels generalizing symbols with
  | nil => exact hsymbols
  | cons label labels ih =>
      simp only [bindLabels]
      exact ih (aligned_record line label hsymbols haddress)

theorem aligned_layoutFrom {symbols : List Symbol} {number address : Nat}
    {lines : List (List Char)} (hsymbols : Aligned symbols) (haddress : address % 4 = 0) :
    Aligned (layoutFrom symbols number address lines).symbols := by
  induction lines generalizing symbols number address with
  | nil => exact hsymbols
  | cons line lines ih =>
      simp only [layoutFrom]
      apply ih
      · exact aligned_bindLabels number _ hsymbols haddress
      · have hsize := Operation.size_mod_four (place symbols number address line).1.operation
        omega

theorem aligned_layout (source : List Char) : Aligned (layout source).symbols := by
  apply aligned_layoutFrom
  · intro s hs
    exact absurd hs List.not_mem_nil
  · rfl

/-! ## Statements and their words -/

theorem layoutFrom_cons (symbols : List Symbol) (number address : Nat) (line : List Char)
    (lines : List (List Char)) :
    (layoutFrom symbols number address (line :: lines)).statements =
      (place symbols number address line).1 ::
        (layoutFrom (place symbols number address line).2 (number + 1)
          (address + (place symbols number address line).1.operation.size) lines).statements := rfl

theorem map_source_layoutFrom (symbols : List Symbol) (number address : Nat)
    (lines : List (List Char)) :
    (layoutFrom symbols number address lines).statements.map Statement.source = lines := by
  induction lines generalizing symbols number address with
  | nil => rfl
  | cons line lines ih =>
      rw [layoutFrom_cons, List.map_cons, place_source, ih]

theorem readOff_of_mem_layoutFrom {symbols : List Symbol} {number address : Nat}
    {lines : List (List Char)} {s : Statement}
    (hs : s ∈ (layoutFrom symbols number address lines).statements) : s.ReadOff := by
  induction lines generalizing symbols number address with
  | nil => exact absurd hs List.not_mem_nil
  | cons line lines ih =>
      rw [layoutFrom_cons, List.mem_cons] at hs
      rcases hs with rfl | hs
      · exact place_readOff symbols number address line
      · exact ih hs

theorem encodeStatement_statement (symbols : List Symbol) (s : Statement) :
    (encodeStatement symbols s).statement = s := by
  unfold encodeStatement
  split <;> rfl

/-- A statement emits a word exactly if it takes up four bytes. -/
theorem emitted_eq_none_iff (e : Encoded) : e.emitted = none ↔ e.statement.operation.size = 0 := by
  unfold Encoded.emitted
  cases e.statement.operation <;> simp [Operation.size]

theorem size_of_emitted_eq_some {e : Encoded} {w : Int} (h : e.emitted = some w) :
    e.statement.operation.size = 4 := by
  unfold Encoded.emitted at h
  cases ho : e.statement.operation <;> simp_all [Operation.size]

/-- The word with index `j` belongs to the statement that stands `4 * j` bytes after the start. -/
theorem exists_statement_of_emitted (final symbols : List Symbol) (number address : Nat)
    (lines : List (List Char)) {j : Nat} {w : Int}
    (hw : (((layoutFrom symbols number address lines).statements.map
      (encodeStatement final)).filterMap Encoded.emitted)[j]? = some w) :
    ∃ s ∈ (layoutFrom symbols number address lines).statements,
      s.address = address + 4 * j ∧ (encodeStatement final s).emitted = some w := by
  induction lines generalizing symbols number address j with
  | nil => simp [layoutFrom] at hw
  | cons line lines ih =>
      rw [layoutFrom_cons] at hw ⊢
      rw [List.map_cons, List.filterMap_cons] at hw
      split at hw
      · next hnone =>
          rw [emitted_eq_none_iff, encodeStatement_statement] at hnone
          obtain ⟨s, hs, haddress, hemitted⟩ := ih _ _ _ hw
          rw [hnone] at haddress
          exact ⟨s, List.mem_cons_of_mem _ hs, haddress, hemitted⟩
      · next v hv =>
          have hsize := size_of_emitted_eq_some hv
          rw [encodeStatement_statement] at hsize
          cases j with
          | zero =>
              rw [List.getElem?_cons_zero, Option.some.injEq] at hw
              subst hw
              exact ⟨_, List.mem_cons_self, rfl, hv⟩
          | succ j =>
              rw [List.getElem?_cons_succ] at hw
              obtain ⟨s, hs, haddress, hemitted⟩ := ih _ _ _ hw
              refine ⟨s, List.mem_cons_of_mem _ hs, ?_, hemitted⟩
              rw [haddress, hsize]
              omega

/-- The word of a statement has the index that its address gives. -/
theorem exists_index_of_emitted (final symbols : List Symbol) (number address : Nat)
    (lines : List (List Char)) {s : Statement} {w : Int}
    (hs : s ∈ (layoutFrom symbols number address lines).statements)
    (hw : (encodeStatement final s).emitted = some w) :
    ∃ j, s.address = address + 4 * j ∧
      (((layoutFrom symbols number address lines).statements.map
        (encodeStatement final)).filterMap Encoded.emitted)[j]? = some w := by
  induction lines generalizing symbols number address with
  | nil => exact absurd hs List.not_mem_nil
  | cons line lines ih =>
      rw [layoutFrom_cons] at hs ⊢
      rw [List.map_cons, List.filterMap_cons]
      rcases List.mem_cons.mp hs with rfl | hs
      · rw [hw]
        exact ⟨0, rfl, rfl⟩
      · obtain ⟨j, haddress, hj⟩ := ih _ _ _ hs
        split
        · next hnone =>
            rw [emitted_eq_none_iff, encodeStatement_statement] at hnone
            rw [hnone] at haddress
            exact ⟨j, haddress, hj⟩
        · next v hv =>
            have hsize := size_of_emitted_eq_some hv
            rw [encodeStatement_statement] at hsize
            rw [hsize] at haddress
            exact ⟨j + 1, by omega, hj⟩

/-! ## Programs that are accepted -/

@[simp] theorem Program.excess?_eq_none {p : Program} :
    p.excess? = none ↔ ∀ e ∈ p.statements, ∀ r ∈ e.remarks, r.excess? = none := by
  simp [Program.excess?, Encoded.excess?]

@[simp] theorem Program.complaints_eq_nil {p : Program} :
    p.complaints = [] ↔ ∀ e ∈ p.statements,
      e.statement.problems = [] ∧ ∀ r ∈ e.remarks, r.problem? = none := by
  simp [Program.complaints, Encoded.complaints, Encoded.problems]

/-- A source is accepted exactly if no statement has a problem and no number too many digits. -/
theorem assemble_eq_ok_iff {source : List Char} {p : Program} :
    assemble source = .ok p ↔
      p = (layout source).program ∧
        ∀ e ∈ p.statements, e.statement.problems = [] ∧ ∀ r ∈ e.remarks, r.Harmless := by
  constructor
  · intro h
    cases hnone : (layout source).program.excess? with
    | some x =>
        rw [assemble_of_excess hnone] at h
        cases h
    | none =>
        cases hnil : (layout source).program.complaints with
        | nil =>
            rw [assemble_of_complaints_nil hnone hnil] at h
            obtain rfl := Except.ok.inj h
            rw [Program.excess?_eq_none] at hnone
            rw [Program.complaints_eq_nil] at hnil
            exact ⟨rfl, fun e he =>
              ⟨(hnil e he).1, fun r hr => ⟨(hnil e he).2 r hr, hnone e he r hr⟩⟩⟩
        | cons c cs =>
            rw [assemble_of_complaints_cons hnone hnil] at h
            cases h
  · rintro ⟨rfl, hclean⟩
    have hnone : (layout source).program.excess? = none := by
      rw [Program.excess?_eq_none]
      intro e he r hr
      exact ((hclean e he).2 r hr).2
    have hnil : (layout source).program.complaints = [] := by
      rw [Program.complaints_eq_nil]
      intro e he
      exact ⟨(hclean e he).1, fun r hr => ((hclean e he).2 r hr).1⟩
    exact assemble_of_complaints_nil hnone hnil

/-- The symbols of a program are those of its layout, but for the lines that use them. -/
theorem findSymbol?_program (l : Layout) (name : List Char) :
    findSymbol? l.program.symbols name =
      (findSymbol? l.symbols name).map fun s =>
        { s with uses := usesOf (l.statements.map (encodeStatement l.symbols)) s.name } := by
  simp only [findSymbol?, Layout.program, List.find?_map]
  rfl

section Accepted

variable {source : List Char} {p : Program} (h : assemble source = .ok p)

include h in
theorem map_source_statements :
    p.statements.map (fun e => e.statement.source) = sourceLines source := by
  obtain ⟨rfl, -⟩ := assemble_eq_ok_iff.mp h
  have hsources := map_source_layoutFrom [] 1 0 (sourceLines source)
  rw [← hsources]
  simp [Layout.program, layout, encodeStatement_statement]

include h in
/-- The statement of a known operation has the word that the checks accept. -/
theorem accepts_word {e : Encoded} (he : e ∈ p.statements) {m : Mnemonic}
    (hm : e.statement.operation = .known m) :
    ∃ w, e.word = some w ∧
      (encode (layout source).symbols e.statement.address m e.statement.operands).Accepts w := by
  obtain ⟨rfl, hclean⟩ := assemble_eq_ok_iff.mp h
  have hharmless := (hclean e he).2
  obtain ⟨s, -, rfl⟩ := List.mem_map.mp he
  rw [encodeStatement_statement] at hm ⊢
  simp only [encodeStatement, hm] at hharmless ⊢
  exact (honest_encode _ _ _ _).exists_accepts hharmless |>.imp fun w hw => ⟨hw.1, hw⟩

include h in
/-- Each word of the machine code belongs to the statement at its address. -/
theorem exists_mem_of_getElem?_machineCode {j : Nat} {w : Int}
    (hw : p.machineCode[j]? = some w) :
    ∃ e ∈ p.statements, e.statement.address = 4 * j ∧ e.emitted = some w := by
  obtain ⟨rfl, -⟩ := assemble_eq_ok_iff.mp h
  obtain ⟨s, hs, haddress, hemitted⟩ := exists_statement_of_emitted _ _ _ _ _ hw
  refine ⟨_, List.mem_map_of_mem hs, ?_, hemitted⟩
  rw [encodeStatement_statement]
  omega

include h in
/-- The machine code holds the word of a statement at its address. -/
theorem exists_index_of_mem {e : Encoded} (he : e ∈ p.statements) {w : Int}
    (hw : e.emitted = some w) :
    ∃ j, e.statement.address = 4 * j ∧ p.machineCode[j]? = some w := by
  obtain ⟨rfl, -⟩ := assemble_eq_ok_iff.mp h
  obtain ⟨s, hs, rfl⟩ := List.mem_map.mp he
  obtain ⟨j, haddress, hj⟩ := exists_index_of_emitted _ _ _ _ _ hs hw
  rw [encodeStatement_statement]
  exact ⟨j, by omega, hj⟩

include h in
theorem problems_eq_nil {e : Encoded} (he : e ∈ p.statements) : e.statement.problems = [] :=
  ((assemble_eq_ok_iff.mp h).2 e he).1

include h in
theorem readOff_of_mem {e : Encoded} (he : e ∈ p.statements) : e.statement.ReadOff := by
  obtain ⟨rfl, -⟩ := assemble_eq_ok_iff.mp h
  obtain ⟨s, hs, rfl⟩ := List.mem_map.mp he
  rw [encodeStatement_statement]
  exact readOff_of_mem_layoutFrom hs

end Accepted

end Rv32.Assembly
