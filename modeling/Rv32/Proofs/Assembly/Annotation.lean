import Mathlib
import Rv32.Proofs.Assembly.Comments
import Rv32.Proofs.Assembly.Layout

/-!
# Blank lines and comments do not matter

An idle line takes up no word and binds no label, and a comment is not read.  Annotating a source
therefore leaves its words, its labels and all that is wrong with it as they are.  The numbers of
lines are the only thing that changes, and they only follow the lines: nothing is computed from
them.

Both walks through a source are compared as they go.  The statements of the annotated source echo
those of the source, with idle ones between them, and so do the statements with their words.
-/

namespace Rv32.Assembly

/-! ## Lists with idle entries put in -/

section Interspersed

variable {α β γ : Type} {Echo : α → α → Prop} {IsIdle : α → Prop} {xs ys : List α}

/-- The second list echoes the first one, entry by entry, with idle entries put in. -/
inductive Interspersed (Echo : α → α → Prop) (IsIdle : α → Prop) : List α → List α → Prop
  | nil : Interspersed Echo IsIdle [] []
  | kept {x y : α} {xs ys : List α} (hecho : Echo x y) (rest : Interspersed Echo IsIdle xs ys) :
      Interspersed Echo IsIdle (x :: xs) (y :: ys)
  | added {y : α} {xs ys : List α} (hidle : IsIdle y) (rest : Interspersed Echo IsIdle xs ys) :
      Interspersed Echo IsIdle xs (y :: ys)

namespace Interspersed

theorem of_forall₂ (h : List.Forall₂ Echo xs ys) : Interspersed Echo IsIdle xs ys := by
  induction h with
  | nil => exact .nil
  | cons hxy _ ih => exact .kept hxy ih

variable (h : Interspersed Echo IsIdle xs ys)

include h

theorem map {Echo' : β → β → Prop} {IsIdle' : β → Prop} {f g : α → β}
    (hecho : ∀ x y, Echo x y → Echo' (f x) (g y)) (hidle : ∀ y, IsIdle y → IsIdle' (g y)) :
    Interspersed Echo' IsIdle' (xs.map f) (ys.map g) := by
  induction h with
  | nil => exact .nil
  | kept hxy _ ih => exact .kept (hecho _ _ hxy) ih
  | added hy _ ih => exact .added (hidle _ hy) ih

/-- What is gathered from the entries follows if idle entries have nothing to give. -/
theorem flatMap {f : α → List β} {g : β → β} (hecho : ∀ x y, Echo x y → f y = (f x).map g)
    (hidle : ∀ y, IsIdle y → f y = []) : ys.flatMap f = (xs.flatMap f).map g := by
  induction h with
  | nil => rfl
  | kept hxy _ ih => rw [List.flatMap_cons, List.flatMap_cons, List.map_append, hecho _ _ hxy, ih]
  | added hy _ ih => rw [List.flatMap_cons, hidle _ hy, List.nil_append, ih]

theorem filterMap {f : α → Option β} {g : β → β} (hecho : ∀ x y, Echo x y → f y = (f x).map g)
    (hidle : ∀ y, IsIdle y → f y = none) : ys.filterMap f = (xs.filterMap f).map g := by
  rw [List.filterMap_eq_flatMap_toList, List.filterMap_eq_flatMap_toList]
  apply h.flatMap
  · intro x y hxy
    rw [hecho x y hxy]
    cases f x <;> rfl
  · intro y hy
    rw [hidle y hy]
    rfl

end Interspersed

end Interspersed

/-! ## Renumbered symbols -/

/-- A symbol whose line `n` has become line `σ n`. -/
def Symbol.renumbered (σ : Nat → Nat) (s : Symbol) : Symbol :=
  { s with line := σ s.line, uses := s.uses.map σ }

section Symbols

variable (σ : Nat → Nat) (symbols : List Symbol)

theorem findSymbol?_renumbered (label : List Char) :
    findSymbol? (symbols.map (Symbol.renumbered σ)) label =
      (findSymbol? symbols label).map (Symbol.renumbered σ) :=
  List.find?_map

theorem bindLabel_renumbered (address : Nat) (label : List Char) :
    bindLabel (symbols.map (Symbol.renumbered σ)) address label =
      bindLabel symbols address label := by
  simp only [bindLabel, findSymbol?_renumbered, Option.isSome_map]

theorem record_renumbered (line : Nat) (r : Remark) :
    record (symbols.map (Symbol.renumbered σ)) (σ line) r =
      (record symbols line r).map (Symbol.renumbered σ) := by
  cases r <;> simp [record, Symbol.renumbered]

theorem bindLabels_renumbered (address line : Nat) (labels : List (List Char)) :
    bindLabels (symbols.map (Symbol.renumbered σ)) address (σ line) labels =
      ((bindLabels symbols address line labels).1,
        (bindLabels symbols address line labels).2.map (Symbol.renumbered σ)) := by
  induction labels generalizing symbols with
  | nil => rfl
  | cons label labels ih =>
      simp only [bindLabels, bindLabel_renumbered, record_renumbered, ih]

/-- Checks ask symbols for their addresses only. -/
theorem checkTarget_renumbered (format : ImmediateFormat) (address : Nat)
    (operand : List Char) :
    checkTarget format (symbols.map (Symbol.renumbered σ)) address operand =
      checkTarget format symbols address operand := by
  unfold checkTarget
  rw [findSymbol?_renumbered]
  cases findSymbol? symbols operand <;> rfl

theorem encode_renumbered (address : Nat) (m : Mnemonic) (operands : List (List Char)) :
    encode (symbols.map (Symbol.renumbered σ)) address m operands =
      encode symbols address m operands := by
  have htarget (format : ImmediateFormat) :
      checkTarget format (symbols.map (Symbol.renumbered σ)) address =
        checkTarget format symbols address :=
    funext (checkTarget_renumbered σ symbols format address)
  simp only [encode, encodeOperands, htarget]

end Symbols

/-! ## The first walk -/

/-- The second statement is the first one on line `σ n` in place of `n`, with another comment. -/
structure Statement.Echoes (σ : Nat → Nat) (s s' : Statement) : Prop where
  number : s'.number = σ s.number
  address : s'.address = s.address
  operation : s'.operation = s.operation
  operands : s'.operands = s.operands
  remarks : s'.remarks = s.remarks

/-- A statement without operation on which nothing was remarked. -/
structure Statement.IsIdle (s : Statement) : Prop where
  operation : s.operation = .none
  remarks : s.remarks = []

/-- The second layout is the first one with idle statements put in. -/
structure Layout.Echoes (σ : Nat → Nat) (l l' : Layout) : Prop where
  statements : Interspersed (Statement.Echoes σ) Statement.IsIdle l.statements l'.statements
  symbols : l'.symbols = l.symbols.map (Symbol.renumbered σ)
  location : l'.location = l.location

section Walk

variable {σ : Nat → Nat} {n n' : Nat}

theorem place_kept (symbols : List Symbol) (address : Nat) {line line' : List Char}
    (hn : σ n = n') (hparts : SameParts line line') :
    (place symbols n address line).1.Echoes σ
        (place (symbols.map (Symbol.renumbered σ)) n' address line').1 ∧
      (place (symbols.map (Symbol.renumbered σ)) n' address line').2 =
        (place symbols n address line).2.map (Symbol.renumbered σ) := by
  subst hn
  have hread : readOperation (Line.parse line') = readOperation (Line.parse line) := by
    simp only [readOperation, hparts.operation, hparts.operands]
  simp only [place, hparts.labels, hread, bindLabels_renumbered, and_true]
  exact ⟨rfl, rfl, rfl, rfl, rfl⟩

theorem place_added (symbols : List Symbol) (number address : Nat) {line : List Char}
    (hidle : Idle line) :
    (place symbols number address line).1.IsIdle ∧
      (place symbols number address line).2 = symbols := by
  have hread : readOperation (Line.parse line) = (.none, (Line.parse line).operands, []) := by
    simp only [readOperation, hidle.operation, List.isEmpty_nil, if_true]
  simp only [place, hidle.labels, hread, bindLabels, and_true]
  exact ⟨rfl, rfl⟩

theorem layoutFrom_annotated {lines lines' : List (List Char)}
    (h : Annotated σ n n' lines lines') (symbols : List Symbol) (address : Nat) :
    (layoutFrom symbols n address lines).Echoes σ
      (layoutFrom (symbols.map (Symbol.renumbered σ)) n' address lines') := by
  induction h generalizing symbols address with
  | nil n n' => exact ⟨.nil, rfl, rfl⟩
  | kept hn hcode rest ih =>
      obtain ⟨hecho, hsymbols⟩ := place_kept symbols address hn hcode.sameParts
      obtain ⟨hstatements, hrest, hlocation⟩ := ih _ _
      simp only [layoutFrom, hsymbols, hecho.operation]
      exact ⟨.kept hecho hstatements, hrest, hlocation⟩
  | @added n n' line' lines lines' hidle rest ih =>
      obtain ⟨hplaced, hsymbols⟩ :=
        place_added (symbols.map (Symbol.renumbered σ)) n' address hidle
      obtain ⟨hstatements, hrest, hlocation⟩ := ih symbols address
      simp only [layoutFrom, hsymbols, hplaced.operation]
      exact ⟨.added hplaced hstatements, hrest, hlocation⟩

end Walk

/-! ## The second walk -/

/-- The second statement echoes the first one, and so do its word and the remarks on it. -/
structure Encoded.Echoes (σ : Nat → Nat) (e e' : Encoded) : Prop where
  statement : e.statement.Echoes σ e'.statement
  word : e'.word = e.word
  remarks : e'.remarks = e.remarks

/-- What a program takes from the second statement is what it takes from the first one, on line
`σ n` in place of `n`. -/
structure Encoded.Agrees (σ : Nat → Nat) (e e' : Encoded) : Prop where
  number : e'.statement.number = σ e.statement.number
  emitted : e'.emitted = e.emitted
  problems : e'.problems = e.problems
  remarks : e'.remarks = e.remarks

/-- An idle statement on which nothing is remarked the second time either. -/
structure Encoded.IsIdle (e : Encoded) : Prop where
  statement : e.statement.IsIdle
  remarks : e.remarks = []

/-- The lines and the wordings of complaints. -/
def Complaint.told (c : Complaint) : Int × String := (c.line, c.message)

/-- What is told of a complaint whose line `n` has become line `σ n`. -/
def toldOn (σ : Nat → Nat) (told : Int × String) : Int × String :=
  ((σ told.1.toNat : Int), told.2)

section Words

variable {σ : Nat → Nat}

theorem Statement.Echoes.encodeStatement {s s' : Statement} (h : s.Echoes σ s')
    (symbols : List Symbol) :
    (encodeStatement symbols s).Echoes σ
      (encodeStatement (symbols.map (Symbol.renumbered σ)) s') := by
  unfold Assembly.encodeStatement
  rw [h.operation, h.address, h.operands]
  split
  · simp only [encode_renumbered]
    exact ⟨h, rfl, rfl⟩
  · exact ⟨h, rfl, rfl⟩

theorem Statement.IsIdle.encodeStatement {s : Statement} (h : s.IsIdle) (symbols : List Symbol) :
    (encodeStatement symbols s).IsIdle := by
  unfold Assembly.encodeStatement
  rw [h.operation]
  exact ⟨h, rfl⟩

namespace Encoded

variable {e e' : Encoded}

theorem Echoes.agrees (h : e.Echoes σ e') : e.Agrees σ e' where
  number := h.statement.number
  emitted := by simp only [Encoded.emitted, h.statement.operation, h.word]
  problems := by
    simp only [Encoded.problems, Statement.problems, h.statement.remarks, h.remarks]
  remarks := h.remarks

theorem IsIdle.emitted (h : e.IsIdle) : e.emitted = none := by
  simp only [Encoded.emitted, h.statement.operation]

theorem IsIdle.problems (h : e.IsIdle) : e.problems = [] := by
  simp only [Encoded.problems, Statement.problems, h.statement.remarks, h.remarks,
    List.filterMap_nil, List.append_nil]

theorem Agrees.complaints (h : e.Agrees σ e') :
    e'.complaints.map Complaint.told = (e.complaints.map Complaint.told).map (toldOn σ) := by
  simp only [Encoded.complaints, h.problems, h.number, List.map_map]
  rfl

theorem IsIdle.complaints (h : e.IsIdle) : e.complaints = [] := by
  rw [Encoded.complaints, h.problems, List.map_nil]

theorem Agrees.excess? (h : e.Agrees σ e') : e'.excess? = e.excess? := by
  rw [Encoded.excess?, h.remarks, Encoded.excess?]

theorem IsIdle.excess? (h : e.IsIdle) : e.excess? = none := by
  rw [Encoded.excess?, h.remarks, List.findSome?_nil]

end Encoded

theorem Interspersed.usesOf {es es' : List Encoded}
    (h : Interspersed (Encoded.Agrees σ) Encoded.IsIdle es es') (label : List Char) :
    usesOf es' label = (usesOf es label).map σ := by
  apply h.flatMap
  · intro e e' he
    simp only [he.remarks, he.number, List.map_filterMap]
    congr 1
    funext name
    split <;> rfl
  · intro e he
    rw [he.remarks]
    rfl

/-! ## Programs -/

/-- The second program is the first one but for the numbers of lines, where `n` has become `σ n`.
It has the same words, labels and complaints, in the same order. -/
structure Program.Echoes (σ : Nat → Nat) (p p' : Program) : Prop where
  machineCode : p'.machineCode = p.machineCode
  lineMap : p'.lineMap = p.lineMap.map σ
  symbols : p'.symbols = p.symbols.map (Symbol.renumbered σ)
  location : p'.location = p.location
  complaints : p'.complaints.map Complaint.told = (p.complaints.map Complaint.told).map (toldOn σ)
  excess? : p'.excess? = p.excess?

/-- Two programs are compared by their statements and by the symbols of their layouts. -/
theorem Layout.program_echoes {l l' : Layout}
    (hstatements : Interspersed (Encoded.Agrees σ) Encoded.IsIdle l.program.statements
      l'.program.statements)
    (hsymbols : l'.symbols = l.symbols.map (Symbol.renumbered σ))
    (hlocation : l'.location = l.location) : l.program.Echoes σ l'.program := by
  constructor
  · have hcode := hstatements.filterMap (f := Encoded.emitted) (g := id)
      (fun e e' he => he.emitted.trans Option.map_id'.symm) fun e he => he.emitted
    rwa [List.map_id] at hcode
  · apply hstatements.filterMap
    · intro e e' he
      rw [he.emitted, he.number, Option.map_map]
      rfl
    · intro e he
      rw [he.emitted]
      rfl
  · change l'.symbols.map (fun s => { s with uses := usesOf l'.program.statements s.name }) =
      (l.symbols.map fun s => { s with uses := usesOf l.program.statements s.name }).map _
    rw [hsymbols, List.map_map, List.map_map]
    apply List.map_congr_left
    intro s _
    simp only [Function.comp_apply, Symbol.renumbered, hstatements.usesOf]
  · exact hlocation
  · have hcomplaints := hstatements.flatMap (f := fun e => e.complaints.map Complaint.told)
      (fun e e' he => he.complaints) fun e he => by rw [he.complaints, List.map_nil]
    have htold (p : Program) : p.complaints.map Complaint.told =
        p.statements.flatMap fun e => e.complaints.map Complaint.told := List.map_flatMap
    rw [htold, htold, hcomplaints]
  · have hexcess := hstatements.filterMap (f := Encoded.excess?) (g := id)
      (fun e e' he => he.excess?.trans Option.map_id'.symm) fun e he => he.excess?
    simp only [Program.excess?, ← List.head?_filterMap, hexcess, List.map_id]

theorem Layout.Echoes.program {l l' : Layout} (h : l.Echoes σ l') :
    l.program.Echoes σ l'.program := by
  refine Layout.program_echoes ?_ h.symbols h.location
  simp only [Layout.program, h.symbols]
  exact h.statements.map (fun s s' hs => (hs.encodeStatement l.symbols).agrees)
    fun s hs => hs.encodeStatement _

/-! ## Outcomes -/

/-- Assembling ends in the same way twice, but for the numbers of lines. -/
def OutcomeEchoes (σ : Nat → Nat) : Except Refusal Program → Except Refusal Program → Prop
  | .ok p, .ok p' => p.Echoes σ p'
  | .error (.complaints c cs), .error (.complaints c' cs') =>
    c'.told = toldOn σ c.told ∧
      cs'.map Complaint.told = (cs.map Complaint.told).map (toldOn σ)
  | .error (.excess e), .error (.excess e') => e' = e
  | _, _ => False

theorem outcomeEchoes_of_program {source source' : List Char}
    (h : (layout source).program.Echoes σ (layout source').program) :
    OutcomeEchoes σ (assemble source) (assemble source') := by
  have hcomplaints := h.complaints
  have hexcess' := h.excess?
  cases hexcess : (layout source).program.excess? with
  | some e =>
      rw [hexcess] at hexcess'
      rw [assemble_of_excess hexcess, assemble_of_excess hexcess']
      rfl
  | none =>
      rw [hexcess] at hexcess'
      cases hfirst : (layout source).program.complaints with
      | nil =>
          rw [hfirst, List.map_nil, List.map_nil, List.map_eq_nil_iff] at hcomplaints
          rw [assemble_of_complaints_nil hexcess hfirst,
            assemble_of_complaints_nil hexcess' hcomplaints]
          exact h
      | cons c cs =>
          rw [hfirst] at hcomplaints
          obtain ⟨c', cs', hfirst', hc, -⟩ := List.map_eq_cons_iff.mp hcomplaints
          rw [assemble_of_complaints_cons hexcess hfirst,
            assemble_of_complaints_cons hexcess' hfirst']
          rw [hfirst'] at hcomplaints
          exact ⟨hc, hcomplaints⟩

end Words

theorem Symbol.renumbered_id (s : Symbol) : s.renumbered id = s := by
  rw [Symbol.renumbered, List.map_id, id]

/-- Where an accepted source is compared with another one, and no line has another number, the
other one is accepted as well. -/
theorem exists_program_of_echoes {source source' : List Char} {p : Program}
    (h : (layout source).program.Echoes id (layout source').program)
    (hp : assemble source = .ok p) :
    ∃ p', assemble source' = .ok p' ∧ p'.machineCode = p.machineCode ∧ p'.lineMap = p.lineMap ∧
      p'.symbols = p.symbols := by
  have hecho := outcomeEchoes_of_program h
  rw [hp] at hecho
  cases hp' : assemble source' with
  | error e =>
      rw [hp'] at hecho
      exact hecho.elim
  | ok p' =>
      rw [hp'] at hecho
      refine ⟨p', rfl, hecho.machineCode, ?_, ?_⟩
      · rw [hecho.lineMap, List.map_id]
      · rw [hecho.symbols, List.map_congr_left fun s _ => s.renumbered_id, List.map_id']

/-- Blank lines and comments do not matter.  Whatever is wrong with a source, putting a line of
blanks and comment between its lines, or a comment behind one of them, leaves whether it is
accepted, its words, its labels with their addresses, and what is complained of, in the same order;
of the numbers of lines, those behind a line that was put in are one greater. -/
theorem assemble_annotates {source source' : List Char} {σ : Nat → Nat}
    (h : Annotates source σ source') :
    (layout source).program.Echoes σ (layout source').program ∧
      OutcomeEchoes σ (assemble source) (assemble source') := by
  have hprogram := (layoutFrom_annotated h.annotated [] 0).program
  exact ⟨hprogram, outcomeEchoes_of_program hprogram⟩

/-- A line of comment goes between an unknown operation and the jump back to it. -/
theorem assemble_annotates_unknown :
    ∃ source source', source = "loop: frob x1 / x2\n jal loop".toList ∧
      source' = "loop: frob x1 / x2\n\t // loop: nop\n jal loop".toList ∧
      (layout source).program.Echoes (shiftedBehind 1) (layout source').program ∧
      OutcomeEchoes (shiftedBehind 1) (assemble source) (assemble source') := by
  have hlines : Text.lines "loop: frob x1 / x2\n jal loop".toList =
      ["loop: frob x1 / x2".toList] ++ [" jal loop".toList] := by
    decide +kernel
  have hblanks : ∀ c ∈ ['\t', ' '], Text.isBlank c = true := by
    simp [Text.isBlank]
  have hcomment : startsComment "// loop: nop".toList = true := by
    decide +kernel
  have hfeed : '\n' ∉ ['\t', ' '] ++ "// loop: nop".toList := by
    decide +kernel
  exact ⟨_, _, rfl, rfl, assemble_annotates (.line hlines hblanks (Or.inr hcomment) hfeed)⟩

end Rv32.Assembly
