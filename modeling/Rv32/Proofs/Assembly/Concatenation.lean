import Mathlib
import Rv32.Proofs.Assembly.Layout
import Rv32.Proofs.Assembly.Relocation
import Rv32.Proofs.Text.Tokens

/-!
# Sources behind one another

Two sources with a line feed between them are laid out like the first one, followed by the second
one moved behind it, unless both define a label.  Where both are accepted, their statements do not
see each other's labels, so that the program of the whole is the one of the first source followed by
the moved one of the second: no state of the first part leaks into the second part, and no word
depends on where it stands.
-/

namespace Rv32.Assembly

/-! ## Appending -/

/-- The labels that symbols stand for. -/
def labelsOf (symbols : List Symbol) : List (List Char) := symbols.map Symbol.name

/-- A layout that is moved. -/
def Layout.moved (k l : Nat) (a : Layout) : Layout :=
  { statements := a.statements.map (Statement.moved k l)
    symbols := a.symbols.map (Symbol.moved k l)
    location := a.location + k }

/-- A layout behind another one. -/
def Layout.append (a b : Layout) : Layout :=
  let b := b.moved a.location a.statements.length
  { statements := a.statements ++ b.statements
    symbols := a.symbols ++ b.symbols
    location := b.location }

/-- A program that is moved. -/
def Program.moved (k l : Nat) (p : Program) : Program :=
  { statements := p.statements.map (Encoded.moved k l)
    symbols := p.symbols.map (Symbol.moved k l)
    location := p.location + k }

/-- A program behind another one. -/
def Program.append (p q : Program) : Program :=
  let q := q.moved p.location p.statements.length
  { statements := p.statements ++ q.statements
    symbols := p.symbols ++ q.symbols
    location := q.location }

theorem findSymbol?_append (symbols symbols' : List Symbol) (label : List Char) :
    findSymbol? (symbols ++ symbols') label =
      (findSymbol? symbols label).or (findSymbol? symbols' label) :=
  List.find?_append

theorem findSymbol?_moved (k l : Nat) (symbols : List Symbol) (label : List Char) :
    findSymbol? (symbols.map (Symbol.moved k l)) label =
      (findSymbol? symbols label).map (Symbol.moved k l) :=
  List.find?_map

theorem findSymbol?_eq_none_iff {symbols : List Symbol} {label : List Char} :
    findSymbol? symbols label = none ↔ label ∉ labelsOf symbols := by
  simp [findSymbol?, labelsOf]

theorem mem_labelsOf_of_findSymbol? {symbols : List Symbol} {label : List Char} {s : Symbol}
    (h : findSymbol? symbols label = some s) : label ∈ labelsOf symbols := by
  by_contra hnot
  rw [findSymbol?_eq_none_iff.mpr hnot] at h
  cases h

/-! ## Lines behind one another -/

theorem sourceLines_append (a b : List Char) :
    sourceLines (a ++ '\n' :: b) = sourceLines a ++ sourceLines b := by
  have hreturns : Text.dropReturns (a ++ '\n' :: b) =
      Text.dropReturns a ++ '\n' :: Text.dropReturns b := by
    simp [Text.dropReturns]
  rw [sourceLines, hreturns, Text.lines_append_newline, sourceLines, sourceLines]

/-- A walk through lines goes on where the walk through the first of them ended. -/
theorem layoutFrom_append (symbols : List Symbol) (number address : Nat)
    (lines lines' : List (List Char)) :
    layoutFrom symbols number address (lines ++ lines') =
      let a := layoutFrom symbols number address lines
      let b := layoutFrom a.symbols (number + lines.length) a.location lines'
      { b with statements := a.statements ++ b.statements } := by
  induction lines generalizing symbols number address with
  | nil => rfl
  | cons line lines ih =>
      simp only [List.cons_append, layoutFrom, ih, List.length_cons]
      rw [Nat.add_assoc number 1, Nat.add_comm 1]

/-! ## Labels of lines that are moved -/

section Moved

variable {front : List Symbol} (k l : Nat)

theorem bindLabel_moved (symbols : List Symbol) (address : Nat) {label : List Char}
    (hfresh : isName label = true → label ∉ labelsOf front) :
    bindLabel (front ++ symbols.map (Symbol.moved k l)) (address + k) label =
      (bindLabel symbols address label).moved k := by
  unfold bindLabel
  by_cases hname : isName label = true
  · have hnone := findSymbol?_eq_none_iff.mpr (hfresh hname)
    rw [findSymbol?_append, hnone, Option.none_or, findSymbol?_moved, Option.isSome_map]
    simp only [hname, Bool.not_true, Bool.false_eq_true, if_false]
    split <;> rfl
  · simp only [hname, Bool.not_false, if_true]
    rfl

theorem record_moved (symbols : List Symbol) (line : Nat) (r : Remark) :
    record (front ++ symbols.map (Symbol.moved k l)) (line + l) (r.moved k) =
      front ++ (record symbols line r).map (Symbol.moved k l) := by
  cases r <;> simp [record, Remark.moved, Symbol.moved]

theorem bindLabels_moved (symbols : List Symbol) (address line : Nat) {labels : List (List Char)}
    (hfresh : ∀ label ∈ labels, isName label = true → label ∉ labelsOf front) :
    bindLabels (front ++ symbols.map (Symbol.moved k l)) (address + k) (line + l) labels =
      ((bindLabels symbols address line labels).1.map (Remark.moved k),
        front ++ (bindLabels symbols address line labels).2.map (Symbol.moved k l)) := by
  induction labels generalizing symbols with
  | nil => rfl
  | cons label labels ih =>
      have hhead := bindLabel_moved k l symbols address (hfresh label List.mem_cons_self)
      have hrest := ih (record symbols line (bindLabel symbols address label))
        fun label hlabel => hfresh label (List.mem_cons_of_mem _ hlabel)
      simp only [bindLabels, hhead, record_moved, hrest, List.map_cons]

/-- No remark on an operation speaks of an address. -/
theorem moved_readOperation (parts : Line) :
    (readOperation parts).2.2.map (Remark.moved k) = (readOperation parts).2.2 := by
  unfold readOperation
  simp only
  split
  · rfl
  · split
    · split <;> rfl
    · split <;> rfl

theorem place_moved (symbols : List Symbol) (number address : Nat) {line : List Char}
    (hfresh : ∀ label ∈ (Line.parse line).labels, isName label = true → label ∉ labelsOf front) :
    place (front ++ symbols.map (Symbol.moved k l)) (number + l) (address + k) line =
      ((place symbols number address line).1.moved k l,
        front ++ (place symbols number address line).2.map (Symbol.moved k l)) := by
  simp only [place, bindLabels_moved k l symbols address number hfresh, Statement.moved,
    List.map_append, moved_readOperation]

/-- A walk through lines whose labels are not among the symbols in front is the same walk, moved. -/
theorem layoutFrom_moved (symbols : List Symbol) (number address : Nat)
    {lines : List (List Char)} (hfresh : ∀ line ∈ lines, ∀ label ∈ (Line.parse line).labels,
      isName label = true → label ∉ labelsOf front) :
    layoutFrom (front ++ symbols.map (Symbol.moved k l)) (number + l) (address + k) lines =
      let b := (layoutFrom symbols number address lines).moved k l
      { b with symbols := front ++ b.symbols } := by
  induction lines generalizing symbols number address with
  | nil => rfl
  | cons line lines ih =>
      have hplace := place_moved k l symbols number address (hfresh line List.mem_cons_self)
      have hrest := ih (place symbols number address line).2 (number + 1)
        (address + (place symbols number address line).1.operation.size)
        fun line hline => hfresh line (List.mem_cons_of_mem _ hline)
      rw [Nat.add_right_comm number, Nat.add_right_comm address] at hrest
      simp only [layoutFrom, hplace, Statement.operation_moved, hrest, Layout.moved, List.map_cons]

end Moved

/-! ## Every name that is written before a colon is a label of the source -/

theorem mem_labelsOf_record {symbols : List Symbol} {label : List Char} (line : Nat) (r : Remark)
    (h : label ∈ labelsOf symbols) : label ∈ labelsOf (record symbols line r) := by
  cases r with
  | bound name address =>
      simp only [record, labelsOf, List.map_append, List.mem_append]
      exact Or.inl h
  | problem p => exact h
  | rewritten target operands => exact h
  | resolved name address offset => exact h
  | stopped e => exact h

theorem mem_labelsOf_bindLabels {symbols : List Symbol} {label : List Char} (address line : Nat)
    (labels : List (List Char)) (h : label ∈ labelsOf symbols) :
    label ∈ labelsOf (bindLabels symbols address line labels).2 := by
  induction labels generalizing symbols with
  | nil => exact h
  | cons name labels ih => exact ih (mem_labelsOf_record line _ h)

theorem mem_labelsOf_layoutFrom {symbols : List Symbol} {label : List Char}
    (number address : Nat) (lines : List (List Char)) (h : label ∈ labelsOf symbols) :
    label ∈ labelsOf (layoutFrom symbols number address lines).symbols := by
  induction lines generalizing symbols number address with
  | nil => exact h
  | cons line lines ih => exact ih _ _ (mem_labelsOf_bindLabels address number _ h)

/-- A name is known once it was bound, at its first definition or before. -/
theorem mem_labelsOf_record_bindLabel (symbols : List Symbol) (address line : Nat)
    {label : List Char} (hname : isName label = true) :
    label ∈ labelsOf (record symbols line (bindLabel symbols address label)) := by
  by_cases hknown : label ∈ labelsOf symbols
  · exact mem_labelsOf_record line _ hknown
  · simp [bindLabel, hname, findSymbol?_eq_none_iff.mpr hknown, record, labelsOf]

theorem mem_labelsOf_of_mem_labels (symbols : List Symbol) (address line : Nat)
    {labels : List (List Char)} {label : List Char} (hlabel : label ∈ labels)
    (hname : isName label = true) :
    label ∈ labelsOf (bindLabels symbols address line labels).2 := by
  induction labels generalizing symbols with
  | nil => exact absurd hlabel List.not_mem_nil
  | cons first labels ih =>
      rcases List.mem_cons.mp hlabel with rfl | hlabel
      · exact mem_labelsOf_bindLabels address line labels
          (mem_labelsOf_record_bindLabel symbols address line hname)
      · exact ih _ hlabel

theorem mem_labelsOf_of_mem_lines (symbols : List Symbol) (number address : Nat)
    {lines : List (List Char)} {line label : List Char} (hline : line ∈ lines)
    (hlabel : label ∈ (Line.parse line).labels) (hname : isName label = true) :
    label ∈ labelsOf (layoutFrom symbols number address lines).symbols := by
  induction lines generalizing symbols number address with
  | nil => exact absurd hline List.not_mem_nil
  | cons first lines ih =>
      rcases List.mem_cons.mp hline with rfl | hline
      · exact mem_labelsOf_layoutFrom _ _ lines
          (mem_labelsOf_of_mem_labels symbols address number hlabel hname)
      · exact ih _ _ _ hline

/-! ## Layouts behind one another -/

theorem length_statements_layout (source : List Char) :
    (layout source).statements.length = (sourceLines source).length := by
  have hsources := map_source_layoutFrom [] 1 0 (sourceLines source)
  rw [← hsources, List.length_map]
  rfl

/-- Two sources that define no label in common are laid out behind one another. -/
theorem layout_append {a b : List Char}
    (hdisjoint : (labelsOf (layout a).symbols).Disjoint (labelsOf (layout b).symbols)) :
    layout (a ++ '\n' :: b) = (layout a).append (layout b) := by
  have hfresh : ∀ line ∈ sourceLines b, ∀ label ∈ (Line.parse line).labels,
      isName label = true → label ∉ labelsOf (layout a).symbols := by
    intro line hline label hlabel hname hmem
    exact hdisjoint hmem (mem_labelsOf_of_mem_lines [] 1 0 hline hlabel hname)
  have hmoved := layoutFrom_moved (layout a).location (layout a).statements.length [] 1 0 hfresh
  rw [List.map_nil, List.append_nil, Nat.zero_add] at hmoved
  rw [layout, sourceLines_append, layoutFrom_append, ← length_statements_layout a]
  exact congrArg
    (fun c : Layout => { c with statements := (layout a).statements ++ c.statements }) hmoved

theorem location_layoutFrom_cons (symbols : List Symbol) (number address : Nat)
    (line : List Char) (lines : List (List Char)) :
    (layoutFrom symbols number address (line :: lines)).location =
      (layoutFrom (place symbols number address line).2 (number + 1)
        (address + (place symbols number address line).1.operation.size) lines).location := rfl

/-- The words of a walk fill the addresses up to its end. -/
theorem location_layoutFrom (final symbols : List Symbol) (number address : Nat)
    (lines : List (List Char)) :
    (layoutFrom symbols number address lines).location =
      address + 4 * (((layoutFrom symbols number address lines).statements.map
        (encodeStatement final)).filterMap Encoded.emitted).length := by
  induction lines generalizing symbols number address with
  | nil => rfl
  | cons line lines ih =>
      rw [location_layoutFrom_cons, ih, layoutFrom_cons, List.map_cons]
      cases hemitted : (encodeStatement final (place symbols number address line).1).emitted with
      | none =>
          rw [List.filterMap_cons_none hemitted]
          rw [emitted_eq_none_iff, encodeStatement_statement] at hemitted
          rw [hemitted, Nat.add_zero]
      | some w =>
          rw [List.filterMap_cons_some hemitted, List.length_cons]
          have hsize := size_of_emitted_eq_some hemitted
          rw [encodeStatement_statement] at hsize
          rw [hsize]
          omega

theorem location_program (source : List Char) :
    (layout source).program.location = 4 * (layout source).program.machineCode.length := by
  have hlocation := location_layoutFrom (layout source).symbols [] 1 0 (sourceLines source)
  rw [Nat.zero_add] at hlocation
  exact hlocation

/-! ## Uses of labels -/

theorem usesOf_append (statements statements' : List Encoded) (label : List Char) :
    usesOf (statements ++ statements') label =
      usesOf statements label ++ usesOf statements' label :=
  List.flatMap_append

theorem usesOf_moved (k l : Nat) (statements : List Encoded) (label : List Char) :
    usesOf (statements.map (Encoded.moved k l)) label = (usesOf statements label).map (· + l) := by
  induction statements with
  | nil => rfl
  | cons e statements ih =>
      rw [← List.singleton_append, List.map_append, usesOf_append, usesOf_append, List.map_append,
        ih]
      congr 1
      simp [usesOf, Encoded.moved, Statement.moved, List.filterMap_map, List.map_filterMap]

/-- Only labels of the symbols are resolved. -/
theorem mem_labelsOf_of_resolved {symbols : List Symbol} {s : Statement} {r : Remark}
    {label : List Char} (hr : r ∈ (encodeStatement symbols s).remarks)
    (hlabel : r.resolved? = some label) : label ∈ labelsOf symbols := by
  unfold encodeStatement at hr
  split at hr
  · next m _ =>
      cases onOperands_encode symbols s.address s.operands m r hr with
      | problem p => cases hlabel
      | stopped ho he => cases hlabel
      | resolved ho hs =>
          obtain rfl := Option.some.inj hlabel
          exact mem_labelsOf_of_findSymbol? hs
  · exact absurd hr List.not_mem_nil

theorem usesOf_eq_nil {symbols : List Symbol} {label : List Char} (h : label ∉ labelsOf symbols)
    (statements : List Statement) :
    usesOf (statements.map (encodeStatement symbols)) label = [] := by
  unfold usesOf
  simp only [List.flatMap_eq_nil_iff, List.mem_map, forall_exists_index, and_imp,
    forall_apply_eq_imp_iff₂, List.filterMap_eq_nil_iff, List.mem_filterMap]
  intro s _ name r hr hname
  rw [if_neg]
  intro heq
  rw [eq_of_beq heq] at hname
  exact h (mem_labelsOf_of_resolved hr hname)

/-! ## Programs behind one another -/

section Append

variable {a b : Layout}

theorem carries_append_left : Carries 0 a.symbols (a.append b).symbols := by
  intro label s hs
  refine ⟨s, ?_, rfl⟩
  rw [Layout.append, findSymbol?_append, hs, Option.some_or]

variable (hdisjoint : (labelsOf a.symbols).Disjoint (labelsOf b.symbols))

include hdisjoint

theorem carries_append_right : Carries a.location b.symbols (a.append b).symbols := by
  intro label s hs
  refine ⟨s.moved a.location a.statements.length, ?_, rfl⟩
  have hnone : findSymbol? a.symbols label = none :=
    findSymbol?_eq_none_iff.mpr fun hmem => hdisjoint hmem (mem_labelsOf_of_findSymbol? hs)
  rw [Layout.append, findSymbol?_append, hnone, Option.none_or, Layout.moved, findSymbol?_moved,
    hs, Option.map_some]

variable (ha : ∀ e ∈ a.program.statements, ∀ r ∈ e.remarks, r.Harmless)
  (hb : ∀ e ∈ b.program.statements, ∀ r ∈ e.remarks, r.Harmless)

include ha hb

/-- The statements of both layouts keep their words. -/
theorem statements_program_append :
    (a.append b).program.statements = (a.program.append b.program).statements := by
  have hlength : a.program.statements.length = a.statements.length := List.length_map _
  have hfirst : a.statements.map (encodeStatement (a.append b).symbols) =
      a.statements.map (encodeStatement a.symbols) := by
    refine List.map_congr_left fun s hs => ?_
    have hcarries := carries_append_left (a := a) (b := b)
    have hmoved := encodeStatement_moved hcarries 0 (ha _ (List.mem_map_of_mem hs))
    simpa using hmoved
  have hsecond : (b.statements.map (Statement.moved a.location a.statements.length)).map
        (encodeStatement (a.append b).symbols) =
      (b.statements.map (encodeStatement b.symbols)).map
        (Encoded.moved a.location a.statements.length) := by
    rw [List.map_map, List.map_map]
    refine List.map_congr_left fun s hs => ?_
    exact encodeStatement_moved (carries_append_right hdisjoint) _ (hb _ (List.mem_map_of_mem hs))
  change (a.statements ++ b.statements.map _).map _ = _ ++ (b.statements.map _).map _
  rw [List.map_append, hfirst, hsecond, hlength]
  rfl

/-- Where nothing is wrong with two layouts, the program of both is that of the first one with that
of the second one behind it. -/
theorem program_append : (a.append b).program = a.program.append b.program := by
  have hstatements := statements_program_append hdisjoint ha hb
  have hlength : a.program.statements.length = a.statements.length := List.length_map _
  have huses (label : List Char) : usesOf (a.append b).program.statements label =
      usesOf a.program.statements label ++
        (usesOf b.program.statements label).map (· + a.statements.length) := by
    rw [hstatements, Program.append, usesOf_append, Program.moved, usesOf_moved, hlength]
  have hsymbols : (a.append b).program.symbols = (a.program.append b.program).symbols := by
    change (a.symbols ++ b.symbols.map _).map
        (fun s : Symbol => { s with uses := usesOf (a.append b).program.statements s.name }) =
      a.symbols.map _ ++ (b.symbols.map _).map _
    rw [List.map_append, List.map_map, List.map_map, hlength]
    congr 1
    · refine List.map_congr_left fun s hs => ?_
      have hnone : usesOf b.program.statements s.name = [] :=
        usesOf_eq_nil (hdisjoint (List.mem_map_of_mem hs)) b.statements
      rw [huses, hnone, List.map_nil, List.append_nil]
      rfl
    · refine List.map_congr_left fun s hs => ?_
      have hnone : usesOf a.program.statements s.name = [] :=
        usesOf_eq_nil (fun hmem => hdisjoint hmem (List.mem_map_of_mem hs)) a.statements
      simp only [Function.comp_apply, Symbol.moved, huses, hnone, List.nil_append]
      rfl
  exact congrArg₂ (fun statements symbols =>
    (⟨statements, symbols, (a.append b).location⟩ : Program)) hstatements hsymbols

end Append

/-! ## Accepted sources behind one another -/

theorem labelsOf_program (l : Layout) : labelsOf l.program.symbols = labelsOf l.symbols := by
  simp [labelsOf, Layout.program]

theorem machineCode_append (p q : Program) :
    (p.append q).machineCode = p.machineCode ++ q.machineCode := by
  rw [Program.machineCode, Program.append, List.filterMap_append, Program.moved,
    List.filterMap_map]
  rfl

theorem lineMap_append (p q : Program) :
    (p.append q).lineMap = p.lineMap ++ q.lineMap.map (· + p.statements.length) := by
  rw [Program.lineMap, Program.append, List.filterMap_append, Program.moved, List.filterMap_map,
    Program.lineMap, Program.lineMap, List.map_filterMap]
  congr 2
  funext e
  rw [Function.comp_apply, Encoded.emitted_moved, Option.map_map]
  rfl

section Accepted

variable {a b : List Char} {p q : Program} (hp : assemble a = .ok p) (hq : assemble b = .ok q)
  (hdisjoint : (labelsOf p.symbols).Disjoint (labelsOf q.symbols))

include hp hq hdisjoint

/-- Two sources that are accepted, and that define no label in common, are accepted behind one
another. -/
theorem assemble_append : assemble (a ++ '\n' :: b) = .ok (p.append q) := by
  obtain ⟨rfl, hcleanp⟩ := assemble_eq_ok_iff.mp hp
  obtain ⟨rfl, hcleanq⟩ := assemble_eq_ok_iff.mp hq
  rw [labelsOf_program, labelsOf_program] at hdisjoint
  have hprogram := program_append hdisjoint (fun e he => (hcleanp e he).2)
    fun e he => (hcleanq e he).2
  rw [assemble_eq_ok_iff, layout_append hdisjoint]
  refine ⟨hprogram.symm, ?_⟩
  intro e he
  rcases List.mem_append.mp he with he | he
  · exact hcleanp e he
  · obtain ⟨e', he', rfl⟩ := List.mem_map.mp he
    obtain ⟨hproblems, hharmless⟩ := hcleanq e' he'
    refine ⟨(Statement.problems_moved _ _ _).trans hproblems, ?_⟩
    intro r hr
    obtain ⟨r', hr', rfl⟩ := List.mem_map.mp hr
    exact (Remark.harmless_moved _).mpr (hharmless r' hr')

/-- Assembling is compatible with putting sources behind one another.  Two sources that are
accepted, and that define no label in common, are accepted with a line feed between them.  The words
are those of the first source, followed by those of the second one bit by bit; the lines and labels
of the second one stand behind the lines and words of the first one. -/
theorem assemble_concatenation :
    ∃ r, assemble (a ++ '\n' :: b) = .ok r ∧
      r.machineCode = p.machineCode ++ q.machineCode ∧
      r.lineMap = p.lineMap ++ q.lineMap.map (· + (sourceLines a).length) ∧
      r.symbols = p.symbols ++
        q.symbols.map (Symbol.moved (4 * p.machineCode.length) (sourceLines a).length) := by
  have hlines : p.statements.length = (sourceLines a).length := by
    rw [← map_source_statements hp, List.length_map]
  have hlocation : p.location = 4 * p.machineCode.length := by
    obtain ⟨rfl, -⟩ := assemble_eq_ok_iff.mp hp
    exact location_program a
  refine ⟨p.append q, assemble_append hp hq hdisjoint, machineCode_append p q, ?_, ?_⟩
  · rw [lineMap_append, hlines]
  · rw [Program.append, Program.moved, hlines, hlocation]

end Accepted

/-- A loop, and behind it a jump over a word. -/
theorem assemble_concatenation_loop :
    ∃ p q r, assemble "loop: addi t0, t0, -1\r\n  again: bne t0, zero, loop # back".toList = .ok p ∧
      assemble "jal done\nnop\ndone:".toList = .ok q ∧
      assemble ("loop: addi t0, t0, -1\r\n  again: bne t0, zero, loop # back".toList ++
        '\n' :: "jal done\nnop\ndone:".toList) = .ok r ∧
      r.machineCode = p.machineCode ++ q.machineCode ∧
      r.lineMap = p.lineMap ++ q.lineMap.map (· + 2) ∧
      r.symbols = p.symbols ++ q.symbols.map (Symbol.moved 8 2) := by
  let a := "loop: addi t0, t0, -1\r\n  again: bne t0, zero, loop # back".toList
  let b := "jal done\nnop\ndone:".toList
  have hp : assemble a = .ok (layout a).program := by
    decide +kernel
  have hq : assemble b = .ok (layout b).program := by
    decide +kernel
  have hdisjoint : (labelsOf (layout a).program.symbols).Disjoint
      (labelsOf (layout b).program.symbols) := by
    have hlabels : labelsOf (layout a).program.symbols = ["loop".toList, "again".toList] ∧
        labelsOf (layout b).program.symbols = ["done".toList] := by
      decide +kernel
    rw [hlabels.1, hlabels.2, List.disjoint_singleton]
    decide
  have hwords : (layout a).program.machineCode.length = 2 := by
    decide +kernel
  have hlines : (sourceLines a).length = 2 := by
    decide +kernel
  have hfacts := assemble_concatenation hp hq hdisjoint
  rw [hwords, hlines] at hfacts
  obtain ⟨r, hr⟩ := hfacts
  exact ⟨_, _, r, hp, hq, hr⟩

end Rv32.Assembly
