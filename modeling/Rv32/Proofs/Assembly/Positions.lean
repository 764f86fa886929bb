import Mathlib
import Rv32.Proofs.Assembly.Concatenation
import Rv32.Proofs.Assembly.Outcome

/-!
# Where words and labels stand

A line takes up a word exactly if it carries an operation, whether the operation is known or not and
whatever else is wrong with the line.  The walk that gives out the addresses and the walk that
builds the words both go by that, so that the words, the lines that they came from and the addresses
stay side by side, and a label stands behind the words of the lines before its first definition.

All of this holds of sources in which something is wrong as well: an operation without a word still
keeps its place.
-/

namespace Rv32.Assembly

/-! ## Lines that take up a word -/

/-- Whether a line carries an operation, known or not. -/
def hasOperation (line : List Char) : Bool := !(Line.parse line).operation.isEmpty

theorem size_readOperation (parts : Line) :
    (readOperation parts).1.size = if parts.operation.isEmpty then 0 else 4 := by
  unfold readOperation
  split
  · rfl
  · simp only
    split
    · rfl
    · split <;> rfl

theorem Statement.ReadOff.size_operation {s : Statement} (h : s.ReadOff) :
    s.operation.size = if hasOperation s.source then 4 else 0 := by
  rw [h.operation, size_readOperation, h.parts, hasOperation]
  cases (Line.parse s.source).operation.isEmpty <;> rfl

/-- A statement emits a word exactly if its line carries an operation. -/
theorem isSome_emitted {e : Encoded} (h : e.statement.ReadOff) :
    e.emitted.isSome = hasOperation e.statement.source := by
  have hsize := h.size_operation
  cases hemitted : e.emitted with
  | none =>
      rw [(emitted_eq_none_iff e).mp hemitted] at hsize
      split at hsize
      · omega
      · next hnot => exact (Bool.eq_false_iff.mpr hnot).symm
  | some w =>
      rw [size_of_emitted_eq_some hemitted] at hsize
      split at hsize
      · next hhas => exact hhas.symm
      · omega

theorem readOff_of_mem_program {source : List Char} {e : Encoded}
    (he : e ∈ (layout source).program.statements) : e.statement.ReadOff := by
  obtain ⟨s, hs, rfl⟩ := List.mem_map.mp he
  rw [encodeStatement_statement]
  exact readOff_of_mem_layoutFrom hs

/-! ## The lines of the words -/

/-- The numbers of the lines that carry an operation, in order. -/
def operationLines (lines : List (List Char)) : List Nat :=
  ((lines.zipIdx 1).filter fun l => hasOperation l.1).map Prod.snd

theorem mem_operationLines {lines : List (List Char)} {n : Nat} :
    n ∈ operationLines lines ↔
      ∃ k line, n = k + 1 ∧ lines[k]? = some line ∧ hasOperation line = true := by
  simp only [operationLines, List.mem_map, List.mem_filter, Prod.exists]
  constructor
  · rintro ⟨line, n, ⟨hmem, hhas⟩, rfl⟩
    obtain ⟨hge, hline⟩ := List.mk_mem_zipIdx_iff_le_and_getElem?_sub.mp hmem
    exact ⟨n - 1, line, by omega, hline, hhas⟩
  · rintro ⟨k, line, rfl, hline, hhas⟩
    refine ⟨line, k + 1, ⟨?_, hhas⟩, rfl⟩
    rw [List.mk_mem_zipIdx_iff_le_and_getElem?_sub]
    exact ⟨by omega, hline⟩

theorem length_operationLines (lines : List (List Char)) :
    (operationLines lines).length = lines.countP hasOperation := by
  have hlines : lines.countP hasOperation =
      ((lines.zipIdx 1).map Prod.fst).countP hasOperation := by
    rw [List.zipIdx_map_fst]
  rw [hlines, List.countP_map, operationLines, List.length_map, List.countP_eq_length_filter]
  rfl

theorem pairwise_operationLines (lines : List (List Char)) :
    (operationLines lines).Pairwise (· < ·) := by
  have hsorted : ((lines.zipIdx 1).map Prod.snd).Pairwise (· < ·) := by
    rw [List.zipIdx_map_snd]
    exact List.pairwise_lt_range'
  exact hsorted.sublist (List.filter_sublist.map Prod.snd)

/-- The words come from the lines that carry an operation. -/
theorem lineMap_program (source : List Char) :
    (layout source).program.lineMap = operationLines (sourceLines source) := by
  have hfollows := follows_program source
  rw [Program.Follows] at hfollows
  rw [operationLines, ← hfollows, List.filter_map, List.map_map, Program.lineMap]
  rw [← List.filterMap_eq_map, List.filterMap_filter]
  apply List.filterMap_congr
  intro e he
  have hsome := isSome_emitted (readOff_of_mem_program he)
  simp only [Function.comp_apply]
  rw [← hsome]
  cases e.emitted <;> rfl

theorem length_lineMap (p : Program) : p.lineMap.length = p.machineCode.length := by
  simp only [Program.lineMap, Program.machineCode, List.length_filterMap_eq_countP,
    Option.isSome_map]

theorem length_machineCode (source : List Char) :
    (layout source).program.machineCode.length = (sourceLines source).countP hasOperation := by
  rw [← length_lineMap, lineMap_program, length_operationLines]

/-! ## The addresses of the words -/

/-- Addresses with the lines of the words there, from the word with index `k` on. -/
def pairsFrom (k : Nat) (lines : List Nat) : List (Int × Int) :=
  (lines.zipIdx k).map fun l => (4 * (l.2 : Int), (l.1 : Int))

theorem pairs_layoutFrom (final symbols : List Symbol) (number k : Nat)
    (lines : List (List Char)) :
    ((layoutFrom symbols number (4 * k) lines).statements.map (encodeStatement final)).filterMap
        (fun e => e.emitted.map fun _ =>
          ((e.statement.address : Int), (e.statement.number : Int))) =
      pairsFrom k (((layoutFrom symbols number (4 * k) lines).statements.map
        (encodeStatement final)).filterMap fun e => e.emitted.map fun _ => e.statement.number) := by
  induction lines generalizing symbols number k with
  | nil => rfl
  | cons line lines ih =>
      rw [layoutFrom_cons, List.map_cons]
      cases hemitted :
        (encodeStatement final (place symbols number (4 * k) line).1).emitted with
      | none =>
          rw [List.filterMap_cons_none (by rw [hemitted]; rfl),
            List.filterMap_cons_none (by rw [hemitted]; rfl)]
          rw [emitted_eq_none_iff, encodeStatement_statement] at hemitted
          rw [hemitted]
          exact ih _ _ _
      | some w =>
          have hsize := size_of_emitted_eq_some hemitted
          rw [encodeStatement_statement] at hsize
          rw [List.filterMap_cons_some (by rw [hemitted]; rfl),
            List.filterMap_cons_some (by rw [hemitted]; rfl)]
          rw [hsize, encodeStatement_statement, pairsFrom, List.zipIdx_cons, List.map_cons]
          have hrest := ih (place symbols number (4 * k) line).2 (number + 1) (k + 1)
          exact congrArg ((((4 * k : Nat) : Int), (number : Int)) :: ·) hrest

theorem pairs_program (source : List Char) (heading : List String) :
    ((layout source).program.sourceMap heading).pairs =
      pairsFrom 0 (layout source).program.lineMap :=
  pairs_layoutFrom (layout source).symbols [] 1 0 (sourceLines source)

/-- An address has a line if it is the address of a word. -/
theorem lookup_pairsFrom (k : Nat) (lines : List Nat) (a : Int) :
    (pairsFrom k lines).lookup a =
      if a % 4 = 0 ∧ 4 * k ≤ a then lines[(a / 4).toNat - k]?.map Nat.cast else none := by
  induction lines generalizing k with
  | nil => simp [pairsFrom]
  | cons n lines ih =>
      have hcons : pairsFrom k (n :: lines) =
          (4 * (k : Int), (n : Int)) :: pairsFrom (k + 1) lines :=
        rfl
      rw [hcons, List.lookup_cons, ih]
      by_cases ha : a = 4 * (k : Int)
      · have hword : a % 4 = 0 ∧ 4 * (k : Int) ≤ a := by
          omega
        have hzero : (a / 4).toNat - k = 0 := by
          omega
        rw [beq_iff_eq.mpr ha, if_pos hword, hzero]
        rfl
      · rw [beq_eq_false_iff_ne.mpr ha]
        by_cases hword : a % 4 = 0 ∧ 4 * (k : Int) ≤ a
        · have hnext : a % 4 = 0 ∧ 4 * ((k + 1 : Nat) : Int) ≤ a := by
            omega
          have hsucc : (a / 4).toNat - k = ((a / 4).toNat - (k + 1)) + 1 := by
            omega
          simp only [if_pos hword, if_pos hnext, hsucc, List.getElem?_cons_succ]
        · have hnext : ¬ (a % 4 = 0 ∧ 4 * ((k + 1 : Nat) : Int) ≤ a) := by
            omega
          simp only [if_neg hword, if_neg hnext]

/-! ## Labels -/

/-- The line with index `k` is the first one that defines a label. -/
structure FirstDefines (lines : List (List Char)) (label : List Char) (k : Nat) : Prop where
  defines : ∃ line, lines[k]? = some line ∧ label ∈ (Line.parse line).labels
  first : ∀ j < k, ∀ line, lines[j]? = some line → label ∉ (Line.parse line).labels

theorem FirstDefines.cons {lines : List (List Char)} {line label : List Char} {k : Nat}
    (h : FirstDefines lines label k) (hline : label ∉ (Line.parse line).labels) :
    FirstDefines (line :: lines) label (k + 1) where
  defines := h.defines
  first := by
    intro j hj other hother
    cases j with
    | zero =>
        obtain rfl := Option.some.inj hother
        exact hline
    | succ j => exact h.first j (Nat.lt_of_succ_lt_succ hj) other hother

theorem mem_record_bindLabel {symbols : List Symbol} {address line : Nat} {label : List Char}
    {s : Symbol} (hs : s ∈ record symbols line (bindLabel symbols address label)) :
    s ∈ symbols ∨
      (label ∉ labelsOf symbols ∧ isName label = true ∧ s = { name := label, address, line }) := by
  rcases record_bindLabel symbols address line label with hsame | ⟨hname, hfind, hnew⟩
  · rw [hsame] at hs
    exact Or.inl hs
  · rw [hnew, List.mem_append, List.mem_singleton] at hs
    exact hs.imp id fun h => ⟨findSymbol?_eq_none_iff.mp hfind, hname, h⟩

theorem mem_bindLabels {symbols : List Symbol} {address line : Nat} {labels : List (List Char)}
    {s : Symbol} (hs : s ∈ (bindLabels symbols address line labels).2) :
    s ∈ symbols ∨
      (s.name ∉ labelsOf symbols ∧ isName s.name = true ∧ s.name ∈ labels ∧
        s.address = address ∧ s.line = line) := by
  induction labels generalizing symbols with
  | nil => exact Or.inl hs
  | cons label labels ih =>
      rcases ih hs with hs | ⟨hnew, hname, hmem, hplace⟩
      · rcases mem_record_bindLabel hs with hs | ⟨hnew, hname, rfl⟩
        · exact Or.inl hs
        · exact Or.inr ⟨hnew, hname, List.mem_cons_self, rfl, rfl⟩
      · refine Or.inr ⟨?_, hname, List.mem_cons_of_mem _ hmem, hplace⟩
        exact fun h => hnew (mem_labelsOf_record line _ h)

theorem symbols_layoutFrom_cons (symbols : List Symbol) (number address : Nat)
    (line : List Char) (lines : List (List Char)) :
    (layoutFrom symbols number address (line :: lines)).symbols =
      (layoutFrom (place symbols number address line).2 (number + 1)
        (address + (place symbols number address line).1.operation.size) lines).symbols :=
  rfl

/-- What a walk binds stands behind the words of the lines before, at its first definition. -/
theorem mem_symbols_layoutFrom {symbols : List Symbol} {number address : Nat}
    {lines : List (List Char)} {s : Symbol}
    (hs : s ∈ (layoutFrom symbols number address lines).symbols) :
    s ∈ symbols ∨
      (s.name ∉ labelsOf symbols ∧ isName s.name = true ∧
        ∃ k, FirstDefines lines s.name k ∧ s.line = number + k ∧
          s.address = address + 4 * (lines.take k).countP hasOperation) := by
  induction lines generalizing symbols number address with
  | nil => exact Or.inl hs
  | cons line lines ih =>
      rw [symbols_layoutFrom_cons] at hs
      rcases ih hs with hs | ⟨hnew, hname, k, hfirst, hline, haddress⟩
      · rcases mem_bindLabels hs with hs | ⟨hnew, hname, hmem, haddress, hline⟩
        · exact Or.inl hs
        · refine Or.inr ⟨hnew, hname, 0, ⟨⟨line, rfl, hmem⟩, ?_⟩, hline, haddress⟩
          intro j hj
          exact absurd hj (Nat.not_lt_zero j)
      · -- A name among the labels of the first line would be known by now.
        have hother : s.name ∉ (Line.parse line).labels := fun h =>
          hnew (mem_labelsOf_of_mem_labels symbols address number h hname)
        refine Or.inr ⟨fun h => hnew (mem_labelsOf_bindLabels address number _ h), hname, k + 1,
          hfirst.cons hother, by omega, ?_⟩
        have hsize := (place_readOff symbols number address line).size_operation
        rw [haddress, hsize, place_source, List.take_succ_cons, List.countP_cons]
        split <;> omega

theorem nodup_record_bindLabel {symbols : List Symbol} (address line : Nat) (label : List Char)
    (h : (labelsOf symbols).Nodup) :
    (labelsOf (record symbols line (bindLabel symbols address label))).Nodup := by
  rcases record_bindLabel symbols address line label with hsame | ⟨-, hfind, hnew⟩
  · rw [hsame]
    exact h
  · rw [hnew, labelsOf, List.map_append]
    exact List.nodup_append_comm.mp (List.nodup_cons.mpr ⟨findSymbol?_eq_none_iff.mp hfind, h⟩)

theorem nodup_bindLabels {symbols : List Symbol} (address line : Nat) (labels : List (List Char))
    (h : (labelsOf symbols).Nodup) :
    (labelsOf (bindLabels symbols address line labels).2).Nodup := by
  induction labels generalizing symbols with
  | nil => exact h
  | cons label labels ih => exact ih (nodup_record_bindLabel address line label h)

theorem nodup_layoutFrom {symbols : List Symbol} (number address : Nat)
    (lines : List (List Char)) (h : (labelsOf symbols).Nodup) :
    (labelsOf (layoutFrom symbols number address lines).symbols).Nodup := by
  induction lines generalizing symbols number address with
  | nil => exact h
  | cons line lines ih => exact ih _ _ (nodup_bindLabels address number _ h)

/-! ## The whole source -/

/-- The words of a program lie one after the other from address zero on, and the line map and the
source map go along with them: they say of each word from which of the lines it came. -/
structure Program.Maps (p : Program) (lines : List (List Char)) : Prop where
  location : p.location = 4 * p.machineCode.length
  lineMap_length : p.lineMap.length = p.machineCode.length
  pairs_length : ∀ heading, (p.sourceMap heading).pairs.length = p.machineCode.length
  increasing : p.lineMap.Pairwise (· < ·)
  mem_lineMap : ∀ n, n ∈ p.lineMap ↔
    ∃ k line, n = k + 1 ∧ lines[k]? = some line ∧ hasOperation line = true
  pair : ∀ heading (i n : Nat), p.lineMap[i]? = some n →
    (p.sourceMap heading).pairs[i]? = some (4 * (i : Int), (n : Int))
  lineOf? : ∀ heading (a : Int), (p.sourceMap heading).lineOf? a =
    if a % 4 = 0 ∧ 0 ≤ a ∧ a < 4 * p.machineCode.length then
      p.lineMap[(a / 4).toNat]?.map Nat.cast
    else none

/-- The symbols of a program are the names that the lines define, each of which stands behind the
words of the lines before its first definition. -/
structure Program.Binds (p : Program) (lines : List (List Char)) : Prop where
  symbol : ∀ s ∈ p.symbols, ∃ k, FirstDefines lines s.name k ∧ s.line = k + 1 ∧
    s.address = 4 * (lines.take k).countP hasOperation ∧
    s.address % 4 = 0 ∧ s.address ≤ 4 * p.machineCode.length
  distinct : (labelsOf p.symbols).Nodup
  defined : ∀ line ∈ lines, ∀ label ∈ (Line.parse line).labels, isName label = true →
    label ∈ labelsOf p.symbols

/-- Building the words changes nothing of a layout: the statements keep their addresses, the symbols
their names, addresses and lines, and the words end where the layout ends. -/
structure Layout.Lasts (l : Layout) (p : Program) : Prop where
  statements : p.statements.map Encoded.statement = l.statements
  symbols : p.symbols.map (fun s => (s.name, s.address, s.line)) =
    l.symbols.map fun s => (s.name, s.address, s.line)
  location : p.location = l.location

theorem maps_program (source : List Char) :
    (layout source).program.Maps (sourceLines source) where
  location := location_program source
  lineMap_length := length_lineMap _
  pairs_length := by
    intro heading
    rw [pairs_program, pairsFrom, List.length_map, List.length_zipIdx, length_lineMap]
  increasing := by
    rw [lineMap_program]
    exact pairwise_operationLines _
  mem_lineMap := by
    intro n
    rw [lineMap_program, mem_operationLines]
  pair := by
    intro heading i n hn
    simp [pairs_program, pairsFrom, hn]
  lineOf? := by
    intro heading a
    rw [SourceMap.lineOf?, pairs_program, lookup_pairsFrom, Nat.sub_zero, Nat.cast_zero, mul_zero]
    by_cases ha : a % 4 = 0 ∧ 0 ≤ a
    · rw [if_pos ha]
      by_cases hlt : a < 4 * (layout source).program.machineCode.length
      · rw [if_pos ⟨ha.1, ha.2, hlt⟩]
      · rw [if_neg fun h => hlt h.2.2, List.getElem?_eq_none, Option.map_none]
        rw [length_lineMap]
        omega
    · rw [if_neg ha, if_neg fun h => ha ⟨h.1, h.2.1⟩]

theorem binds_program (source : List Char) :
    (layout source).program.Binds (sourceLines source) where
  symbol := by
    intro s hs
    obtain ⟨t, ht, rfl⟩ := List.mem_map.mp hs
    rcases mem_symbols_layoutFrom ht with hnil | ⟨-, -, k, hfirst, hline, haddress⟩
    · exact absurd hnil List.not_mem_nil
    · have hle := (List.take_sublist k (sourceLines source)).countP_le (p := hasOperation)
      rw [← length_machineCode] at hle
      rw [Nat.zero_add] at haddress
      refine ⟨k, hfirst, ?_, haddress, ?_, ?_⟩
      · change t.line = k + 1
        omega
      · change t.address % 4 = 0
        omega
      · change t.address ≤ _
        omega
  distinct := by
    rw [labelsOf_program]
    exact nodup_layoutFrom 1 0 _ List.nodup_nil
  defined := by
    intro line hline label hlabel hname
    rw [labelsOf_program]
    exact mem_labelsOf_of_mem_lines [] 1 0 hline hlabel hname

theorem lasts_program (l : Layout) : l.Lasts l.program where
  statements := by
    simp [Layout.program, Function.comp_def, encodeStatement_statement]
  symbols := by
    simp [Layout.program, Function.comp_def]
  location := rfl

/-- The layout of a source, whatever is wrong with it.  Words, line map and source map go side by
side, labels stand between the words at their first definitions, and building the words leaves all
that the first walk has laid out. -/
theorem layout_positions (source : List Char) :
    (layout source).program.Maps (sourceLines source) ∧
      (layout source).program.Binds (sourceLines source) ∧
      (layout source).Lasts (layout source).program :=
  ⟨maps_program source, binds_program source, lasts_program (layout source)⟩

/-- An unknown operation keeps its place, between which and the end the second label stands. -/
example :
    (layout "a: frob\n\n nop\nb:".toList).program.lineMap = [1, 3] ∧
      (layout "a: frob\n\n nop\nb:".toList).program.symbols.map Symbol.address = [0, 8] := by
  decide +kernel

end Rv32.Assembly
