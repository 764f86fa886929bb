import Mathlib
import Rv32.Proofs.Assembly.Fidelity
import Rv32.Proofs.Assembly.Language

/-!
# The lines that use a label

Each symbol of a program has the list of the lines that use it.  A use is remarked where the second
walk checks an operand, and no check but that of a target resolves a label.  Where a source is
accepted, the uses of a label are therefore the lines that ask for a branch or jump to it, each once
and in order.  A register, a mnemonic or a number that is spelled like the label is no use of it.
-/

namespace Rv32.Assembly

/-! ## Labels that a check resolves -/

namespace Checked

variable {α β : Type}

/-- The labels that a check resolves, in order. -/
def resolved (c : Checked α) : List (List Char) := c.remarks.filterMap Remark.resolved?

@[simp] theorem resolved_map (f : α → β) (c : Checked α) : (f <$> c).resolved = c.resolved := rfl

@[simp] theorem resolved_seq (f : Checked (α → β)) (c : Checked α) :
    (f <*> c).resolved = f.resolved ++ c.resolved :=
  List.filterMap_append

@[simp] theorem resolved_noting (label : List Char) (address : Nat) (offset : Int) (c : Checked α) :
    (noting (.resolved label address offset) c).resolved = label :: c.resolved := rfl

/-- A check that does not read the symbols resolves nothing. -/
theorem congruence_resolved :
    Congruence (fun _ => True) fun {_} x _ => x.resolved = [] where
  pure _ := rfl
  fail _ := rfl
  stop _ := rfl
  map _ hx := hx
  seq hf hx := by rw [resolved_seq, hf, hx, List.append_nil]

end Checked

/-- The target among the operands of a mnemonic, which is the last operand of a branch or jump. -/
def target? (m : Mnemonic) (operands : List (List Char)) : Option (List Char) :=
  match m.kind with
  | .branch | .jal => operands.getLast?
  | _ => none

theorem target?_eq_some_iff {m : Mnemonic} {operands : List (List Char)} {o : List Char} :
    target? m operands = some o ↔
      (m.kind = .branch ∨ m.kind = .jal) ∧ operands.getLast? = some o := by
  unfold target?
  split <;> simp_all

section Resolved

variable {symbols : List Symbol} (hnames : ∀ s ∈ symbols, isName s.name = true) (address : Nat)

include hnames

/-- A target is resolved if it is a label that has a symbol.  No number is spelled like one. -/
theorem resolved_checkTarget (format : ImmediateFormat) (operand : List Char) :
    (checkTarget format symbols address operand).resolved =
      if operand ∈ labelsOf symbols then [operand] else [] := by
  have hoffset (x : Int) : (checkOffset format x).resolved = [] :=
    Checked.congruence_resolved.checkOffset format fun _ => trivial
  split
  · next hmem =>
      obtain ⟨s, hs⟩ : ∃ s, findSymbol? symbols operand = some s := by
        rw [← Option.ne_none_iff_exists', Ne, findSymbol?_eq_none_iff]
        exact fun hnot => hnot hmem
      have hname : isName operand = true := by
        rw [← name_of_findSymbol? hs]
        exact hnames s (List.mem_of_find?_eq_some hs)
      simp [checkTarget, readLiteral_of_isName hname, hname, hs, hoffset]
  · next hnot =>
      unfold checkTarget
      split
      · rfl
      · exact hoffset _
      · split
        · rfl
        · split
          · rfl
          · next s hs => exact absurd (mem_labelsOf_of_findSymbol? hs) hnot

theorem resolved_encodeOperands {m : Mnemonic} {operands : List (List Char)} {w : Int}
    (h : (encodeOperands symbols address m operands).Accepts w) :
    (encodeOperands symbols address m operands).resolved =
      ((target? m operands).filter (· ∈ labelsOf symbols)).toList := by
  have hstops (o : List Char) : ∀ e, Exceeds symbols address o e → True := fun _ _ => trivial
  have hreg (o : List Char) : (checkRegister o).resolved = [] :=
    Checked.congruence_resolved.checkRegister o
  have hnum (what : Quantity) (o : List Char) : (checkNumber what o).resolved = [] :=
    Checked.congruence_resolved.checkNumber what fun _ _ => trivial
  have hmem (o : List Char) : (checkMemory o).resolved = [] :=
    Checked.congruence_resolved.checkMemory (hstops o)
  have himm (o : List Char) : (checkImmediate m o).resolved = [] :=
    Checked.congruence_resolved.checkImmediate (hstops o) m
  have htarget (format : ImmediateFormat) (o : List Char) :
      (checkTarget format symbols address o).resolved =
        ((some o).filter (· ∈ labelsOf symbols)).toList := by
    rw [resolved_checkTarget hnames, Option.filter_some]
    split <;> simp_all
  revert h
  unfold encodeOperands
  simp only
  split <;> intro h
  -- A wrong number of operands is not accepted, and any other class has its own checks.
  case h_13 => exact absurd h Checked.not_accepts_fail
  all_goals
    simp only [Checked.resolved_seq, Checked.resolved_map, hreg, hnum, hmem, himm, htarget,
      List.nil_append, List.append_nil, target?, ‹m.kind = _›, List.getLast?_cons_cons,
      List.getLast?_singleton, Option.filter_none, Option.toList_none]

/-- A statement that is accepted resolves its target, and nothing else. -/
theorem resolved_encode {m : Mnemonic} {operands : List (List Char)} {w : Int}
    (h : (encode symbols address m operands).Accepts w) :
    (encode symbols address m operands).resolved =
      ((target? m operands).filter (· ∈ labelsOf symbols)).toList := by
  obtain ⟨hcount, hempty, haccepts⟩ := accepts_encode_iff.mp h
  have hsame : encode symbols address m operands = encodeOperands symbols address m operands := by
    simp [encode, hcount, hempty]
  rw [hsame]
  exact resolved_encodeOperands hnames address haccepts

end Resolved

/-! ## Lists of uses -/

namespace Encoded

/-- The labels that a statement resolves. -/
def resolved (e : Encoded) : List (List Char) := e.remarks.filterMap Remark.resolved?

end Encoded

theorem mem_usesOf {statements : List Encoded} {label : List Char} {n : Nat} :
    n ∈ usesOf statements label ↔
      ∃ e ∈ statements, label ∈ e.resolved ∧ e.statement.number = n := by
  simp [usesOf, Encoded.resolved]

/-- The uses are in order, without repetition, where the statements are in order and none resolves
more than one label. -/
theorem pairwise_usesOf {statements : List Encoded}
    (hnumbers : statements.Pairwise fun e f => e.statement.number < f.statement.number)
    (honce : ∀ e ∈ statements, ∃ found : Option (List Char), e.resolved = found.toList)
    (label : List Char) : (usesOf statements label).Pairwise (· < ·) := by
  rw [usesOf, List.pairwise_flatMap]
  constructor
  · intro e he
    obtain ⟨found, hfound⟩ := honce e he
    rw [Encoded.resolved] at hfound
    rw [hfound]
    cases found with
    | none => exact List.Pairwise.nil
    | some l =>
        simp only [Option.toList_some, List.filterMap_cons, List.filterMap_nil]
        split <;> simp
  · refine hnumbers.imp fun {e f} hlt a ha b hb => ?_
    have hnumber {g : Encoded} {n : Nat}
        (hn : n ∈ (g.remarks.filterMap Remark.resolved?).filterMap fun l =>
          if l == label then some g.statement.number else none) : g.statement.number = n := by
      obtain ⟨l, -, hl⟩ := List.mem_filterMap.mp hn
      simp_all
    rw [← hnumber ha, ← hnumber hb]
    exact hlt

/-! ## Statements and lines -/

theorem Program.Follows.getElem? {p : Program} {lines : List (List Char)} (h : p.Follows lines)
    (k : Nat) :
    p.statements[k]?.map (fun e => (e.statement.source, e.statement.number)) =
      lines[k]?.map fun line => (line, k + 1) := by
  have hk := congrArg (·[k]?) h
  simpa only [List.getElem?_map, List.getElem?_zipIdx, Nat.add_comm 1] using hk

section Accepted

variable {source : List Char} {p : Program} (h : assemble source = .ok p)

include h

theorem follows_of_assemble : p.Follows (sourceLines source) := by
  obtain ⟨rfl, -⟩ := assemble_eq_ok_iff.mp h
  exact follows_program source

theorem eq_encodeStatement {e : Encoded} (he : e ∈ p.statements) :
    e = encodeStatement (layout source).symbols e.statement := by
  obtain ⟨rfl, -⟩ := assemble_eq_ok_iff.mp h
  obtain ⟨s, -, rfl⟩ := List.mem_map.mp he
  rw [encodeStatement_statement]

/-- A line that has a label as its target has a symbol for it. -/
theorem mem_labelsOf_of_targets {line label : List Char} {m : Mnemonic}
    (hline : line ∈ sourceLines source) (htargets : (Line.parse line).Targets m label) :
    label ∈ labelsOf p.symbols := by
  obtain ⟨k, hk⟩ := List.getElem?_of_mem hline
  obtain ⟨-, -, s, -, -, -, -, hs, -⟩ := exists_word_of_targets h hk htargets
  exact mem_labelsOf_of_findSymbol? hs

/-- A statement resolves the label that is the target of its line, if any. -/
theorem exists_resolved_eq {e : Encoded} (he : e ∈ p.statements) :
    ∃ found : Option (List Char), e.resolved = found.toList ∧
      ∀ label, found = some label ↔ ∃ m, (Line.parse e.statement.source).Targets m label := by
  have hread := readOff_of_mem h he
  have hencoded := eq_encodeStatement h he
  have hline : e.statement.source ∈ sourceLines source := by
    rw [← map_source_statements h]
    exact List.mem_map_of_mem he
  rw [← hread.parts]
  by_cases hop : e.statement.parts.operation = []
  · refine ⟨none, ?_, fun label => iff_of_false (by simp) ?_⟩
    · have hnone : e.statement.operation = .none := by
        rw [hread.operation, readOperation, hop]
        rfl
      rw [hencoded, Encoded.resolved, encodeStatement, hnone]
      rfl
    · rintro ⟨m, htargets⟩
      exact htargets.operation_ne_nil hop
  · obtain ⟨m, hm, hasks⟩ := hread.asksFor (problems_eq_nil h he) hop
    obtain ⟨w, -, haccepts⟩ := accepts_word h he hm
    have hnames := (tabled_layout source).name
    have hresolved : e.resolved = ((target? m e.statement.operands).filter
        (· ∈ labelsOf (layout source).symbols)).toList := by
      rw [hencoded, Encoded.resolved, encodeStatement_statement, encodeStatement, hm]
      exact resolved_encode hnames _ haccepts
    refine ⟨_, hresolved, fun label => ?_⟩
    rw [Option.filter_eq_some_iff, target?_eq_some_iff, decide_eq_true_eq]
    constructor
    · rintro ⟨⟨hkind, hlast⟩, hmem⟩
      obtain ⟨s, hs, rfl⟩ := List.mem_map.mp hmem
      rcases hasks with ⟨hname, hoperands⟩ | ⟨-, -, rfl, -⟩
      · rw [hoperands] at hlast
        exact ⟨m, hname, hkind, hlast, hnames s hs⟩
      · -- The pseudo instruction is no branch or jump.
        exact absurd hkind (by decide)
    · rintro ⟨n, htargets⟩
      obtain ⟨rfl, hoperands⟩ := htargets.eq_of_asksFor hasks
      have hmem := mem_labelsOf_of_targets h hline (hread.parts ▸ htargets)
      obtain ⟨rfl, -⟩ := assemble_eq_ok_iff.mp h
      rw [labelsOf_program] at hmem
      exact ⟨⟨htargets.kind, hoperands ▸ htargets.operand⟩, hmem⟩

/-- A line uses a label if its statement resolves it. -/
theorem mem_uses_iff {label : List Char} {n : Nat} :
    n ∈ usesOf p.statements label ↔
      ∃ k line m, n = k + 1 ∧ (sourceLines source)[k]? = some line ∧
        (Line.parse line).Targets m label := by
  have hfollows := follows_of_assemble h
  have hresolved {e : Encoded} (he : e ∈ p.statements) :
      label ∈ e.resolved ↔ ∃ m, (Line.parse e.statement.source).Targets m label := by
    obtain ⟨found, hfound, hiff⟩ := exists_resolved_eq h he
    rw [hfound, Option.mem_toList, hiff]
  rw [mem_usesOf]
  constructor
  · rintro ⟨e, he, hlabel, rfl⟩
    obtain ⟨k, hk⟩ := List.getElem?_of_mem he
    have hline := hfollows.getElem? k
    rw [hk, Option.map_some, eq_comm, Option.map_eq_some_iff] at hline
    obtain ⟨line, hline, heq⟩ := hline
    obtain ⟨rfl, hnumber⟩ := Prod.mk.inj heq
    obtain ⟨m, htargets⟩ := (hresolved he).mp hlabel
    exact ⟨k, _, m, hnumber.symm, hline, htargets⟩
  · rintro ⟨k, line, m, rfl, hline, htargets⟩
    have hstatement := hfollows.getElem? k
    rw [hline, Option.map_some, Option.map_eq_some_iff] at hstatement
    obtain ⟨e, hk, heq⟩ := hstatement
    obtain ⟨rfl, hnumber⟩ := Prod.mk.inj heq
    have he := List.mem_of_getElem? hk
    exact ⟨e, he, (hresolved he).mpr ⟨m, htargets⟩, hnumber⟩

end Accepted

/-! ## The symbol table -/

/-- The uses of each symbol are the lines that ask for a branch or jump to it, in order and without
repetition, and each label that a branch or jump asks for has a symbol. -/
structure Program.RecordsUses (p : Program) (lines : List (List Char)) : Prop where
  increasing : ∀ s ∈ p.symbols, s.uses.Pairwise (· < ·)
  mem_uses : ∀ s ∈ p.symbols, ∀ n, n ∈ s.uses ↔
    ∃ k line m, n = k + 1 ∧ lines[k]? = some line ∧ (Line.parse line).Targets m s.name
  defined : ∀ line ∈ lines, ∀ m label, (Line.parse line).Targets m label →
    label ∈ labelsOf p.symbols

theorem uses_of_mem_program {l : Layout} {s : Symbol} (hs : s ∈ l.program.symbols) :
    s.uses = usesOf l.program.statements s.name := by
  obtain ⟨t, -, rfl⟩ := List.mem_map.mp hs
  rfl

/-- The uses that the symbol table of an accepted source shows are exact. -/
theorem assemble_records_uses {source : List Char} {p : Program} (h : assemble source = .ok p) :
    p.RecordsUses (sourceLines source) := by
  have huses : ∀ s ∈ p.symbols, s.uses = usesOf p.statements s.name := by
    obtain ⟨rfl, -⟩ := assemble_eq_ok_iff.mp h
    exact fun s hs => uses_of_mem_program hs
  have hnumbers := (follows_of_assemble h).pairwise_number
  constructor
  · intro s hs
    rw [huses s hs]
    exact pairwise_usesOf hnumbers (fun e he => (exists_resolved_eq h he).imp fun _ h => h.1) s.name
  · intro s hs n
    rw [huses s hs]
    exact mem_uses_iff h
  · exact fun line hline m label htargets => mem_labelsOf_of_targets h hline htargets

/-- A label that is spelled like a register, and one that is spelled like a mnemonic. -/
theorem assemble_records_uses_register :
    ∃ p, assemble "x1: addi x1, x1, 1\nJAL: bne x1, x0, x1\njal x1, JAL\njal x1".toList = .ok p ∧
      p.RecordsUses
        (sourceLines "x1: addi x1, x1, 1\nJAL: bne x1, x0, x1\njal x1, JAL\njal x1".toList) ∧
      p.symbols.map (fun s => (String.ofList s.name, s.uses)) = [("x1", [2, 4]), ("JAL", [3])] := by
  have h : assemble "x1: addi x1, x1, 1\nJAL: bne x1, x0, x1\njal x1, JAL\njal x1".toList =
      .ok (layout
        "x1: addi x1, x1, 1\nJAL: bne x1, x0, x1\njal x1, JAL\njal x1".toList).program := by
    decide +kernel
  exact ⟨_, h, assemble_records_uses h, by decide +kernel⟩

end Rv32.Assembly
