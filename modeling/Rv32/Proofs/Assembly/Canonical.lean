import Mathlib
import Rv32.Proofs.Assembly.LineParts

/-!
# Canonical lines

A canonical line is an operation, a blank, and operands with a comma and a blank between them, where
an operand is a token or a token with another one in parentheses.  Such a line is parsed into just
these parts.
-/

namespace Rv32.Assembly

open Rv32.Text (IsToken isBlank isBlank_of_isPlain isPlain ne_of_isPlain)

/-- The operands of canonical text. -/
inductive IsOperand : List Char → Prop where
  | token {u : List Char} (hu : IsToken u) : IsOperand u
  | memory {u v : List Char} (hu : IsToken u) (hv : IsToken v) : IsOperand (u ++ '(' :: v ++ [')'])

/-- The text of operands. -/
def operandList (ops : List (List Char)) : List Char := [',', ' '].intercalate ops

namespace IsOperand

variable {o : List Char}

/-- The characters of an operand are plain or parentheses. -/
theorem plain_or_parenthesis (h : IsOperand o) {c : Char} (hc : c ∈ o) :
    isPlain c = true ∨ c = '(' ∨ c = ')' := by
  cases h with
  | token hu => exact Or.inl (hu.plain c hc)
  | memory hu hv =>
      simp only [List.append_assoc, List.mem_append, List.mem_cons, List.cons_append,
        List.not_mem_nil, or_false] at hc
      rcases hc with hc | rfl | hc | rfl
      · exact Or.inl (hu.plain c hc)
      · exact Or.inr (Or.inl rfl)
      · exact Or.inl (hv.plain c hc)
      · exact Or.inr (Or.inr rfl)

/-- An operand starts with a plain character. -/
theorem exists_cons (h : IsOperand o) : ∃ c cs, o = c :: cs ∧ isPlain c = true := by
  cases h with
  | token hu =>
      obtain ⟨c, cs, rfl⟩ := List.exists_cons_of_ne_nil hu.ne_nil
      exact ⟨c, cs, rfl, hu.plain c List.mem_cons_self⟩
  | memory hu hv =>
      obtain ⟨c, cs, rfl⟩ := List.exists_cons_of_ne_nil hu.ne_nil
      exact ⟨c, _, rfl, hu.plain c List.mem_cons_self⟩

theorem isBlank_eq_false (h : IsOperand o) {c : Char} (hc : c ∈ o) : isBlank c = false := by
  rcases h.plain_or_parenthesis hc with hplain | rfl | rfl
  · exact isBlank_of_isPlain hplain
  · rfl
  · rfl

theorem ne_comma (h : IsOperand o) {c : Char} (hc : c ∈ o) : c ≠ ',' := by
  rcases h.plain_or_parenthesis hc with hplain | rfl | rfl
  · exact ne_of_isPlain hplain rfl
  · decide
  · decide

theorem isUnbroken (h : IsOperand o) : IsUnbroken o where
  ne_nil := by
    obtain ⟨c, cs, rfl, -⟩ := h.exists_cons
    exact List.cons_ne_nil c cs
  isBlank_eq_false _ := h.isBlank_eq_false
  ne_comma _ := h.ne_comma

theorem isShaped (h : IsOperand o) : IsShaped o := by
  have hinner {c : Char} (hc : isPlain c = true) : isInner c = true := by
    simp [isInner, ne_of_isPlain hc (d := '(') rfl, ne_of_isPlain hc (d := ')') rfl]
  cases h with
  | token hu => exact .plain fun c hc => hinner (hu.plain c hc)
  | memory hu hv =>
      rw [List.append_assoc, List.cons_append]
      exact .memory (fun c hc => hinner (hu.plain c hc)) fun c hc => hinner (hv.plain c hc)

end IsOperand

/-! ## Lists of operands -/

@[simp] theorem operandList_singleton (o : List Char) : operandList [o] = o :=
  List.intercalate_singleton

theorem operandList_cons_cons (o k : List Char) (ks : List (List Char)) :
    operandList (o :: k :: ks) = o ++ ',' :: ' ' :: operandList (k :: ks) := by
  rw [operandList, List.intercalate_cons_cons, List.append_assoc]
  rfl

/-- The characters of a list of operands are those of its operands, commas and blanks. -/
theorem of_mem_operandList {ops : List (List Char)} {c : Char} (hc : c ∈ operandList ops) :
    c = ',' ∨ c = ' ' ∨ ∃ o ∈ ops, c ∈ o := by
  rcases Text.of_mem_intercalate hc with hc | hc
  · rw [List.mem_cons, List.mem_singleton] at hc
    exact hc.imp_right Or.inl
  · exact Or.inr (Or.inr hc)

/-- Canonical text is one way to list operands. -/
theorem lists_operandList {ops : List (List Char)} (hne : ops ≠ [])
    (h : ∀ o ∈ ops, IsOperand o) : Lists IsSeparator ops (operandList ops) := by
  induction ops with
  | nil => exact absurd rfl hne
  | cons o ops ih =>
      rw [List.forall_mem_cons] at h
      cases ops with
      | nil =>
          rw [operandList_singleton]
          exact .last h.1.isUnbroken (.asIs o)
      | cons k ks =>
          have hsep : IsSeparator ([] ++ [',', ' ']) := .comma .nil (by decide)
          rw [operandList_cons_cons]
          exact .cons h.1.isUnbroken (.asIs o) hsep (fun _ => List.mem_cons_self)
            (ih (List.cons_ne_nil k ks) h.2)

/-! ## The parts of a line -/

/-- No other characters stand on a canonical line. -/
theorem not_mem_canonical {op : List Char} {ops : List (List Char)} {d : Char} (hop : IsToken op)
    (h : ∀ x ∈ ops, IsOperand x) (hd : isPlain d = false) (hlist : d ∉ ['(', ')', ',', ' ']) :
    d ∉ op ++ ' ' :: operandList ops := by
  have hplain {c : Char} (hc : isPlain c = true) : d ≠ c := (ne_of_isPlain hc hd).symm
  simp only [List.mem_cons, List.not_mem_nil, or_false, not_or] at hlist
  obtain ⟨hopen, hclose, hcomma, hblank⟩ := hlist
  intro hmem
  rw [List.mem_append, List.mem_cons] at hmem
  rcases hmem with hmem | hmem | hmem
  · exact hplain (hop.plain d hmem) rfl
  · exact hblank hmem
  · rcases of_mem_operandList hmem with hmem | hmem | ⟨x, hx, hmem⟩
    · exact hcomma hmem
    · exact hblank hmem
    · rcases (h x hx).plain_or_parenthesis hmem with hmem | hmem | hmem
      · exact hplain hmem rfl
      · exact hopen hmem
      · exact hclose hmem

/-- A canonical line is parsed into its operation and its operands. -/
theorem parse_canonical {op : List Char} {o : List Char} {ops : List (List Char)}
    (hop : IsToken op) (h : ∀ x ∈ o :: ops, IsOperand x) :
    Line.parse (op ++ ' ' :: operandList (o :: ops)) = ⟨[], op, operandList (o :: ops), []⟩ := by
  have hne : ∀ c ∈ op ++ ' ' :: operandList (o :: ops), c ≠ '#' ∧ c ≠ '/' := by
    intro c hc
    constructor
    · rintro rfl
      exact not_mem_canonical hop h rfl (by decide) hc
    · rintro rfl
      exact not_mem_canonical hop h rfl (by decide) hc
  have hcomment := splitComment_append_of_ne hne []
  rw [List.append_nil] at hcomment
  have hcolon : ':' ∉ op ++ ' ' :: operandList (o :: ops) :=
    not_mem_canonical hop h rfl (by decide)
  have hcut : Line.Cut ⟨[], op, operandList (o :: ops), []⟩ (op ++ ' ' :: operandList (o :: ops))
      [] [] [' '] [] :=
    { eq := by simp
      labels := fun _ hrest => takeLabels_of_none hrest
      unlabelled := takeLabel?_eq_none_of_not_mem (by simpa using hcolon)
      isPadding_lead := .nil
      isPadding_gap := by decide
      isPadding_trail := .nil
      gap_ne_nil := List.cons_ne_nil _ _
      operation_ne_nil := hop.ne_nil
      isBlank_operation := fun c hc => isBlank_of_isPlain (hop.plain c hc) }
  rw [splitComment, List.append_nil] at hcomment
  exact hcut.parse hcomment (lists_operandList (List.cons_ne_nil o ops) h).solidEnds

/-- The operands of a canonical line are those that were written. -/
theorem operands_canonical {op : List Char} {o : List Char} {ops : List (List Char)}
    (h : ∀ x ∈ o :: ops, IsOperand x) :
    Line.operands ⟨[], op, operandList (o :: ops), []⟩ = o :: ops := by
  have hlist := lists_operandList (List.cons_ne_nil o ops) h
  exact Line.operands_of_lists hlist (hlist.pieces_of_separators fun x hx => (h x hx).isShaped)

end Rv32.Assembly
