import Mathlib
import Rv32.Proofs.Assembly.Annotation
import Rv32.Proofs.Assembly.Fidelity
import Rv32.Proofs.Assembly.LineParts
import Rv32.Proofs.Assembly.Spelling

/-!
# How operands are separated does not matter

A line with commas between its operands may have blanks in their place, or commas with blanks around
them, and blanks before and inside parentheses.  If the source is accepted, then each line is read
as before, and so the same program comes of it.

The one comma that blanks may not replace is that in front of a register in parentheses without an
offset.
-/

namespace Rv32.Assembly

open Rv32.Text (isBlank)

/-! ## Lines -/

/-- The second line is the first one, with other separators in place of the commas between its
operands and with other blanks before and inside the parentheses of its operands. -/
inductive Respaces (line : List Char) : List Char → Prop
  | same : Respaces line line
  | operands {front old new back comment : List Char} {ops : List (List Char)}
      (hline : splitComment line = (front ++ old ++ back, comment)) (hback : IsPadding back)
      (hold : (Line.parse line).operandText = old) (hcommas : Lists (· = [',']) ops old)
      (hlist : Lists IsSeparator ops new) : Respaces line (front ++ new ++ back ++ comment)

theorem IsSpelled.isShaped {o : List Char} (h : IsSpelled o) : IsShaped o := by
  cases h with
  | word ho => exact .plain fun c hc => isInner_of_isWordChar (ho c hc)
  | memory hu hv =>
      exact .memory (fun c hc => isInner_of_isWordChar (hu c hc))
        fun c hc => isInner_of_isWordChar (hv c hc)

/-- Nothing in a list of operands starts a comment. -/
theorem Lists.ne_comment {ops : List (List Char)} {text : List Char}
    (h : Lists IsSeparator ops text) (hspelled : ∀ o ∈ ops, IsSpelled o) :
    ∀ c ∈ text, c ≠ '#' ∧ c ≠ '/' := by
  have hne {d : Char} (hblank : isBlank d = false) (hword : isWordChar d = false)
      (hlist : d ∉ [',', '(', ')']) : d ∉ text := by
    intro hd
    simp only [List.mem_cons, List.not_mem_nil, or_false, not_or] at hlist
    rcases h.of_mem d hd with hd | hd | ⟨o, ho, hd⟩
    · rw [hblank] at hd
      cases hd
    · exact hlist.1 hd
    · rcases (hspelled o ho).wordChar_or_parenthesis d hd with hd | hd
      · rw [hword] at hd
        cases hd
      · exact hd.elim hlist.2.1 hlist.2.2
  have hnumber : '#' ∉ text := hne (by decide) (by decide) (by decide)
  have hslash : '/' ∉ text := hne (by decide) (by decide) (by decide)
  intro c hc
  exact ⟨fun heq => hnumber (heq ▸ hc), fun heq => hslash (heq ▸ hc)⟩

theorem Respaces.sameParts {line line' : List Char} (h : Respaces line line')
    (hspelled : ∀ o ∈ (Line.parse line).operands, (∀ c ∈ o, isBlank c = false) → IsSpelled o) :
    SameParts line line' := by
  cases h with
  | same => exact ⟨rfl, rfl, rfl⟩
  | @operands front old new back comment ops hline hback hold hcommas hlist =>
      subst hold
      have hops := Line.operands_of_lists hcommas hcommas.pieces_of_commas
      rw [hops] at hspelled
      have hspelled : ∀ o ∈ ops, IsSpelled o := fun o ho =>
        hspelled o ho (hlist.unbroken o ho).isBlank_eq_false
      -- Both texts start with the first character of the first operand.
      have hfirst : new.head? = (Line.parse line).operandText.head? := by
        obtain ⟨o, ks, rfl⟩ := List.exists_cons_of_ne_nil hlist.ne_nil
        obtain ⟨c, cs, ds, rfl, hnew⟩ := hlist.exists_cons
        obtain ⟨c', cs', ds', heq, hold⟩ := hcommas.exists_cons
        rw [hnew, hold, List.head?_cons, List.head?_cons, (List.cons.inj heq).1]
      have hparse := parse_replaced hline hback hcommas.solidEnds hlist.solidEnds hfirst
        (hlist.ne_comment hspelled)
      have hcut := hlist.pieces_of_separators fun o ho => (hspelled o ho).isShaped
      refine ⟨?_, ?_, ?_⟩
      · rw [hparse]
      · rw [hparse]
      · rw [hops, hparse]
        exact Line.operands_of_lists hlist hcut

/-! ## Accepted sources -/

/-- The statements of an accepted source have operands of the language. -/
theorem inLanguage_of_mem {source : List Char} {p : Program} (h : assemble source = .ok p)
    {e : Encoded} (he : e ∈ p.statements) {m : Mnemonic}
    (hm : e.statement.operation = .known m) :
    InLanguage (layout source).symbols e.statement.address m e.statement.operands := by
  obtain ⟨w, hw, haccepts⟩ := accepts_word h he hm
  obtain ⟨j, hj, -⟩ := exists_index_of_mem h he (w := w) (by simp [Encoded.emitted, hm, hw])
  have haddress : e.statement.address % 4 = 0 := by
    omega
  exact (tests_encode (tabled_layout source) haddress m _).sound haccepts.2

/-- The operands on the lines of an accepted source are spelled in words. -/
theorem spelled_of_mem_sourceLines {source : List Char} {p : Program}
    (h : assemble source = .ok p) {line : List Char} (hline : line ∈ sourceLines source) :
    ∀ o ∈ (Line.parse line).operands, (∀ c ∈ o, isBlank c = false) → IsSpelled o := by
  rw [← map_source_statements h, List.mem_map] at hline
  obtain ⟨e, he, rfl⟩ := hline
  have hread := readOff_of_mem h he
  by_cases hop : e.statement.parts.operation = []
  · rw [hread.parts] at hop
    have htext : (Line.parse e.statement.source).operandText = [] := by
      by_contra hne
      obtain ⟨used, lead, gap, trail, hcut⟩ := Line.exists_cut hne
      exact hcut.operation_ne_nil hop
    have hnone : (Line.parse e.statement.source).operands = [] := by
      simp only [Line.operands, htext, List.isEmpty_nil, if_true]
    rw [hnone]
    exact fun o ho => absurd ho List.not_mem_nil
  · obtain ⟨m, hm, hasks⟩ := hread.asksFor (problems_eq_nil h he) hop
    rw [hread.parts] at hasks
    rcases hasks with ⟨-, hoperands⟩ | ⟨-, hnone, -⟩
    · have hlanguage := inLanguage_of_mem h he hm
      rw [hoperands] at hlanguage
      exact hlanguage.spelled (tabled_layout source).name
    · rw [hnone]
      exact fun o ho => absurd ho List.not_mem_nil

/-! ## The walk -/

theorem layoutFrom_sameParts {lines lines' : List (List Char)}
    (h : List.Forall₂ SameParts lines lines') (symbols : List Symbol) (number address : Nat) :
    (layoutFrom symbols number address lines).Echoes id
      (layoutFrom (symbols.map (Symbol.renumbered id)) number address lines') := by
  induction h generalizing symbols number address with
  | nil => exact ⟨.nil, rfl, rfl⟩
  | cons hparts rest ih =>
      have hnumber : id number = number := rfl
      obtain ⟨hecho, hsymbols⟩ := place_kept symbols address hnumber hparts
      obtain ⟨hstatements, hrest, hlocation⟩ := ih _ _ _
      simp only [layoutFrom, hsymbols, hecho.operation]
      exact ⟨.kept hecho hstatements, hrest, hlocation⟩

/-- It does not matter how operands are separated.  Where lines of an accepted source have commas
between their operands, any of them may be replaced by blanks or have blanks around it, and there
may be blanks before and inside the parentheses of an operand; only a comma in front of parentheses
without an offset must stay.  The same machine code comes of the source, with the same labels. -/
theorem assemble_respaced {source source' : List Char} {p : Program}
    (h : List.Forall₂ Respaces (sourceLines source) (sourceLines source'))
    (hp : assemble source = .ok p) :
    ∃ p', assemble source' = .ok p' ∧ p'.machineCode = p.machineCode ∧ p'.lineMap = p.lineMap ∧
      p'.symbols = p.symbols := by
  have hspelled : ∀ line ∈ sourceLines source, ∀ o ∈ (Line.parse line).operands,
      (∀ c ∈ o, isBlank c = false) → IsSpelled o := fun line =>
    spelled_of_mem_sourceLines hp
  have hparts : List.Forall₂ SameParts (sourceLines source) (sourceLines source') :=
    ((List.forall₂_and_left _ _).mpr ⟨hspelled, h⟩).imp fun line line' hline =>
      hline.2.sameParts hline.1
  exact exists_program_of_echoes (layoutFrom_sameParts hparts [] 1 0).program hp

/-- Two lines with a memory operand each, of which the second one has no offset. -/
theorem assemble_respaced_memory :
    ∃ source source' p, source = "lw x1,8(x2)\nsw x1,(x2)".toList ∧
      source' = "lw x1  8 ( x2 )\nsw x1 , ( x2)".toList ∧ assemble source = .ok p ∧
      ∃ p', assemble source' = .ok p' ∧ p'.machineCode = p.machineCode ∧
        p'.lineMap = p.lineMap ∧ p'.symbols = p.symbols := by
  have hblank : IsPadding [' '] := by
    decide +kernel
  have hx1 : IsUnbroken ['x', '1'] := by
    decide +kernel
  have hx2 : ∀ c ∈ ['x', '2'], isInner c = true := List.all_eq_true.mp (by decide +kernel)
  have hload : Respaces "lw x1,8(x2)".toList "lw x1  8 ( x2 )".toList := by
    have hoffset : ∀ c ∈ ['8'], isInner c = true := List.all_eq_true.mp (by decide +kernel)
    have hmemory : IsUnbroken ['8', '(', 'x', '2', ')'] := by
      decide +kernel
    have hcommas : Lists (· = [',']) [_, _] _ :=
      .cons hx1 (.asIs _) rfl (by simp) (.last hmemory (.asIs _))
    have hblanks : IsSeparator [' ', ' '] := .blanks (by simp) (by decide +kernel)
    have hlist : Lists IsSeparator [_, _] _ := .cons hx1 (.asIs _) hblanks (by simp)
      (.last hmemory (.memory hoffset hx2 hblank (by simp) hblank hblank))
    exact @Respaces.operands _ ['l', 'w', ' '] _ _ [] [] _ rfl .nil (by decide +kernel) hcommas
      hlist
  have hstore : Respaces "sw x1,(x2)".toList "sw x1 , ( x2)".toList := by
    have hmemory : IsUnbroken ['(', 'x', '2', ')'] := by
      decide +kernel
    have hcommas : Lists (· = [',']) [_, _] _ :=
      .cons hx1 (.asIs _) rfl (by simp) (.last hmemory (.asIs _))
    have hlist : Lists IsSeparator [_, _] _ := .cons hx1 (.asIs _) (.comma hblank hblank) (by simp)
      (.last hmemory (.memory (u := []) (by simp) hx2 .nil (by simp) hblank .nil))
    exact @Respaces.operands _ ['s', 'w', ' '] _ _ [] [] _ rfl .nil (by decide +kernel) hcommas
      hlist
  have hlines : List.Forall₂ Respaces (sourceLines "lw x1,8(x2)\nsw x1,(x2)".toList)
      (sourceLines "lw x1  8 ( x2 )\nsw x1 , ( x2)".toList) :=
    .cons hload (.cons hstore .nil)
  have hp : assemble "lw x1,8(x2)\nsw x1,(x2)".toList =
      .ok (layout "lw x1,8(x2)\nsw x1,(x2)".toList).program := by
    decide +kernel
  exact ⟨_, _, _, rfl, rfl, hp, assemble_respaced hlines hp⟩

/-- A comma in front of a register in parentheses, without an offset, may not be replaced by a
blank.  The blank would be dropped, and the register in parentheses would have the operand before it
as its offset. -/
theorem not_assemble_blank_in_front_of_parenthesis :
    ∃ operation a b p, operation = "lw ".toList ∧ a = "x1".toList ∧ b = "(x2)".toList ∧
      IsUnbroken a ∧ IsUnbroken b ∧ IsSeparator [' '] ∧
      (Line.parse (operation ++ a ++ [','] ++ b)).operandText = a ++ [','] ++ b ∧
      assemble (operation ++ a ++ [','] ++ b) = .ok p ∧
      ∀ p', assemble (operation ++ a ++ [' '] ++ b) ≠ .ok p' := by
  have hp : assemble "lw x1,(x2)".toList = .ok (layout "lw x1,(x2)".toList).program := by
    decide +kernel
  have hrefused : (assemble "lw x1 (x2)".toList).toOption = none := by
    decide +kernel
  refine ⟨_, _, _, _, rfl, rfl, rfl, by decide +kernel, by decide +kernel,
    .blanks (by simp) (by decide +kernel), by decide +kernel, hp, fun p' hp' => ?_⟩
  have hsome : assemble "lw x1 (x2)".toList = .ok p' := hp'
  rw [hsome] at hrefused
  cases hrefused

end Rv32.Assembly
