import Mathlib
import Rv32.Proofs.Assembly.OperandWords
import Rv32.Proofs.Assembly.Respacing
import Rv32.Proofs.Assembly.WrittenLines

/-!
# Letter case and register names do not matter

Operations are looked up in capitals and names of registers in small letters, and each register has
two or three names.  Where the operations of an accepted source are written in another case, and its
registers by other names, the same program comes of it.

The target of a branch or jump may be a label that is named like a register.  It is not one, and
stays as it is.
-/

namespace Rv32

namespace Text

/-! ## Letter case -/

theorem upperChar_toLower (c : Char) : upperChar c.toLower = upperChar c :=
  Assembly.apply_toLower (by decide) c

theorem isBlank_toLower (c : Char) : isBlank c.toLower = isBlank c :=
  Assembly.apply_toLower (by decide) c

/-- Texts that differ in the case of ASCII letters only are the same in capitals. -/
theorem upper_eq_of_lowerAscii {cs ds : List Char} (h : lowerAscii ds = lowerAscii cs) :
    upper ds = upper cs := by
  have hupper (cs : List Char) : upper cs = upper (lowerAscii cs) := by
    rw [upper, upper, lowerAscii, List.flatMap_map]
    simp only [upperChar_toLower]
  rw [hupper ds, h, ← hupper cs]

theorem isBlank_of_lowerAscii {cs ds : List Char} (h : lowerAscii ds = lowerAscii cs)
    (hcs : ∀ c ∈ cs, isBlank c = false) : ∀ d ∈ ds, isBlank d = false := by
  intro d hd
  have hlower : d.toLower ∈ lowerAscii cs := h ▸ List.mem_map_of_mem hd
  obtain ⟨c, hc, heq⟩ := List.mem_map.mp hlower
  rw [← isBlank_toLower, ← heq, isBlank_toLower]
  exact hcs c hc

end Text

namespace Assembly

open Rv32.Text (isBlank trim)

/-! ## Lines -/

/-- Whether a line asks for a branch or a jump, the last operand of which is its target. -/
def Line.takesTarget (l : Line) : Bool :=
  match (readOperation l).1 with
  | .known m => m.kind == .branch || m.kind == .jal
  | _ => false

/-- The second line is the first one with its operation in another case of letters and with other
names for the registers among its operands. -/
inductive Respells (line : List Char) : List Char → Prop
  | same : Respells line line
  | statement {front operation gap operands back comment operation' operands' : List Char}
      (hline : splitComment line = (front ++ (operation ++ (gap ++ (operands ++ back))), comment))
      (hoperation : (Line.parse line).operation = operation) (hne : operation ≠ [])
      (hoperands : (Line.parse line).operandText = operands) (hgap : IsPadding gap)
      (hback : IsPadding back) (hcase : Text.lowerAscii operation' = Text.lowerAscii operation)
      (hwords : Respelled operands operands')
      (htarget : (Line.parse line).takesTarget = true →
        (splitOperands operands').getLast? = (splitOperands operands).getLast?) :
      Respells line (front ++ (operation' ++ (gap ++ (operands' ++ back))) ++ comment)

/-- Where the operation and the operands of a line are replaced, and neither a label nor a comment
can be in the new ones, the rest of the line stays as it is. -/
theorem parse_rewritten {line front gap back comment operation operands : List Char}
    (hline : splitComment line = (front ++ ((Line.parse line).operation ++
      (gap ++ ((Line.parse line).operandText ++ back))), comment))
    (hne : (Line.parse line).operation ≠ []) (hgap : IsPadding gap) (hback : IsPadding back)
    (hne' : operation ≠ []) (hsolid : ∀ c ∈ operation, isBlank c = false)
    (hmissing : (Line.parse line).operandText = [] → operands = [])
    (hplain : ∀ c ∈ operation ++ operands, c ∉ [':', '#', '/']) :
    Line.parse (front ++ (operation ++ (gap ++ (operands ++ back))) ++ comment) =
      { Line.parse line with operation := operation, operandText := trim operands } := by
  obtain ⟨used, lead, rfl, hlead, hlabels, hapart⟩ := Line.exists_front hline hne hgap hback
  let s : WrittenStatement :=
    { before := lead
      operation := operation
      between := gap
      operands := operands
      after := back
      isPadding_before := hlead
      isPadding_between := hgap
      isPadding_after := hback
      isBlank_operation := hsolid
      plain := hplain
      apart := fun h => ⟨hne', hapart fun hnil => h (hmissing hnil)⟩ }
  have hnew : ∀ d ∈ operation ++ (gap ++ (operands ++ back)), d ≠ '#' ∧ d ≠ '/' := by
    intro d hd
    have hmem : d ∈ s.text := List.mem_append_right lead hd
    constructor
    · rintro rfl
      exact s.not_mem_text rfl (by decide) hmem
    · rintro rfl
      exact s.not_mem_text rfl (by decide) hmem
  have hcode :
      splitComment (used ++ lead ++ (operation ++ (gap ++ (operands ++ back))) ++ comment) =
        (used ++ s.text, comment) := by
    obtain ⟨c, cs, hc⟩ := List.exists_cons_of_ne_nil hne
    obtain ⟨c', cs', rfl⟩ := List.exists_cons_of_ne_nil hne'
    have htext : s.text = lead ++ c' :: (cs' ++ (gap ++ (operands ++ back))) := rfl
    have hbehind : ∀ d ∈ c' :: (cs' ++ (gap ++ (operands ++ back))), d ≠ '#' ∧ d ≠ '/' := hnew
    rw [hc, List.cons_append] at hline
    rw [htext]
    simpa only [List.append_assoc, List.cons_append] using splitComment_replaced hline hbehind
  have hrest := hlabels s.text s.takeLabel?_text
  obtain ⟨hoperation, hoperands⟩ := s.parts
  have hcomment : comment = (Line.parse line).comment := (congrArg Prod.snd hline).symm
  simp only [Line.parse, hcode, hrest, hoperation, hoperands]
  rw [hcomment]
  rfl

theorem Line.operands_respelled {l l' : Line} (h : Respelled l.operandText l'.operandText) :
    List.Forall₂ Respelled l.operands l'.operands := by
  rw [Line.operands, Line.operands, h.isEmpty_eq]
  split
  · exact .nil
  · exact h.splitOperands

/-- The second line asks for what the first one asks for, under other names of registers. -/
structure Line.Renamed (l l' : Line) : Prop where
  labels : l'.labels = l.labels
  operation : (readOperation l').1 = (readOperation l).1
  remarks : (readOperation l').2.2 = (readOperation l).2.2
  operands : List.Forall₂ Respelled (readOperation l).2.1 (readOperation l').2.1
  target : l.takesTarget = true → (readOperation l').2.1.getLast? = (readOperation l).2.1.getLast?

theorem Line.Renamed.refl (l : Line) : l.Renamed l where
  labels := rfl
  operation := rfl
  remarks := rfl
  operands := List.forall₂_same.mpr fun o _ => Respelled.refl o
  target := fun _ => rfl

/-- A known operation is looked up in capitals, and nothing else is told of its letters. -/
theorem Line.renamed_of_respelled {l l' : Line} {m : Mnemonic}
    (hknown : (readOperation l).1 = .known m) (hne : l.operation ≠ []) (hne' : l'.operation ≠ [])
    (hlabels : l'.labels = l.labels) (hupper : Text.upper l'.operation = Text.upper l.operation)
    (htext : Respelled l.operandText l'.operandText)
    (htarget : l.takesTarget = true →
      (splitOperands l'.operandText).getLast? = (splitOperands l.operandText).getLast?) :
    l.Renamed l' := by
  have hwords := Line.operands_respelled htext
  have hempty := List.isEmpty_eq_false_iff.mpr hne
  have hempty' := List.isEmpty_eq_false_iff.mpr hne'
  cases hq : Pseudo.ofName? (Text.upper l.operation) with
  | some q =>
      have hmissing : l'.operands.isEmpty = l.operands.isEmpty := by
        rw [Bool.eq_iff_iff, List.isEmpty_iff_length_eq_zero, List.isEmpty_iff_length_eq_zero,
          hwords.length_eq]
      have hsame : readOperation l' = readOperation l := by
        simp only [readOperation, hempty, hempty', hupper, hq, hmissing, Bool.false_eq_true,
          if_false]
      refine ⟨hlabels, ?_, ?_, ?_, fun _ => ?_⟩
      all_goals rw [hsame]
      exact (Line.Renamed.refl l).operands
  | none =>
      cases hn : Mnemonic.ofName? (Text.upper l.operation) with
      | some n =>
          have hread (k : Line) (hk : k.operation.isEmpty = false)
              (hkupper : Text.upper k.operation = Text.upper l.operation) :
              readOperation k = (.known n, k.operands, []) := by
            simp only [readOperation, hk, hkupper, hq, hn, Bool.false_eq_true, if_false]
          have hlast (ht : l.takesTarget = true) : l'.operands.getLast? = l.operands.getLast? := by
            rw [Line.operands, Line.operands, htext.isEmpty_eq]
            split
            · rfl
            · exact htarget ht
          refine ⟨hlabels, ?_, ?_, ?_, fun ht => ?_⟩
          all_goals rw [hread l hempty rfl, hread l' hempty' hupper]
          · exact hwords
          · exact hlast ht
      | none =>
          simp only [readOperation, hempty, hq, hn, Bool.false_eq_true, if_false] at hknown
          cases hknown

/-! ## Accepted lines -/

/-- The names of operations are letters, which neither end a label nor start a comment. -/
theorem Line.AsksFor.plain {l : Line} {m : Mnemonic} {operands : List (List Char)}
    (h : l.AsksFor m operands) {operation : List Char}
    (hupper : Text.upper operation = Text.upper l.operation) :
    ∀ c ∈ operation, c ∉ [':', '#', '/'] := by
  have hnames : ∀ m ∈ Mnemonic.all, m.name.toList.all Char.isAlpha = true := by
    decide +kernel
  have hletters : (Text.upper l.operation).all Char.isAlpha = true := by
    rcases h with ⟨hname, -⟩ | ⟨hname, -⟩
    · have heq := List.find?_some hname
      rw [← eq_of_beq heq]
      exact hnames m (List.mem_of_find?_eq_some hname)
    · rw [hname]
      decide
  have hstops : ∀ c ∈ [':', '#', '/'], Text.upperChar c = [c] ∧ c.isAlpha = false := by
    simp [Text.upperChar]
  intro c hc hstop
  obtain ⟨hsame, hnone⟩ := hstops c hstop
  have hmem : c ∈ Text.upper operation :=
    List.mem_flatMap.mpr ⟨c, hc, by rw [hsame]; exact List.mem_singleton_self c⟩
  rw [hupper] at hmem
  have hletter := List.all_eq_true.mp hletters c hmem
  rw [hnone] at hletter
  cases hletter

/-- Neither do operands that are spelled in words. -/
theorem Line.operandText_plain {l : Line}
    (h : ∀ o ∈ l.operands, (∀ c ∈ o, isBlank c = false) → IsSpelled o) :
    ∀ c ∈ l.operandText, c ∉ [':', '#', '/'] := by
  have hsolid : ∀ c ∈ [':', '#', '/'], isSolid c = true := List.all_eq_true.mp (by decide)
  have hword : ∀ c ∈ [':', '#', '/'], isWordChar c = false ∧ c ≠ '(' ∧ c ≠ ')' := by
    simp [isWordChar]
  intro c hc hstop
  obtain ⟨o, ho, hco⟩ := Line.exists_operand hc (hsolid c hstop)
  obtain ⟨hnone, hopen, hclose⟩ := hword c hstop
  rcases (h o ho (Line.isBlank_operands ho)).wordChar_or_parenthesis c hco with hc | rfl | rfl
  · rw [hnone] at hc
    cases hc
  · exact hopen rfl
  · exact hclose rfl

theorem Respelled.plain {cs ds : List Char} (h : Respelled cs ds)
    (hcs : ∀ c ∈ cs, c ∉ [':', '#', '/']) : ∀ c ∈ ds, c ∉ [':', '#', '/'] := by
  have hword : ∀ c ∈ [':', '#', '/'], isWordChar c = false := by
    simp [isWordChar]
  intro c hc hstop
  rcases h.of_mem c hc with hc | hc
  · exact hcs c hc hstop
  · rw [hword c hstop] at hc
    cases hc

theorem Respelled.trim_operands {line new : List Char}
    (h : Respelled (Line.parse line).operandText new) : trim new = new := by
  by_cases hnil : (Line.parse line).operandText = []
  · rw [hnil] at h
    rw [h.eq_nil]
    rfl
  · exact (h.solidEnds (Line.solidEnds_operandText hnil)).trim

/-- A line that may stand in an accepted source: its operation is known, and its operands are
spelled in words. -/
structure Line.Understood (l : Line) : Prop where
  asksFor : l.operation ≠ [] →
    ∃ m operands, (readOperation l).1 = .known m ∧ l.AsksFor m operands
  spelled : ∀ o ∈ l.operands, (∀ c ∈ o, isBlank c = false) → IsSpelled o

theorem understood_of_mem_sourceLines {source : List Char} {p : Program}
    (h : assemble source = .ok p) {line : List Char} (hline : line ∈ sourceLines source) :
    (Line.parse line).Understood := by
  refine ⟨fun hne => ?_, spelled_of_mem_sourceLines h hline⟩
  rw [← map_source_statements h, List.mem_map] at hline
  obtain ⟨e, he, rfl⟩ := hline
  have hread := readOff_of_mem h he
  rw [← hread.parts] at hne ⊢
  obtain ⟨m, hm, hasks⟩ := hread.asksFor (problems_eq_nil h he) hne
  rw [hread.operation] at hm
  exact ⟨m, _, hm, hasks⟩

theorem Respells.renamed {line line' : List Char} (h : Respells line line')
    (hline : (Line.parse line).Understood) : (Line.parse line).Renamed (Line.parse line') := by
  cases h with
  | same => exact .refl _
  | @statement front operation gap operands back comment operation' operands' hcut hoperation hne
      hoperands hgap hback hcase hwords htarget =>
      subst hoperation hoperands
      obtain ⟨m, _, hknown, hasks⟩ := hline.asksFor hne
      have hupper := Text.upper_eq_of_lowerAscii hcase
      have hne' : operation' ≠ [] := by
        rintro rfl
        exact hne (List.map_eq_nil_iff.mp hcase.symm)
      have hplain : ∀ c ∈ operation' ++ operands', c ∉ [':', '#', '/'] := by
        rw [List.forall_mem_append]
        exact ⟨hasks.plain hupper, hwords.plain (Line.operandText_plain hline.spelled)⟩
      have hparse := parse_rewritten hcut hne hgap hback hne'
        (Text.isBlank_of_lowerAscii hcase (Line.isBlank_operation line))
        (fun hnil => hwords.eq_nil_iff.mpr hnil) hplain
      rw [hparse, hwords.trim_operands]
      exact Line.renamed_of_respelled hknown hne hne' rfl hupper hwords htarget

/-! ## The walk -/

/-- The second statement is the first one under other names of registers. -/
structure Statement.Renamed (s s' : Statement) : Prop where
  number : s'.number = s.number
  address : s'.address = s.address
  operation : s'.operation = s.operation
  remarks : s'.remarks = s.remarks
  operands : List.Forall₂ Respelled s.operands s'.operands
  target : ∀ m, s.operation = .known m → m.kind = .branch ∨ m.kind = .jal →
    s'.operands.getLast? = s.operands.getLast?

/-- The lines of the second list are those of the first one under other names of registers. -/
def RenamedLines : List (List Char) → List (List Char) → Prop :=
  List.Forall₂ fun line line' => (Line.parse line).Renamed (Line.parse line')

theorem place_renamed (symbols : List Symbol) (number address : Nat) {line line' : List Char}
    (h : (Line.parse line).Renamed (Line.parse line')) :
    (place symbols number address line).1.Renamed (place symbols number address line').1 ∧
      (place symbols number address line').2 = (place symbols number address line).2 := by
  simp only [place, h.labels, and_true]
  refine ⟨rfl, rfl, h.operation, congrArg (· ++ _) h.remarks, h.operands, fun m hm hkind => ?_⟩
  apply h.target
  simp only at hm
  simp only [Line.takesTarget, hm, Bool.or_eq_true, beq_iff_eq]
  exact hkind

theorem layoutFrom_renamed {lines lines' : List (List Char)} (h : RenamedLines lines lines')
    (symbols : List Symbol) (number address : Nat) :
    let l := layoutFrom symbols number address lines
    let l' := layoutFrom symbols number address lines'
    List.Forall₂ Statement.Renamed l.statements l'.statements ∧ l'.symbols = l.symbols ∧
      l'.location = l.location := by
  induction h generalizing symbols number address with
  | nil => exact ⟨.nil, rfl, rfl⟩
  | cons hline _ ih =>
      obtain ⟨hplaced, hsymbols⟩ := place_renamed symbols number address hline
      obtain ⟨hstatements, hrest⟩ := ih (place symbols number address _).2 (number + 1)
        (address + (place symbols number address _).1.operation.size)
      simp only [layoutFrom, hsymbols, hplaced.operation]
      exact ⟨.cons hplaced hstatements, hrest⟩

/-! ## Accepted statements -/

theorem isBlank_readOperation {l : Line} {o : List Char} (ho : o ∈ (readOperation l).2.1) :
    ∀ c ∈ o, isBlank c = false := by
  unfold readOperation at ho
  simp only at ho
  split at ho
  · exact Line.isBlank_operands ho
  · split at ho
    · next q hq =>
        obtain ⟨rfl, -⟩ := Pseudo.ofName?_eq_some hq
        have hnop : ∀ o ∈ Pseudo.nop.operands.map String.toList, o.all (!isBlank ·) = true := by
          decide +kernel
        simpa using hnop o ho
    · split at ho
      · exact Line.isBlank_operands ho
      · exact Line.isBlank_operands ho

theorem Statement.Renamed.agrees_with {s s' : Statement} (h : s.Renamed s') (word : Option Int)
    (remarks : List Remark) : Encoded.Agrees id ⟨s, word, remarks⟩ ⟨s', word, remarks⟩ where
  number := h.number
  emitted := by simp only [Encoded.emitted, h.operation]
  problems := by simp only [Encoded.problems, Statement.problems, h.remarks]
  remarks := rfl

/-- A statement of an accepted source yields the same word under other names of registers. -/
theorem Statement.Renamed.agrees {source : List Char} {p : Program} (hp : assemble source = .ok p)
    {s s' : Statement} (h : s.Renamed s') (hs : s ∈ (layout source).statements) :
    (encodeStatement (layout source).symbols s).Agrees id
      (encodeStatement (layout source).symbols s') := by
  have he : encodeStatement (layout source).symbols s ∈ p.statements := by
    obtain ⟨rfl, -⟩ := assemble_eq_ok_iff.mp hp
    exact List.mem_map_of_mem hs
  cases hm : s.operation with
  | known m =>
      have hread := readOff_of_mem hp he
      have hlanguage := inLanguage_of_mem hp he (m := m)
      rw [encodeStatement_statement] at hread hlanguage
      have hsolid : ∀ o ∈ s.operands, ∀ c ∈ o, isBlank c = false := by
        rw [hread.operands]
        exact fun o => isBlank_readOperation
      have hencode := (hlanguage hm).encode_respelled h.operands hsolid (h.target m hm)
      simp only [encodeStatement, h.operation, hm, h.address, hencode]
      exact h.agrees_with _ _
  | none =>
      simp only [encodeStatement, h.operation, hm]
      exact h.agrees_with _ _
  | unknown name =>
      simp only [encodeStatement, h.operation, hm]
      exact h.agrees_with _ _

/-- Letter case and register names do not matter.  Where the operations of an accepted source are
written in another case of letters, and any of its registers by other names of the same registers,
also those in parentheses, the source is accepted with the same machine code and the same labels.
Only the target of a branch or jump stays as it is written. -/
theorem assemble_respelled {source source' : List Char} {p : Program}
    (h : List.Forall₂ Respells (sourceLines source) (sourceLines source'))
    (hp : assemble source = .ok p) :
    ∃ p', assemble source' = .ok p' ∧ p'.machineCode = p.machineCode ∧ p'.lineMap = p.lineMap ∧
      p'.symbols = p.symbols := by
  have hlines : RenamedLines (sourceLines source) (sourceLines source') :=
    ((List.forall₂_and_left _ _).mpr ⟨fun line => understood_of_mem_sourceLines hp, h⟩).imp
      fun line line' hline => hline.2.renamed hline.1
  obtain ⟨hstatements, hsymbols, hlocation⟩ := layoutFrom_renamed hlines [] 1 0
  change (layout source').symbols = (layout source).symbols at hsymbols
  have hagree : List.Forall₂ (Encoded.Agrees id) (layout source).program.statements
      (layout source').program.statements := by
    simp only [Layout.program, hsymbols, List.forall₂_map_left_iff, List.forall₂_map_right_iff]
    exact ((List.forall₂_and_left _ _).mpr ⟨fun s hs => hs, hstatements⟩).imp
      fun s s' hs => hs.2.agrees hp hs.1
  have hid : (layout source).symbols.map (Symbol.renumbered id) = (layout source).symbols := by
    rw [List.map_congr_left fun s _ => s.renumbered_id, List.map_id']
  exact exists_program_of_echoes
    (Layout.program_echoes (.of_forall₂ hagree) (hsymbols.trans hid.symm) hlocation) hp

/-- The label has the name of a register.  The register goes by other names, and the jump to the
label stays as it is. -/
theorem assemble_respelled_label :
    ∃ source source' p, source = "x8: add x8, SP, zero\nlw a0, 4( fp )\nbne x8, x0, x8".toList ∧
      source' = "x8: ADD fp, x2, X0\nLw x10, 4( s0 )\nBNE S0, zero, x8".toList ∧
      assemble source = .ok p ∧
      ∃ p', assemble source' = .ok p' ∧ p'.machineCode = p.machineCode ∧ p'.lineMap = p.lineMap ∧
        p'.symbols = p.symbols := by
  have hzero : SameWord "zero".toList "X0".toList :=
    .register (r := 0) (by decide +kernel) (by decide +kernel)
  have hnumber : SameWord "x0".toList "zero".toList :=
    .register (r := 0) (by decide +kernel) (by decide +kernel)
  have hsp : SameWord "SP".toList "x2".toList :=
    .register (r := 2) (by decide +kernel) (by decide +kernel)
  have hfp : SameWord "x8".toList "fp".toList :=
    .register (r := 8) (by decide +kernel) (by decide +kernel)
  have hs0 : SameWord "fp".toList "s0".toList :=
    .register (r := 8) (by decide +kernel) (by decide +kernel)
  have hcapital : SameWord "x8".toList "S0".toList :=
    .register (r := 8) (by decide +kernel) (by decide +kernel)
  have ha0 : SameWord "a0".toList "x10".toList :=
    .register (r := 10) (by decide +kernel) (by decide +kernel)
  have hadd : Respells "x8: add x8, SP, zero".toList "x8: ADD fp, x2, X0".toList := by
    have hwords : Respelled "x8, SP, zero".toList "fp, x2, X0".toList :=
      .mark hfp rfl (.cons_mark rfl (.mark hsp rfl (.cons_mark rfl (.last hzero))))
    exact @Respells.statement _ "x8: ".toList "add".toList [' '] _ [] [] "ADD".toList _
      (by decide +kernel) (by decide +kernel) (by decide +kernel) (by decide +kernel)
      (by decide +kernel) .nil (by decide +kernel) hwords (by decide +kernel)
  have hload : Respells "lw a0, 4( fp )".toList "Lw x10, 4( s0 )".toList := by
    have hmemory : Respelled "4( fp )".toList "4( s0 )".toList :=
      .append_mark (.refl "4".toList) rfl (.cons_mark rfl (.mark hs0 rfl (.cons_mark rfl .nil)))
    have hwords : Respelled "a0, 4( fp )".toList "x10, 4( s0 )".toList :=
      .mark ha0 rfl (.cons_mark rfl hmemory)
    exact @Respells.statement _ [] "lw".toList [' '] _ [] [] "Lw".toList _
      (by decide +kernel) (by decide +kernel) (by decide +kernel) (by decide +kernel)
      (by decide +kernel) .nil (by decide +kernel) hwords (by decide +kernel)
  have hbranch : Respells "bne x8, x0, x8".toList "BNE S0, zero, x8".toList := by
    have hwords : Respelled "x8, x0, x8".toList "S0, zero, x8".toList :=
      .mark hcapital rfl (.cons_mark rfl (.mark hnumber rfl (.refl " x8".toList)))
    exact @Respells.statement _ [] "bne".toList [' '] _ [] [] "BNE".toList _
      (by decide +kernel) (by decide +kernel) (by decide +kernel) (by decide +kernel)
      (by decide +kernel) .nil (by decide +kernel) hwords (by decide +kernel)
  have hlines : List.Forall₂ Respells
      (sourceLines "x8: add x8, SP, zero\nlw a0, 4( fp )\nbne x8, x0, x8".toList)
      (sourceLines "x8: ADD fp, x2, X0\nLw x10, 4( s0 )\nBNE S0, zero, x8".toList) :=
    .cons hadd (.cons hload (.cons hbranch .nil))
  have hp : assemble "x8: add x8, SP, zero\nlw a0, 4( fp )\nbne x8, x0, x8".toList =
      .ok (layout "x8: add x8, SP, zero\nlw a0, 4( fp )\nbne x8, x0, x8".toList).program := by
    decide +kernel
  exact ⟨_, _, _, rfl, rfl, hp, assemble_respelled hlines hp⟩

end Assembly

end Rv32
