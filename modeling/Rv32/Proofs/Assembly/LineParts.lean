import Mathlib
import Rv32.Proofs.Assembly.Comments
import Rv32.Proofs.Assembly.Separators

/-!
# Lines with other operands

A line with operands has blanks between its operation and its operands.  The labels and the
operation are read off what stands before the operands, and the comment off what stands behind them,
so that both stay where the operands of a line are replaced by others.
-/

namespace Rv32.Assembly

open Rv32.Text (isBlank trim trimStart)

/-! ## Comments -/

/-- Where no comment starts in front of a character, none starts in front of another one in its
place that is no slash. -/
theorem splitComment_append_cons {front rest code comment : List Char} {c c' : Char}
    (h : splitComment (front ++ c :: rest) = (front ++ code, comment)) (hc' : c' ≠ '/')
    (rest' : List Char) :
    splitComment (front ++ c' :: rest') =
      (front ++ (splitComment (c' :: rest')).1, (splitComment (c' :: rest')).2) := by
  induction front with
  | nil => rfl
  | cons d front ih =>
      rw [List.cons_append, splitComment] at h
      split at h
      · cases (Prod.mk.inj h).1
      · next hstarts =>
          obtain ⟨hcode, hcomment⟩ := Prod.mk.inj h
          have htail := ih (Prod.ext (List.cons.inj hcode).2 hcomment)
          have hstarts' : startsComment (d :: (front ++ c' :: rest')) = false := by
            rw [startsComment_cons] at hstarts ⊢
            cases front with
            | nil =>
                have hd : d ≠ '#' := fun hd => hstarts (by simp [hd])
                simp [hc', hd]
            | cons e front => simpa using hstarts
          rw [List.cons_append, splitComment, hstarts', htail]
          rfl

/-- Where code is replaced from one character on, and no comment starts in the new code, the comment
of the line stays its comment. -/
theorem splitComment_replaced {line front old new comment : List Char} {c c' : Char}
    (hline : splitComment line = (front ++ c :: old, comment))
    (hnew : ∀ d ∈ c' :: new, d ≠ '#' ∧ d ≠ '/') :
    splitComment (front ++ c' :: (new ++ comment)) = (front ++ c' :: new, comment) := by
  have hjoin := splitComment_append line
  have hlast := splitComment_comment line
  rw [hline] at hjoin hlast
  rw [← hjoin, List.append_assoc, List.cons_append] at hline
  rw [splitComment_append_cons hline (hnew c' List.mem_cons_self).2, ← List.cons_append,
    splitComment_append_of_ne hnew, hlast, List.append_nil]

/-! ## Labels -/

theorem isBlank_eq_false_of_isLabelChar {c : Char} (h : isLabelChar c = true) :
    isBlank c = false := by
  simp only [isLabelChar, Bool.and_eq_true, Bool.not_eq_true'] at h
  exact h.1.1.1.1

theorem isLabelChar_eq_false_of_isBlank {c : Char} (h : isBlank c = true) :
    isLabelChar c = false := by
  simp [isLabelChar, h]

/-- A label ends where its characters end, and is one if a colon follows after blanks. -/
theorem takeLabel?_append {lead label gap : List Char} {c : Char} (hlead : IsPadding lead)
    (hlabel : ∀ d ∈ label, isLabelChar d = true) (hne : label ≠ []) (hgap : IsPadding gap)
    (hc : isBlank c = false) (hend : gap ≠ [] ∨ isLabelChar c = false) (rest : List Char) :
    takeLabel? (lead ++ (label ++ (gap ++ c :: rest))) =
      if c = ':' then some (label, rest) else none := by
  obtain ⟨a, as, rfl⟩ := List.exists_cons_of_ne_nil hne
  have hstart : trimStart (lead ++ (a :: as ++ (gap ++ c :: rest))) =
      a :: as ++ (gap ++ c :: rest) := by
    rw [hlead.trimStart_append]
    exact Text.trimStart_cons (isBlank_eq_false_of_isLabelChar (hlabel a List.mem_cons_self))
  have hstop : ∃ d ds, gap ++ c :: rest = d :: ds ∧ isLabelChar d = false := by
    cases gap with
    | nil => exact ⟨c, rest, rfl, hend.resolve_left fun h => h rfl⟩
    | cons d gap =>
        exact ⟨d, _, rfl, isLabelChar_eq_false_of_isBlank (hgap d List.mem_cons_self)⟩
  obtain ⟨d, ds, heq, hd⟩ := hstop
  have htake : (a :: as ++ (gap ++ c :: rest)).takeWhile isLabelChar = a :: as := by
    rw [List.takeWhile_append_of_pos hlabel, heq, List.takeWhile_cons_of_neg (by simp [hd]),
      List.append_nil]
  have hdrop : (a :: as ++ (gap ++ c :: rest)).dropWhile isLabelChar = gap ++ c :: rest := by
    rw [List.dropWhile_append_of_pos hlabel, heq, List.dropWhile_cons_of_neg (by simp [hd])]
  simp only [takeLabel?, hstart, htake, hdrop, hgap.trimStart_append, Text.trimStart_cons hc]
  split
  · next rest' hcolon =>
      obtain ⟨rfl, rfl⟩ := List.cons.inj hcolon
      rfl
  · next hcolon =>
      rw [if_neg]
      rintro rfl
      exact hcolon rest rfl

/-- A label is not empty. -/
theorem takeLabel?_eq_none {lead : List Char} {c : Char} (hlead : IsPadding lead)
    (hc : isBlank c = false) (hstop : isLabelChar c = false) (rest : List Char) :
    takeLabel? (lead ++ c :: rest) = none := by
  have htake : (c :: rest).takeWhile isLabelChar = [] :=
    List.takeWhile_cons_of_neg (by simp [hstop])
  simp only [takeLabel?, hlead.trimStart_append, Text.trimStart_cons hc, htake]
  split <;> rfl

/-- A label has a colon behind it. -/
theorem takeLabel?_eq_none_of_not_mem {cs : List Char} (h : ':' ∉ cs) : takeLabel? cs = none := by
  simp only [takeLabel?]
  split
  · next rest heq =>
      have hmem : ':' ∈ trimStart ((trimStart cs).dropWhile isLabelChar) := by
        rw [heq]
        exact List.mem_cons_self
      have hsub := ((List.dropWhile_sublist isBlank).trans
        (List.dropWhile_sublist isLabelChar)).trans (List.dropWhile_sublist isBlank (l := cs))
      exact absurd (hsub.subset hmem) h
  · rfl

/-- What is taken for a label stands at the start of the text, and is taken for one whatever follows
its colon. -/
theorem exists_of_takeLabel? {cs label rest : List Char} (h : takeLabel? cs = some (label, rest)) :
    ∃ used, cs = used ++ rest ∧ ∀ rest', takeLabel? (used ++ rest') = some (label, rest') := by
  have hlead := List.takeWhile_append_dropWhile (p := isBlank) (l := cs)
  simp only [takeLabel?] at h
  split at h
  · next back hback =>
      split at h
      · cases h
      · next hne =>
          obtain ⟨rfl, rfl⟩ := Prod.mk.inj (Option.some.inj h)
          have hlabel := List.takeWhile_append_dropWhile (p := isLabelChar) (l := trimStart cs)
          have hgap := List.takeWhile_append_dropWhile (p := isBlank)
            (l := (trimStart cs).dropWhile isLabelChar)
          change _ ++ trimStart cs = cs at hlead
          change _ ++ trimStart ((trimStart cs).dropWhile isLabelChar) = _ at hgap
          rw [hback] at hgap
          generalize hgapdef :
            ((trimStart cs).dropWhile isLabelChar).takeWhile isBlank = gap at hgap
          have hpad : IsPadding gap := by
            rw [← hgapdef]
            exact fun c => List.mem_takeWhile_imp
          refine ⟨cs.takeWhile isBlank ++ ((trimStart cs).takeWhile isLabelChar ++ (gap ++ [':'])),
            ?_, fun rest' => ?_⟩
          · calc cs
              _ = cs.takeWhile isBlank ++ ((trimStart cs).takeWhile isLabelChar ++
                    (gap ++ ':' :: back)) := by rw [hgap, hlabel, hlead]
              _ = _ := by simp
          · have hblank : IsPadding (cs.takeWhile isBlank) := fun c => List.mem_takeWhile_imp
            have htake := takeLabel?_append (c := ':') hblank (fun c => List.mem_takeWhile_imp)
              (by simpa using hne) hpad rfl (Or.inr rfl) rest'
            rw [if_pos rfl] at htake
            simpa only [List.append_assoc, List.singleton_append] using htake
  · cases h

/-- The labels of a text stand at its start, and are its labels whatever follows them without being
a label itself. -/
theorem exists_of_takeLabels (cs : List Char) :
    takeLabel? (takeLabels cs).2 = none ∧ ∃ used, cs = used ++ (takeLabels cs).2 ∧
      ∀ rest, takeLabel? rest = none → takeLabels (used ++ rest) = ((takeLabels cs).1, rest) := by
  induction cs using takeLabels.induct with
  | case1 cs hnone =>
      rw [takeLabels_of_none hnone]
      exact ⟨hnone, [], rfl, fun rest hrest => takeLabels_of_none hrest⟩
  | case2 cs label rest hsome _ ih =>
      obtain ⟨hend, used, hused, hlabels⟩ := ih
      obtain ⟨start, hstart, hlabel⟩ := exists_of_takeLabel? hsome
      rw [takeLabels_of_some hsome]
      refine ⟨hend, start ++ used, ?_, fun rest' hrest' => ?_⟩
      · rw [List.append_assoc, ← hused, hstart]
      · rw [List.append_assoc, takeLabels_of_some (hlabel _), hlabels rest' hrest']

/-- Whether an operation is taken for a label does not depend on what is behind the first character
after it. -/
theorem takeLabel?_operation {lead operation gap : List Char} {c : Char} (hlead : IsPadding lead)
    (hoperation : ∀ d ∈ operation, isBlank d = false) (hne : operation ≠ []) (hgap : IsPadding gap)
    (hgapne : gap ≠ []) (hc : isBlank c = false) {rest : List Char}
    (h : takeLabel? (lead ++ (operation ++ (gap ++ c :: rest))) = none) (rest' : List Char) :
    takeLabel? (lead ++ (operation ++ (gap ++ c :: rest'))) = none := by
  have hsplit := List.takeWhile_append_dropWhile (p := isLabelChar) (l := operation)
  have hlabel : ∀ d ∈ operation.takeWhile isLabelChar, isLabelChar d = true := fun d =>
    List.mem_takeWhile_imp
  have hhead := List.head?_dropWhile_not isLabelChar operation
  generalize operation.takeWhile isLabelChar = label at hsplit hlabel
  generalize operation.dropWhile isLabelChar = back at hsplit hhead
  subst hsplit
  cases back with
  | nil =>
      rw [List.append_nil] at hne h ⊢
      rw [takeLabel?_append hlead hlabel hne hgap hc (Or.inl hgapne)] at h ⊢
      split at h
      · cases h
      · next hcolon => rw [if_neg hcolon]
  | cons d back =>
      have hd : isBlank d = false := hoperation d (by simp)
      have hstop : isLabelChar d = false := hhead
      rw [List.append_assoc, List.cons_append] at h ⊢
      by_cases hnil : label = []
      · subst hnil
        exact takeLabel?_eq_none hlead hd hstop _
      · have hnone := takeLabel?_append hlead hlabel hnil .nil hd (Or.inr hstop)
        simp only [List.nil_append] at hnone
        rw [hnone] at h ⊢
        split at h
        · cases h
        · next hcolon => rw [if_neg hcolon]

/-! ## Operations and operands -/

/-- The text of the operands of a line behind its operation, with the blanks around both.  What
stands before the operation is read as the labels of the line, whatever the operation is. -/
structure Line.Cut (l : Line) (code used lead gap trail : List Char) : Prop where
  eq : code = used ++ (lead ++ (l.operation ++ (gap ++ (l.operandText ++ trail))))
  labels : ∀ rest, takeLabel? rest = none → takeLabels (used ++ rest) = (l.labels, rest)
  unlabelled : takeLabel? (lead ++ (l.operation ++ (gap ++ (l.operandText ++ trail)))) = none
  isPadding_lead : IsPadding lead
  isPadding_gap : IsPadding gap
  isPadding_trail : IsPadding trail
  gap_ne_nil : gap ≠ []
  operation_ne_nil : l.operation ≠ []
  isBlank_operation : ∀ c ∈ l.operation, isBlank c = false

/-- A line has its labels, its operation and the text of its operands one behind the other, with
blanks between them.  Its labels are read off what stands in front of the others. -/
theorem Line.exists_eq_code (line : List Char) : ∃ used lead gap trail,
    (splitComment line).1 = used ++ (lead ++ ((Line.parse line).operation ++
      (gap ++ ((Line.parse line).operandText ++ trail)))) ∧
    (∀ rest, takeLabel? rest = none →
      takeLabels (used ++ rest) = ((Line.parse line).labels, rest)) ∧
    takeLabel? (lead ++ ((Line.parse line).operation ++
      (gap ++ ((Line.parse line).operandText ++ trail)))) = none ∧
    IsPadding lead ∧ IsPadding gap ∧ IsPadding trail ∧
    ((Line.parse line).operandText ≠ [] → gap ≠ [] ∧ (Line.parse line).operation ≠ []) := by
  obtain ⟨hend, used, hused, hlabels⟩ := exists_of_takeLabels (splitComment line).1
  have hoperation : (Line.parse line).operation =
    (trim (takeLabels (splitComment line).1).2).takeWhile fun c => !isBlank c := rfl
  have htext : (Line.parse line).operandText =
    trimStart ((trim (takeLabels (splitComment line).1).2).dropWhile fun c => !isBlank c) := rfl
  generalize (takeLabels (splitComment line).1).2 = rest at *
  obtain ⟨lead, trail, hlead, htrail, hshape⟩ := exists_eq_trim rest
  have hstatement := List.takeWhile_append_dropWhile (p := fun c => !isBlank c) (l := trim rest)
  have hstop := List.head?_dropWhile_not (fun c => !isBlank c) (trim rest)
  rw [← hoperation] at hstatement
  generalize (trim rest).dropWhile (fun c => !isBlank c) = back at hstatement hstop htext
  obtain ⟨gap, hgap, hoperands⟩ := exists_eq_trimStart back
  rw [← htext] at hoperands
  have hrest : rest = lead ++ ((Line.parse line).operation ++
      (gap ++ ((Line.parse line).operandText ++ trail))) := by
    calc rest
      _ = lead ++ (trim rest ++ trail) := hshape
      _ = lead ++ ((Line.parse line).operation ++ back ++ trail) := by rw [hstatement]
      _ = _ := by rw [hoperands]; simp
  refine ⟨used, lead, gap, trail, ?_, hlabels, ?_, hlead, hgap, htrail, fun hne => ?_⟩
  · rw [← hrest, ← hused]
  · rw [← hrest]
    exact hend
  · have hgapne : gap ≠ [] := by
      rintro rfl
      obtain ⟨c, cs, hcs⟩ := List.exists_cons_of_ne_nil hne
      have hc := isBlank_eq_false_of_trimStart (htext.symm.trans hcs)
      rw [hoperands, List.nil_append, hcs] at hstop
      have hblank : (!isBlank c) = false := hstop
      rw [hc] at hblank
      cases hblank
    refine ⟨hgapne, fun hnil => ?_⟩
    obtain ⟨c, cs, rfl⟩ := List.exists_cons_of_ne_nil hgapne
    rw [hnil, List.nil_append, hoperands] at hstatement
    have hc := isBlank_eq_false_of_trim hstatement.symm
    rw [hgap c List.mem_cons_self] at hc
    cases hc

theorem Line.isBlank_operation (line : List Char) :
    ∀ c ∈ (Line.parse line).operation, isBlank c = false := by
  intro c hc
  have hkept : (!isBlank c) = true := List.mem_takeWhile_imp (p := fun c => !isBlank c) hc
  simpa using hkept

theorem Line.solidEnds_operandText {line : List Char} (h : (Line.parse line).operandText ≠ []) :
    SolidEnds (Line.parse line).operandText := by
  have htext : (Line.parse line).operandText =
    trimStart ((trim (takeLabels (splitComment line).1).2).dropWhile fun c => !isBlank c) := rfl
  obtain ⟨front, hfront⟩ : (Line.parse line).operandText <:+
      trim (takeLabels (splitComment line).1).2 :=
    (List.dropWhile_suffix isBlank).trans (List.dropWhile_suffix _)
  have hends : SolidEnds (trim (takeLabels (splitComment line).1).2) :=
    solidEnds_trim fun hnil => h (List.append_eq_nil_iff.mp (hfront.trans hnil)).2
  refine ⟨h, fun c hc => ?_, fun c hc => hends.last c ?_⟩
  · obtain ⟨cs, hcs⟩ := List.head?_eq_some_iff.mp hc
    exact isBlank_eq_false_of_trimStart (htext.symm.trans hcs)
  · rw [← hfront, List.getLast?_append_of_ne_nil _ h]
    exact hc

/-- A line with operands is cut into its parts. -/
theorem Line.exists_cut {line : List Char} (h : (Line.parse line).operandText ≠ []) :
    ∃ used lead gap trail,
      (Line.parse line).Cut (splitComment line).1 used lead gap trail := by
  obtain ⟨used, lead, gap, trail, heq, hlabels, hend, hlead, hgap, htrail, happart⟩ :=
    Line.exists_eq_code line
  obtain ⟨hgapne, hne⟩ := happart h
  exact ⟨used, lead, gap, trail, heq, hlabels, hend, hlead, hgap, htrail, hgapne, hne,
    Line.isBlank_operation line⟩

/-- What stands in front of the operation of a line are its labels, with blanks behind them. -/
theorem Line.exists_front {line front gap back comment : List Char}
    (hline : splitComment line = (front ++ ((Line.parse line).operation ++
      (gap ++ ((Line.parse line).operandText ++ back))), comment))
    (hop : (Line.parse line).operation ≠ []) (hgap : IsPadding gap) (hback : IsPadding back) :
    ∃ used lead, front = used ++ lead ∧ IsPadding lead ∧
      (∀ rest, takeLabel? rest = none →
        takeLabels (used ++ rest) = ((Line.parse line).labels, rest)) ∧
      ((Line.parse line).operandText ≠ [] → gap ≠ []) := by
  obtain ⟨used, lead, gap', trail, heq, hlabels, -, hlead, hgap', htrail, happart⟩ :=
    Line.exists_eq_code line
  have hsolid := Line.isBlank_operation line
  have hends : SolidEnds (Line.parse line).operation :=
    ⟨hop, fun c hc => hsolid c (List.mem_of_mem_head? hc),
      fun c hc => hsolid c (List.mem_of_mem_getLast? hc)⟩
  rw [hline, ← List.append_assoc used] at heq
  by_cases hnil : (Line.parse line).operandText = []
  · simp only [hnil, List.nil_append] at heq ⊢
    have hfront := hends.append_inj (List.forall_mem_append.mpr ⟨hgap, hback⟩)
      (List.forall_mem_append.mpr ⟨hgap', htrail⟩) heq
    exact ⟨used, lead, hfront.1, hlead, hlabels, fun hne => absurd rfl hne⟩
  · have hcode : (front ++ ((Line.parse line).operation ++ gap)) ++
        ((Line.parse line).operandText ++ back) =
        (used ++ lead ++ ((Line.parse line).operation ++ gap')) ++
          ((Line.parse line).operandText ++ trail) := by
      simpa only [List.append_assoc] using heq
    obtain ⟨hboth, -⟩ := (Line.solidEnds_operandText hnil).append_inj hback htrail hcode
    obtain ⟨hfront, rfl⟩ := hends.append_inj hgap hgap' hboth
    exact ⟨used, lead, hfront, hlead, hlabels, fun hne => (happart hne).1⟩

/-- The two parts of a statement are what stands on both sides of the first blanks in it. -/
theorem statement_parts {lead operation gap operands trail : List Char} (hlead : IsPadding lead)
    (hoperation : ∀ c ∈ operation, isBlank c = false) (hgap : IsPadding gap)
    (htrail : IsPadding trail) (hapart : operands ≠ [] → operation ≠ [] ∧ gap ≠ [])
    (hends : operands ≠ [] → SolidEnds operands) :
    let statement := trim (lead ++ (operation ++ (gap ++ (operands ++ trail))))
    statement.takeWhile (fun c => !isBlank c) = operation ∧
      trimStart (statement.dropWhile fun c => !isBlank c) = operands := by
  have hsolid : ∀ c ∈ operation, (!isBlank c) = true := fun c hc => by
    rw [hoperation c hc]
    rfl
  by_cases hnil : operands = []
  · -- The blanks on both sides of the missing operands are behind the operation.
    subst hnil
    have htrim : trim (lead ++ (operation ++ (gap ++ ([] ++ trail)))) = operation := by
      have hback : IsPadding (gap ++ trail) := List.forall_mem_append.mpr ⟨hgap, htrail⟩
      simpa only [List.nil_append, List.append_assoc] using trim_padded hlead hoperation hback
    simp only [htrim]
    exact ⟨List.takeWhile_eq_self_iff.mpr hsolid,
      congrArg trimStart (List.dropWhile_eq_nil_iff.mpr hsolid)⟩
  · obtain ⟨hne, hgapne⟩ := hapart hnil
    obtain ⟨a, as, ha⟩ := List.exists_cons_of_ne_nil hne
    obtain ⟨g, gs, hg⟩ := List.exists_cons_of_ne_nil hgapne
    have hends := hends hnil
    have htrim : trim (lead ++ (operation ++ (gap ++ (operands ++ trail)))) =
        operation ++ (gap ++ operands) := by
      have hshape : lead ++ (operation ++ (gap ++ (operands ++ trail))) =
          lead ++ (operation ++ (gap ++ operands)) ++ trail := by
        simp
      rw [hshape, trim_append_padding hlead htrail]
      apply Text.trim_eq_self
      · intro d hd
        rw [ha] at hd
        obtain rfl := Option.some.inj hd
        exact hoperation a (by rw [ha]; exact List.mem_cons_self)
      · intro d hd
        rw [List.getLast?_append_of_ne_nil _ (by simp [hnil]),
          List.getLast?_append_of_ne_nil _ hnil] at hd
        exact hends.last d hd
    have hstop : (!isBlank g) = false := by
      rw [hgap g (by rw [hg]; exact List.mem_cons_self)]
      rfl
    simp only [htrim]
    constructor
    · rw [List.takeWhile_append_of_pos hsolid, hg, List.cons_append,
        List.takeWhile_cons_of_neg (by simp [hstop]), List.append_nil]
    · obtain ⟨c, cs, rfl⟩ := List.exists_cons_of_ne_nil hnil
      rw [List.dropWhile_append_of_pos hsolid, hg, List.cons_append,
        List.dropWhile_cons_of_neg (by simp [hstop]), ← List.cons_append, ← hg,
        hgap.trimStart_append]
      exact Text.trimStart_cons (hends.first c rfl)

/-- A line is parsed into the parts of which it is made up. -/
theorem Line.Cut.parse {l : Line} {line code used lead gap trail : List Char}
    (h : l.Cut code used lead gap trail) (hcode : splitComment line = (code, l.comment))
    (hends : SolidEnds l.operandText) : Line.parse line = l := by
  have hlabels : takeLabels code = (l.labels, _) := h.eq ▸ h.labels _ h.unlabelled
  obtain ⟨hoperation, hoperands⟩ := statement_parts h.isPadding_lead h.isBlank_operation
    h.isPadding_gap h.isPadding_trail (fun _ => ⟨h.operation_ne_nil, h.gap_ne_nil⟩) fun _ => hends
  simp only [Line.parse, hcode, hlabels, hoperation, hoperands]

/-- Where a text takes the place of the operands, and starts like them, all other parts of a line
stay as they are. -/
theorem parse_replaced {line front text back comment : List Char}
    (hline : splitComment line = (front ++ (Line.parse line).operandText ++ back, comment))
    (hback : IsPadding back) (hends : SolidEnds (Line.parse line).operandText)
    (hends' : SolidEnds text) (hfirst : text.head? = (Line.parse line).operandText.head?)
    (hcomment : ∀ c ∈ text, c ≠ '#' ∧ c ≠ '/') :
    Line.parse (front ++ text ++ back ++ comment) =
      { Line.parse line with operandText := text } := by
  obtain ⟨used, lead, gap, trail, hcut⟩ := Line.exists_cut hends.ne_nil
  obtain ⟨c, cs, hc⟩ := List.exists_cons_of_ne_nil hends.ne_nil
  obtain ⟨c', cs', rfl⟩ := List.exists_cons_of_ne_nil hends'.ne_nil
  obtain rfl : c' = c := by
    rw [hc] at hfirst
    exact Option.some.inj hfirst
  have hcode : (splitComment line).1 = front ++ (Line.parse line).operandText ++ back :=
    congrArg Prod.fst hline
  have hparsed : (Line.parse line).comment = comment := congrArg Prod.snd hline
  obtain ⟨rfl, rfl⟩ : front = used ++ (lead ++ ((Line.parse line).operation ++ gap)) ∧
      back = trail := by
    apply hends.append_inj hback hcut.isPadding_trail
    rw [← List.append_assoc front, ← hcode, hcut.eq]
    simp
  have hsplit : splitComment (used ++ (lead ++ ((Line.parse line).operation ++ gap)) ++ c' :: cs' ++
      back ++ comment) =
      (used ++ (lead ++ ((Line.parse line).operation ++ gap)) ++ c' :: cs' ++ back, comment) := by
    have hnew : ∀ d ∈ c' :: (cs' ++ back), d ≠ '#' ∧ d ≠ '/' := by
      rw [← List.cons_append]
      exact List.forall_mem_append.mpr ⟨hcomment, hback.ne_comment⟩
    rw [hc, List.append_assoc, List.cons_append] at hline
    simpa only [List.append_assoc, List.cons_append] using splitComment_replaced hline hnew
  have hcut' : Line.Cut { Line.parse line with operandText := c' :: cs' }
      (used ++ (lead ++ ((Line.parse line).operation ++ gap)) ++ c' :: cs' ++ back)
      used lead gap back :=
    { hcut with
      eq := by simp
      unlabelled := by
        have hnone := hcut.unlabelled
        rw [hc, List.cons_append] at hnone
        exact takeLabel?_operation hcut.isPadding_lead hcut.isBlank_operation
          hcut.operation_ne_nil hcut.isPadding_gap hcut.gap_ne_nil
          (hends'.first c' rfl) hnone _ }
  exact hcut'.parse (hparsed ▸ hsplit) hends'

end Rv32.Assembly
