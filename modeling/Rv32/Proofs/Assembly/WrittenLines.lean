import Mathlib
import Rv32.Proofs.Assembly.LineParts

/-!
# Written lines

A line is written as labels with a colon behind each, then a statement, then a comment, with any
blanks between them.  Parsing gives back what was written.

Any text at all is cut in front of a comment mark, and labels are taken off its start until none is
left.
-/

namespace Rv32.Assembly

open Rv32.Text (isBlank trim trimStart)

/-! ## Comment marks -/

/-- No comment mark stands in the text. -/
structure Unmarked (cs : List Char) : Prop where
  number : '#' ∉ cs
  slashes : ¬ ['/', '/'] <:+: cs

/-- The text is empty or starts with a comment mark. -/
def IsComment (cs : List Char) : Prop := cs = [] ∨ ['#'] <+: cs ∨ ['/', '/'] <+: cs

theorem startsComment_iff {cs : List Char} :
    startsComment cs = true ↔ ['#'] <+: cs ∨ ['/', '/'] <+: cs := by
  cases cs with
  | nil => simp [startsComment]
  | cons c cs =>
      rw [startsComment_cons, List.cons_prefix_cons, List.cons_prefix_cons]
      cases cs <;> simp [@eq_comm _ '#', @eq_comm _ '/']

theorem startsComment_mono {cs ds : List Char} (h : startsComment cs = true)
    (hfront : cs <+: ds) : startsComment ds = true := by
  rw [startsComment_iff] at h ⊢
  exact h.imp (·.trans hfront) (·.trans hfront)

theorem unmarked_nil : Unmarked [] := ⟨by decide, by decide⟩

theorem unmarked_cons {c : Char} {cs : List Char} :
    Unmarked (c :: cs) ↔ startsComment (c :: cs) = false ∧ Unmarked cs := by
  rw [← Bool.not_eq_true, startsComment_iff]
  constructor
  · rintro ⟨hnumber, hslashes⟩
    rw [List.infix_cons_iff, not_or] at hslashes
    rw [List.mem_cons, not_or] at hnumber
    refine ⟨?_, hnumber.2, hslashes.2⟩
    rintro (h | h)
    · exact hnumber.1 (List.cons_prefix_cons.mp h).1
    · exact hslashes.1 h
  · rintro ⟨hstarts, hnumber, hslashes⟩
    rw [not_or] at hstarts
    constructor
    · rw [List.mem_cons, not_or]
      refine ⟨?_, hnumber⟩
      rintro rfl
      exact hstarts.1 (List.cons_prefix_cons.mpr ⟨rfl, List.nil_prefix⟩)
    · rw [List.infix_cons_iff, not_or]
      exact ⟨hstarts.2, hslashes⟩

/-- The text is cut into code without a comment mark and a comment. -/
structure CutsComment (line code comment : List Char) : Prop where
  eq : code ++ comment = line
  unmarked : Unmarked code
  isComment : IsComment comment

theorem cutsComment_splitComment (line : List Char) :
    CutsComment line (splitComment line).1 (splitComment line).2 := by
  refine ⟨splitComment_append line, ?_, ?_⟩
  · induction line with
    | nil => exact unmarked_nil
    | cons c line ih =>
        simp only [splitComment]
        split
        · exact unmarked_nil
        · next hstarts =>
            -- A mark at the start of the code would be one at the start of the text.
            have hcode : (splitComment line).1 <+: line := ⟨_, splitComment_append line⟩
            refine unmarked_cons.mpr ⟨?_, ih⟩
            rw [← Bool.not_eq_true]
            intro hmark
            exact hstarts (startsComment_mono hmark (List.cons_prefix_cons.mpr ⟨rfl, hcode⟩))
  · induction line with
    | nil => exact Or.inl rfl
    | cons c line ih =>
        simp only [splitComment]
        split
        · next hstarts => exact Or.inr (startsComment_iff.mp hstarts)
        · exact ih

/-! ## Text before a comment -/

/-- The text stands before the comment, whatever follows it. -/
def Uncommented (cs : List Char) : Prop :=
  ∀ rest, splitComment (cs ++ rest) = (cs ++ (splitComment rest).1, (splitComment rest).2)

theorem Uncommented.nil : Uncommented [] := fun _ => rfl

theorem Uncommented.append {cs ds : List Char} (hcs : Uncommented cs) (hds : Uncommented ds) :
    Uncommented (cs ++ ds) := by
  intro rest
  rw [List.append_assoc, hcs, hds, List.append_assoc]

theorem Uncommented.of_ne {cs : List Char} (h : ∀ c ∈ cs, c ≠ '#' ∧ c ≠ '/') : Uncommented cs :=
  splitComment_append_of_ne h

/-- A slash at the end of a text without a comment mark does not start a comment unless another one
follows. -/
theorem Unmarked.uncommented_append {cs ds : List Char} {d : Char} (h : Unmarked cs)
    (hds : ∀ c ∈ d :: ds, c ≠ '#' ∧ c ≠ '/') : Uncommented (cs ++ d :: ds) := by
  induction cs with
  | nil => exact .of_ne hds
  | cons c cs ih =>
      rw [unmarked_cons] at h
      intro rest
      have hstarts : startsComment (c :: (cs ++ d :: ds ++ rest)) = false := by
        have hd := (hds d List.mem_cons_self).2
        cases cs with
        | nil => simpa [startsComment_cons, hd] using h.1
        | cons e cs => simpa [startsComment_cons] using h.1
      rw [List.cons_append, List.cons_append, splitComment, hstarts, ih h.2 rest]
      rfl

theorem IsComment.splitComment_eq {cs : List Char} (h : IsComment cs) :
    splitComment cs = ([], cs) :=
  splitComment_of_startsComment (h.imp_right startsComment_iff.mpr)

/-! ## Labels -/

/-- A label as it is written, with the blanks before it and between it and its colon.  Blanks behind
the colon stand before what follows. -/
structure WrittenLabel where
  before : List Char
  name : List Char
  between : List Char
  isPadding_before : IsPadding before
  isPadding_between : IsPadding between
  ne_nil : name ≠ []
  isBlank_name : ∀ c ∈ name, isBlank c = false
  undelimited : ∀ c ∈ name, c ∉ [':', ',', '(', ')']
  unmarked : Unmarked name

namespace WrittenLabel

/-- The text of a written label. -/
def text (l : WrittenLabel) : List Char := l.before ++ (l.name ++ (l.between ++ [':']))

theorem isLabelChar_name (l : WrittenLabel) : ∀ c ∈ l.name, isLabelChar c = true := by
  intro c hc
  have hblank := l.isBlank_name c hc
  have hdelimiter := l.undelimited c hc
  simp only [List.mem_cons, List.not_mem_nil, or_false, not_or] at hdelimiter
  simp [isLabelChar, hblank, hdelimiter]

theorem uncommented_text (l : WrittenLabel) : Uncommented l.text := by
  have hback : ∀ c ∈ l.between ++ [':'], c ≠ '#' ∧ c ≠ '/' :=
    List.forall_mem_append.mpr ⟨l.isPadding_between.ne_comment, by simp⟩
  obtain ⟨d, ds, hd⟩ := List.exists_cons_of_ne_nil (l := l.between ++ [':']) (by simp)
  rw [text, hd]
  rw [hd] at hback
  exact .append (.of_ne l.isPadding_before.ne_comment) (l.unmarked.uncommented_append hback)

theorem takeLabel?_text (l : WrittenLabel) (rest : List Char) :
    takeLabel? (l.text ++ rest) = some (l.name, rest) := by
  have htake := takeLabel?_append (c := ':') l.isPadding_before l.isLabelChar_name l.ne_nil
    l.isPadding_between rfl (Or.inr rfl) rest
  rw [if_pos rfl] at htake
  simpa only [text, List.append_assoc, List.singleton_append] using htake

variable (labels : List WrittenLabel)

theorem uncommented_flatMap : Uncommented (labels.flatMap text) := by
  induction labels with
  | nil => exact .nil
  | cons l labels ih => exact l.uncommented_text.append ih

theorem takeLabels_flatMap {rest : List Char} (hrest : takeLabel? rest = none) :
    takeLabels (labels.flatMap text ++ rest) = (labels.map name, rest) := by
  induction labels with
  | nil => exact takeLabels_of_none hrest
  | cons l labels ih =>
      rw [List.flatMap_cons, List.append_assoc, takeLabels_of_some (l.takeLabel?_text _), ih]
      rfl

end WrittenLabel

/-- Labels are taken off the start of a text one by one until none follows. -/
inductive Peels : List Char → List (List Char) → List Char → Prop
  | done {cs : List Char} (h : takeLabel? cs = none) : Peels cs [] cs
  | label {cs name rest last : List Char} {names : List (List Char)}
      (h : takeLabel? cs = some (name, rest)) (hrest : Peels rest names last) :
      Peels cs (name :: names) last

theorem peels_takeLabels (cs : List Char) : Peels cs (takeLabels cs).1 (takeLabels cs).2 := by
  induction cs using takeLabels.induct with
  | case1 cs hnone =>
      rw [takeLabels_of_none hnone]
      exact .done hnone
  | case2 cs name rest hsome _ ih =>
      rw [takeLabels_of_some hsome]
      exact .label hsome ih

/-- Each label takes at least one character. -/
theorem Peels.length_le {cs last : List Char} {names : List (List Char)}
    (h : Peels cs names last) : names.length + last.length ≤ cs.length := by
  induction h with
  | done h => simp
  | label h _ ih =>
      have hlt := takeLabel?_length_lt h
      rw [List.length_cons]
      omega

/-! ## Statements -/

/-- An operation and its operands as they are written, with the blanks around them.  The operands
may be missing, or both. -/
structure WrittenStatement where
  before : List Char
  operation : List Char
  between : List Char
  operands : List Char
  after : List Char
  isPadding_before : IsPadding before
  isPadding_between : IsPadding between
  isPadding_after : IsPadding after
  isBlank_operation : ∀ c ∈ operation, isBlank c = false
  plain : ∀ c ∈ operation ++ operands, c ∉ [':', '#', '/']
  apart : operands ≠ [] → operation ≠ [] ∧ between ≠ []

namespace WrittenStatement

variable (s : WrittenStatement)

/-- The text of a written statement. -/
def text : List Char := s.before ++ (s.operation ++ (s.between ++ (s.operands ++ s.after)))

/-- The statement has no character but blanks and those of its two parts. -/
theorem not_mem_text {d : Char} (hblank : isBlank d = false) (hd : d ∈ [':', '#', '/']) :
    d ∉ s.text := by
  have hplain : d ∉ s.operation ++ s.operands := fun h => s.plain d h hd
  rw [List.mem_append, not_or] at hplain
  simp only [text, List.mem_append, not_or]
  exact ⟨fun h => s.isPadding_before.ne hblank d h rfl, hplain.1,
    fun h => s.isPadding_between.ne hblank d h rfl, hplain.2,
    fun h => s.isPadding_after.ne hblank d h rfl⟩

theorem uncommented_text : Uncommented s.text := by
  have hnumber : '#' ∉ s.text := s.not_mem_text rfl (by decide)
  have hslash : '/' ∉ s.text := s.not_mem_text rfl (by decide)
  exact .of_ne fun c hc => ⟨fun heq => hnumber (heq ▸ hc), fun heq => hslash (heq ▸ hc)⟩

theorem takeLabel?_text : takeLabel? s.text = none :=
  takeLabel?_eq_none_of_not_mem (s.not_mem_text rfl (by decide))

/-- The operation ends at the first blank, and what follows is the text of the operands. -/
theorem parts :
    (trim s.text).takeWhile (fun c => !isBlank c) = s.operation ∧
      trimStart ((trim s.text).dropWhile fun c => !isBlank c) = trim s.operands := by
  obtain ⟨l, r, hl, hr, hoperands⟩ := exists_eq_trim s.operands
  have htext : s.text =
      s.before ++ (s.operation ++ (s.between ++ l ++ (trim s.operands ++ (r ++ s.after)))) := by
    rw [text]
    nth_rewrite 1 [hoperands]
    simp only [List.append_assoc]
  have hapart (h : trim s.operands ≠ []) : s.operation ≠ [] ∧ s.between ++ l ≠ [] := by
    have hne : s.operands ≠ [] := fun hnil => h (by rw [hnil]; rfl)
    exact (s.apart hne).imp_right (List.append_ne_nil_of_left_ne_nil · l)
  rw [htext]
  exact statement_parts s.isPadding_before s.isBlank_operation
    (List.forall_mem_append.mpr ⟨s.isPadding_between, hl⟩)
    (List.forall_mem_append.mpr ⟨hr, s.isPadding_after⟩) hapart solidEnds_trim

end WrittenStatement

/-! ## Lines -/

/-- A line as it is written. -/
structure WrittenLine where
  labels : List WrittenLabel
  statement : WrittenStatement
  comment : List Char
  isComment : IsComment comment

namespace WrittenLine

/-- The text of a written line. -/
def text (l : WrittenLine) : List Char :=
  l.labels.flatMap WrittenLabel.text ++ (l.statement.text ++ l.comment)

/-- The parts that were written. -/
def parts (l : WrittenLine) : Line where
  labels := l.labels.map WrittenLabel.name
  operation := l.statement.operation
  operandText := trim l.statement.operands
  comment := l.comment

theorem parse_text (l : WrittenLine) : Line.parse l.text = l.parts := by
  have hcode : splitComment l.text =
      (l.labels.flatMap WrittenLabel.text ++ l.statement.text, l.comment) := by
    have huncommented :=
      (WrittenLabel.uncommented_flatMap l.labels).append l.statement.uncommented_text
    rw [text, ← List.append_assoc, huncommented, l.isComment.splitComment_eq, List.append_nil]
  have hlabels := WrittenLabel.takeLabels_flatMap l.labels l.statement.takeLabel?_text
  obtain ⟨hoperation, hoperands⟩ := l.statement.parts
  simp only [Line.parse, hcode, hlabels, hoperation, hoperands, parts]

end WrittenLine

/-- Parsing a written line gives back its labels, its operation, its operands without the blanks
around them, and its comment.  For any line the labels come to an end, and the comment is what is
left of the line behind code without a comment mark. -/
theorem parse_gives_what_was_written :
    (∀ l : WrittenLine, Line.parse l.text = l.parts) ∧
      ∀ line,
        (∃ rest, Peels (splitComment line).1 (Line.parse line).labels rest ∧
          (Line.parse line).labels.length + rest.length ≤ (splitComment line).1.length) ∧
        CutsComment line (splitComment line).1 (splitComment line).2 ∧
        (Line.parse line).comment = (splitComment line).2 := by
  refine ⟨WrittenLine.parse_text, fun line => ⟨?_, cutsComment_splitComment line, rfl⟩⟩
  have hpeels := peels_takeLabels (splitComment line).1
  exact ⟨_, hpeels, hpeels.length_le⟩

theorem parse_gives_what_was_written_labelled :
    Line.parse " loop : a/b:\u00a0lw  x1, 4(x2) // end: 2 ".toList =
      ⟨["loop".toList, "a/b".toList], "lw".toList, "x1, 4(x2)".toList, "// end: 2 ".toList⟩ :=
  parse_gives_what_was_written.1
    { labels :=
        [{ before := " ".toList
           name := "loop".toList
           between := " ".toList
           isPadding_before := by decide
           isPadding_between := by decide
           ne_nil := by decide
           isBlank_name := by simp [isBlank]
           undelimited := by simp
           unmarked := ⟨by decide, by decide⟩ },
         { before := " ".toList
           name := "a/b".toList
           between := []
           isPadding_before := by decide
           isPadding_between := by decide
           ne_nil := by decide
           isBlank_name := by simp [isBlank]
           undelimited := by simp
           unmarked := ⟨by decide, by decide⟩ }]
      statement :=
        { before := "\u00a0".toList
          operation := "lw".toList
          between := " ".toList
          operands := " x1, 4(x2)".toList
          after := " ".toList
          isPadding_before := by decide
          isPadding_between := by decide
          isPadding_after := by decide
          isBlank_operation := by simp [isBlank]
          plain := by simp
          apart := by decide }
      comment := "// end: 2 ".toList
      isComment := Or.inr (by decide) }

end Rv32.Assembly
