import Mathlib
import Rv32.Assembly.Statement
import Rv32.Proofs.Assembly.Scanning

/-!
# Lines that say nothing

A line of blanks, with or without a comment, carries no label and no operation, and a comment behind
a line leaves what the line says.  A source in which such lines were put between the others and
comments behind them is compared with the source without them line by line, with the numbers that
the lines have in both.
-/

namespace Rv32

namespace Text

/-! ## Lines and line ends -/

theorem newline_not_mem_of_mem_lines {cs line : List Char} (h : line ∈ lines cs) :
    '\n' ∉ line := by
  induction cs generalizing line with
  | nil =>
      rw [List.mem_singleton.mp h]
      exact List.not_mem_nil
  | cons c cs ih =>
      obtain ⟨l, ls, hls⟩ := List.exists_cons_of_ne_nil (lines_ne_nil cs)
      rw [hls] at ih
      by_cases hc : c = '\n'
      · rw [hc, lines_newline, hls, List.mem_cons] at h
        rcases h with rfl | h
        · exact List.not_mem_nil
        · exact ih h
      · rw [lines_cons_of_ne hc hls, List.mem_cons] at h
        rcases h with rfl | h
        · rw [List.mem_cons, not_or]
          exact ⟨Ne.symm hc, ih List.mem_cons_self⟩
        · exact ih (List.mem_cons_of_mem l h)

/-- Carriage returns may be dropped before or after a text is cut into lines. -/
theorem lines_dropReturns (cs : List Char) :
    lines (dropReturns cs) = (lines cs).map dropReturns := by
  induction cs with
  | nil => rfl
  | cons c cs ih =>
      obtain ⟨l, ls, hls⟩ := List.exists_cons_of_ne_nil (lines_ne_nil cs)
      rw [hls, List.map_cons] at ih
      by_cases hc : c = '\n'
      · subst hc
        have hdrop : dropReturns ('\n' :: cs) = '\n' :: dropReturns cs := rfl
        rw [hdrop, lines_newline, ih, lines_newline, hls]
        rfl
      · rw [lines_cons_of_ne hc hls, List.map_cons]
        by_cases hr : c = '\r'
        · subst hr
          exact ih
        · have hdrop (ds : List Char) : dropReturns (c :: ds) = c :: dropReturns ds := by
            simp [dropReturns, hr]
          rw [hdrop, hdrop]
          exact lines_cons_of_ne hc ih

end Text

namespace Assembly

/-- The lines of a text that is put together from lines. -/
theorem sourceLines_lineAmong {front back : List (List Char)} {line : List Char}
    (hother : ∀ l ∈ front ++ back, '\n' ∉ l) (hline : '\n' ∉ line) :
    sourceLines (['\n'].intercalate (front ++ line :: back)) =
      front.map Text.dropReturns ++ Text.dropReturns line :: back.map Text.dropReturns := by
  have hfeeds : ∀ l ∈ front ++ line :: back, '\n' ∉ l := by
    intro l hl
    rcases List.mem_cons.mp (List.perm_middle.mem_iff.mp hl) with rfl | hl
    · exact hline
    · exact hother l hl
  rw [sourceLines, Text.lines_dropReturns, Text.lines_intercalate (by simp) hfeeds,
    List.map_append, List.map_cons]

/-! ## Comments -/

/-- A line that carries neither a label nor an operation. -/
structure Idle (line : List Char) : Prop where
  labels : (Line.parse line).labels = []
  operation : (Line.parse line).operation = []

/-- The second line differs from the first one in its comment only. -/
def SameCode (line line' : List Char) : Prop := (splitComment line').1 = (splitComment line).1

theorem SameCode.parse {line line' : List Char} (h : SameCode line line') :
    Line.parse line' = { Line.parse line with comment := (splitComment line').2 } := by
  rw [SameCode] at h
  simp only [Line.parse, h]

/-- Both lines have the same labels, operation and operands. -/
structure SameParts (line line' : List Char) : Prop where
  labels : (Line.parse line').labels = (Line.parse line).labels
  operation : (Line.parse line').operation = (Line.parse line).operation
  operands : (Line.parse line').operands = (Line.parse line).operands

theorem SameCode.sameParts {line line' : List Char} (h : SameCode line line') :
    SameParts line line' := by
  constructor
  · rw [h.parse]
  · rw [h.parse]
  · rw [h.parse]
    rfl

/-- A number sign behind a character does not make it the start of a comment. -/
theorem startsComment_append (c : Char) (cs text : List Char) :
    startsComment (c :: (cs ++ '#' :: text)) = startsComment (c :: cs) := by
  cases cs <;> simp [startsComment_cons]

/-- A comment is one with or without the carriage returns in it. -/
theorem startsComment_dropReturns {comment : List Char} (h : startsComment comment = true) :
    startsComment (Text.dropReturns comment) = true := by
  unfold startsComment at h
  split at h
  · rfl
  · rfl
  · cases h

theorem sameCode_append (line text : List Char) : SameCode line (line ++ '#' :: text) := by
  induction line with
  | nil => rfl
  | cons c line ih =>
      simp only [SameCode, List.cons_append, splitComment, startsComment_append]
      split
      · rfl
      · rw [ih]

theorem splitComment_blanks {blanks comment : List Char}
    (hblanks : ∀ c ∈ blanks, Text.isBlank c = true)
    (hcomment : comment = [] ∨ startsComment comment = true) :
    splitComment (blanks ++ comment) = (blanks, comment) := by
  rw [splitComment_append_of_ne (IsPadding.ne_comment hblanks),
    splitComment_of_startsComment hcomment, List.append_nil]

/-- Blanks hold no label. -/
theorem takeLabels_blanks {blanks : List Char} (h : ∀ c ∈ blanks, Text.isBlank c = true) :
    takeLabels blanks = ([], blanks) := by
  have hstart : Text.trimStart blanks = [] := List.dropWhile_eq_nil_iff.mpr h
  apply takeLabels_of_none
  simp only [takeLabel?, hstart]
  rfl

theorem idle_of_blanks {blanks comment : List Char}
    (hblanks : ∀ c ∈ blanks, Text.isBlank c = true)
    (hcomment : comment = [] ∨ startsComment comment = true) : Idle (blanks ++ comment) := by
  have hsplit := splitComment_blanks hblanks hcomment
  have hlabels := takeLabels_blanks hblanks
  have htrim : Text.trim blanks = [] := by
    rw [Text.trim, Text.trimStart, List.dropWhile_eq_nil_iff.mpr hblanks]
    rfl
  constructor
  · simp only [Line.parse, hsplit, hlabels]
  · simp only [Line.parse, hsplit, hlabels, htrim]
    rfl

theorem idle_dropReturns {blanks comment : List Char}
    (hblanks : ∀ c ∈ blanks, Text.isBlank c = true)
    (hcomment : comment = [] ∨ startsComment comment = true) :
    Idle (Text.dropReturns (blanks ++ comment)) := by
  have hdrop : Text.dropReturns (blanks ++ comment) =
      Text.dropReturns blanks ++ Text.dropReturns comment := List.filter_append _ _
  rw [hdrop]
  apply idle_of_blanks
  · intro c hc
    exact hblanks c (List.mem_of_mem_filter hc)
  · rcases hcomment with rfl | hcomment
    · exact Or.inl rfl
    · exact Or.inr (startsComment_dropReturns hcomment)

/-! ## Annotated lines -/

/-- The lines `lines'`, which are numbered from `n'` on, are the lines `lines`, numbered from `n`
on, with other comments and with idle lines between them.  Line `i` has become line `σ i`. -/
inductive Annotated (σ : Nat → Nat) :
    Nat → Nat → List (List Char) → List (List Char) → Prop
  | nil (n n' : Nat) : Annotated σ n n' [] []
  | kept {n n' : Nat} {line line' : List Char} {lines lines' : List (List Char)} (hn : σ n = n')
      (hcode : SameCode line line') (rest : Annotated σ (n + 1) (n' + 1) lines lines') :
      Annotated σ n n' (line :: lines) (line' :: lines')
  | added {n n' : Nat} {line' : List Char} {lines lines' : List (List Char)} (hidle : Idle line')
      (rest : Annotated σ n (n' + 1) lines lines') : Annotated σ n n' lines (line' :: lines')

namespace Annotated

variable {σ : Nat → Nat} {n n' : Nat} {lines lines' : List (List Char)}

/-- Lines are kept as far as their numbers follow. -/
theorem refl (hσ : ∀ i < lines.length, σ (n + i) = n' + i) : Annotated σ n n' lines lines := by
  induction lines generalizing n n' with
  | nil => exact nil n n'
  | cons line lines ih =>
      refine kept (hσ 0 (Nat.succ_pos _)) rfl (ih ?_)
      intro i hi
      have hnext := hσ (i + 1) (Nat.succ_lt_succ hi)
      rw [Nat.add_right_comm, Nat.add_assoc n, hnext]
      omega

theorem append (h : Annotated σ n n' lines lines') {more more' : List (List Char)}
    (hmore : Annotated σ (n + lines.length) (n' + lines'.length) more more') :
    Annotated σ n n' (lines ++ more) (lines' ++ more') := by
  induction h with
  | nil n n' => exact hmore
  | kept hn hcode rest ih =>
      refine kept hn hcode (ih ?_)
      simpa only [List.length_cons, Nat.add_assoc, Nat.add_comm 1] using hmore
  | added hidle rest ih =>
      refine added hidle (ih ?_)
      simpa only [List.length_cons, Nat.add_assoc, Nat.add_comm 1] using hmore

end Annotated

/-! ## Annotated texts -/

/-- The number of a line once a line was put in behind the first `k` lines. -/
def shiftedBehind (k n : Nat) : Nat := if n ≤ k then n else n + 1

/-- The text `source'` is `source` with a line of blanks put in, which may end in a comment, or with
a comment put behind one of its lines.  Line `n` has become line `σ n`. -/
inductive Annotates (source : List Char) : (Nat → Nat) → List Char → Prop
  | line {front back : List (List Char)} {blanks comment : List Char}
      (hlines : Text.lines source = front ++ back)
      (hblanks : ∀ c ∈ blanks, Text.isBlank c = true)
      (hcomment : comment = [] ∨ startsComment comment = true)
      (hfeed : '\n' ∉ blanks ++ comment) :
      Annotates source (shiftedBehind front.length)
        (['\n'].intercalate (front ++ (blanks ++ comment) :: back))
  | behind {front back : List (List Char)} {line text : List Char}
      (hlines : Text.lines source = front ++ line :: back) (hfeed : '\n' ∉ text) :
      Annotates source id (['\n'].intercalate (front ++ (line ++ '#' :: text) :: back))

theorem Annotates.annotated {source source' : List Char} {σ : Nat → Nat}
    (h : Annotates source σ source') :
    Annotated σ 1 1 (sourceLines source) (sourceLines source') := by
  have hfeeds : ∀ l ∈ Text.lines source, '\n' ∉ l := fun l => Text.newline_not_mem_of_mem_lines
  have hlines : sourceLines source = (Text.lines source).map Text.dropReturns :=
    Text.lines_dropReturns source
  cases h with
  | line hsource hblanks hcomment hfeed =>
      rw [hsource] at hfeeds hlines
      rw [hlines, sourceLines_lineAmong hfeeds hfeed, List.map_append]
      apply Annotated.append
      · apply Annotated.refl
        intro i hi
        rw [List.length_map] at hi
        exact if_pos (by omega)
      · apply Annotated.added (idle_dropReturns hblanks hcomment)
        apply Annotated.refl
        intro i _
        rw [List.length_map]
        exact (if_neg (by omega)).trans (Nat.add_right_comm _ _ _)
  | @behind front back line text hsource hfeed =>
      rw [hsource] at hfeeds hlines
      have hother : ∀ l ∈ front ++ back, '\n' ∉ l := fun l hl =>
        hfeeds l (List.perm_middle.mem_iff.mpr (List.mem_cons_of_mem line hl))
      have hline : '\n' ∉ line ++ '#' :: text := by
        have hkept := hfeeds line (List.mem_append_right front List.mem_cons_self)
        simp [hkept, hfeed]
      have hdrop : Text.dropReturns (line ++ '#' :: text) =
          Text.dropReturns line ++ '#' :: Text.dropReturns text := by
        simp [Text.dropReturns]
      rw [hlines, sourceLines_lineAmong hother hline, List.map_append, List.map_cons, hdrop]
      apply Annotated.append
      · exact Annotated.refl fun i _ => rfl
      · exact Annotated.kept rfl (sameCode_append _ _) (Annotated.refl fun i _ => rfl)

end Assembly

end Rv32
