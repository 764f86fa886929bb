import Mathlib
import Rv32.Assembly.Line
import Rv32.Proofs.Text.Tokens

/-!
# Scanning lines

How the scanners of a line go on from one place to the next: past blanks, to a comment, to a label,
to a pair of parentheses or to a separator.
-/

namespace Rv32.Assembly

open Rv32.Text (isBlank trim trimEnd trimStart)

/-! ## Blanks around a text -/

/-- Any number of blanks. -/
def IsPadding (cs : List Char) : Prop := ∀ c ∈ cs, isBlank c = true

instance (cs : List Char) : Decidable (IsPadding cs) :=
  decidable_of_iff (cs.all isBlank = true) List.all_eq_true

/-- Neither end of the text is blank. -/
structure SolidEnds (cs : List Char) : Prop where
  ne_nil : cs ≠ []
  first : ∀ c ∈ cs.head?, isBlank c = false
  last : ∀ c ∈ cs.getLast?, isBlank c = false

theorem IsPadding.nil : IsPadding [] := fun _ hc => absurd hc List.not_mem_nil

theorem IsPadding.ne {cs : List Char} (h : IsPadding cs) {d : Char} (hd : isBlank d = false) :
    ∀ c ∈ cs, c ≠ d := by
  rintro c hc rfl
  rw [h c hc] at hd
  cases hd

theorem IsPadding.trimStart_append {b : List Char} (hb : IsPadding b) (cs : List Char) :
    trimStart (b ++ cs) = trimStart cs :=
  List.dropWhile_append_of_pos hb

theorem IsPadding.trimEnd_append {r : List Char} (hr : IsPadding r) (cs : List Char) :
    trimEnd (cs ++ r) = trimEnd cs := by
  have hreverse : ∀ c ∈ r.reverse, isBlank c = true := fun c hc => hr c (List.mem_reverse.mp hc)
  rw [trimEnd, List.reverse_append, List.dropWhile_append_of_pos hreverse, trimEnd]

/-- Blanks at the ends of a text are trimmed off. -/
theorem trim_append_padding {l r : List Char} (hl : IsPadding l) (hr : IsPadding r)
    (v : List Char) : trim (l ++ v ++ r) = trim v := by
  have hnil : trimStart r = [] := List.dropWhile_eq_nil_iff.mpr hr
  rw [trim, List.append_assoc, hl.trimStart_append, trim]
  cases hv : trimStart v with
  | nil =>
      have hblank : IsPadding v := List.dropWhile_eq_nil_iff.mp hv
      rw [hblank.trimStart_append, hnil]
  | cons c cs =>
      have hstart : trimStart (v ++ r) = c :: cs ++ r := by
        rw [trimStart] at hv ⊢
        rw [List.dropWhile_append, hv]
        rfl
      rw [hstart, hr.trimEnd_append]

theorem SolidEnds.trim {cs : List Char} (h : SolidEnds cs) : trim cs = cs :=
  Text.trim_eq_self h.first h.last

theorem SolidEnds.trimEnd_append {cs : List Char} (h : SolidEnds cs) (front : List Char) :
    trimEnd (front ++ cs) = front ++ cs := by
  have hlast := h.last (cs.getLast h.ne_nil) (List.getLast?_eq_some_getLast h.ne_nil)
  rw [← List.dropLast_concat_getLast h.ne_nil, ← List.append_assoc, Text.trimEnd_concat hlast]

/-- A text is found between what stands in front of it and the blanks behind it. -/
theorem SolidEnds.append_inj {cs x y r s : List Char} (h : SolidEnds cs) (hr : IsPadding r)
    (hs : IsPadding s) (heq : x ++ (cs ++ r) = y ++ (cs ++ s)) : x = y ∧ r = s := by
  have hfront := congrArg trimEnd heq
  rw [← List.append_assoc, ← List.append_assoc, hr.trimEnd_append, hs.trimEnd_append,
    h.trimEnd_append, h.trimEnd_append] at hfront
  obtain rfl := List.append_cancel_right hfront
  exact ⟨rfl, List.append_cancel_left (List.append_cancel_left heq)⟩

/-- A text without blanks is all that trimming leaves of it. -/
theorem trim_padded {l v r : List Char} (hl : IsPadding l)
    (hv : ∀ c ∈ v, isBlank c = false) (hr : IsPadding r) : trim (l ++ v ++ r) = v := by
  rw [trim_append_padding hl hr, Text.trim_of_solid hv]

theorem exists_eq_trimEnd (cs : List Char) : ∃ r, IsPadding r ∧ cs = Text.trimEnd cs ++ r := by
  have hsplit := List.takeWhile_append_dropWhile (p := isBlank) (l := cs.reverse)
  refine ⟨(cs.reverse.takeWhile isBlank).reverse,
    fun c hc => List.mem_takeWhile_imp (List.mem_reverse.mp hc), ?_⟩
  rw [Text.trimEnd, ← List.reverse_append, hsplit, List.reverse_reverse]

theorem exists_eq_trimStart (cs : List Char) : ∃ l, IsPadding l ∧ cs = l ++ trimStart cs :=
  ⟨cs.takeWhile isBlank, fun _ => List.mem_takeWhile_imp,
    List.takeWhile_append_dropWhile.symm⟩

theorem isBlank_eq_false_of_trimStart {cs ds : List Char} {c : Char}
    (h : trimStart cs = c :: ds) : isBlank c = false := by
  have hhead := List.head?_dropWhile_not isBlank cs
  rw [trimStart] at h
  rw [h] at hhead
  exact hhead

theorem isBlank_eq_false_of_trim {cs ds : List Char} {c : Char} (h : trim cs = c :: ds) :
    isBlank c = false := by
  obtain ⟨r, -, hr⟩ := exists_eq_trimEnd (trimStart cs)
  change trimStart cs = trim cs ++ r at hr
  rw [h] at hr
  exact isBlank_eq_false_of_trimStart hr

/-- What trimming takes off a text is blank. -/
theorem exists_eq_trim (cs : List Char) :
    ∃ l r, IsPadding l ∧ IsPadding r ∧ cs = l ++ (trim cs ++ r) := by
  obtain ⟨l, hl, hfront⟩ := exists_eq_trimStart cs
  obtain ⟨r, hr, hback⟩ := exists_eq_trimEnd (trimStart cs)
  refine ⟨l, r, hl, hr, ?_⟩
  change trimStart cs = trim cs ++ r at hback
  rw [← hback, ← hfront]

/-- Trimming leaves nothing, or a text without blanks at its ends. -/
theorem solidEnds_trim {cs : List Char} (h : trim cs ≠ []) : SolidEnds (trim cs) where
  ne_nil := h
  first c hc := by
    obtain ⟨d, ds, hd⟩ := List.exists_cons_of_ne_nil h
    rw [hd] at hc
    obtain rfl := Option.some.inj hc
    exact isBlank_eq_false_of_trim hd
  last c hc := by
    have hlast := List.head?_dropWhile_not isBlank (trimStart cs).reverse
    rw [trim, trimEnd, List.getLast?_reverse, Option.mem_def] at hc
    rw [hc] at hlast
    exact hlast

/-! ## Comments -/

theorem startsComment_cons (c : Char) (cs : List Char) :
    startsComment (c :: cs) = (c == '#' || (c == '/' && cs.head? == some '/')) := by
  by_cases hnumber : c = '#'
  · subst hnumber
    rfl
  · by_cases hslash : c = '/'
    · subst hslash
      cases cs with
      | nil => rfl
      | cons d cs =>
          by_cases hd : d = '/'
          · subst hd
            rfl
          · simp [startsComment, hd]
    · simp [startsComment, hnumber, hslash]

/-- Characters that do not start a comment stand before it. -/
theorem splitComment_append_of_ne {cs : List Char} (h : ∀ c ∈ cs, c ≠ '#' ∧ c ≠ '/')
    (rest : List Char) :
    splitComment (cs ++ rest) = (cs ++ (splitComment rest).1, (splitComment rest).2) := by
  induction cs with
  | nil => rfl
  | cons c cs ih =>
      rw [List.forall_mem_cons] at h
      have hstarts : startsComment (c :: (cs ++ rest)) = false := by
        simp [startsComment_cons, h.1]
      rw [List.cons_append, splitComment, hstarts, ih h.2]
      rfl

theorem IsPadding.ne_comment {cs : List Char} (h : IsPadding cs) :
    ∀ c ∈ cs, c ≠ '#' ∧ c ≠ '/' :=
  fun c hc => ⟨h.ne rfl c hc, h.ne rfl c hc⟩

theorem splitComment_append (cs : List Char) : (splitComment cs).1 ++ (splitComment cs).2 = cs := by
  induction cs with
  | nil => rfl
  | cons c cs ih =>
      simp only [splitComment]
      split
      · rfl
      · rw [List.cons_append, ih]

/-- A comment is cut off as a whole. -/
theorem splitComment_of_startsComment {cs : List Char}
    (h : cs = [] ∨ startsComment cs = true) : splitComment cs = ([], cs) := by
  cases cs with
  | nil => rfl
  | cons c cs => rw [splitComment, if_pos (h.resolve_left (List.cons_ne_nil c cs))]

theorem splitComment_comment (cs : List Char) :
    splitComment (splitComment cs).2 = ([], (splitComment cs).2) := by
  induction cs with
  | nil => rfl
  | cons c cs ih =>
      simp only [splitComment]
      split
      · next hstarts => rw [splitComment, if_pos hstarts]
      · exact ih

/-! ## Labels -/

theorem takeLabels_of_none {cs : List Char} (h : takeLabel? cs = none) :
    takeLabels cs = ([], cs) := by
  rw [takeLabels]
  split
  · rfl
  · next hsome =>
      rw [h] at hsome
      cases hsome

theorem takeLabels_of_some {cs label rest : List Char} (h : takeLabel? cs = some (label, rest)) :
    takeLabels cs = (label :: (takeLabels rest).1, (takeLabels rest).2) := by
  rw [takeLabels]
  split
  · next hnone =>
      rw [h] at hnone
      cases hnone
  · next hsome =>
      rw [h] at hsome
      obtain ⟨rfl, rfl⟩ := Prod.mk.inj (Option.some.inj hsome)
      rfl

/-! ## Parentheses -/

theorem tighten_of_parenthesized? {cs content rest : List Char}
    (h : parenthesized? cs = some (content, rest)) :
    tighten cs = '(' :: trim content ++ ')' :: tighten rest := by
  rw [tighten]
  split
  · next content' rest' hsome =>
      rw [h] at hsome
      obtain ⟨rfl, rfl⟩ := Prod.mk.inj (Option.some.inj hsome)
      rfl
  · next hnone =>
      rw [h] at hnone
      cases hnone

theorem tighten_cons {c : Char} {cs : List Char} (h : parenthesized? (c :: cs) = none) :
    tighten (c :: cs) = c :: tighten cs := by
  rw [tighten]
  split
  · next content rest hsome =>
      rw [h] at hsome
      cases hsome
  · rfl

theorem tighten_cons_of_solid {c : Char} {cs : List Char} (hblank : isBlank c = false)
    (hopen : c ≠ '(') : tighten (c :: cs) = c :: tighten cs := by
  apply tighten_cons
  rw [parenthesized?, Text.trimStart_cons hblank]
  simp [hopen]

@[simp] theorem tighten_nil : tighten [] = [] := by
  simp [tighten, parenthesized?, trimStart]

/-! ## Separators -/

theorem pieces_of_separator? {cs rest : List Char} (h : separator? cs = some rest) :
    pieces cs = [] :: pieces rest := by
  rw [pieces]
  split
  · next rest' hsome =>
      rw [h] at hsome
      rw [Option.some.inj hsome]
  · next hnone =>
      rw [h] at hnone
      cases hnone

@[simp] theorem pieces_nil : pieces [] = [[]] := by
  simp [pieces, separator?, trimStart]

theorem pieces_append {u rest p : List Char} {ps : List (List Char)}
    (hu : ∀ c ∈ u, isBlank c = false ∧ c ≠ ',') (h : pieces rest = p :: ps) :
    pieces (u ++ rest) = (u ++ p) :: ps := by
  induction u with
  | nil => exact h
  | cons c cs ih =>
      obtain ⟨hblank, hcomma⟩ := hu c List.mem_cons_self
      have htail := ih fun d hd => hu d (List.mem_cons_of_mem c hd)
      have hnone : separator? (c :: (cs ++ rest)) = none := by
        rw [separator?, Text.trimStart_cons hblank]
        simp [hcomma]
      rw [List.cons_append, pieces]
      split
      · next r hr =>
          rw [hnone] at hr
          cases hr
      · simp only [htail, List.cons_append]

theorem solid_of_separator?_eq_none {c : Char} {cs : List Char} (h : separator? (c :: cs) = none) :
    isBlank c = false ∧ c ≠ ',' := by
  unfold separator? at h
  split at h
  · cases h
  · next hcomma =>
      split at h
      · cases h
      · next hshort =>
          have hblank : isBlank c = false := by
            by_contra hblank
            rw [Bool.not_eq_false] at hblank
            rw [trimStart, List.dropWhile_cons_of_pos hblank] at hshort
            have hle := Text.trimStart_length_le cs
            exact hshort (Nat.lt_succ_of_le hle)
          refine ⟨hblank, ?_⟩
          rintro rfl
          exact hcomma cs (Text.trimStart_cons rfl)

theorem pieces_cons_of_none {c : Char} {cs p : List Char} {ps : List (List Char)}
    (hsep : separator? (c :: cs) = none) (h : pieces cs = p :: ps) :
    pieces (c :: cs) = (c :: p) :: ps := by
  have hsolid : ∀ d ∈ [c], isBlank d = false ∧ d ≠ ',' := by
    rintro d hd
    rw [List.mem_singleton.mp hd]
    exact solid_of_separator?_eq_none hsep
  exact pieces_append hsolid h

theorem pieces_ne_nil (cs : List Char) : pieces cs ≠ [] := by
  unfold pieces
  split
  · exact List.cons_ne_nil _ _
  · split
    · exact List.cons_ne_nil _ _
    · split
      · exact List.cons_ne_nil _ _
      · exact List.cons_ne_nil _ _

end Rv32.Assembly
