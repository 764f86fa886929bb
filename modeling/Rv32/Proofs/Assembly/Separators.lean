import Mathlib
import Rv32.Proofs.Assembly.Language
import Rv32.Proofs.Assembly.Scanning

/-!
# Blanks and commas between operands

Operands are separated by blanks, by a comma, or by both, and blanks may stand before and inside the
parentheses of one operand.  Whichever way operands are written, they are cut apart into the same
operands.

Blanks in front of a parenthesis are dropped before operands are cut apart, so that they do not
separate the operand before them from one that is a register in parentheses and nothing else.  In
front of such an operand there must be a comma.
-/

namespace Rv32.Assembly

open Rv32.Text (isBlank trim trimStart)

/-! ## Ways to write operands -/

/-- What separates operands. -/
inductive IsSeparator : List Char → Prop
  | blanks {sep : List Char} (hne : sep ≠ []) (hsep : IsPadding sep) : IsSeparator sep
  | comma {l r : List Char} (hl : IsPadding l) (hr : IsPadding r) : IsSeparator (l ++ ',' :: r)

/-- A text that is not cut by itself. -/
structure IsUnbroken (o : List Char) : Prop where
  ne_nil : o ≠ []
  isBlank_eq_false : ∀ c ∈ o, isBlank c = false
  ne_comma : ∀ c ∈ o, c ≠ ','

instance (o : List Char) : Decidable (IsUnbroken o) :=
  decidable_of_iff (o ≠ [] ∧ o.all (fun c => !isBlank c && c != ',') = true) (by
    simp only [List.all_eq_true, Bool.and_eq_true, Bool.not_eq_true', bne_iff_ne]
    exact ⟨fun h => ⟨h.1, fun c hc => (h.2 c hc).1, fun c hc => (h.2 c hc).2⟩,
      fun h => ⟨h.ne_nil, fun c hc => ⟨h.isBlank_eq_false c hc, h.ne_comma c hc⟩⟩⟩)

/-- The second text is the operand, with blanks before and inside its parentheses.  There are none
before parentheses without an offset, since those would be in front of the operand. -/
inductive Writes : List Char → List Char → Prop
  | asIs (o : List Char) : Writes o o
  | memory {u v b l r : List Char} (hu : ∀ c ∈ u, isInner c = true)
      (hv : ∀ c ∈ v, isInner c = true) (hb : IsPadding b) (hbare : u = [] → b = [])
      (hl : IsPadding l) (hr : IsPadding r) :
      Writes (u ++ '(' :: (v ++ [')'])) (u ++ (b ++ '(' :: (l ++ v ++ r ++ [')'])))

/-- The text lists the operands with such separators between them, of which one in front of a
parenthesis has a comma. -/
inductive Lists (Sep : List Char → Prop) : List (List Char) → List Char → Prop
  | last {o w : List Char} (ho : IsUnbroken o) (hw : Writes o w) : Lists Sep [o] w
  | cons {o k w sep text : List Char} {ks : List (List Char)} (ho : IsUnbroken o)
      (hw : Writes o w) (hsep : Sep sep) (hopen : k.head? = some '(' → ',' ∈ sep)
      (rest : Lists Sep (k :: ks) text) : Lists Sep (o :: k :: ks) (w ++ (sep ++ text))

theorem IsUnbroken.solid {o : List Char} (h : IsUnbroken o) :
    ∀ c ∈ o, isBlank c = false ∧ c ≠ ',' :=
  fun c hc => ⟨h.isBlank_eq_false c hc, h.ne_comma c hc⟩

/-- No blank is a parenthesis. -/
theorem IsPadding.isInner {cs : List Char} (h : IsPadding cs) : ∀ c ∈ cs, isInner c = true := by
  intro c hc
  rw [Assembly.isInner, Bool.and_eq_true, bne_iff_ne, bne_iff_ne]
  exact ⟨h.ne rfl c hc, h.ne rfl c hc⟩

/-- An operand and a way to write it start with the same character. -/
theorem Writes.exists_cons {o w : List Char} (hw : Writes o w) (ho : IsUnbroken o) :
    ∃ c cs ds, o = c :: cs ∧ w = c :: ds := by
  cases hw with
  | asIs =>
      obtain ⟨c, cs, rfl⟩ := List.exists_cons_of_ne_nil ho.ne_nil
      exact ⟨c, cs, cs, rfl, rfl⟩
  | @memory u v b l r _ _ _ hbare _ _ =>
      cases u with
      | nil =>
          obtain rfl := hbare rfl
          exact ⟨'(', _, _, rfl, rfl⟩
      | cons c u => exact ⟨c, _, _, rfl, rfl⟩

theorem Writes.exists_concat {o w : List Char} (hw : Writes o w) (ho : IsUnbroken o) :
    ∃ cs c, w = cs ++ [c] ∧ isBlank c = false := by
  cases hw with
  | asIs =>
      exact ⟨o.dropLast, o.getLast ho.ne_nil, (List.dropLast_concat_getLast ho.ne_nil).symm,
        ho.isBlank_eq_false _ (List.getLast_mem ho.ne_nil)⟩
  | @memory u v b l r => exact ⟨u ++ (b ++ '(' :: (l ++ v ++ r)), ')', by simp, rfl⟩

theorem Writes.of_mem {o w : List Char} (hw : Writes o w) :
    ∀ c ∈ w, isBlank c = true ∨ c ∈ o := by
  cases hw with
  | asIs => exact fun c hc => Or.inr hc
  | memory _ _ hb _ hl hr =>
      intro c hc
      simp only [List.mem_append, List.mem_cons, List.not_mem_nil, or_false] at hc ⊢
      rcases hc with hc | hc | hc | ((hc | hc) | hc) | hc
      · exact Or.inr (Or.inl hc)
      · exact Or.inl (hb c hc)
      · exact Or.inr (Or.inr (Or.inl hc))
      · exact Or.inl (hl c hc)
      · exact Or.inr (Or.inr (Or.inr (Or.inl hc)))
      · exact Or.inl (hr c hc)
      · exact Or.inr (Or.inr (Or.inr (Or.inr hc)))

theorem IsSeparator.of_mem {sep : List Char} (h : IsSeparator sep) :
    ∀ c ∈ sep, isBlank c = true ∨ c = ',' := by
  cases h with
  | blanks _ hsep => exact fun c hc => Or.inl (hsep c hc)
  | comma hl hr =>
      intro c hc
      rw [List.mem_append, List.mem_cons] at hc
      rcases hc with hc | hc | hc
      · exact Or.inl (hl c hc)
      · exact Or.inr hc
      · exact Or.inl (hr c hc)

namespace Lists

variable {Sep : List Char → Prop} {o : List Char} {ks ops : List (List Char)} {text : List Char}

theorem ne_nil (h : Lists Sep ops text) : ops ≠ [] := by
  cases h <;> exact List.cons_ne_nil _ _

theorem unbroken (h : Lists Sep ops text) : ∀ o ∈ ops, IsUnbroken o := by
  induction h with
  | last ho _ =>
      intro x hx
      rwa [List.mem_singleton.mp hx]
  | cons ho _ _ _ _ ih => exact List.forall_mem_cons.mpr ⟨ho, ih⟩

theorem exists_append (h : Lists Sep (o :: ks) text) :
    ∃ w rest, Writes o w ∧ text = w ++ rest := by
  cases h with
  | last _ hw => exact ⟨text, [], hw, text.append_nil.symm⟩
  | cons _ hw => exact ⟨_, _, hw, rfl⟩

/-- A list of operands starts with the first character of the first one. -/
theorem exists_cons (h : Lists Sep (o :: ks) text) : ∃ c cs ds, o = c :: cs ∧ text = c :: ds := by
  obtain ⟨w, rest, hw, rfl⟩ := h.exists_append
  obtain ⟨c, cs, ds, ho, rfl⟩ := hw.exists_cons (h.unbroken o List.mem_cons_self)
  exact ⟨c, cs, ds ++ rest, ho, rfl⟩

theorem exists_concat (h : Lists Sep ops text) : ∃ cs c, text = cs ++ [c] ∧ isBlank c = false := by
  induction h with
  | last ho hw => exact hw.exists_concat ho
  | @cons o k w sep text ks _ _ _ _ _ ih =>
      obtain ⟨cs, c, rfl, hc⟩ := ih
      exact ⟨w ++ (sep ++ cs), c, by simp, hc⟩

theorem solidEnds (h : Lists Sep ops text) : SolidEnds text := by
  obtain ⟨k, js, rfl⟩ := List.exists_cons_of_ne_nil h.ne_nil
  obtain ⟨c, cs, ds, rfl, htext⟩ := h.exists_cons
  obtain ⟨es, e, hend, he⟩ := h.exists_concat
  refine ⟨by simp [htext], fun d hd => ?_, fun d hd => ?_⟩
  · rw [htext] at hd
    obtain rfl := Option.some.inj hd
    exact (h.unbroken _ List.mem_cons_self).isBlank_eq_false _ List.mem_cons_self
  · rw [hend, List.getLast?_concat] at hd
    obtain rfl := Option.some.inj hd
    exact he

/-- Other characters than those of the operands are blanks and commas. -/
theorem of_mem (h : Lists IsSeparator ops text) :
    ∀ c ∈ text, isBlank c = true ∨ c = ',' ∨ ∃ o ∈ ops, c ∈ o := by
  induction h with
  | last _ hw =>
      intro c hc
      exact (hw.of_mem c hc).imp_right fun hc => Or.inr ⟨_, List.mem_cons_self, hc⟩
  | @cons o k w sep text ks _ hw hsep _ _ ih =>
      intro c hc
      rw [List.mem_append, List.mem_append] at hc
      rcases hc with hc | hc | hc
      · exact (hw.of_mem c hc).imp_right fun hc => Or.inr ⟨o, List.mem_cons_self, hc⟩
      · exact (hsep.of_mem c hc).imp_right Or.inl
      · refine (ih c hc).imp_right (Or.imp_right ?_)
        rintro ⟨x, hx, hc⟩
        exact ⟨x, List.mem_cons_of_mem o hx, hc⟩

end Lists

/-! ## Pairs of parentheses -/

theorem parenthesized?_append {b content : List Char} (hb : IsPadding b)
    (hcontent : ∀ c ∈ content, isInner c = true) (rest : List Char) :
    parenthesized? (b ++ '(' :: (content ++ ')' :: rest)) = some (content, rest) := by
  have hinner : ∀ c ∈ content, (fun c => c != '(' && c != ')') c = true := hcontent
  rw [parenthesized?, hb.trimStart_append, Text.trimStart_cons rfl]
  simp only [List.dropWhile_append_of_pos hinner, List.takeWhile_append_of_pos hinner]
  simp

/-- What is taken for a pair of parentheses is one, with blanks before it. -/
theorem eq_of_parenthesized? {cs content rest : List Char}
    (h : parenthesized? cs = some (content, rest)) :
    ∃ b, IsPadding b ∧ cs = b ++ '(' :: (content ++ ')' :: rest) ∧
      ∀ c ∈ content, isInner c = true := by
  unfold parenthesized? at h
  split at h
  · next inner hinner =>
      split at h
      · next back hback =>
          obtain ⟨rfl, rfl⟩ := Prod.mk.inj (Option.some.inj h)
          refine ⟨cs.takeWhile isBlank, fun c => List.mem_takeWhile_imp, ?_,
            fun c => List.mem_takeWhile_imp⟩
          rw [← hback, List.takeWhile_append_dropWhile, ← hinner]
          exact List.takeWhile_append_dropWhile.symm
      · cases h
  · cases h

/-- Blanks before and inside a pair of parentheses are dropped. -/
theorem tighten_pair {b l v r : List Char} (hb : IsPadding b) (hl : IsPadding l)
    (hr : IsPadding r) (hinner : ∀ c ∈ v, isInner c = true)
    (hsolid : ∀ c ∈ v, isBlank c = false) (rest : List Char) :
    tighten (b ++ '(' :: (l ++ v ++ r ++ ')' :: rest)) = '(' :: (v ++ ')' :: tighten rest) := by
  have hcontent : ∀ c ∈ l ++ v ++ r, isInner c = true := by
    simp only [List.mem_append]
    rintro c ((hc | hc) | hc)
    · exact hl.isInner c hc
    · exact hinner c hc
    · exact hr.isInner c hc
  rw [tighten_of_parenthesized? (parenthesized?_append hb hcontent rest),
    trim_padded hl hsolid hr]
  rfl

/-! ## Padded texts -/

/-- The second text is the first one with blanks before and inside pairs of parentheses.  It has no
other blanks. -/
inductive Padded : List Char → List Char → Prop
  | nil : Padded [] []
  | solid {c : Char} {cs ds : List Char} (hc : isBlank c = false) (rest : Padded cs ds) :
      Padded (c :: cs) (c :: ds)
  | pair {b l v r cs ds : List Char} (hb : IsPadding b) (hl : IsPadding l) (hr : IsPadding r)
      (hinner : ∀ c ∈ v, isInner c = true) (hsolid : ∀ c ∈ v, isBlank c = false)
      (rest : Padded cs ds) :
      Padded ('(' :: (v ++ ')' :: cs)) (b ++ '(' :: (l ++ v ++ r ++ ')' :: ds))

/-- The content that ends at a closing parenthesis, if no other parenthesis is in it, has no blanks,
and what follows the parenthesis is made tight on its own. -/
theorem Padded.tighten_and_close {cs ds : List Char} (h : Padded cs ds) :
    tighten ds = cs ∧ ∀ content rest, ds = content ++ ')' :: rest →
      (∀ c ∈ content, isInner c = true) →
      (∀ c ∈ content, isBlank c = false) ∧ cs = content ++ ')' :: tighten rest := by
  induction h with
  | nil =>
      refine ⟨tighten_nil, fun content rest heq => ?_⟩
      cases content <;> cases heq
  | @solid c cs ds hc _ ih =>
      obtain ⟨htight, hclose⟩ := ih
      constructor
      · by_cases hopen : c = '('
        · subst hopen
          cases hpair : parenthesized? ('(' :: ds) with
          | none => rw [tighten_cons hpair, htight]
          | some found =>
              obtain ⟨content, rest⟩ := found
              obtain ⟨b, hb, heq, hinner⟩ := eq_of_parenthesized? hpair
              obtain rfl : b = [] := by
                cases b with
                | nil => rfl
                | cons d b =>
                    obtain ⟨rfl, -⟩ := List.cons.inj heq
                    exact absurd (hb '(' List.mem_cons_self) (by decide)
              obtain ⟨hsolid, hcs⟩ := hclose content rest (List.cons.inj heq).2 hinner
              rw [tighten_of_parenthesized? hpair, Text.trim_of_solid hsolid, hcs]
              rfl
        · rw [tighten_cons_of_solid hc hopen, htight]
      · intro content rest heq hinner
        cases content with
        | nil =>
            obtain ⟨rfl, rfl⟩ := List.cons.inj heq
            refine ⟨fun d hd => absurd hd List.not_mem_nil, ?_⟩
            rw [htight]
            rfl
        | cons d content =>
            obtain ⟨rfl, htail⟩ := List.cons.inj heq
            rw [List.forall_mem_cons] at hinner ⊢
            obtain ⟨hsolid, hcs⟩ := hclose content rest htail hinner.2
            exact ⟨⟨hc, hsolid⟩, by rw [hcs]; rfl⟩
  | @pair b l v r cs ds hb hl hr hinner hsolid _ ih =>
      refine ⟨by rw [tighten_pair hb hl hr hinner hsolid, ih.1], ?_⟩
      intro content rest heq hcontent
      have hdrop := congrArg (List.dropWhile isInner) heq
      rw [List.dropWhile_append_of_pos hb.isInner, List.dropWhile_append_of_pos hcontent] at hdrop
      exact absurd (List.cons.inj hdrop).1 (by decide)

theorem Padded.append_left {u cs ds : List Char} (hu : ∀ c ∈ u, isBlank c = false)
    (h : Padded cs ds) : Padded (u ++ cs) (u ++ ds) := by
  induction u with
  | nil => exact h
  | cons c u ih =>
      rw [List.forall_mem_cons] at hu
      exact .solid hu.1 (ih hu.2)

/-! ## Operands with commas between them -/

theorem Writes.padded {o w cs ds : List Char} (hw : Writes o w) (ho : IsUnbroken o)
    (h : Padded cs ds) : Padded (o ++ cs) (w ++ ds) := by
  have hsolid := ho.isBlank_eq_false
  cases hw with
  | asIs => exact h.append_left hsolid
  | @memory u v b l r _ hv hb _ hl hr =>
      simp only [List.mem_append, List.mem_cons] at hsolid
      have hpair := h.pair hb hl hr hv fun c hc => hsolid c (Or.inr (Or.inr (Or.inl hc)))
      have hboth := hpair.append_left fun c hc => hsolid c (Or.inl hc)
      simpa only [List.append_assoc, List.cons_append, List.nil_append] using hboth

theorem Lists.padded {ops : List (List Char)} {text : List Char} (h : Lists (· = [',']) ops text) :
    Padded ([','].intercalate ops) text := by
  induction h with
  | @last o w ho hw =>
      have hone := hw.padded ho .nil
      rw [List.append_nil, List.append_nil] at hone
      rwa [List.intercalate_singleton]
  | @cons o k w sep text ks ho hw hsep _ _ ih =>
      subst hsep
      rw [List.intercalate_cons_cons, List.append_assoc]
      exact hw.padded ho (.solid rfl ih)

theorem separator?_append {sep cs : List Char} {c : Char} (hsep : IsSeparator sep)
    (hc : isBlank c = false) (hcomma : c ≠ ',') : separator? (sep ++ c :: cs) = some (c :: cs) := by
  cases hsep with
  | blanks hne hblanks =>
      have hlt : (c :: cs).length < (sep ++ c :: cs).length := by
        have hpos := List.length_pos_iff.mpr hne
        rw [List.length_append]
        omega
      rw [separator?, hblanks.trimStart_append, Text.trimStart_cons hc]
      split
      · next heq => exact absurd (List.cons.inj heq).1 hcomma
      · rw [if_pos hlt]
  | comma hl hr =>
      rw [separator?, List.append_assoc, hl.trimStart_append, List.cons_append,
        Text.trimStart_cons rfl]
      simp only
      rw [hr.trimStart_append, Text.trimStart_cons hc]

/-- An operand, a separator and the operands after it are cut apart. -/
theorem pieces_cons {o k sep rest : List Char} {ks : List (List Char)} (ho : IsUnbroken o)
    (hk : IsUnbroken k) (hsep : IsSeparator sep) (hrest : pieces (k ++ rest) = k :: ks) :
    pieces (o ++ (sep ++ (k ++ rest))) = o :: k :: ks := by
  obtain ⟨c, cs, rfl⟩ := List.exists_cons_of_ne_nil hk.ne_nil
  have hc := hk.isBlank_eq_false c List.mem_cons_self
  have hcomma := hk.ne_comma c List.mem_cons_self
  have hcut : pieces (sep ++ (c :: cs ++ rest)) = [] :: (c :: cs) :: ks := by
    rw [List.cons_append] at hrest ⊢
    rw [pieces_of_separator? (separator?_append hsep hc hcomma), hrest]
  rw [pieces_append ho.solid hcut, List.append_nil]

theorem pieces_unbroken {o : List Char} (ho : IsUnbroken o) : pieces o = [o] := by
  have hone := pieces_append ho.solid pieces_nil
  rwa [List.append_nil] at hone

theorem exists_intercalate_cons (sep k : List Char) (ks : List (List Char)) :
    ∃ rest, sep.intercalate (k :: ks) = k ++ rest := by
  cases ks with
  | nil => exact ⟨[], by rw [List.intercalate_singleton, List.append_nil]⟩
  | cons j js => exact ⟨_, by rw [List.intercalate_cons_cons, List.append_assoc]⟩

theorem pieces_intercalate {ops : List (List Char)} (hne : ops ≠ [])
    (h : ∀ o ∈ ops, IsUnbroken o) : pieces ([','].intercalate ops) = ops := by
  induction ops with
  | nil => exact absurd rfl hne
  | cons o ops ih =>
      rw [List.forall_mem_cons] at h
      cases ops with
      | nil => rw [List.intercalate_singleton, pieces_unbroken h.1]
      | cons k ks =>
          have hrest := ih (List.cons_ne_nil k ks) h.2
          obtain ⟨rest, heq⟩ := exists_intercalate_cons [','] k ks
          rw [heq] at hrest
          rw [List.intercalate_cons_cons, List.append_assoc, heq]
          exact pieces_cons h.1 (h.2 k List.mem_cons_self) (.comma .nil .nil) hrest

/-- Operands with single commas between them are cut apart, whatever they are. -/
theorem Lists.pieces_of_commas {ops : List (List Char)} {text : List Char}
    (h : Lists (· = [',']) ops text) : pieces (tighten text) = ops := by
  rw [h.padded.tighten_and_close.1, pieces_intercalate h.ne_nil h.unbroken]

/-! ## Operands with any separators between them -/

/-- An operand has no parentheses, or one pair of them at its end. -/
inductive IsShaped : List Char → Prop
  | plain {o : List Char} (ho : ∀ c ∈ o, isInner c = true) : IsShaped o
  | memory {u v : List Char} (hu : ∀ c ∈ u, isInner c = true) (hv : ∀ c ∈ v, isInner c = true) :
      IsShaped (u ++ '(' :: (v ++ [')']))

/-- An operand is written as it is, without parentheses, or with blanks before and inside them. -/
theorem Writes.plain_or_memory {o w : List Char} (hw : Writes o w) (hs : IsShaped o) :
    (w = o ∧ ∀ c ∈ o, isInner c = true) ∨
      ∃ u v b l r, o = u ++ '(' :: (v ++ [')']) ∧ w = u ++ (b ++ '(' :: (l ++ v ++ r ++ [')'])) ∧
        (∀ c ∈ u, isInner c = true) ∧ (∀ c ∈ v, isInner c = true) ∧ (u = [] → b = []) ∧
        IsPadding b ∧ IsPadding l ∧ IsPadding r := by
  cases hw with
  | @memory u v b l r hu hv hb hbare hl hr =>
      exact Or.inr ⟨u, v, b, l, r, rfl, rfl, hu, hv, hbare, hb, hl, hr⟩
  | asIs =>
      cases hs with
      | plain ho => exact Or.inl ⟨rfl, ho⟩
      | @memory u v hu hv =>
          exact Or.inr ⟨u, v, [], [], [], rfl, by simp, hu, hv, fun _ => rfl, .nil, .nil, .nil⟩

theorem tighten_append {u : List Char} (hinner : ∀ c ∈ u, isInner c = true)
    (hsolid : ∀ c ∈ u, isBlank c = false) (rest : List Char) :
    tighten (u ++ rest) = u ++ tighten rest := by
  induction u with
  | nil => rfl
  | cons c u ih =>
      rw [List.forall_mem_cons] at hinner hsolid
      have hopen : c ≠ '(' := by
        rintro rfl
        exact absurd hinner.1 (by decide)
      rw [List.cons_append, tighten_cons_of_solid hsolid.1 hopen, ih hinner.2 hsolid.2]
      rfl

namespace Writes

variable {o w : List Char} (hw : Writes o w) (ho : IsUnbroken o) (hs : IsShaped o)

include hw ho hs

/-- Of the ways to write an operand only the operand is left. -/
theorem tighten (rest : List Char) : tighten (w ++ rest) = o ++ Assembly.tighten rest := by
  have hsolid := ho.isBlank_eq_false
  rcases hw.plain_or_memory hs with ⟨rfl, hplain⟩ | ⟨u, v, b, l, r, rfl, rfl, hu, hv, -, hb, hl, hr⟩
  · exact tighten_append hplain hsolid rest
  · simp only [List.mem_append, List.mem_cons] at hsolid
    have hpair := tighten_pair hb hl hr hv (fun c hc => hsolid c (Or.inr (Or.inr (Or.inl hc)))) rest
    have hboth := tighten_append hu (fun c hc => hsolid c (Or.inl hc))
      (b ++ '(' :: (l ++ v ++ r ++ ')' :: rest))
    rw [hpair] at hboth
    simpa only [List.append_assoc, List.cons_append, List.nil_append] using hboth

/-- Where an operand starts with a parenthesis, the parenthesis belongs to a pair. -/
theorem exists_parenthesized? (hopen : o.head? = some '(') (rest : List Char) :
    ∃ found, parenthesized? (w ++ rest) = some found := by
  rcases hw.plain_or_memory hs with
    ⟨rfl, hplain⟩ | ⟨u, v, b, l, r, rfl, rfl, hu, hv, hbare, -, hl, hr⟩
  · exact absurd (hplain '(' (List.mem_of_mem_head? hopen)) (by decide)
  · cases u with
    | cons c u =>
        obtain rfl := Option.some.inj hopen
        exact absurd (hu '(' List.mem_cons_self) (by decide)
    | nil =>
        obtain rfl := hbare rfl
        have hcontent : ∀ c ∈ l ++ v ++ r, isInner c = true := by
          simp only [List.mem_append]
          rintro c ((hc | hc) | hc)
          · exact hl.isInner c hc
          · exact hv c hc
          · exact hr.isInner c hc
        have hpair := parenthesized?_append .nil hcontent rest
        refine ⟨_, Eq.trans (congrArg Assembly.parenthesized? ?_) hpair⟩
        simp

end Writes

/-- Blanks stay in front of a text that does not start with a parenthesis. -/
theorem tighten_padding {b cs : List Char} {c : Char} (hb : IsPadding b)
    (hc : isBlank c = false) (hopen : c ≠ '(') :
    tighten (b ++ c :: cs) = b ++ tighten (c :: cs) := by
  induction b with
  | nil => rfl
  | cons d b ih =>
      have hnone : parenthesized? (d :: (b ++ c :: cs)) = none := by
        rw [parenthesized?, ← List.cons_append, hb.trimStart_append, Text.trimStart_cons hc]
        simp [hopen]
      rw [List.cons_append, tighten_cons hnone, ih fun x hx => hb x (List.mem_cons_of_mem d hx)]
      rfl

/-- Blanks in front of a pair of parentheses are dropped. -/
theorem tighten_padding_pair {b cs : List Char} {found : List Char × List Char}
    (hb : IsPadding b) (h : parenthesized? cs = some found) : tighten (b ++ cs) = tighten cs := by
  have hsame : parenthesized? (b ++ cs) = parenthesized? cs := by
    simp only [parenthesized?, hb.trimStart_append]
  rw [tighten_of_parenthesized? h, tighten_of_parenthesized? (hsame.trans h)]

/-- A separator stays one, though it may lose its last blanks. -/
theorem tighten_separator {sep : List Char} {c : Char} (hsep : IsSeparator sep) (cs : List Char)
    (hc : isBlank c = false) (hcomma : c = '(' → ',' ∈ sep)
    (hpair : c = '(' → ∃ found, parenthesized? (c :: cs) = some found) :
    ∃ sep', IsSeparator sep' ∧ tighten (sep ++ c :: cs) = sep' ++ tighten (c :: cs) := by
  have hcons (r : List Char) : tighten (',' :: r) = ',' :: tighten r :=
    tighten_cons_of_solid rfl (by decide)
  cases hsep with
  | blanks hne hblanks =>
      have hopen : c ≠ '(' := fun hopen => absurd (hblanks ',' (hcomma hopen)) (by decide)
      exact ⟨sep, .blanks hne hblanks, tighten_padding hblanks hc hopen⟩
  | @comma l r hl hr =>
      have hfront (cs : List Char) : tighten (l ++ ',' :: cs) = l ++ ',' :: tighten cs := by
        rw [tighten_padding hl rfl (by decide), hcons]
      rw [List.append_assoc, List.cons_append, hfront]
      by_cases hopen : c = '('
      · obtain ⟨found, hfound⟩ := hpair hopen
        refine ⟨l ++ [','], .comma hl .nil, ?_⟩
        rw [tighten_padding_pair hr hfound, List.append_assoc, List.singleton_append]
      · refine ⟨l ++ ',' :: r, .comma hl hr, ?_⟩
        rw [tighten_padding hr hc hopen, List.append_assoc, List.cons_append]

/-- Whichever way operands are written, they are cut apart. -/
theorem Lists.pieces_of_separators {ops : List (List Char)} {text : List Char}
    (h : Lists IsSeparator ops text) (hs : ∀ o ∈ ops, IsShaped o) :
    pieces (tighten text) = ops := by
  induction h with
  | @last o w ho hw =>
      have hone := hw.tighten ho (hs o List.mem_cons_self) []
      rw [List.append_nil, tighten_nil, List.append_nil] at hone
      rw [hone, pieces_unbroken ho]
  | @cons o k w sep text ks ho hw hsep hopen rest ih =>
      rw [List.forall_mem_cons] at hs
      have hk := rest.unbroken k List.mem_cons_self
      have hshaped := hs.2 k List.mem_cons_self
      obtain ⟨x, more, hx, rfl⟩ := rest.exists_append
      obtain ⟨c, cs, ds, rfl, rfl⟩ := hx.exists_cons hk
      have hcut := ih hs.2
      rw [hx.tighten hk hshaped] at hcut
      obtain ⟨sep', hsep', hfront⟩ := tighten_separator hsep (ds ++ more)
        (hk.isBlank_eq_false c List.mem_cons_self)
        (fun heq => hopen (congrArg some heq))
        (fun heq => hx.exists_parenthesized? hk hshaped (congrArg some heq) more)
      rw [hw.tighten ho hs.1, List.cons_append, hfront, ← List.cons_append, hx.tighten hk hshaped]
      exact pieces_cons ho hk hsep' hcut

/-- The operands of a line are those that its text is cut into. -/
theorem Line.operands_of_lists {l : Line} {Sep : List Char → Prop} {ops : List (List Char)}
    (h : Lists Sep ops l.operandText) (hcut : pieces (tighten l.operandText) = ops) :
    l.operands = ops := by
  have hends := h.solidEnds
  simp only [Line.operands, List.isEmpty_eq_false_iff.mpr hends.ne_nil, Bool.false_eq_true,
    if_false, splitOperands, hends.trim, hcut]

/-! ## What is left of a text -/

/-- Characters that are no part of what separates operands. -/
def isSolid (c : Char) : Bool := !isBlank c && c != ','

theorem IsPadding.filter_isSolid {b : List Char} (h : IsPadding b) : b.filter isSolid = [] := by
  rw [List.filter_eq_nil_iff]
  intro c hc
  simp [isSolid, h c hc]

theorem filter_isSolid_trimStart (cs : List Char) :
    (trimStart cs).filter isSolid = cs.filter isSolid := by
  obtain ⟨b, hb, hcs⟩ := exists_eq_trimStart cs
  nth_rewrite 2 [hcs]
  rw [List.filter_append, hb.filter_isSolid, List.nil_append]

theorem filter_isSolid_trim (cs : List Char) : (trim cs).filter isSolid = cs.filter isSolid := by
  obtain ⟨l, r, hl, hr, hcs⟩ := exists_eq_trim cs
  nth_rewrite 2 [hcs]
  simp only [List.filter_append, hl.filter_isSolid, hr.filter_isSolid, List.nil_append,
    List.append_nil]

theorem filter_isSolid_separator? {cs rest : List Char} (h : separator? cs = some rest) :
    rest.filter isSolid = cs.filter isSolid := by
  unfold separator? at h
  split at h
  · next r hr =>
      have hcomma : (',' :: r).filter isSolid = r.filter isSolid :=
        List.filter_cons_of_neg (by decide)
      rw [← Option.some.inj h, filter_isSolid_trimStart, ← hcomma, ← hr, filter_isSolid_trimStart]
  · split at h
    · rw [← Option.some.inj h, filter_isSolid_trimStart]
    · cases h

theorem filter_isSolid_tighten (cs : List Char) :
    (tighten cs).filter isSolid = cs.filter isSolid := by
  induction cs using tighten.induct with
  | case1 cs content rest hpair _ ih =>
      rw [tighten_of_parenthesized? hpair]
      obtain ⟨b, hb, rfl, -⟩ := eq_of_parenthesized? hpair
      simp only [List.filter_append, List.filter_cons, hb.filter_isSolid, filter_isSolid_trim, ih,
        List.cons_append, List.nil_append]
  | case2 => rw [tighten_nil]
  | case3 c rest hnone ih => rw [tighten_cons hnone, List.filter_cons, List.filter_cons, ih]

theorem flatten_pieces (cs : List Char) : (pieces cs).flatten = cs.filter isSolid := by
  induction cs using pieces.induct with
  | case1 cs rest hsep _ ih =>
      rw [pieces_of_separator? hsep, List.flatten_cons, ih, filter_isSolid_separator? hsep]
      rfl
  | case2 => rw [pieces_nil]; rfl
  | case3 c rest _ hnil => exact absurd hnil (pieces_ne_nil rest)
  | case4 c rest hnone p ps hps ih =>
      have hsolid : isSolid c = true := by
        simp [isSolid, solid_of_separator?_eq_none hnone]
      rw [pieces_cons_of_none hnone hps, List.filter_cons_of_pos hsolid, ← ih, hps]
      rfl

/-- Cutting a text apart drops its blanks and commas, and nothing else. -/
theorem flatten_splitOperands (cs : List Char) :
    (splitOperands cs).flatten = cs.filter isSolid := by
  rw [splitOperands, flatten_pieces, filter_isSolid_tighten, filter_isSolid_trim]

theorem solid_of_mem_splitOperands {cs o : List Char} (ho : o ∈ splitOperands cs) :
    ∀ c ∈ o, isSolid c = true := by
  intro c hc
  have hflat : c ∈ (splitOperands cs).flatten := List.mem_flatten.mpr ⟨o, ho, hc⟩
  rw [flatten_splitOperands] at hflat
  exact (List.mem_filter.mp hflat).2

theorem Line.isBlank_operands {l : Line} {o : List Char} (ho : o ∈ l.operands) :
    ∀ c ∈ o, isBlank c = false := by
  intro c hc
  rw [Line.operands] at ho
  split at ho
  · exact absurd ho List.not_mem_nil
  · have hsolid := solid_of_mem_splitOperands ho c hc
    rw [isSolid, Bool.and_eq_true, Bool.not_eq_true'] at hsolid
    exact hsolid.1

/-- Where the text of the operands has another character than blanks and commas, it is one of an
operand. -/
theorem Line.exists_operand {l : Line} {c : Char} (hc : c ∈ l.operandText)
    (hsolid : isSolid c = true) : ∃ o ∈ l.operands, c ∈ o := by
  have hflat : c ∈ (splitOperands l.operandText).flatten := by
    rw [flatten_splitOperands]
    exact List.mem_filter.mpr ⟨hc, hsolid⟩
  rw [Line.operands, if_neg (by simp [List.ne_nil_of_mem hc])]
  exact List.mem_flatten.mp hflat

end Rv32.Assembly
