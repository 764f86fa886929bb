import Mathlib
import Rv32.Proofs.Assembly.Separators
import Rv32.Proofs.Assembly.Spelling

/-!
# Words in the text of operands

Blanks, commas and parentheses are the marks in the text of operands, and between them stand its
words.  Operands are cut apart at marks only.  So where words are replaced by others, the text is
cut at the same places, and each operand has its own words replaced.

A name of a register may be replaced by another one of the same register.  Where the operands are
those of an instruction, the checks then find the same registers, numbers and targets.
-/

namespace Rv32.Assembly

open Rv32.Text (isBlank trim trimEnd trimStart)

/-! ## Names of registers -/

/-- The word is a name of the register, in any case of letters. -/
def Spells (r : Register) (w : List Char) : Prop := ∃ n ∈ r.names, n.toList = Text.lowerAscii w

instance (r : Register) (w : List Char) : Decidable (Spells r w) :=
  inferInstanceAs (Decidable (∃ n ∈ r.names, n.toList = Text.lowerAscii w))

theorem isName_lowerAscii (w : List Char) : isName (Text.lowerAscii w) = isName w := by
  cases w with
  | nil => rfl
  | cons c cs =>
      have hstart : isNameStart c.toLower = isNameStart c := apply_toLower (by decide) c
      have hrest (d : Char) :
          (isNameStart d.toLower || d.toLower.isDigit) = (isNameStart d || d.isDigit) :=
        apply_toLower (f := fun d => isNameStart d || d.isDigit) (by decide) d
      simp only [Text.lowerAscii, List.map_cons, isName, hstart, List.all_map, Function.comp_def,
        hrest]

theorem Spells.isName {r : Register} {w : List Char} (h : Spells r w) : isName w = true := by
  have hnames : ∀ r : Register, ∀ n ∈ r.names, Assembly.isName n.toList = true := by
    decide +kernel
  obtain ⟨n, hn, hlower⟩ := h
  rw [← isName_lowerAscii, ← hlower]
  exact hnames r n hn

/-- No two registers share a name. -/
theorem Spells.ofName?_eq {r : Register} {w : List Char} (h : Spells r w) :
    Register.ofName? w = some r := by
  have hfound : ∀ r : Register, ∀ n ∈ r.names,
      (Register.all.find? fun q => q.names.any fun k => k.toList == n.toList) = some r := by
    decide +kernel
  have htrim := trim_of_isName h.isName
  obtain ⟨n, hn, hlower⟩ := h
  simp only [Register.ofName?, htrim, ← hlower]
  exact hfound r n hn

/-! ## Words and marks -/

/-- Characters between words. -/
def isMark (c : Char) : Bool := isBlank c || [',', '(', ')'].contains c

/-- A text without marks. -/
def IsWord (w : List Char) : Prop := ∀ c ∈ w, isMark c = false

theorem isMark_eq_false_iff {c : Char} :
    isMark c = false ↔ isBlank c = false ∧ c ≠ ',' ∧ isInner c = true := by
  simp [isMark, isInner]

theorem isMark_eq_false_of_isWordChar {c : Char} (h : isWordChar c = true) :
    isMark c = false := by
  have hblank : isBlank c = false := by
    simp only [isWordChar, Bool.or_eq_true, List.contains_iff_mem, List.mem_cons,
      List.not_mem_nil, or_false] at h
    rcases h with h | rfl | rfl | rfl | rfl
    · exact Text.isBlank_of_isPlain (by rw [Text.isPlain, h, Bool.true_or])
    all_goals rfl
  refine isMark_eq_false_iff.mpr ⟨hblank, ?_, isInner_of_isWordChar h⟩
  rintro rfl
  exact absurd h (by decide)

theorem IsPadding.isMark {b : List Char} (h : IsPadding b) : ∀ c ∈ b, isMark c = true := by
  intro c hc
  rw [Assembly.isMark, h c hc, Bool.true_or]

theorem IsWord.nil : IsWord [] := fun _ hc => absurd hc List.not_mem_nil

namespace IsWord

variable {w : List Char} (h : IsWord w)

include h

theorem not_mem {c : Char} (hc : isMark c = true) : c ∉ w := by
  intro hmem
  rw [h c hmem] at hc
  cases hc

theorem solid : ∀ c ∈ w, isBlank c = false ∧ c ≠ ',' := fun c hc =>
  (isMark_eq_false_iff.mp (h c hc)).imp_right And.left

theorem isInner : ∀ c ∈ w, isInner c = true := fun c hc => (isMark_eq_false_iff.mp (h c hc)).2.2

theorem tighten_append (rest : List Char) : tighten (w ++ rest) = w ++ tighten rest :=
  Assembly.tighten_append h.isInner (fun c hc => (h.solid c hc).1) rest

theorem tighten_eq : tighten w = w := by
  have hword := h.tighten_append []
  rwa [tighten_nil, List.append_nil] at hword

theorem pieces_eq : pieces w = [w] := by
  have hword := pieces_append h.solid pieces_nil
  rwa [List.append_nil] at hword

end IsWord

theorem Spells.isWord {r : Register} {w : List Char} (h : Spells r w) : IsWord w := fun c hc =>
  isMark_eq_false_of_isWordChar (isWordChar_of_isName h.isName c hc)

/-- The same word, or two names of one register. -/
inductive SameWord : List Char → List Char → Prop
  | same {w : List Char} (hw : IsWord w) : SameWord w w
  | register {r : Register} {w v : List Char} (hw : Spells r w) (hv : Spells r v) : SameWord w v

namespace SameWord

variable {w v : List Char} (h : SameWord w v)

include h

theorem symm : SameWord v w := by
  cases h with
  | same hw => exact .same hw
  | register hw hv => exact .register hv hw

theorem isWord : IsWord w := by
  cases h with
  | same hw => exact hw
  | register hw _ => exact hw.isWord

end SameWord

theorem SameWord.eq_nil {v : List Char} (h : SameWord [] v) : v = [] := by
  cases h with
  | same => rfl
  | register hw _ => cases hw.isName

/-! ## Texts with other words -/

/-- Both texts have the same marks, and between them the same words or names of the same
registers. -/
inductive Respelled : List Char → List Char → Prop
  | last {w v : List Char} (hw : SameWord w v) : Respelled w v
  | mark {w v : List Char} {c : Char} {cs ds : List Char} (hw : SameWord w v)
      (hc : isMark c = true) (rest : Respelled cs ds) : Respelled (w ++ c :: cs) (v ++ c :: ds)

namespace Respelled

variable {cs ds : List Char}

theorem nil : Respelled [] [] := .last (.same .nil)

theorem cons_mark {c : Char} (hc : isMark c = true) (h : Respelled cs ds) :
    Respelled (c :: cs) (c :: ds) :=
  .mark (w := []) (.same .nil) hc h

theorem refl (cs : List Char) : Respelled cs cs := by
  have hbehind {w : List Char} (hw : IsWord w) : Respelled (w ++ cs) (w ++ cs) := by
    induction cs generalizing w with
    | nil =>
        rw [List.append_nil]
        exact .last (.same hw)
    | cons c cs ih =>
        by_cases hc : isMark c = true
        · exact .mark (.same hw) hc (ih .nil)
        · rw [List.append_cons]
          exact ih (List.forall_mem_append.mpr ⟨hw, by simpa using hc⟩)
  exact hbehind .nil

theorem symm (h : Respelled cs ds) : Respelled ds cs := by
  induction h with
  | last hw => exact .last hw.symm
  | mark hw hc _ ih => exact .mark hw.symm hc ih

theorem append_mark {a b : List Char} {c : Char} (h : Respelled a b) (hc : isMark c = true)
    (hrest : Respelled cs ds) : Respelled (a ++ c :: cs) (b ++ c :: ds) := by
  induction h with
  | last hw => exact .mark hw hc hrest
  | mark hw hd _ ih =>
      rw [List.append_assoc, List.append_assoc]
      exact .mark hw hd ih

/-- A word has one word in its place. -/
theorem sameWord (h : Respelled cs ds) (hw : IsWord cs) : SameWord cs ds := by
  cases h with
  | last h => exact h
  | mark _ hc _ => exact absurd (List.mem_append_right _ List.mem_cons_self) (hw.not_mem hc)

/-- Marks stay in their places. -/
theorem exists_of_append_cons {a : List Char} {c : Char} (h : Respelled (a ++ c :: cs) ds)
    (hc : isMark c = true) :
    ∃ b es, ds = b ++ c :: es ∧ Respelled a b ∧ Respelled cs es := by
  generalize htext : a ++ c :: cs = text at h
  induction h generalizing a with
  | last hw =>
      subst htext
      exact absurd (List.mem_append_right _ List.mem_cons_self) (hw.isWord.not_mem hc)
  | @mark w v d xs ys hw hd rest ih =>
      obtain ⟨a', rfl, hback⟩ : ∃ a', a = w ++ a' ∧ d :: xs = a' ++ c :: cs := by
        rcases List.append_eq_append_iff.mp htext with ⟨w', rfl, hback⟩ | hfront
        · -- The first word ends in front of the mark.
          cases w' with
          | nil => exact ⟨[], by simp, hback.symm⟩
          | cons e w' =>
              obtain ⟨rfl, -⟩ := List.cons.inj hback
              exact absurd (List.mem_append_right _ List.mem_cons_self) (hw.isWord.not_mem hc)
        · exact hfront
      cases a' with
      | nil =>
          obtain ⟨rfl, rfl⟩ := List.cons.inj hback
          rw [List.append_nil]
          exact ⟨v, ys, rfl, .last hw, rest⟩
      | cons e a' =>
          obtain ⟨rfl, rfl⟩ := List.cons.inj hback
          obtain ⟨b, es, rfl, hfront, hrest⟩ := ih rfl
          exact ⟨v ++ d :: b, es, by simp, .mark hw hd hfront, hrest⟩

theorem exists_of_cons {c : Char} (h : Respelled (c :: cs) ds) (hc : isMark c = true) :
    ∃ es, ds = c :: es ∧ Respelled cs es := by
  obtain ⟨b, es, rfl, hfront, hrest⟩ := exists_of_append_cons (a := []) h hc
  obtain rfl := (hfront.sameWord .nil).eq_nil
  exact ⟨es, rfl, hrest⟩

/-- Blanks stay in front of a text. -/
theorem exists_of_padding {b : List Char} (hb : IsPadding b) (h : Respelled (b ++ cs) ds) :
    ∃ es, ds = b ++ es ∧ Respelled cs es := by
  induction b generalizing ds with
  | nil => exact ⟨ds, rfl, h⟩
  | cons c b ih =>
      obtain ⟨es, rfl, hrest⟩ := h.exists_of_cons (hb.isMark c List.mem_cons_self)
      obtain ⟨fs, rfl, hback⟩ := ih (fun d hd => hb d (List.mem_cons_of_mem c hd)) hrest
      exact ⟨fs, rfl, hback⟩

theorem eq_nil (h : Respelled [] ds) : ds = [] := (h.sameWord .nil).eq_nil

theorem eq_nil_iff (h : Respelled cs ds) : ds = [] ↔ cs = [] := by
  constructor
  · rintro rfl
    exact h.symm.eq_nil
  · rintro rfl
    exact h.eq_nil

theorem isEmpty_eq (h : Respelled cs ds) : ds.isEmpty = cs.isEmpty := by
  rw [Bool.eq_iff_iff, List.isEmpty_iff, List.isEmpty_iff, h.eq_nil_iff]

/-- Blanks stay behind a text. -/
theorem exists_of_append_padding {r : List Char} (hr : IsPadding r) (h : Respelled (cs ++ r) ds) :
    ∃ es, ds = es ++ r ∧ Respelled cs es := by
  cases r with
  | nil =>
      rw [List.append_nil] at h
      exact ⟨ds, ds.append_nil.symm, h⟩
  | cons c r =>
      obtain ⟨es, fs, rfl, hfront, hback⟩ :=
        h.exists_of_append_cons (hr.isMark c List.mem_cons_self)
      rw [← List.append_nil r] at hback
      obtain ⟨gs, rfl, hend⟩ := hback.exists_of_padding fun d hd => hr d (List.mem_cons_of_mem c hd)
      obtain rfl := hend.eq_nil
      exact ⟨es, by rw [List.append_nil], hfront⟩

theorem head?_isBlank (h : Respelled cs ds) (hcs : ∀ c ∈ cs.head?, isBlank c = false) :
    ∀ c ∈ ds.head?, isBlank c = false := by
  intro c hc
  by_contra hblank
  rw [Bool.not_eq_false] at hblank
  obtain ⟨es, rfl⟩ := List.head?_eq_some_iff.mp hc
  have hmark : isMark c = true := by rw [isMark, hblank, Bool.true_or]
  obtain ⟨fs, rfl, -⟩ := h.symm.exists_of_cons hmark
  rw [hcs c rfl] at hblank
  cases hblank

theorem getLast?_isBlank (h : Respelled cs ds) (hcs : ∀ c ∈ cs.getLast?, isBlank c = false) :
    ∀ c ∈ ds.getLast?, isBlank c = false := by
  intro c hc
  by_contra hblank
  rw [Bool.not_eq_false] at hblank
  obtain ⟨es, rfl⟩ := List.getLast?_eq_some_iff.mp hc
  have hpad : IsPadding [c] := by
    rintro d hd
    rwa [List.mem_singleton.mp hd]
  obtain ⟨fs, rfl, -⟩ := h.symm.exists_of_append_padding hpad
  rw [hcs c List.getLast?_concat] at hblank
  cases hblank

theorem solidEnds (h : Respelled cs ds) (hcs : SolidEnds cs) : SolidEnds ds where
  ne_nil hnil := hcs.ne_nil (h.eq_nil_iff.mp hnil)
  first := h.head?_isBlank hcs.first
  last := h.getLast?_isBlank hcs.last

/-- Both texts start with the same blanks. -/
theorem exists_trimStart (h : Respelled cs ds) :
    ∃ b, cs = b ++ trimStart cs ∧ ds = b ++ trimStart ds ∧
      Respelled (trimStart cs) (trimStart ds) := by
  obtain ⟨b, hb, hcs⟩ := exists_eq_trimStart cs
  rw [hcs] at h
  obtain ⟨es, rfl, hrest⟩ := h.exists_of_padding hb
  have hes : trimStart es = es := by
    cases es with
    | nil => rfl
    | cons c es =>
        apply Text.trimStart_cons
        refine hrest.head?_isBlank (fun d hd => ?_) c rfl
        obtain ⟨fs, hfs⟩ := List.head?_eq_some_iff.mp hd
        exact isBlank_eq_false_of_trimStart hfs
  rw [hb.trimStart_append, hes]
  exact ⟨b, hcs, rfl, hrest⟩

/-- Both texts have the same blanks around them. -/
theorem exists_trim (h : Respelled cs ds) :
    ∃ l r, cs = l ++ (trim cs ++ r) ∧ ds = l ++ (trim ds ++ r) ∧ Respelled (trim cs) (trim ds) := by
  obtain ⟨l, r, hl, hr, hcs⟩ := exists_eq_trim cs
  rw [hcs] at h
  obtain ⟨es, rfl, hback⟩ := h.exists_of_padding hl
  obtain ⟨fs, rfl, hmiddle⟩ := hback.exists_of_append_padding hr
  have hends : trim fs = fs := by
    by_cases hnil : trim cs = []
    · rw [hnil] at hmiddle
      rw [hmiddle.eq_nil]
      rfl
    · exact (hmiddle.solidEnds (solidEnds_trim hnil)).trim
  have htrim : trim (l ++ (fs ++ r)) = fs := by
    rw [← List.append_assoc, trim_append_padding hl hr, hends]
  rw [htrim]
  exact ⟨l, r, hcs, rfl, hmiddle⟩

theorem of_mem (h : Respelled cs ds) : ∀ c ∈ ds, c ∈ cs ∨ isWordChar c = true := by
  have hword {w v : List Char} (hw : SameWord w v) : ∀ c ∈ v, c ∈ w ∨ isWordChar c = true := by
    intro c hc
    cases hw with
    | same => exact Or.inl hc
    | register _ hv => exact Or.inr (isWordChar_of_isName hv.isName c hc)
  induction h with
  | last hw => exact hword hw
  | mark hw _ _ ih =>
      intro c hc
      rw [List.mem_append, List.mem_cons] at hc ⊢
      rcases hc with hc | rfl | hc
      · exact (hword hw c hc).imp_left Or.inl
      · exact Or.inl (Or.inr (Or.inl rfl))
      · exact (ih c hc).imp_left fun hc => Or.inr (Or.inr hc)

theorem isInner (h : Respelled cs ds) (hcs : ∀ c ∈ cs, isInner c = true) :
    ∀ c ∈ ds, isInner c = true := by
  intro c hc
  rcases h.of_mem c hc with hc | hc
  · exact hcs c hc
  · exact isInner_of_isWordChar hc

/-! ## Cutting apart -/

theorem exists_parenthesized? (h : Respelled cs ds) {content rest : List Char}
    (hpair : parenthesized? cs = some (content, rest)) :
    ∃ content' rest', parenthesized? ds = some (content', rest') ∧
      Respelled content content' ∧ Respelled rest rest' := by
  obtain ⟨b, hb, rfl, hinner⟩ := eq_of_parenthesized? hpair
  obtain ⟨es, rfl, hopen⟩ := h.exists_of_padding hb
  obtain ⟨fs, rfl, hclose⟩ := hopen.exists_of_cons rfl
  obtain ⟨content', rest', rfl, hcontent, hrest⟩ := hclose.exists_of_append_cons rfl
  exact ⟨content', rest', parenthesized?_append hb (hcontent.isInner hinner) rest', hcontent, hrest⟩

theorem parenthesized?_eq_none (h : Respelled cs ds) (hnone : parenthesized? cs = none) :
    parenthesized? ds = none := by
  refine Option.eq_none_iff_forall_ne_some.mpr fun found hfound => ?_
  obtain ⟨content, rest, hpair, -⟩ := h.symm.exists_parenthesized? hfound
  rw [hnone] at hpair
  cases hpair

theorem tighten (h : Respelled cs ds) : Respelled (tighten cs) (tighten ds) := by
  -- What stands behind a pair of parentheses may be far behind the first mark.
  induction hlength : cs.length using Nat.strong_induction_on generalizing cs ds with
  | _ n ih =>
      subst hlength
      cases h with
      | last hw =>
          rw [hw.isWord.tighten_eq, hw.symm.isWord.tighten_eq]
          exact .last hw
      | @mark w v c cs ds hw hc rest =>
          have hmark := rest.cons_mark hc
          have hle : (c :: cs).length ≤ (w ++ c :: cs).length :=
            (List.sublist_append_right w (c :: cs)).length_le
          rw [hw.isWord.tighten_append, hw.symm.isWord.tighten_append]
          cases hpair : parenthesized? (c :: cs) with
          | none =>
              rw [tighten_cons hpair, tighten_cons (hmark.parenthesized?_eq_none hpair)]
              exact .mark hw hc (ih cs.length hle rest rfl)
          | some found =>
              obtain ⟨content, back⟩ := found
              obtain ⟨content', back', hpair', hcontent, hback⟩ := hmark.exists_parenthesized? hpair
              obtain ⟨-, -, -, -, htrim⟩ := hcontent.exists_trim
              have hlt := (parenthesized?_length_lt hpair).trans_le hle
              rw [tighten_of_parenthesized? hpair, tighten_of_parenthesized? hpair']
              exact .mark hw rfl (htrim.append_mark rfl (ih back.length hlt hback rfl))

theorem exists_separator? (h : Respelled cs ds) {rest : List Char}
    (hsep : separator? cs = some rest) :
    ∃ rest', separator? ds = some rest' ∧ Respelled rest rest' := by
  obtain ⟨b, hcs, hds, hstart⟩ := h.exists_trimStart
  unfold separator? at hsep ⊢
  split at hsep
  · next r hr =>
      rw [hr] at hstart
      obtain ⟨r', hr', hback⟩ := hstart.exists_of_cons rfl
      obtain ⟨-, -, -, hrest⟩ := hback.exists_trimStart
      rw [← Option.some.inj hsep, hr']
      exact ⟨_, rfl, hrest⟩
  · next hcomma =>
      split at hsep
      · next hlt =>
          have hlt' : (trimStart ds).length < ds.length := by
            have hlength := congrArg List.length hcs
            have hlength' := congrArg List.length hds
            rw [List.length_append] at hlength hlength'
            omega
          rw [← Option.some.inj hsep]
          split
          · next r' hr' =>
              rw [hr'] at hstart
              obtain ⟨r, hr, -⟩ := hstart.symm.exists_of_cons rfl
              exact absurd hr (hcomma r)
          · rw [if_pos hlt']
            exact ⟨_, rfl, hstart⟩
      · cases hsep

theorem separator?_eq_none (h : Respelled cs ds) (hnone : separator? cs = none) :
    separator? ds = none := by
  refine Option.eq_none_iff_forall_ne_some.mpr fun found hfound => ?_
  obtain ⟨rest, hsep, -⟩ := h.symm.exists_separator? hfound
  rw [hnone] at hsep
  cases hsep

/-- Each piece has its own words replaced. -/
theorem pieces (h : Respelled cs ds) : List.Forall₂ Respelled (pieces cs) (pieces ds) := by
  induction hlength : cs.length using Nat.strong_induction_on generalizing cs ds with
  | _ n ih =>
      subst hlength
      cases h with
      | last hw =>
          rw [hw.isWord.pieces_eq, hw.symm.isWord.pieces_eq]
          exact .cons (.last hw) .nil
      | @mark w v c cs ds hw hc rest =>
          have hmark := rest.cons_mark hc
          have hle : (c :: cs).length ≤ (w ++ c :: cs).length :=
            (List.sublist_append_right w (c :: cs)).length_le
          cases hsep : separator? (c :: cs) with
          | none =>
              have hpieces := ih cs.length hle rest rfl
              obtain ⟨p, ps, hps⟩ := List.exists_cons_of_ne_nil (pieces_ne_nil cs)
              obtain ⟨q, qs, hqs⟩ := List.exists_cons_of_ne_nil (pieces_ne_nil ds)
              rw [hps, hqs, List.forall₂_cons] at hpieces
              rw [pieces_append hw.isWord.solid (pieces_cons_of_none hsep hps),
                pieces_append hw.symm.isWord.solid
                  (pieces_cons_of_none (hmark.separator?_eq_none hsep) hqs)]
              exact .cons (.mark hw hc hpieces.1) hpieces.2
          | some back =>
              obtain ⟨back', hsep', hback⟩ := hmark.exists_separator? hsep
              have hlt := (separator?_length_lt hsep).trans_le hle
              rw [pieces_append hw.isWord.solid (pieces_of_separator? hsep),
                pieces_append hw.symm.isWord.solid (pieces_of_separator? hsep'),
                List.append_nil, List.append_nil]
              exact .cons (.last hw) (ih back.length hlt hback rfl)

/-- Each operand has its own words replaced. -/
theorem splitOperands (h : Respelled cs ds) :
    List.Forall₂ Respelled (splitOperands cs) (splitOperands ds) := by
  obtain ⟨-, -, -, -, htrim⟩ := h.exists_trim
  exact htrim.tighten.pieces

end Respelled

/-! ## Operands of the language -/

theorem SameWord.ofName?_eq {w v : List Char} (h : SameWord w v) :
    Register.ofName? v = Register.ofName? w := by
  cases h with
  | same => rfl
  | register hw hv => rw [hw.ofName?_eq, hv.ofName?_eq]

theorem SameWord.checkRegister_eq {w v : List Char} (h : SameWord w v) :
    checkRegister v = checkRegister w := by
  cases h with
  | same => rfl
  | register hw hv => simp only [checkRegister, hw.ofName?_eq, hv.ofName?_eq]

theorem SameWord.eq_of_isNumber {w v : List Char} {least greatest : Int} (h : SameWord w v)
    (hw : IsNumber least greatest w) : v = w := by
  cases h with
  | same => rfl
  | register hname _ =>
      obtain ⟨x, hx, -⟩ := hw
      rw [literal?_of_isName hname.isName] at hx
      cases hx

section Operands

variable {symbols : List Symbol} {address : Nat} {m : Mnemonic} {o o' : List Char}

theorem IsRegister.isWord (h : IsRegister o) (hsolid : ∀ c ∈ o, isBlank c = false) : IsWord o :=
  fun c hc => isMark_eq_false_of_isWordChar (h.isWordChar hsolid c hc)

theorem IsNumber.isWord {least greatest : Int} (h : IsNumber least greatest o)
    (hsolid : ∀ c ∈ o, isBlank c = false) : IsWord o :=
  fun c hc => isMark_eq_false_of_isWordChar (h.isWordChar hsolid c hc)

/-- The checks find in the second operand what they find in the first one, if they accept it. -/
structure SameChecks (o o' : List Char) : Prop where
  register : IsRegister o → checkRegister o' = checkRegister o
  number {least greatest : Int} : IsNumber least greatest o → o' = o
  memory : IsMemory o → checkMemory o' = checkMemory o

namespace Respelled

variable (h : Respelled o o') (hsolid : ∀ c ∈ o, isBlank c = false)

include h hsolid

theorem checkRegister_eq (ho : IsRegister o) : checkRegister o' = checkRegister o :=
  (h.sameWord (ho.isWord hsolid)).checkRegister_eq

theorem eq_of_isNumber {least greatest : Int} (ho : IsNumber least greatest o) : o' = o :=
  (h.sameWord (ho.isWord hsolid)).eq_of_isNumber ho

/-- The offset stays as it is, and the register in parentheses may have another name. -/
theorem checkMemory_eq (ho : IsMemory o) : checkMemory o' = checkMemory o := by
  obtain ⟨u, v, rfl, hu, hv⟩ := ho
  simp only [List.mem_append, List.mem_cons] at hsolid
  obtain ⟨u', es, rfl, hfront, hback⟩ := h.exists_of_append_cons rfl
  obtain ⟨v', fs, rfl, hname, hend⟩ := hback.exists_of_append_cons rfl
  obtain rfl := hend.eq_nil
  have hoffset : u' = u := by
    rcases hu with rfl | hu
    · exact hfront.eq_nil
    · exact hfront.eq_of_isNumber (fun c hc => hsolid c (Or.inl hc)) hu
  have hword := hname.sameWord (hv.isWord fun c hc => hsolid c (Or.inr (Or.inr (Or.inl hc))))
  have hv' : IsRegister v' := by
    rwa [IsRegister, hword.ofName?_eq]
  simp only [checkMemory, memoryParts?_append hv, memoryParts?_append hv', hoffset,
    hword.checkRegister_eq]

theorem sameChecks : SameChecks o o' where
  register := h.checkRegister_eq hsolid
  number := h.eq_of_isNumber hsolid
  memory := h.checkMemory_eq hsolid

end Respelled

/-- Only what the checks find in operands goes into a word. -/
theorem InLanguage.encodeOperands_eq {operands operands' : List (List Char)}
    (h : InLanguage symbols address m operands) (hsame : List.Forall₂ SameChecks operands operands')
    (htarget : m.kind = .branch ∨ m.kind = .jal → operands'.getLast? = operands.getLast?) :
    encodeOperands symbols address m operands' = encodeOperands symbols address m operands := by
  unfold InLanguage at h
  split at h
  case h_13 => exact h.elim
  · next a b c hk =>
      rcases hsame with _ | ⟨ha, _ | ⟨hb, _ | ⟨hc, _ | _⟩⟩⟩
      simp only [encodeOperands, hk, ha.register h.1, hb.register h.2.1, hc.register h.2.2]
  · next a b c hk =>
      rcases hsame with _ | ⟨ha, _ | ⟨hb, _ | ⟨hc, _ | _⟩⟩⟩
      obtain ⟨least, greatest, hnumber⟩ : ∃ least greatest, IsNumber least greatest c := by
        have himmediate := h.2.2
        split at himmediate
        · exact ⟨_, _, himmediate⟩
        · exact ⟨_, _, himmediate⟩
      simp only [encodeOperands, hk, ha.register h.1, hb.register h.2.1, hc.number hnumber]
  · next a b hk =>
      rcases hsame with _ | ⟨ha, _ | ⟨hb, _ | _⟩⟩
      simp only [encodeOperands, hk, ha.register h.1, hb.memory h.2]
  · next a b hk =>
      rcases hsame with _ | ⟨ha, _ | ⟨hb, _ | _⟩⟩
      simp only [encodeOperands, hk, ha.register h.1, hb.memory h.2]
  · next a b c hk =>
      rcases hsame with _ | ⟨ha, _ | ⟨hb, _ | ⟨_, _ | _⟩⟩⟩
      have hlast := htarget (Or.inl hk)
      simp only [List.getLast?_cons_cons, List.getLast?_singleton, Option.some.injEq] at hlast
      simp only [encodeOperands, hk, ha.register h.1, hb.register h.2.1, hlast]
  · next a b hk =>
      rcases hsame with _ | ⟨ha, _ | ⟨hb, _ | _⟩⟩
      simp only [encodeOperands, hk, ha.register h.1, hb.number h.2]
  · next a b hk =>
      rcases hsame with _ | ⟨ha, _ | ⟨hb, _ | _⟩⟩
      simp only [encodeOperands, hk, ha.register h.1, hb.number h.2]
  · next a hk =>
      rcases hsame with _ | ⟨_, _ | _⟩
      have hlast := htarget (Or.inr hk)
      simp only [List.getLast?_singleton, Option.some.injEq] at hlast
      rw [hlast]
  · next a b hk =>
      rcases hsame with _ | ⟨ha, _ | ⟨_, _ | _⟩⟩
      have hlast := htarget (Or.inr hk)
      simp only [List.getLast?_cons_cons, List.getLast?_singleton, Option.some.injEq] at hlast
      simp only [encodeOperands, hk, ha.register h.1, hlast]
  · next a hk =>
      rcases hsame with _ | ⟨ha, _ | _⟩
      simp only [encodeOperands, hk, ha.register h]
  · next a b hk =>
      rcases hsame with _ | ⟨ha, _ | ⟨hb, _ | _⟩⟩
      simp only [encodeOperands, hk, ha.register h.1, hb.memory h.2]
  · next a b c hk =>
      rcases hsame with _ | ⟨ha, _ | ⟨hb, _ | ⟨hc, _ | _⟩⟩⟩
      simp only [encodeOperands, hk, ha.register h.1, hb.register h.2.1, hc.number h.2.2]

/-- Operands in the language yield the same word under other names of their registers. -/
theorem InLanguage.encode_respelled {operands operands' : List (List Char)}
    (h : InLanguage symbols address m operands) (hwords : List.Forall₂ Respelled operands operands')
    (hsolid : ∀ o ∈ operands, ∀ c ∈ o, isBlank c = false)
    (htarget : m.kind = .branch ∨ m.kind = .jal → operands'.getLast? = operands.getLast?) :
    encode symbols address m operands' = encode symbols address m operands := by
  have hempty : operands'.any (·.isEmpty) = operands.any (·.isEmpty) := by
    clear h hsolid htarget
    induction hwords with
    | nil => rfl
    | cons ho _ ih => rw [List.any_cons, List.any_cons, ih, ho.isEmpty_eq]
  have hsame : List.Forall₂ SameChecks operands operands' :=
    ((List.forall₂_and_left _ _).mpr ⟨hsolid, hwords⟩).imp fun o o' ho => ho.2.sameChecks ho.1
  rw [encode, encode, hempty, ← hwords.length_eq, h.encodeOperands_eq hsame htarget]

end Operands

end Rv32.Assembly
