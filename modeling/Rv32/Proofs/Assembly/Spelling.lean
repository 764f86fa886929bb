import Mathlib
import Rv32.Proofs.Assembly.Language
import Rv32.Proofs.Assembly.Literals

/-!
# How operands are spelled

Registers, integer literals and names are words of letters, digits and a few other characters.  The
operands of the language are such words, or an offset with a register in parentheses, where both are
words.  None of their characters is blank, a comma, or the start of a comment.
-/

namespace Rv32.Assembly

open Rv32.Text (isBlank trim)

/-! ## Characters of words -/

/-- The characters of registers, integer literals and names. -/
def isWordChar (c : Char) : Bool := c.isAlphanum || ['+', '-', '_', '.'].contains c

theorem isInner_of_isWordChar {c : Char} (h : isWordChar c = true) : isInner c = true := by
  rw [isInner, Bool.and_eq_true, bne_iff_ne, bne_iff_ne]
  constructor
  · rintro rfl
    exact absurd h (by decide)
  · rintro rfl
    exact absurd h (by decide)

theorem isWordChar_of_isAlphanum {c : Char} (h : c.isAlphanum = true) : isWordChar c = true := by
  rw [isWordChar, h, Bool.true_or]

/-- The characters of a literal that are not blank: its digits, its mark and its sign. -/
theorem isWordChar_of_literal? {x : Int} {cs : List Char} (h : literal? cs = some x) :
    ∀ c ∈ trim cs, isWordChar c = true := by
  have hliteral := literal?_eq_some_iff.mp h
  generalize trim cs = text at hliteral
  cases hliteral with
  | @intro sign ds s n hsign hmagnitude =>
      have hword : ∀ c ∈ ds, isWordChar c = true := fun c hc =>
        isWordChar_of_isAlphanum (hmagnitude.isAlphanum c hc)
      cases hsign with
      | absent => exact hword
      | _ => exact List.forall_mem_cons.mpr ⟨rfl, hword⟩

/-- The characters of the name of a register that are not blank are letters and digits. -/
theorem isWordChar_of_ofName? {r : Register} {cs : List Char} (h : Register.ofName? cs = some r) :
    ∀ c ∈ trim cs, isWordChar c = true := by
  have hnames : ∀ r : Register, ∀ n ∈ r.names, n.toList.all Char.isAlphanum = true := by
    decide +kernel
  have hfound := List.find?_some h
  obtain ⟨n, hn, hkey⟩ := List.any_eq_true.mp hfound
  intro c hc
  have hlower : c.toLower ∈ n.toList := by
    rw [eq_of_beq hkey]
    exact List.mem_map_of_mem hc
  have halphanum := List.all_eq_true.mp (hnames r n hn) _ hlower
  exact isWordChar_of_isAlphanum (isAlphanum_of_toLower halphanum)

theorem isWordChar_of_isName {cs : List Char} (h : isName cs = true) :
    ∀ c ∈ cs, isWordChar c = true := by
  have hchar {d : Char} (hd : (isNameStart d || d.isDigit) = true) : isWordChar d = true := by
    simp only [isNameStart, Bool.or_eq_true, decide_eq_true_eq] at hd
    rcases hd with ((hd | rfl) | rfl) | hd
    · exact isWordChar_of_isAlphanum (by rw [Char.isAlphanum, hd, Bool.true_or])
    · rfl
    · rfl
    · exact isWordChar_of_isAlphanum (by rw [Char.isAlphanum, hd, Bool.or_true])
  cases cs with
  | nil => cases h
  | cons d ds =>
      obtain ⟨hstart, hrest⟩ := Bool.and_eq_true_iff.mp h
      refine List.forall_mem_cons.mpr ⟨hchar ?_, fun c hc => hchar ?_⟩
      · rw [hstart, Bool.true_or]
      · exact List.all_eq_true.mp hrest c hc

/-! ## Operands of the language -/

/-- A word, or a word with another one in parentheses behind it. -/
inductive IsSpelled : List Char → Prop
  | word {o : List Char} (ho : ∀ c ∈ o, isWordChar c = true) : IsSpelled o
  | memory {u v : List Char} (hu : ∀ c ∈ u, isWordChar c = true)
      (hv : ∀ c ∈ v, isWordChar c = true) : IsSpelled (u ++ '(' :: (v ++ [')']))

theorem IsSpelled.wordChar_or_parenthesis {o : List Char} (h : IsSpelled o) :
    ∀ c ∈ o, isWordChar c = true ∨ c = '(' ∨ c = ')' := by
  intro c hc
  cases h with
  | word ho => exact Or.inl (ho c hc)
  | memory hu hv =>
      simp only [List.mem_append, List.mem_cons, List.not_mem_nil, or_false] at hc
      rcases hc with hc | rfl | hc | rfl
      · exact Or.inl (hu c hc)
      · exact Or.inr (Or.inl rfl)
      · exact Or.inl (hv c hc)
      · exact Or.inr (Or.inr rfl)

section Solid

variable {symbols : List Symbol} {address : Nat} {o : List Char}

theorem IsRegister.isWordChar (h : IsRegister o) (hsolid : ∀ c ∈ o, isBlank c = false) :
    ∀ c ∈ o, isWordChar c = true := by
  obtain ⟨r, hr⟩ := h
  have hword := isWordChar_of_ofName? hr
  rwa [Text.trim_of_solid hsolid] at hword

theorem IsNumber.isWordChar {least greatest : Int} (h : IsNumber least greatest o)
    (hsolid : ∀ c ∈ o, isBlank c = false) : ∀ c ∈ o, isWordChar c = true := by
  obtain ⟨x, hx, -⟩ := h
  have hword := isWordChar_of_literal? hx
  rwa [Text.trim_of_solid hsolid] at hword

theorem IsRegister.spelled (h : IsRegister o) (hsolid : ∀ c ∈ o, isBlank c = false) :
    IsSpelled o :=
  .word (h.isWordChar hsolid)

theorem IsNumber.spelled {least greatest : Int} (h : IsNumber least greatest o)
    (hsolid : ∀ c ∈ o, isBlank c = false) : IsSpelled o :=
  .word (h.isWordChar hsolid)

theorem IsMemory.spelled (h : IsMemory o) (hsolid : ∀ c ∈ o, isBlank c = false) :
    IsSpelled o := by
  obtain ⟨u, v, rfl, hu, hv⟩ := h
  simp only [List.mem_append, List.mem_cons] at hsolid
  apply IsSpelled.memory
  · rcases hu with rfl | hu
    · exact fun c hc => absurd hc List.not_mem_nil
    · exact hu.isWordChar fun c hc => hsolid c (Or.inl hc)
  · exact hv.isWordChar fun c hc => hsolid c (Or.inr (Or.inr (Or.inl hc)))

theorem IsTarget.spelled (hnames : ∀ s ∈ symbols, isName s.name = true) {reach : Int}
    (h : IsTarget symbols address reach o) (hsolid : ∀ c ∈ o, isBlank c = false) :
    IsSpelled o := by
  rcases h with ⟨x, hx, -⟩ | ⟨s, hs, rfl, -⟩
  · have hword := isWordChar_of_literal? hx
    rw [Text.trim_of_solid hsolid] at hword
    exact .word hword
  · exact .word (isWordChar_of_isName (hnames s hs))

end Solid

/-- Operands in the language are spelled in words, if no blanks are around them. -/
theorem InLanguage.spelled {symbols : List Symbol} {address : Nat} {m : Mnemonic}
    {operands : List (List Char)} (h : InLanguage symbols address m operands)
    (hnames : ∀ s ∈ symbols, isName s.name = true) :
    ∀ o ∈ operands, (∀ c ∈ o, isBlank c = false) → IsSpelled o := by
  unfold InLanguage at h
  split at h
  case h_13 => exact h.elim
  all_goals
    simp only [List.forall_mem_cons, List.not_mem_nil, false_implies, implies_true, and_true]
  · exact h.imp IsRegister.spelled (And.imp IsRegister.spelled IsRegister.spelled)
  · refine h.imp IsRegister.spelled (And.imp IsRegister.spelled fun hc => ?_)
    split at hc
    · exact hc.spelled
    · exact hc.spelled
  · exact h.imp IsRegister.spelled IsMemory.spelled
  · exact h.imp IsRegister.spelled IsMemory.spelled
  · exact h.imp IsRegister.spelled (And.imp IsRegister.spelled (IsTarget.spelled hnames))
  · exact h.imp IsRegister.spelled IsNumber.spelled
  · exact h.imp IsRegister.spelled IsNumber.spelled
  · exact h.spelled hnames
  · exact h.imp IsRegister.spelled (IsTarget.spelled hnames)
  · exact h.spelled
  · exact h.imp IsRegister.spelled IsMemory.spelled
  · exact h.imp IsRegister.spelled (And.imp IsRegister.spelled IsNumber.spelled)

end Rv32.Assembly
