import Mathlib
import Rv32.Text.Basic

/-!
# Tokens and the limit on digits

A token is made of ASCII letters, digits and minus signs, such as a mnemonic, a register or a number
in canonical text.  No character of a token is blank or has a meaning of its own, so that tokens
pass unchanged through trimming and through every split of a text.

A number with too many decimal digits is one beyond a power of ten.  The power is never worked out:
proofs go through the comparisons with it that are stated here.
-/

namespace Rv32.Text

/-- Characters that tokens are made of. -/
def isPlain (c : Char) : Bool := c.isAlphanum || c == '-'

/-- A text of plain characters, with at least one of them. -/
structure IsToken (cs : List Char) : Prop where
  ne_nil : cs ≠ []
  plain : ∀ c ∈ cs, isPlain c = true

/-! ## Plain characters -/

theorem toNat_of_isPlain {c : Char} (hc : isPlain c = true) :
    c.toNat = 45 ∨ (48 ≤ c.toNat ∧ c.toNat ≤ 57) ∨ (65 ≤ c.toNat ∧ c.toNat ≤ 90) ∨
      (97 ≤ c.toNat ∧ c.toNat ≤ 122) := by
  simp only [isPlain, Char.isAlphanum, Char.isAlpha, Char.isUpper, Char.isLower, Char.isDigit,
    Bool.or_eq_true, Bool.and_eq_true, decide_eq_true_eq, beq_iff_eq, ge_iff_le,
    UInt32.le_iff_toNat_le] at hc
  rcases hc with ((hc | hc) | hc) | rfl
  · exact Or.inr (Or.inr (Or.inl hc))
  · exact Or.inr (Or.inr (Or.inr hc))
  · exact Or.inr (Or.inl hc)
  · exact Or.inl rfl

theorem isBlank_of_isPlain {c : Char} (hc : isPlain c = true) : isBlank c = false := by
  have hn := toNat_of_isPlain hc
  simp only [isBlank, Bool.or_eq_false_iff, Bool.and_eq_false_iff, decide_eq_false_iff_not,
    beq_eq_false_iff_ne, ne_eq]
  omega

/-- A plain character is none of the characters with a meaning. -/
theorem ne_of_isPlain {c d : Char} (hc : isPlain c = true) (hd : isPlain d = false) : c ≠ d := by
  rintro rfl
  rw [hc] at hd
  exact absurd hd (by decide)

/-! ## Trimming -/

theorem trimStart_cons {c : Char} {cs : List Char} (hc : isBlank c = false) :
    trimStart (c :: cs) = c :: cs := by
  rw [trimStart, List.dropWhile_cons_of_neg (by simp [hc])]

theorem trimEnd_concat {c : Char} {cs : List Char} (hc : isBlank c = false) :
    trimEnd (cs ++ [c]) = cs ++ [c] := by
  rw [trimEnd, List.reverse_concat, List.dropWhile_cons_of_neg (by simp [hc])]
  simp

/-- A text is trimmed if neither its first nor its last character is blank. -/
theorem trim_eq_self {cs : List Char} (hfirst : ∀ c ∈ cs.head?, isBlank c = false)
    (hlast : ∀ c ∈ cs.getLast?, isBlank c = false) : trim cs = cs := by
  have hstart : trimStart cs = cs := by
    cases cs with
    | nil => rfl
    | cons c cs => exact trimStart_cons (hfirst c rfl)
  rw [trim, hstart]
  cases hcs : cs.getLast? with
  | none =>
      rw [List.getLast?_eq_none_iff.mp hcs]
      rfl
  | some c =>
      obtain ⟨ds, rfl⟩ := List.getLast?_eq_some_iff.mp hcs
      exact trimEnd_concat (hlast c hcs)

theorem trim_of_solid {cs : List Char} (h : ∀ c ∈ cs, isBlank c = false) : trim cs = cs :=
  trim_eq_self (fun c hc => h c (List.mem_of_mem_head? hc))
    (fun c hc => h c (List.mem_of_mem_getLast? hc))

theorem length_trim_le (cs : List Char) : (trim cs).length ≤ cs.length := by
  have hend (ds : List Char) : (trimEnd ds).length ≤ ds.length := by
    rw [trimEnd, List.length_reverse, ← ds.length_reverse]
    exact (List.dropWhile_sublist isBlank).length_le
  exact (hend _).trans (trimStart_length_le cs)

theorem IsToken.trim {cs : List Char} (h : IsToken cs) : trim cs = cs :=
  trim_of_solid fun c hc => isBlank_of_isPlain (h.plain c hc)

/-! ## Joined texts -/

/-- The characters of a join are those of its parts and of what stands between them. -/
theorem of_mem_intercalate {sep : List Char} {ls : List (List Char)} {c : Char}
    (hc : c ∈ sep.intercalate ls) : c ∈ sep ∨ ∃ l ∈ ls, c ∈ l := by
  induction ls with
  | nil => exact absurd hc List.not_mem_nil
  | cons l ls ih =>
      cases ls with
      | nil =>
          rw [List.intercalate_singleton] at hc
          exact Or.inr ⟨l, List.mem_cons_self, hc⟩
      | cons k ks =>
          rw [List.intercalate_cons_cons, List.append_assoc, List.mem_append, List.mem_append] at hc
          rcases hc with hc | hc | hc
          · exact Or.inr ⟨l, List.mem_cons_self, hc⟩
          · exact Or.inl hc
          · rcases ih hc with hc | ⟨x, hx, hc⟩
            · exact Or.inl hc
            · exact Or.inr ⟨x, List.mem_cons_of_mem l hx, hc⟩

theorem dropReturns_eq_self {cs : List Char} (h : '\r' ∉ cs) : dropReturns cs = cs := by
  rw [dropReturns, List.filter_eq_self]
  intro c hc
  exact decide_eq_true fun heq => h (heq ▸ hc)

/-! ## Lines -/

theorem lines_cons_of_ne {c : Char} {cs l : List Char} {ls : List (List Char)} (hc : c ≠ '\n')
    (h : lines cs = l :: ls) : lines (c :: cs) = (c :: l) :: ls := by
  simp only [lines, h, if_neg hc]

/-- A text without line feeds is the start of the first line. -/
theorem lines_append {cs ds l : List Char} {ls : List (List Char)} (hcs : '\n' ∉ cs)
    (h : lines ds = l :: ls) : lines (cs ++ ds) = (cs ++ l) :: ls := by
  induction cs with
  | nil => exact h
  | cons c cs ih =>
      rw [List.mem_cons, not_or] at hcs
      exact lines_cons_of_ne (Ne.symm hcs.1) (ih hcs.2)

theorem lines_newline (cs : List Char) : lines ('\n' :: cs) = [] :: lines cs := by
  obtain ⟨l, ls, h⟩ := List.exists_cons_of_ne_nil (lines_ne_nil cs)
  simp [lines, h]

/-- A line feed between two texts ends the last line of the first one. -/
theorem lines_append_newline (cs ds : List Char) :
    lines (cs ++ '\n' :: ds) = lines cs ++ lines ds := by
  induction cs with
  | nil => exact lines_newline ds
  | cons c cs ih =>
      obtain ⟨l, ls, h⟩ := List.exists_cons_of_ne_nil (lines_ne_nil cs)
      rw [h, List.cons_append] at ih
      rw [List.cons_append]
      by_cases hc : c = '\n'
      · subst hc
        rw [lines_newline, lines_newline, ih, h]
        rfl
      · rw [lines_cons_of_ne hc ih, lines_cons_of_ne hc h]
        rfl

/-- Texts without line feeds are the lines of their join. -/
theorem lines_intercalate {ls : List (List Char)} (hne : ls ≠ []) (h : ∀ l ∈ ls, '\n' ∉ l) :
    lines (['\n'].intercalate ls) = ls := by
  induction ls with
  | nil => exact absurd rfl hne
  | cons l ls ih =>
      have hl : '\n' ∉ l := h l List.mem_cons_self
      cases ls with
      | nil =>
          have hlast : lines (l ++ []) = [l ++ []] := lines_append hl rfl
          rwa [List.intercalate_singleton, ← List.append_nil l]
      | cons k ks =>
          have hrest := ih (by simp) fun x hx => h x (List.mem_cons_of_mem l hx)
          rw [List.intercalate_cons_cons, List.append_assoc]
          have hfeed : lines (['\n'] ++ ['\n'].intercalate (k :: ks)) = [] :: k :: ks := by
            rw [List.singleton_append, lines_newline, hrest]
          simpa using lines_append hl hfeed

/-! ## The limit on digits -/

section Limit

variable {x : Int} {n : Nat}

theorem exceedsLimit_eq_true_iff : exceedsLimit x = true ↔ 10 ^ digitLimit ≤ x.natAbs := by
  unfold exceedsLimit
  rw [decide_eq_true_iff, Nat.pow_eq]

theorem exceedsLimit_eq_false_iff : exceedsLimit x = false ↔ x.natAbs < 10 ^ digitLimit := by
  rw [← Bool.not_eq_true, exceedsLimit_eq_true_iff, Nat.not_le]

/-- What exceeds the limit are the decimal digits of a number. -/
theorem exceedsLimit_iff_length :
    exceedsLimit x = true ↔ digitLimit < (Nat.toDigits 10 x.natAbs).length := by
  rw [exceedsLimit_eq_true_iff, ← not_iff_not, not_le, not_lt,
    Nat.length_toDigits_le_iff (by decide) (by decide)]

theorem exceedsLimit_natCast_eq_true_iff : exceedsLimit n = true ↔ 10 ^ digitLimit ≤ n := by
  rw [exceedsLimit_eq_true_iff, Int.natAbs_natCast]

theorem exceedsLimit_natCast_eq_false_iff : exceedsLimit n = false ↔ n < 10 ^ digitLimit := by
  rw [exceedsLimit_eq_false_iff, Int.natAbs_natCast]

/-- No number of thirty-two bits has too many digits. -/
theorem exceedsLimit_of_natAbs_le (h : x.natAbs ≤ 2 ^ 32) : exceedsLimit x = false := by
  have hpow : 10 ^ 10 ≤ 10 ^ digitLimit := Nat.pow_le_pow_right (by decide) (by decide)
  rw [exceedsLimit_eq_false_iff]
  omega

end Limit

end Rv32.Text
