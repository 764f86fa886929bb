import Mathlib
import Rv32.Assembly.Line
import Rv32.Proofs.Text.Tokens

/-!
# Digits of numbers

The digits of a number, most significant first, have its value and are a token, with or without a
sign or a mark.  Few digits are within the limit, and names are no numbers.
-/

namespace Rv32.Assembly

open Rv32.Text (IsToken isPlain trim)

/-! ## Digits -/

theorem digit?_digitChar {base d : Nat} (hbase : base ≤ 16) (hd : d < base) :
    digit? base d.digitChar = some d := by
  have hd16 : d < 16 := hd.trans_le hbase
  interval_cases d <;> simp [digit?, Nat.digitChar, hd]

theorem valueFrom?_append (base high : Nat) (xs ys : List Char) :
    valueFrom? base high (xs ++ ys) =
      (valueFrom? base high xs).bind fun n => valueFrom? base n ys := by
  induction xs generalizing high with
  | nil => rfl
  | cons c cs ih =>
      simp only [List.cons_append, valueFrom?]
      cases digit? base c with
      | none => rfl
      | some d => exact ih _

/-- The digits of a number have its value. -/
theorem valueFrom?_toDigits {base : Nat} (hbase : 1 < base) (hle : base ≤ 16) (n : Nat) :
    valueFrom? base 0 (Nat.toDigits base n) = some n := by
  induction n using Nat.strongRecOn with
  | ind n ih =>
      by_cases hn : n < base
      · rw [Nat.toDigits_of_lt_base hn]
        simp [valueFrom?, digit?_digitChar hle hn]
      · have hlast : n % base < base := Nat.mod_lt n (by omega)
        have hrest : n / base < n := Nat.div_lt_self (by omega) hbase
        rw [Nat.toDigits_of_base_le hbase (by omega), valueFrom?_append, ih _ hrest]
        simp [valueFrom?, digit?_digitChar hle hlast, Nat.div_add_mod]

theorem value?_toDigits {base : Nat} (hbase : 1 < base) (hle : base ≤ 16) (n : Nat) :
    value? base (Nat.toDigits base n) = some n := by
  have hne : (Nat.toDigits base n).isEmpty = false := by
    simp [Nat.toDigits_ne_nil]
  rw [value?, hne]
  exact valueFrom?_toDigits hbase hle n

/-- The digits of a number are a token. -/
theorem isToken_toDigits {base : Nat} (hbase : 1 < base) (hle : base ≤ 16) (n : Nat) :
    IsToken (Nat.toDigits base n) := by
  have hdigit : ∀ d < 16, isPlain (Nat.digitChar d) = true := by decide
  refine ⟨Nat.toDigits_ne_nil, ?_⟩
  induction n using Nat.strongRecOn with
  | ind n ih =>
      intro c hc
      by_cases hn : n < base
      · rw [Nat.toDigits_of_lt_base hn, List.mem_singleton] at hc
        rw [hc]
        exact hdigit n (by omega)
      · have hlast : n % base < base := Nat.mod_lt n (by omega)
        rw [Nat.toDigits_of_base_le hbase (by omega), List.mem_append, List.mem_singleton] at hc
        rcases hc with hc | rfl
        · exact ih _ (Nat.div_lt_self (by omega) hbase) c hc
        · exact hdigit _ (by omega)

/-! ## Literals -/

/-- Decimal digits bear no mark of another base. -/
theorem magnitude?_of_isDigit {cs : List Char} (h : ∀ c ∈ cs, c.isDigit = true) :
    magnitude? cs = value? 10 cs := by
  unfold magnitude?
  split
  · next c cs =>
      have hc : c.isDigit = true := h c (by simp)
      have hx : ¬ (c = 'x' ∨ c = 'X') := by
        rintro (rfl | rfl) <;> exact absurd hc (by decide)
      have hb : ¬ (c = 'b' ∨ c = 'B') := by
        rintro (rfl | rfl) <;> exact absurd hc (by decide)
      simp only [Bool.or_eq_true, decide_eq_true_eq, hx, hb, if_false]
  · rfl

/-- The decimal text of an integer is a token. -/
theorem isToken_toString (x : Int) : IsToken (toString x).toList := by
  cases x with
  | ofNat n =>
      change IsToken n.repr.toList
      rw [Nat.toList_repr]
      exact isToken_toDigits (by decide) (by decide) n
  | negSucc n =>
      have htoken : IsToken (Nat.toDigits 10 (n + 1)) :=
        isToken_toDigits (by decide) (by decide) (n + 1)
      change IsToken ("-" ++ (n + 1).repr).toList
      rw [String.toList_append, Nat.toList_repr]
      refine ⟨by simp, ?_⟩
      intro c hc
      rcases List.mem_cons.mp hc with rfl | hc
      · rfl
      · exact htoken.plain c hc

theorem isToken_hex (n : Nat) : IsToken ('0' :: 'x' :: Nat.toDigits 16 n) := by
  have htoken : IsToken (Nat.toDigits 16 n) := isToken_toDigits (by decide) (by decide) n
  refine ⟨by simp, ?_⟩
  intro c hc
  rw [List.mem_cons, List.mem_cons] at hc
  rcases hc with rfl | rfl | hc
  · rfl
  · rfl
  · exact htoken.plain c hc

theorem length_decimalDigits_le (cs : List Char) : (decimalDigits cs).length ≤ cs.length := by
  unfold decimalDigits
  extract_lets digits
  have hdigits : digits.length ≤ cs.length := by
    have htrim := Text.length_trim_le cs
    unfold digits
    split
    · next rest heq =>
        rw [heq] at htrim
        exact Nat.le_of_succ_le htrim
    · next rest heq =>
        rw [heq] at htrim
        exact Nat.le_of_succ_le htrim
    · exact htrim
  clear_value digits
  split
  · split
    · exact hdigits
    · exact Nat.zero_le _
  · exact hdigits

/-- A literal is read if it has few characters. -/
theorem readLiteral_eq_ok {cs : List Char} {x : Int} (h : literal? cs = some x)
    (hlen : cs.length ≤ Text.digitLimit) : readLiteral cs = .ok (some x) := by
  have hcount := length_decimalDigits_le cs
  simp only [readLiteral, h]
  rw [if_neg (by omega)]

/-- A text that is read as a number, or as none, has that value. -/
theorem literal?_of_readLiteral {operand : List Char} {x? : Option Int}
    (h : readLiteral operand = .ok x?) : literal? operand = x? := by
  unfold readLiteral at h
  split at h
  · next hnone => exact hnone.trans (Except.ok.inj h)
  · next x hx =>
      simp only at h
      split at h
      · cases h
      · exact hx.trans (Except.ok.inj h)

/-! ## Names are no numbers -/

/-- Names are made of plain characters, underscores and points. -/
theorem isBlank_of_name {c : Char} (h : (isNameStart c || c.isDigit) = true) :
    Text.isBlank c = false := by
  have hcases : Text.isPlain c = true ∨ c = '_' ∨ c = '.' := by
    simp only [isNameStart, Bool.or_eq_true, decide_eq_true_eq] at h
    rcases h with ((h | h) | h) | h
    · exact Or.inl (by simp [Text.isPlain, Char.isAlphanum, h])
    · exact Or.inr (Or.inl h)
    · exact Or.inr (Or.inr h)
    · exact Or.inl (by simp [Text.isPlain, Char.isAlphanum, h])
  rcases hcases with h | rfl | rfl
  · exact Text.isBlank_of_isPlain h
  · decide
  · decide

theorem trim_of_isName {cs : List Char} (h : isName cs = true) : Text.trim cs = cs := by
  have hchar : ∀ c ∈ cs, Text.isBlank c = false := by
    cases cs with
    | nil => cases h
    | cons d ds =>
        obtain ⟨hstart, hrest⟩ := Bool.and_eq_true_iff.mp h
        intro c hc
        apply isBlank_of_name
        rcases List.mem_cons.mp hc with rfl | hc
        · rw [hstart, Bool.true_or]
        · exact List.all_eq_true.mp hrest c hc
  exact Text.trim_of_solid hchar

theorem digit?_of_isNameStart {c : Char} (h : isNameStart c = true) : digit? 10 c = none := by
  have hdigit : ¬('0' ≤ c ∧ c ≤ '9') := by
    rintro ⟨hge, hle⟩
    simp only [isNameStart, Char.isAlpha, Char.isUpper, Char.isLower, Bool.or_eq_true,
      Bool.and_eq_true, decide_eq_true_eq, ge_iff_le, UInt32.le_iff_toNat_le] at h
    rw [Char.le_def, UInt32.le_iff_toNat_le] at hge hle
    have h9 : '9'.val.toNat = 57 := rfl
    rcases h with ((h | h) | rfl) | rfl
    · have hA : 'A'.val.toNat = 65 := rfl
      omega
    · have ha : 'a'.val.toNat = 97 := rfl
      omega
    · exact absurd hle (by decide)
    · exact absurd hge (by decide)
  unfold digit?
  simp only [Bool.and_eq_true, decide_eq_true_eq, if_neg hdigit]
  -- The letters have values from ten on.
  split
  · simp
  · split <;> simp

/-- A name is no number. -/
theorem literal?_of_isName {cs : List Char} (h : isName cs = true) : literal? cs = none := by
  rw [literal?, trim_of_isName h]
  cases cs with
  | nil => cases h
  | cons c cs =>
      obtain ⟨hstart, -⟩ := Bool.and_eq_true_iff.mp h
      have hhead {d : Char} {ds : List Char} (hd : isNameStart d = false) : c :: cs ≠ d :: ds := by
        intro heq
        obtain ⟨rfl, -⟩ := List.cons.inj heq
        rw [hd] at hstart
        cases hstart
      have hvalue : value? 10 (c :: cs) = none := by
        simp [value?, valueFrom?, digit?_of_isNameStart hstart]
      have hmagnitude : magnitude? (c :: cs) = none := by
        unfold magnitude?
        split
        · next heq => exact absurd heq (hhead (by decide))
        · exact hvalue
      split
      · next heq => exact absurd heq (hhead (by decide))
      · next heq => exact absurd heq (hhead (by decide))
      · rw [hmagnitude]
        rfl

theorem readLiteral_of_isName {cs : List Char} (h : isName cs = true) :
    readLiteral cs = .ok none := by
  rw [readLiteral, literal?_of_isName h]

end Rv32.Assembly
