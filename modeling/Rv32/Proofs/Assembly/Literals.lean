import Mathlib
import Rv32.Proofs.Assembly.Numerals

/-!
# Integer literals are read exactly

An integer literal is a sign, which may be missing, then the mark of a base, then digits of that
base.  Such a text is read as the number that its digits denote, with the sign, and no other text is
read as a number.  The digits may have zeros before them and letters of either case, so that a
number is read back from any way to write it.
-/

namespace Rv32.Assembly

open Rv32.Text (isBlank trim)

/-! ## Digits -/

/-- The character is the digit `d` of the base, where a letter may be of either case. -/
structure IsDigit (base d : Nat) (c : Char) : Prop where
  lt : d < base
  toLower : c.toLower = d.digitChar

/-- The text is one or more digits, the most significant one first, and they denote `n`. -/
def Denotes (base : Nat) (cs : List Char) (n : Nat) : Prop :=
  cs ≠ [] ∧ ∃ ds, List.Forall₂ (IsDigit base) ds cs ∧ Nat.ofDigits base ds.reverse = n

/-- What holds of all code points between two characters holds of the characters between them. -/
theorem of_between {P : Char → Prop} {lo hi c : Char} (h : lo ≤ c ∧ c ≤ hi)
    (hall : ∀ n ≤ hi.toNat, lo.toNat ≤ n → P (Char.ofNat n)) : P c := by
  rw [← Char.ofNat_toNat c]
  exact hall c.toNat h.2 h.1

/-- What tells no capital letter from its small letter tells none of them apart. -/
theorem apply_toLower {α : Type} {f : Char → α}
    (h : ∀ n ≤ 'Z'.toNat, 'A'.toNat ≤ n → f (Char.ofNat n).toLower = f (Char.ofNat n)) (c : Char) :
    f c.toLower = f c := by
  by_cases hupper : c.isUpper = true
  · have hrange : 'A' ≤ c ∧ c ≤ 'Z' := by simpa [Char.isUpper, Char.le_def] using hupper
    exact of_between (P := fun c => f c.toLower = f c) hrange h
  · rw [Char.toLower_eq_of_not_isUpper hupper]

theorem toNat_toLower_of_isUpper {c : Char} (h : c.isUpper = true) :
    c.toLower.toNat = c.toNat + 32 := by
  have hrange : 'A' ≤ c ∧ c ≤ 'Z' := by simpa [Char.isUpper, Char.le_def] using h
  exact of_between (P := fun c => c.toLower.toNat = c.toNat + 32) hrange (by decide)

theorem IsDigit.digit?_eq {base d : Nat} {c : Char} (hbase : base ≤ 16) (h : IsDigit base d c) :
    digit? base c = some d := by
  obtain ⟨hlt, hlower⟩ := h
  by_cases hupper : c.isUpper = true
  · have hd : d < 16 := hlt.trans_le hbase
    have hc : c = Char.ofNat (d.digitChar.toNat - 32) := by
      rw [← hlower, toNat_toLower_of_isUpper hupper, Nat.add_sub_cancel, Char.ofNat_toNat]
    subst hc
    -- Only the letters among the digits have an upper case.
    revert hupper
    clear hlower
    interval_cases d <;> simp [digit?, Nat.digitChar, hlt]
  · rw [Char.toLower_eq_of_not_isUpper hupper] at hlower
    rw [hlower]
    exact digit?_digitChar hbase hlt

theorem isDigit_of_digit? {base d : Nat} {c : Char} (h : digit? base c = some d) :
    IsDigit base d c := by
  rw [digit?, Option.filter_eq_some_iff] at h
  obtain ⟨hvalue, hlt⟩ := h
  refine ⟨by simpa using hlt, ?_⟩
  simp only [Bool.and_eq_true, decide_eq_true_eq] at hvalue
  split at hvalue
  · next hc =>
      obtain rfl := Option.some.inj hvalue
      exact of_between (P := fun c => c.toLower = Nat.digitChar (c.toNat - 48)) hc (by decide)
  · split at hvalue
    · next hc =>
        obtain rfl := Option.some.inj hvalue
        exact of_between (P := fun c => c.toLower = Nat.digitChar (c.toNat - 97 + 10)) hc
          (by decide)
    · split at hvalue
      · next hc =>
          obtain rfl := Option.some.inj hvalue
          exact of_between (P := fun c => c.toLower = Nat.digitChar (c.toNat - 65 + 10)) hc
            (by decide)
      · cases hvalue

/-- Digits behind digits of value `high` are read as the number that all of them denote. -/
theorem valueFrom?_eq_some_iff {base high n : Nat} {cs : List Char} (hbase : base ≤ 16) :
    valueFrom? base high cs = some n ↔
      ∃ ds, List.Forall₂ (IsDigit base) ds cs ∧ Nat.ofDigits base (high :: ds).reverse = n := by
  induction cs generalizing high with
  | nil => simp [valueFrom?]
  | cons c cs ih =>
      have hshift (d : Nat) (ds : List Nat) :
          Nat.ofDigits base ((base * high + d) :: ds).reverse =
            Nat.ofDigits base (high :: d :: ds).reverse := by
        simp only [Nat.ofDigits_reverse_cons, List.length_cons]
        ring
      rw [valueFrom?]
      constructor
      · intro h
        split at h
        · next d hd =>
            obtain ⟨ds, hds, hn⟩ := ih.mp h
            exact ⟨d :: ds, .cons (isDigit_of_digit? hd) hds, by rw [← hshift, hn]⟩
        · cases h
      · rintro ⟨_, h, hn⟩
        obtain ⟨d, ds, hd, hds, rfl⟩ := List.forall₂_cons_right_iff.mp h
        rw [hd.digit?_eq hbase]
        exact ih.mpr ⟨ds, hds, by rw [hshift, hn]⟩

theorem value?_eq_some_iff {base n : Nat} {cs : List Char} (hbase : base ≤ 16) :
    value? base cs = some n ↔ Denotes base cs n := by
  rw [value?, Denotes]
  split
  · next hnil => simp [List.isEmpty_iff.mp hnil]
  · next hne =>
      rw [valueFrom?_eq_some_iff hbase]
      simp [List.isEmpty_iff.not.mp hne]

/-- Capital letters are letters. -/
theorem isAlphanum_of_toLower {c : Char} (h : c.toLower.isAlphanum = true) :
    c.isAlphanum = true := by
  rwa [apply_toLower (f := Char.isAlphanum) (by decide)] at h

theorem IsDigit.isAlphanum {base d : Nat} {c : Char} (hbase : base ≤ 16) (h : IsDigit base d c) :
    c.isAlphanum = true := by
  have hdigit : ∀ d < 16, d.digitChar.isAlphanum = true := by decide
  apply isAlphanum_of_toLower
  rw [h.toLower]
  exact hdigit d (h.lt.trans_le hbase)

/-- Decimal digits are the ten digits of ASCII. -/
theorem IsDigit.isDigit {d : Nat} {c : Char} (h : IsDigit 10 d c) : c.isDigit = true := by
  have hdigits : ∀ d < 10, d.digitChar.isDigit = true ∧ d.digitChar.isAlpha = false := by decide
  have hdigit := hdigits d h.lt
  rw [← h.toLower, Char.isAlpha_toLower_eq_isAlpha, Char.isAlpha, Bool.or_eq_false_iff] at hdigit
  rw [Char.toLower_eq_of_not_isUpper (by simp [hdigit])] at hdigit
  exact hdigit.1

theorem Denotes.exists_isDigit {base n : Nat} {cs : List Char} (h : Denotes base cs n) :
    ∀ c ∈ cs, ∃ d, IsDigit base d c := by
  obtain ⟨-, ds, hds, -⟩ := h
  induction hds with
  | nil => exact fun c hc => absurd hc List.not_mem_nil
  | cons hd _ ih => exact List.forall_mem_cons.mpr ⟨⟨_, hd⟩, ih⟩

theorem Denotes.isDigit {n : Nat} {cs : List Char} (h : Denotes 10 cs n) :
    ∀ c ∈ cs, c.isDigit = true := by
  intro c hc
  obtain ⟨d, hd⟩ := h.exists_isDigit c hc
  exact hd.isDigit

/-! ## Digits of a number -/

theorem denotes_toDigits {base : Nat} (hbase : 1 < base) (hle : base ≤ 16) (n : Nat) :
    Denotes base (Nat.toDigits base n) n :=
  (value?_eq_some_iff hle).mp (value?_toDigits hbase hle n)

theorem Denotes.zeros_append {base n : Nat} {cs : List Char} (hbase : 0 < base)
    (h : Denotes base cs n) (k : Nat) : Denotes base (List.replicate k '0' ++ cs) n := by
  obtain ⟨hne, ds, hds, hn⟩ := h
  have hzeros : List.Forall₂ (IsDigit base) (List.replicate k 0) (List.replicate k '0') := by
    induction k with
    | zero => exact .nil
    | succ k ih => exact .cons ⟨hbase, rfl⟩ ih
  refine ⟨List.append_ne_nil_of_right_ne_nil _ hne, List.replicate k 0 ++ ds, ?_, ?_⟩
  · exact List.rel_append hzeros hds
  · rw [List.reverse_append, List.reverse_replicate, Nat.ofDigits_append_replicate_zero, hn]

theorem Denotes.of_map_toLower {base n : Nat} {cs : List Char}
    (h : Denotes base (cs.map Char.toLower) n) : Denotes base cs n := by
  obtain ⟨hne, ds, hds, hn⟩ := h
  refine ⟨fun hnil => hne (by rw [hnil]; rfl), ds, ?_, hn⟩
  refine (List.forall₂_map_right_iff.mp hds).imp fun d c hd => ⟨hd.lt, ?_⟩
  rw [← Char.toLower_toLower_eq_toLower, hd.toLower]

/-! ## Marks -/

/-- What stands in front of the digits of a base. -/
inductive IsMark : List Char → Nat → Prop
  | hexadecimal : IsMark ['0', 'x'] 16
  | hexadecimalUpper : IsMark ['0', 'X'] 16
  | binary : IsMark ['0', 'b'] 2
  | binaryUpper : IsMark ['0', 'B'] 2
  | decimal : IsMark [] 10

theorem IsMark.base_bounds {mark : List Char} {base : Nat} (h : IsMark mark base) :
    1 < base ∧ base ≤ 16 := by
  cases h <;> decide

/-- The text is a mark and digits of its base, and denotes `n`. -/
inductive IsMagnitude : List Char → Nat → Prop
  | intro {mark digits : List Char} {base n : Nat} (hmark : IsMark mark base)
      (hdigits : Denotes base digits n) : IsMagnitude (mark ++ digits) n

theorem IsMagnitude.isAlphanum {cs : List Char} {n : Nat} (h : IsMagnitude cs n) :
    ∀ c ∈ cs, c.isAlphanum = true := by
  cases h with
  | @intro mark digits base n hmark hdigits =>
      have halphanum : ∀ c ∈ digits, c.isAlphanum = true := fun c hc => by
        obtain ⟨d, hd⟩ := hdigits.exists_isDigit c hc
        exact hd.isAlphanum hmark.base_bounds.2
      cases hmark with
      | decimal => exact halphanum
      | _ => exact List.forall_mem_cons.mpr ⟨rfl, List.forall_mem_cons.mpr ⟨rfl, halphanum⟩⟩

theorem IsMagnitude.magnitude?_eq {cs : List Char} {n : Nat} (h : IsMagnitude cs n) :
    magnitude? cs = some n := by
  cases h with
  | intro hmark hdigits =>
      have hvalue := (value?_eq_some_iff hmark.base_bounds.2).mpr hdigits
      cases hmark with
      | decimal => rwa [List.nil_append, magnitude?_of_isDigit hdigits.isDigit]
      | _ => exact hvalue

theorem isMagnitude_of_magnitude? {cs : List Char} {n : Nat} (h : magnitude? cs = some n) :
    IsMagnitude cs n := by
  have hread {mark digits : List Char} {base : Nat} (hmark : IsMark mark base)
      (hvalue : value? base digits = some n) : IsMagnitude (mark ++ digits) n :=
    .intro hmark ((value?_eq_some_iff hmark.base_bounds.2).mp hvalue)
  unfold magnitude? at h
  split at h
  · simp only [Bool.or_eq_true, decide_eq_true_eq] at h
    split at h
    · next hc =>
        rcases hc with rfl | rfl
        · exact hread .hexadecimal h
        · exact hread .hexadecimalUpper h
    · split at h
      · next hc =>
          rcases hc with rfl | rfl
          · exact hread .binary h
          · exact hread .binaryUpper h
      · exact hread .decimal h
  · exact hread .decimal h

/-! ## Signs -/

/-- What stands in front of a literal with the sign. -/
inductive IsSign : List Char → Int → Prop
  | minus : IsSign ['-'] (-1)
  | plus : IsSign ['+'] 1
  | absent : IsSign [] 1

/-- The text is an integer literal and denotes `x`. -/
inductive IsLiteral : List Char → Int → Prop
  | intro {sign cs : List Char} {s : Int} {n : Nat} (hsign : IsSign sign s)
      (hmagnitude : IsMagnitude cs n) : IsLiteral (sign ++ cs) (s * n)

/-- No sign is taken off a literal without one. -/
theorem IsMagnitude.ne_sign_cons {cs rest : List Char} {n : Nat} {c : Char} (h : IsMagnitude cs n)
    (hc : c.isAlphanum = false) : cs ≠ c :: rest := by
  rintro rfl
  have halphanum := h.isAlphanum c List.mem_cons_self
  rw [hc] at halphanum
  cases halphanum

theorem IsLiteral.trim_eq {cs : List Char} {x : Int} (h : IsLiteral cs x) : trim cs = cs := by
  cases h with
  | @intro sign cs s n hsign hmagnitude =>
      have hsolid : ∀ c ∈ cs, isBlank c = false := fun c hc =>
        Text.isBlank_of_isPlain (by rw [Text.isPlain, hmagnitude.isAlphanum c hc, Bool.true_or])
      apply Text.trim_of_solid
      cases hsign with
      | absent => exact hsolid
      | _ => exact List.forall_mem_cons.mpr ⟨rfl, hsolid⟩

theorem literal?_eq_some_iff {cs : List Char} {x : Int} :
    literal? cs = some x ↔ IsLiteral (trim cs) x := by
  constructor
  · intro h
    have hsigned {rest : List Char} {f : Int → Int}
        (hrest : (do let n ← magnitude? rest; pure (n : Int)).map f = some x) :
        ∃ n : Nat, IsMagnitude rest n ∧ f n = x := by
      obtain ⟨_, hbind, hx⟩ := Option.map_eq_some_iff.mp hrest
      obtain ⟨n, hn, heq⟩ := Option.bind_eq_some_iff.mp hbind
      exact ⟨n, isMagnitude_of_magnitude? hn, by rw [Option.some.inj heq, hx]⟩
    unfold literal? at h
    split at h
    · next heq =>
        obtain ⟨n, hn, rfl⟩ := hsigned h
        rw [heq, ← neg_one_mul]
        exact .intro .minus hn
    · next heq =>
        obtain ⟨n, hn, rfl⟩ := hsigned h
        rw [heq, ← one_mul (n : Int)]
        exact .intro .plus hn
    · obtain ⟨n, hn, rfl⟩ := hsigned h
      rw [← one_mul (n : Int)]
      exact .intro .absent hn
  · intro h
    unfold literal?
    generalize trim cs = text at h
    cases h with
    | intro hsign hmagnitude =>
        have hread := hmagnitude.magnitude?_eq
        cases hsign with
        | minus => simp [hread]
        | plus => simp [hread]
        | absent =>
            split
            · next heq => exact absurd heq (hmagnitude.ne_sign_cons rfl)
            · next heq => exact absurd heq (hmagnitude.ne_sign_cons rfl)
            · simp [hread]

theorem IsLiteral.literal?_eq {cs : List Char} {x : Int} (h : IsLiteral cs x) :
    literal? cs = some x := by
  rw [literal?_eq_some_iff, h.trim_eq]
  exact h

/-! ## Numbers as they are written -/

/-- The decimal text of an integer is a literal of it. -/
theorem literal?_toString (x : Int) : literal? (toString x).toList = some x := by
  have hdigits (n : Nat) : IsMagnitude n.repr.toList n := by
    rw [Nat.toList_repr]
    exact .intro .decimal (denotes_toDigits (by decide) (by decide) n)
  cases x with
  | ofNat n =>
      have hliteral := IsLiteral.intro .absent (hdigits n)
      rw [one_mul] at hliteral
      exact hliteral.literal?_eq
  | negSucc n =>
      have hliteral := IsLiteral.intro .minus (hdigits (n + 1))
      rw [neg_one_mul] at hliteral
      change literal? ("-" ++ (n + 1).repr).toList = _
      rw [String.toList_append]
      exact hliteral.literal?_eq

/-- The hexadecimal text of a number is a literal of it. -/
theorem literal?_hex (n : Nat) : literal? ('0' :: 'x' :: Nat.toDigits 16 n) = some (n : Int) := by
  have hdigits : Denotes 16 (Nat.toDigits 16 n) n :=
    denotes_toDigits (by decide) (by decide) n
  have hliteral := IsLiteral.intro .absent (.intro .hexadecimal hdigits)
  rw [one_mul] at hliteral
  exact hliteral.literal?_eq

/-- A number of ten digits at most is read from its decimal text. -/
theorem readLiteral_toString {x : Int} (hx : x.natAbs < 10 ^ 10) :
    readLiteral (toString x).toList = .ok (some x) := by
  have hlimit : Text.digitLimit = 4300 := rfl
  apply readLiteral_eq_ok (literal?_toString x)
  cases x with
  | ofNat n =>
      have hlen := (Nat.length_toDigits_le_iff (b := 10) (by decide) (by decide)).mpr hx
      change n.repr.toList.length ≤ _
      rw [Nat.toList_repr]
      exact hlen.trans (by omega)
  | negSucc n =>
      have hlen := (Nat.length_toDigits_le_iff (b := 10) (by decide) (by decide)).mpr hx
      change (Nat.toDigits 10 (n + 1)).length ≤ 10 at hlen
      change ("-" ++ (n + 1).repr).toList.length ≤ _
      rw [String.toList_append, List.length_append, Nat.toList_repr]
      change 1 + (Nat.toDigits 10 (n + 1)).length ≤ _
      omega

/-- A number of ten digits at most is read from its hexadecimal text. -/
theorem readLiteral_hex {n : Nat} (hn : n < 16 ^ 10) :
    readLiteral ('0' :: 'x' :: Nat.toDigits 16 n) = .ok (some (n : Int)) := by
  have hlimit : Text.digitLimit = 4300 := rfl
  have hlen := (Nat.length_toDigits_le_iff (b := 16) (by decide) (by decide)).mpr hn
  apply readLiteral_eq_ok (literal?_hex n)
  rw [List.length_cons, List.length_cons]
  omega

/-! ## Too many digits -/

/-- The text is a literal in base ten with more digits than are read, namely `k`. -/
inductive IsOverlong : List Char → Nat → Prop
  | intro {sign digits : List Char} {s : Int} {n : Nat} (hsign : IsSign sign s)
      (hdigits : Denotes 10 digits n) (hmany : Text.digitLimit < digits.length) :
      IsOverlong (sign ++ digits) digits.length

/-- The digits are counted in base ten only. -/
theorem decimalDigits_of_trim {cs sign mark digits : List Char} {s : Int} {base n : Nat}
    (htrim : trim cs = sign ++ (mark ++ digits)) (hsign : IsSign sign s) (hmark : IsMark mark base)
    (hdigits : Denotes base digits n) : decimalDigits cs = if base = 10 then digits else [] := by
  have hmagnitude := IsMagnitude.intro hmark hdigits
  unfold decimalDigits
  extract_lets unsigned
  have hunsigned : unsigned = mark ++ digits := by
    unfold unsigned
    rw [htrim]
    cases hsign with
    | minus => rfl
    | plus => rfl
    | absent =>
        split
        · next heq => exact absurd heq (hmagnitude.ne_sign_cons rfl)
        · next heq => exact absurd heq (hmagnitude.ne_sign_cons rfl)
        · rfl
  rw [hunsigned]
  cases hmark with
  | decimal =>
      have hdigit := hdigits.isDigit
      rw [List.nil_append, if_pos rfl]
      split
      · next c _ => rw [if_pos (hdigit c (by simp))]
      · rfl
  | _ => rfl

theorem readLiteral_of_trim {cs sign mark digits : List Char} {s : Int} {base n : Nat}
    (htrim : trim cs = sign ++ (mark ++ digits)) (hsign : IsSign sign s) (hmark : IsMark mark base)
    (hdigits : Denotes base digits n) :
    readLiteral cs =
      if base = 10 ∧ Text.digitLimit < digits.length then .error (.read digits.length)
      else .ok (some (s * n)) := by
  have hx : literal? cs = some (s * n) := by
    rw [literal?_eq_some_iff, htrim]
    exact .intro hsign (.intro hmark hdigits)
  simp only [readLiteral, hx, decimalDigits_of_trim htrim hsign hmark hdigits]
  by_cases hbase : base = 10
  · simp [hbase]
  · simp [hbase]

theorem readLiteral_eq_error_iff {cs : List Char} {e : Text.Excess} :
    readLiteral cs = .error e ↔ ∃ k, IsOverlong (trim cs) k ∧ e = .read k := by
  constructor
  · intro h
    cases hx : literal? cs with
    | none => simp [readLiteral, hx] at h
    | some x =>
        have hliteral := literal?_eq_some_iff.mp hx
        generalize htrim : trim cs = text at hliteral ⊢
        obtain ⟨hsign, hmark, hdigits⟩ := hliteral
        rw [readLiteral_of_trim htrim hsign hmark hdigits] at h
        split at h
        · next hmany =>
            obtain rfl := Except.error.inj h
            obtain ⟨rfl, hmany⟩ := hmany
            cases hmark with
            | decimal => exact ⟨_, .intro hsign hdigits hmany, rfl⟩
        · cases h
  · rintro ⟨_, hoverlong, rfl⟩
    generalize htrim : trim cs = text at hoverlong
    obtain ⟨hsign, hdigits, hmany⟩ := hoverlong
    exact (readLiteral_of_trim htrim hsign .decimal hdigits).trans (if_pos ⟨rfl, hmany⟩)

/-- Integer literals, and no other texts, are read as the numbers that they denote.  A number is
read back from its digits in each base, whatever their case and with any number of zeros before
them.  The limit on decimal digits refuses literals that are too long and changes nothing else. -/
theorem literals_read_exactly :
    (∀ cs x, literal? cs = some x ↔ IsLiteral (trim cs) x) ∧
      (∀ (x : Int) (k : Nat) {sign mark digits : List Char} {s : Int} {base : Nat},
        IsSign sign s → s * x.natAbs = x → IsMark mark base →
        digits.map Char.toLower = List.replicate k '0' ++ Nat.toDigits base x.natAbs →
        literal? (sign ++ (mark ++ digits)) = some x) ∧
      (∀ cs e, readLiteral cs = .error e ↔ ∃ k, IsOverlong (trim cs) k ∧ e = .read k) ∧
      ∀ cs x?, readLiteral cs = .ok x? → x? = literal? cs := by
  refine ⟨fun _ _ => literal?_eq_some_iff, ?_, fun _ _ => readLiteral_eq_error_iff,
    fun _ _ h => (literal?_of_readLiteral h).symm⟩
  intro x k sign mark digits s base hsign hx hmark hdigits
  obtain ⟨hlt, hle⟩ := hmark.base_bounds
  have hlower : Denotes base (digits.map Char.toLower) x.natAbs := by
    rw [hdigits]
    exact (denotes_toDigits hlt hle x.natAbs).zeros_append (Nat.zero_lt_of_lt hlt) k
  have hliteral := IsLiteral.intro hsign (.intro hmark hlower.of_map_toLower)
  rw [hx] at hliteral
  exact hliteral.literal?_eq

theorem literals_read_exactly_hexadecimal :
    literal? "-0X00fF".toList = some (-255) ∧ ∀ x, ¬ IsLiteral (trim " +0b12 ".toList) x := by
  refine ⟨literals_read_exactly.2.1 (-255) 2 .minus (by decide) .hexadecimalUpper (by decide),
    fun x hx => ?_⟩
  have hnone : literal? " +0b12 ".toList = none := by decide
  have hsome := (literals_read_exactly.1 _ x).mpr hx
  rw [hnone] at hsome
  cases hsome

end Rv32.Assembly
