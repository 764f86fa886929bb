import Mathlib
import Rv32.Instruction.Basic
import Rv32.Proofs.Word.Fields

/-!
# Canonical representatives

Each view of a word picks one number of every residue class: the one in an interval whose length
is the modulus.  The choice is usually made with masks and a test of the sign bit, on integers
with infinitely many bits; `maskedExtend` is that computation, and it is sign extension.
-/

namespace Rv32.Word

/-- `y` stands for the residue class of `x` modulo `2 ^ bits` among the numbers in `[lo, hi)`. -/
structure Represents (bits : Nat) (lo hi x y : Int) : Prop where
  ge : lo ≤ y
  lt : y < hi
  modEq : y ≡ x [ZMOD 2 ^ bits]

/-- The lowest `bits` bits of an integer, by a mask. -/
def lowBits (bits : Nat) (x : Int) : Int := Int.land x (2 ^ bits - 1)

/-- Sign extension by masks: the low bits, less the modulus where the sign bit is among them. -/
def maskedExtend (bits : Nat) (x : Int) : Int :=
  if Int.land (lowBits bits x) (2 ^ (bits - 1)) ≠ 0 then lowBits bits x - 2 ^ bits
  else lowBits bits x

variable {bits : Nat} {lo hi x y z : Int}

/-- An interval as long as the modulus has no two numbers of one class. -/
theorem Represents.unique (hlen : hi = lo + 2 ^ bits)
    (hy : Represents bits lo hi x y) (hz : Represents bits lo hi x z) : y = z := by
  have hdvd : (2 ^ bits : Int) ∣ y - z := (hz.modEq.trans hy.modEq.symm).dvd
  have hyz : y - z = 0 := by
    apply Int.eq_zero_of_abs_lt_dvd hdvd
    rw [abs_lt]
    have h₁ := hy.ge
    have h₂ := hy.lt
    have h₃ := hz.ge
    have h₄ := hz.lt
    constructor <;> linarith
  exact sub_eq_zero.mp hyz

theorem two_pow_eq_add (n : Nat) : (2 : Int) ^ n = -2 ^ n + 2 ^ (n + 1) := by
  rw [pow_succ]
  ring

theorem represents_signExtend (n : Nat) (x : Int) :
    Represents (n + 1) (-2 ^ n) (2 ^ n) x (signExtend (n + 1) x) where
  ge := signExtend_ge n x
  lt := signExtend_lt n x
  modEq := signExtend_emod (n + 1) x

theorem represents_unsigned (x : Int) : Represents 32 0 (2 ^ 32) x (unsigned x) where
  ge := unsigned_nonneg x
  lt := unsigned_lt x
  modEq := Int.mod_modEq x (2 ^ 32)

/-! ## Masks -/

theorem two_pow_sub_one_eq_natCast (n : Nat) : (2 ^ n - 1 : Int) = ((2 ^ n - 1 : Nat) : Int) := by
  have hpos := Nat.two_pow_pos n
  push_cast [Nat.cast_sub hpos]
  rfl

/-- The low bits of a complement are the complements of the low bits. -/
theorem ldiff_two_pow_sub_one (n m : Nat) : Nat.ldiff (2 ^ n - 1) m = 2 ^ n - (m % 2 ^ n + 1) := by
  apply Nat.eq_of_testBit_eq
  intro i
  rw [Nat.testBit_ldiff, Nat.testBit_two_pow_sub_one,
    Nat.testBit_two_pow_sub_succ (Nat.mod_lt m (Nat.two_pow_pos n)), Nat.testBit_mod_two_pow]
  by_cases hi : i < n <;> simp [hi]

/-- A mask of low bits takes the remainder, of negative integers as well. -/
theorem lowBits_eq_emod (n : Nat) (x : Int) : lowBits n x = x % 2 ^ n := by
  rw [lowBits, two_pow_sub_one_eq_natCast]
  cases x with
  | ofNat m =>
      have hmask : m &&& (2 ^ n - 1) = m % 2 ^ n := Nat.and_two_pow_sub_one_eq_mod m n
      calc Int.land (Int.ofNat m) ((2 ^ n - 1 : Nat) : Int)
          = ((m &&& (2 ^ n - 1) : Nat) : Int) := rfl
        _ = (m : Int) % 2 ^ n := by rw [hmask]; push_cast; rfl
  | negSucc m =>
      have hlt : m % 2 ^ n < 2 ^ n := Nat.mod_lt m (Nat.two_pow_pos n)
      calc Int.land (Int.negSucc m) ((2 ^ n - 1 : Nat) : Int)
          = (Nat.ldiff (2 ^ n - 1) m : Int) := rfl
        _ = 2 ^ n - 1 - (m : Int) % 2 ^ n := by
          rw [ldiff_two_pow_sub_one, Nat.cast_sub (by omega)]
          push_cast
          ring
        _ = Int.negSucc m % 2 ^ n := (Int.negSucc_emod m (by positivity)).symm

/-- Among the numbers below `2 ^ (n + 1)`, bit `n` tells the upper half. -/
theorem land_two_pow_ne_zero {n r : Nat} (hr : r < 2 ^ (n + 1)) :
    Int.land (r : Int) (2 ^ n) ≠ 0 ↔ 2 ^ n ≤ r := by
  have hland : Int.land (r : Int) (2 ^ n) = ((r &&& 2 ^ n : Nat) : Int) := by
    rw [show (2 : Int) ^ n = ((2 ^ n : Nat) : Int) by push_cast; rfl]
    rfl
  rw [hland, Nat.and_two_pow, Int.natCast_ne_zero]
  by_cases hle : 2 ^ n ≤ r
  · have hbit : r.testBit n = true := Nat.testBit_of_two_pow_le_and_two_pow_add_one_gt hle hr
    simp [hbit, hle]
  · have hbit : r.testBit n = false := Nat.testBit_lt_two_pow (by omega)
    simp [hbit, hle]

/-- Masks and a sign test compute the signed representative. -/
theorem represents_maskedExtend (n : Nat) (x : Int) :
    Represents (n + 1) (-2 ^ n) (2 ^ n) x (maskedExtend (n + 1) x) := by
  obtain ⟨r, hr⟩ : ∃ r : Nat, x % 2 ^ (n + 1) = r :=
    Int.eq_ofNat_of_zero_le (Int.emod_nonneg x (by positivity))
  have hlt : r < 2 ^ (n + 1) := by
    have h := Int.emod_lt_of_pos x (b := 2 ^ (n + 1)) (by positivity)
    rw [hr] at h
    exact_mod_cast h
  have hclass : (r : Int) ≡ x [ZMOD 2 ^ (n + 1)] := hr ▸ Int.mod_modEq x (2 ^ (n + 1))
  have hpow := two_pow_eq_add n
  rw [maskedExtend, lowBits_eq_emod, hr, Nat.add_sub_cancel]
  split
  · next hsign =>
    have hge : (2 : Int) ^ n ≤ r := by exact_mod_cast (land_two_pow_ne_zero hlt).mp hsign
    have hlt' : (r : Int) < 2 ^ (n + 1) := by exact_mod_cast hlt
    exact ⟨by linarith, by linarith, (Int.sub_modulus_modEq_iff.mpr hclass)⟩
  · next hsign =>
    have hlow : (r : Int) < 2 ^ n := by
      exact_mod_cast not_le.mp (mt (land_two_pow_ne_zero hlt).mpr hsign)
    have hneg : -(2 : Int) ^ n ≤ 0 := neg_nonpos.mpr (by positivity)
    exact ⟨hneg.trans (Int.natCast_nonneg r), hlow, hclass⟩

/-! ## The views -/

/-- Sign extension picks the only number of its class in the signed range. -/
theorem represents_signExtend_iff (hbits : 1 ≤ bits) :
    Represents bits (-2 ^ (bits - 1)) (2 ^ (bits - 1)) x y ↔ y = signExtend bits x := by
  obtain ⟨n, rfl⟩ := Nat.exists_eq_add_of_le' hbits
  rw [Nat.add_sub_cancel]
  constructor
  · intro hy
    exact hy.unique (two_pow_eq_add n) (represents_signExtend n x)
  · rintro rfl
    exact represents_signExtend n x

theorem represents_unsigned_iff : Represents 32 0 (2 ^ 32) x y ↔ y = unsigned x := by
  constructor
  · intro hy
    exact hy.unique (zero_add _).symm (represents_unsigned x)
  · rintro rfl
    exact represents_unsigned x

theorem extend_eq (hbits : 1 ≤ bits) (x : Int) : extend bits x = .ok (signExtend bits x) := by
  obtain ⟨n, rfl⟩ := Nat.exists_eq_add_of_le' hbits
  have hsign : bitCount ((n + 1 : Nat) - 1 : Int) = .ok n := by
    simp [bitCount]
  rw [extend, hsign]
  rfl

theorem signExtend_eq_maskedExtend (hbits : 1 ≤ bits) (x : Int) :
    signExtend bits x = maskedExtend bits x := by
  obtain ⟨n, rfl⟩ := Nat.exists_eq_add_of_le' hbits
  exact (represents_signExtend n x).unique (two_pow_eq_add n) (represents_maskedExtend n x)

/-- A wider extension keeps the low bits, so a narrower one after it sees the same class. -/
theorem signExtend_signExtend_of_le {n m : Nat} (hnm : n ≤ m) (x : Int) :
    signExtend n (signExtend m x) = signExtend n x := by
  simp only [signExtend_def]
  exact Int.bmod_bmod_of_dvd (Nat.pow_dvd_pow 2 hnm)

/-- A narrower extension lies in the wider range. -/
theorem signExtend_signExtend_of_ge {n m : Nat} (hn : 1 ≤ n) (hnm : n ≤ m) (x : Int) :
    signExtend m (signExtend n x) = signExtend n x := by
  obtain ⟨k, rfl⟩ := Nat.exists_eq_add_of_le' hn
  obtain ⟨l, rfl⟩ := Nat.exists_eq_add_of_le' (hn.trans hnm)
  have hkl : (2 : Int) ^ k ≤ 2 ^ l := pow_le_pow_right₀ (by decide) (by omega)
  have hge := signExtend_ge k x
  have hlt := signExtend_lt k x
  exact signExtend_eq_self (by linarith) (by linarith)

/-- For every integer `x` and all widths `1 ≤ n ≤ m`: sign extension, which is computed with masks,
gives the only number of `x`'s class in the signed range of the width; the signed view is its case
for 32 bits; the unsigned view is the only number of the class in `[0, 2 ^ 32)`; each view
determines the other; and of two extensions the narrower one decides. -/
theorem views_are_canonical (x : Int) {n m : Nat} (hn : 1 ≤ n) (hnm : n ≤ m) :
    extend n x = .ok (signExtend n x) ∧
    signExtend n x = maskedExtend n x ∧
    (∀ y, Represents n (-2 ^ (n - 1)) (2 ^ (n - 1)) x y ↔ y = signExtend n x) ∧
    extend 32 x = .ok (signed x) ∧
    (∀ y, Represents 32 0 (2 ^ 32) x y ↔ y = unsigned x) ∧
    unsigned (signed x) = unsigned x ∧
    signed (unsigned x) = signed x ∧
    signExtend n (signExtend m x) = signExtend n x ∧
    signExtend m (signExtend n x) = signExtend n x :=
  ⟨extend_eq hn x, signExtend_eq_maskedExtend hn x, fun _ => represents_signExtend_iff hn,
    extend_eq (by decide) x, fun _ => represents_unsigned_iff, unsigned_signed x,
    signed_unsigned x, signExtend_signExtend_of_le hnm x,
    signExtend_signExtend_of_ge hn hnm x⟩

/-- The views of `0x80000800`, whose lowest twelve bits are those of a negative number. -/
theorem views_are_canonical_of_negative :
    extend 12 2147485696 = .ok (-2048) ∧ extend 32 2147485696 = .ok (-2147481600) ∧
    signExtend 12 (signExtend 21 2147485696) = -2048 ∧
    (∀ y, Represents 12 (-2 ^ 11) (2 ^ 11) 2147485696 y ↔ y = -2048) := by
  have h := views_are_canonical 2147485696 (n := 12) (m := 21) (by decide) (by decide)
  have hvalue : signExtend 12 2147485696 = -2048 := by decide
  obtain ⟨hextend, -, hunique, hsigned, -, -, -, hnarrow, -⟩ := h
  rw [hvalue] at hextend hunique hnarrow
  exact ⟨hextend, hsigned, hnarrow, hunique⟩

end Rv32.Word
