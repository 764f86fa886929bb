import Mathlib
import Rv32.Alu

/-!
# Arithmetic on 32-bit words

The machine keeps words as integers, in a signed or an unsigned view.  Here the views are those of
bit vectors, and what the arithmetic unit makes of two integers is what `AluOp.onWords` makes of
their words.

The operands of the arithmetic unit may be any integers; only their words count.  The result is the
signed view of what the operation makes of the two words, and the flags are told here without words:
overflow and carry compare an exact sum or difference with the range of a view.  The rule of signs,
by which the unit finds an overflow, never asks for that sum.
-/

namespace Rv32

namespace Word

/-! ## Views -/

theorem signed_eq_toInt (x : Int) : signed x = (BitVec.ofInt 32 x).toInt := by
  rw [BitVec.toInt_ofInt]
  rfl

theorem unsigned_eq_toNat (x : Int) : unsigned x = ((BitVec.ofInt 32 x).toNat : Int) := by
  rw [BitVec.toNat_ofInt, unsigned]
  omega

@[simp] theorem ofInt_signed (x : Int) : BitVec.ofInt 32 (signed x) = BitVec.ofInt 32 x := by
  rw [signed_eq_toInt, BitVec.ofInt_toInt]

@[simp] theorem signed_toInt (x : BitVec 32) : signed x.toInt = x.toInt := by
  rw [signed_eq_toInt, BitVec.ofInt_toInt]

theorem signed_natCast_toNat (x : BitVec 32) : signed (x.toNat : Int) = x.toInt := by
  rw [signed_eq_toInt, BitVec.ofInt_natCast, BitVec.ofNat_toNat, BitVec.setWidth_eq]

theorem ofInt_shiftLeft (x : Int) (n : Nat) :
    BitVec.ofInt 32 (x <<< n) = BitVec.ofInt 32 x <<< n := by
  have hpow : BitVec.ofInt 32 (2 ^ n) = BitVec.twoPow 32 n := by
    rw [← BitVec.toNat_inj, BitVec.toNat_twoPow]
    norm_cast
  rw [Int.shiftLeft_eq, BitVec.ofInt_mul, BitVec.shiftLeft_eq_mul_twoPow, ← hpow]

theorem ofBool_eq_toInt (b : Bool) :
    ofBool b = (if b then 1#32 else 0#32 : BitVec 32).toInt := by
  cases b <;> rfl

end Word

/-! ## The arithmetic unit -/

/-- What an operation makes of two words. -/
def AluOp.onWords (op : AluOp) (a b : BitVec 32) : BitVec 32 :=
  match op with
  | add => a + b
  | sub => a - b
  | and => a &&& b
  | or => a ||| b
  | xor => a ^^^ b
  | sll => a <<< (b.toNat % 32)
  | srl => a >>> (b.toNat % 32)
  | sra => a.sshiftRight (b.toNat % 32)
  | slt => if a.slt b then 1 else 0
  | sltu => if a.ult b then 1 else 0
  | seq => if a = b then 1 else 0

theorem shiftAmount_signed (x : Int) :
    shiftAmount (Word.signed x) = (BitVec.ofInt 32 x).toNat % 32 := by
  have hmod : Word.signed x % 32 = x % 32 := by
    rw [Word.signed_eq_ite]
    split <;> omega
  rw [shiftAmount, hmod, BitVec.toNat_ofInt]
  omega

/-- The result of the arithmetic unit is the signed view of the result on words. -/
theorem AluOp.value_execute (op : AluOp) (a b : Int) :
    (op.execute a b).value = (op.onWords (BitVec.ofInt 32 a) (BitVec.ofInt 32 b)).toInt := by
  change op.apply (Word.signed a) (Word.signed b) = _
  cases op with
  | add => rw [apply, onWords, Word.signed_eq_toInt, BitVec.ofInt_add, Word.ofInt_signed,
      Word.ofInt_signed]
  | sub =>
      rw [apply, onWords, Word.signed_eq_toInt a, Word.signed_eq_toInt b]
      exact BitVec.toInt_sub.symm
  | and => rw [apply, onWords, Word.ofInt_signed, Word.ofInt_signed]
  | or => rw [apply, onWords, Word.ofInt_signed, Word.ofInt_signed]
  | xor => rw [apply, onWords, Word.ofInt_signed, Word.ofInt_signed]
  | sll =>
      rw [apply, onWords, shiftAmount_signed, Word.signed_eq_toInt, Word.ofInt_shiftLeft,
        Word.ofInt_signed]
  | srl =>
      rw [apply, onWords, shiftAmount_signed, Word.unsigned_signed, Word.unsigned_eq_toNat,
        ← Int.natCast_shiftRight, ← BitVec.toNat_ushiftRight, Word.signed_natCast_toNat]
  | sra =>
      rw [apply, onWords, shiftAmount_signed, Word.signed_eq_toInt a, ← BitVec.toInt_sshiftRight,
        Word.signed_toInt]
  | slt =>
      rw [apply, onWords, Word.ofBool_eq_toInt, Word.signed_eq_toInt, Word.signed_eq_toInt,
        ← BitVec.slt_eq_decide]
      rfl
  | sltu =>
      rw [apply, onWords, Word.ofBool_eq_toInt, Word.unsigned_signed, Word.unsigned_signed]
      simp only [Word.unsigned_eq_toNat, Nat.cast_lt, BitVec.ult_eq_decide]
      rfl
  | seq =>
      rw [apply, onWords, Word.ofBool_eq_toInt, Word.signed_eq_toInt, Word.signed_eq_toInt]
      simp only [BitVec.toInt_inj, decide_eq_true_eq]
      rfl

/-! ## Comparisons as truth values -/

@[simp] theorem AluOp.seq_ne_zero (a b : BitVec 32) : (seq.onWords a b != 0) = (a == b) := by
  by_cases h : a = b <;> simp [onWords, h]

@[simp] theorem AluOp.slt_ne_zero (a b : BitVec 32) : (slt.onWords a b != 0) = a.slt b := by
  cases h : a.slt b <;> simp [onWords, h]

@[simp] theorem AluOp.sltu_ne_zero (a b : BitVec 32) : (sltu.onWords a b != 0) = a.ult b := by
  cases h : a.ult b <;> simp [onWords, h]

/-! ## Bits -/

namespace Word

/-- The word of an integer holds the 32 lowest bits of it. -/
theorem getLsbD_ofInt (x : Int) {i : Nat} (hi : i < 32) :
    (BitVec.ofInt 32 x).getLsbD i = x.testBit i := by
  cases x with
  | ofNat n =>
      change (BitVec.ofInt 32 (n : Int)).getLsbD i = n.testBit i
      rw [BitVec.ofInt_natCast, BitVec.getLsbD_ofNat]
      simp [hi]
  | negSucc n =>
      rw [BitVec.ofInt_negSucc_eq_not_ofNat, BitVec.getLsbD_not, BitVec.getLsbD_ofNat]
      simp [hi, Int.testBit]

theorem testBit_toInt (w : BitVec 32) {i : Nat} (hi : i < 32) :
    w.toInt.testBit i = w.getLsbD i := by
  rw [← getLsbD_ofInt _ hi, BitVec.ofInt_toInt]

/-- Integers with the same residue have the same signed view. -/
theorem signed_congr {a b : Int} (h : a % 4294967296 = b % 4294967296) : signed a = signed b := by
  rw [signed_eq_ite, signed_eq_ite, h]

end Word

/-! ## Flags -/

namespace AluOp

/-- The exact sum or difference of the signed operands lies outside the signed view. -/
def LeavesSigned (op : AluOp) (a b : Int) : Prop :=
  match op with
  | add => ¬ (-2147483648 ≤ Word.signed a + Word.signed b ∧
      Word.signed a + Word.signed b < 2147483648)
  | sub => ¬ (-2147483648 ≤ Word.signed a - Word.signed b ∧
      Word.signed a - Word.signed b < 2147483648)
  | _ => False

/-- The exact sum of the unsigned operands is too great for a word, or their difference is
negative. -/
def LeavesUnsigned (op : AluOp) (a b : Int) : Prop :=
  match op with
  | add => 4294967296 ≤ Word.unsigned a + Word.unsigned b
  | sub => Word.unsigned a - Word.unsigned b < 0
  | _ => False

/-- What a logical operation makes of two bits. -/
def onBits? : AluOp → Option (Bool → Bool → Bool)
  | and => some Bool.and
  | or => some Bool.or
  | xor => some Bool.xor
  | _ => none

/-- The rule of signs finds the sums and differences that leave the signed view. -/
theorem overflow_execute (op : AluOp) (a b : Int) :
    (op.execute a b).overflow = true ↔ op.LeavesSigned a b := by
  have hge := Word.signed_ge a
  have hlt := Word.signed_lt a
  have hge' := Word.signed_ge b
  have hlt' := Word.signed_lt b
  cases op with
  | add =>
      simp only [execute, apply, overflows, LeavesSigned, Bool.and_eq_true, beq_iff_eq,
        bne_iff_ne, ne_eq, decide_eq_decide, Word.signed_eq_ite (Word.signed a + Word.signed b)]
      split <;> omega
  | sub =>
      simp only [execute, apply, overflows, LeavesSigned, Bool.and_eq_true, bne_iff_ne, ne_eq,
        decide_eq_decide, Word.signed_eq_ite (Word.signed a - Word.signed b)]
      split <;> omega
  | _ => exact iff_of_false Bool.false_ne_true id

theorem carry_execute (op : AluOp) (a b : Int) :
    (op.execute a b).carry = true ↔ op.LeavesUnsigned a b := by
  cases op with
  | add =>
      simp only [execute, carries, LeavesUnsigned, Word.unsigned_signed, decide_eq_true_eq]
      omega
  | sub =>
      simp only [execute, carries, LeavesUnsigned, Word.unsigned_signed, decide_eq_true_eq]
      omega
  | _ => exact iff_of_false Bool.false_ne_true id

/-! ## Results -/

/-- A logical operation works bit by bit. -/
theorem getLsbD_onWords {op : AluOp} {f : Bool → Bool → Bool} (hf : op.onBits? = some f)
    (a b : BitVec 32) (i : Nat) : (op.onWords a b).getLsbD i = f (a.getLsbD i) (b.getLsbD i) := by
  cases op with
  | and =>
      obtain rfl := Option.some.inj hf
      exact BitVec.getLsbD_and
  | or =>
      obtain rfl := Option.some.inj hf
      exact BitVec.getLsbD_or
  | xor =>
      obtain rfl := Option.some.inj hf
      exact BitVec.getLsbD_xor
  | _ => cases hf

theorem testBit_value_execute {op : AluOp} {f : Bool → Bool → Bool} (hf : op.onBits? = some f)
    (a b : Int) {i : Nat} (hi : i < 32) :
    (op.execute a b).value.testBit i = f (a.testBit i) (b.testBit i) := by
  rw [value_execute, Word.testBit_toInt _ hi, getLsbD_onWords hf, Word.getLsbD_ofInt a hi,
    Word.getLsbD_ofInt b hi]

theorem value_execute_range (op : AluOp) (a b : Int) :
    -2147483648 ≤ (op.execute a b).value ∧ (op.execute a b).value < 2147483648 := by
  rw [value_execute]
  exact ⟨BitVec.le_toInt _, BitVec.toInt_lt⟩

/-- Only the words of the operands count. -/
theorem execute_congr (op : AluOp) {a a' b b' : Int} (ha : a' % 4294967296 = a % 4294967296)
    (hb : b' % 4294967296 = b % 4294967296) : op.execute a' b' = op.execute a b := by
  simp only [execute, Word.signed_congr ha, Word.signed_congr hb]

end AluOp

/-- What the arithmetic unit reports is exact: the result is the signed view of what the operation
makes of the two words, bit by bit where it is a logical one; zero and negative describe the
result, and overflow and carry say that an exact sum or difference left its view. -/
structure AluResult.Exact (op : AluOp) (a b : Int) (r : AluResult) : Prop where
  value : r.value = (op.onWords (BitVec.ofInt 32 a) (BitVec.ofInt 32 b)).toInt
  bits : ∀ f, op.onBits? = some f → ∀ i < 32, r.value.testBit i = f (a.testBit i) (b.testBit i)
  range : -2147483648 ≤ r.value ∧ r.value < 2147483648
  zero : r.zero = true ↔ r.value = 0
  negative : r.negative = true ↔ r.value < 0
  overflow : r.overflow = true ↔ op.LeavesSigned a b
  carry : r.carry = true ↔ op.LeavesUnsigned a b

/-- The arithmetic unit is exact for all integers, and integers with the same residues modulo
`2 ^ 32` give the same result and the same flags. -/
theorem AluOp.execute_exact (op : AluOp) (a b : Int) :
    (op.execute a b).Exact op a b ∧
      ∀ a' b', a' % 4294967296 = a % 4294967296 → b' % 4294967296 = b % 4294967296 →
        op.execute a' b' = op.execute a b := by
  constructor
  · exact
      { value := op.value_execute a b
        bits := fun _ hf _ hi => testBit_value_execute hf a b hi
        range := op.value_execute_range a b
        zero := decide_eq_true_iff
        negative := decide_eq_true_iff
        overflow := op.overflow_execute a b
        carry := op.carry_execute a b }
  · exact fun _ _ => op.execute_congr

/-- The least word is taken from zero, and then from a number that has the word zero: there is no
such signed word, and the difference of the unsigned words is negative. -/
theorem AluOp.execute_exact_least :
    4294967296 % 4294967296 = (0 : Int) % 4294967296 ∧
      (sub.execute 0 (-2147483648)).Exact sub 0 (-2147483648) ∧
      sub.execute 4294967296 (-2147483648) = ⟨-2147483648, false, true, true, true⟩ := by
  obtain ⟨hexact, hcongr⟩ := sub.execute_exact 0 (-2147483648)
  refine ⟨rfl, hexact, ?_⟩
  rw [hcongr 4294967296 (-2147483648) rfl rfl]
  rfl

end Rv32
