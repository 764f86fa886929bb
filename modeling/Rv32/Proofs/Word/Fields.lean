import Mathlib
import Rv32.Word

/-!
# Fields as quotients and remainders

A field of a word is a remainder of a quotient by powers of two, and sign extension picks the
representative of a residue class that lies in the signed range.  With these two facts, questions
about the bits of an instruction word become linear arithmetic.
-/

namespace Rv32.Word

theorem field_eq_emod (low width : Nat) (w : Int) :
    field low width w = w / 2 ^ low % 2 ^ width := by
  rw [field_eq]
  push_cast [Nat.pow_eq]
  rfl

theorem field_range (low width : Nat) (w : Int) :
    0 ≤ field low width w ∧ field low width w < 2 ^ width := by
  rw [field_eq_emod]
  exact ⟨Int.emod_nonneg _ (by positivity), Int.emod_lt_of_pos _ (by positivity)⟩

theorem opcode_eq (w : Int) : opcode w = w % 128 := by
  simp [opcode, field_eq_emod]

theorem rdField_eq (w : Int) : rdField w = w / 128 % 32 := by
  simp [rdField, field_eq_emod]

theorem funct3_eq (w : Int) : funct3 w = w / 4096 % 8 := by
  simp [funct3, field_eq_emod]

theorem rs1Field_eq (w : Int) : rs1Field w = w / 32768 % 32 := by
  simp [rs1Field, field_eq_emod]

theorem rs2Field_eq (w : Int) : rs2Field w = w / 1048576 % 32 := by
  simp [rs2Field, field_eq_emod]

theorem funct7_eq (w : Int) : funct7 w = w / 33554432 % 128 := by
  simp [funct7, field_eq_emod]

/-- A field put above a number that fits below it adds its weighted value. -/
theorem join_place_eq (low : Nat) {a b : Int}
    (ha : 0 ≤ a) (hb : 0 ≤ b) (hlt : b < 2 ^ low) :
    join (a <<< low) b = a * 2 ^ low + b := by
  have hfit : b < (Nat.pow 2 low : Nat) := by
    simpa [Nat.pow_eq] using hlt
  rw [join_eq_add ha hb hfit, Int.shiftLeft_eq]

theorem signExtend_def (bits : Nat) (x : Int) : signExtend bits x = x.bmod (2 ^ bits) := rfl

theorem two_pow_succ (n : Nat) : ((2 ^ (n + 1) : Nat) : Int) = 2 * 2 ^ n := by
  push_cast
  ring

/-- Sign extension finds the number of the signed range that a residue stands for. -/
theorem signExtend_eq_of_emod_eq {n : Nat} {x y : Int}
    (hge : -2 ^ n ≤ y) (hlt : y < 2 ^ n)
    (hxy : x % 2 ^ (n + 1) = y % 2 ^ (n + 1)) :
    signExtend (n + 1) x = y := by
  have hmod : x.bmod (2 ^ (n + 1)) = y.bmod (2 ^ (n + 1)) := by
    rw [← Int.emod_bmod (x := x), ← Int.emod_bmod (x := y)]
    push_cast
    rw [hxy]
  rw [signExtend_def, hmod]
  apply Int.bmod_eq_of_le_mul_two
  · rw [two_pow_succ]
    omega
  · rw [two_pow_succ]
    omega

theorem signExtend_eq_self {n : Nat} {x : Int} (hge : -2 ^ n ≤ x) (hlt : x < 2 ^ n) :
    signExtend (n + 1) x = x :=
  signExtend_eq_of_emod_eq hge hlt rfl

/-- Sign extension stays in the residue class. -/
theorem signExtend_emod (bits : Nat) (x : Int) : signExtend bits x % 2 ^ bits = x % 2 ^ bits := by
  have h := Int.bmod_emod (x := x) (m := 2 ^ bits)
  push_cast at h
  exact h

/-- Sign extension depends on the residue class only. -/
theorem signExtend_emod_left (bits : Nat) (x : Int) :
    signExtend bits (x % 2 ^ bits) = signExtend bits x := by
  have h := Int.emod_bmod x (2 ^ bits)
  push_cast at h
  exact h

theorem signExtend_ge (n : Nat) (x : Int) : -2 ^ n ≤ signExtend (n + 1) x := by
  have h := Int.le_bmod (x := x) (m := 2 ^ (n + 1)) (by positivity)
  rw [two_pow_succ] at h
  rw [signExtend_def]
  omega

theorem signExtend_lt (n : Nat) (x : Int) : signExtend (n + 1) x < 2 ^ n := by
  have h := Int.bmod_lt (x := x) (m := 2 ^ (n + 1)) (by positivity)
  rw [two_pow_succ] at h
  rw [signExtend_def]
  omega

end Rv32.Word
