import Mathlib
import Rv32.Instruction.Kind
import Rv32.Proofs.Word.Fields
import Rv32.Word

/-!
# Words put together and taken apart

Each builder places its fields without overlap, so its word is a weighted sum.  From the sum one
reads off that the word has 32 bits, that every field comes back, and that the immediate generator
gathers the bits of the immediate again.  Conversely a 32-bit word is built from its own fields.

The assumptions on a builder's arguments are those of the fields that they go into: a major opcode
has seven bits, the minor ones three and seven, a register number five.  The immediate may be any
integer.
-/

namespace Rv32.Word

variable {op f3 f7 rd rs1 rs2 k : Int}

/-! ## Words as sums -/

section Sums

variable (hop : 0 ≤ op ∧ op < 128) (hf3 : 0 ≤ f3 ∧ f3 < 8) (hf7 : 0 ≤ f7 ∧ f7 < 128)
  (hrd : 0 ≤ rd ∧ rd < 32) (hrs1 : 0 ≤ rs1 ∧ rs1 < 32) (hrs2 : 0 ≤ rs2 ∧ rs2 < 32)

include hop hf3 hf7 hrd hrs1 hrs2 in
theorem buildR_eq :
    buildR op f3 f7 rd rs1 rs2 =
      f7 * 33554432 + (rs2 * 1048576 + (rs1 * 32768 + (f3 * 4096 + (rd * 128 + op)))) := by
  simp only [buildR, joinAll, place]
  rw [join_place_eq 7 (by omega) (by omega) (by omega)]
  rw [join_place_eq 12 (by omega) (by omega) (by omega)]
  rw [join_place_eq 15 (by omega) (by omega) (by omega)]
  rw [join_place_eq 20 (by omega) (by omega) (by omega)]
  rw [join_place_eq 25 (by omega) (by omega) (by omega)]
  norm_num

include hop hf3 hrd hrs1 in
theorem buildI_eq :
    buildI op f3 rd rs1 k =
      field 0 12 k * 1048576 + (rs1 * 32768 + (f3 * 4096 + (rd * 128 + op))) := by
  have hk := field_range 0 12 k
  simp only [buildI, joinAll, place]
  rw [join_place_eq 7 (by omega) (by omega) (by omega)]
  rw [join_place_eq 12 (by omega) (by omega) (by omega)]
  rw [join_place_eq 15 (by omega) (by omega) (by omega)]
  rw [join_place_eq 20 (by omega) (by omega) (by omega)]
  norm_num

include hop hf3 hrs1 hrs2 in
theorem buildS_eq :
    buildS op f3 rs1 rs2 k =
      field 5 7 k * 33554432 + (rs2 * 1048576 + (rs1 * 32768 + (f3 * 4096 +
        (field 0 5 k * 128 + op)))) := by
  have hhigh := field_range 5 7 k
  have hlow := field_range 0 5 k
  simp only [buildS, joinAll, place]
  rw [join_place_eq 7 (by omega) (by omega) (by omega)]
  rw [join_place_eq 12 (by omega) (by omega) (by omega)]
  rw [join_place_eq 15 (by omega) (by omega) (by omega)]
  rw [join_place_eq 20 (by omega) (by omega) (by omega)]
  rw [join_place_eq 25 (by omega) (by omega) (by omega)]
  norm_num

include hop hf3 hrs1 hrs2 in
theorem buildB_eq :
    buildB op f3 rs1 rs2 k =
      field 12 1 k * 2147483648 + (field 5 6 k * 33554432 + (rs2 * 1048576 + (rs1 * 32768 +
        (f3 * 4096 + (field 1 4 k * 256 + (field 11 1 k * 128 + op)))))) := by
  have hsign := field_range 12 1 k
  have hhigh := field_range 5 6 k
  have hlow := field_range 1 4 k
  have hbit := field_range 11 1 k
  simp only [buildB, joinAll, place]
  rw [join_place_eq 7 (by omega) (by omega) (by omega)]
  rw [join_place_eq 8 (by omega) (by omega) (by omega)]
  rw [join_place_eq 12 (by omega) (by omega) (by omega)]
  rw [join_place_eq 15 (by omega) (by omega) (by omega)]
  rw [join_place_eq 20 (by omega) (by omega) (by omega)]
  rw [join_place_eq 25 (by omega) (by omega) (by omega)]
  rw [join_place_eq 31 (by omega) (by omega) (by omega)]
  norm_num

include hop hrd in
theorem buildU_eq : buildU op rd k = field 0 20 k * 4096 + (rd * 128 + op) := by
  have hk := field_range 0 20 k
  simp only [buildU, joinAll, place]
  rw [join_place_eq 7 (by omega) (by omega) (by omega)]
  rw [join_place_eq 12 (by omega) (by omega) (by omega)]
  norm_num

include hop hrd in
theorem buildJ_eq :
    buildJ op rd k =
      field 20 1 k * 2147483648 + (field 1 10 k * 2097152 + (field 11 1 k * 1048576 +
        (field 12 8 k * 4096 + (rd * 128 + op)))) := by
  have hsign := field_range 20 1 k
  have hlow := field_range 1 10 k
  have hbit := field_range 11 1 k
  have hhigh := field_range 12 8 k
  simp only [buildJ, joinAll, place]
  rw [join_place_eq 7 (by omega) (by omega) (by omega)]
  rw [join_place_eq 12 (by omega) (by omega) (by omega)]
  rw [join_place_eq 20 (by omega) (by omega) (by omega)]
  rw [join_place_eq 21 (by omega) (by omega) (by omega)]
  rw [join_place_eq 31 (by omega) (by omega) (by omega)]
  norm_num

/-! ## Fields of built words -/

include hop hf3 hf7 hrd hrs1 hrs2 in
/-- A word with three registers has 32 bits and holds what was put into its fields. -/
theorem fields_buildR :
    let w := buildR op f3 f7 rd rs1 rs2
    (0 ≤ w ∧ w < 4294967296) ∧ opcode w = op ∧ funct3 w = f3 ∧ funct7 w = f7 ∧
      rdField w = rd ∧ rs1Field w = rs1 ∧ rs2Field w = rs2 := by
  simp only [buildR_eq hop hf3 hf7 hrd hrs1 hrs2, opcode_eq, funct3_eq, funct7_eq, rdField_eq,
    rs1Field_eq, rs2Field_eq]
  omega

include hop hf3 hrd hrs1 in
/-- A word with a 12-bit immediate holds its registers; the immediate fills the upper bits. -/
theorem fields_buildI :
    let w := buildI op f3 rd rs1 k
    (0 ≤ w ∧ w < 4294967296) ∧ opcode w = op ∧ funct3 w = f3 ∧ rdField w = rd ∧
      rs1Field w = rs1 ∧ field 20 12 w = field 0 12 k := by
  have hk := field_range 0 12 k
  simp only [buildI_eq hop hf3 hrd hrs1, opcode_eq, funct3_eq, rdField_eq, rs1Field_eq,
    field_eq_emod 20]
  omega

include hop hf3 hrs1 hrs2 in
theorem fields_buildS :
    let w := buildS op f3 rs1 rs2 k
    (0 ≤ w ∧ w < 4294967296) ∧ opcode w = op ∧ funct3 w = f3 ∧ rs1Field w = rs1 ∧
      rs2Field w = rs2 ∧ field 25 7 w = field 5 7 k ∧ field 7 5 w = field 0 5 k := by
  have hhigh := field_range 5 7 k
  have hlow := field_range 0 5 k
  simp only [buildS_eq hop hf3 hrs1 hrs2, opcode_eq, funct3_eq, rs1Field_eq, rs2Field_eq,
    field_eq_emod 25, field_eq_emod 7]
  omega

include hop hf3 hrs1 hrs2 in
theorem fields_buildB :
    let w := buildB op f3 rs1 rs2 k
    (0 ≤ w ∧ w < 4294967296) ∧ opcode w = op ∧ funct3 w = f3 ∧ rs1Field w = rs1 ∧
      rs2Field w = rs2 ∧ field 31 1 w = field 12 1 k ∧ field 7 1 w = field 11 1 k ∧
      field 25 6 w = field 5 6 k ∧ field 8 4 w = field 1 4 k := by
  have hsign := field_range 12 1 k
  have hhigh := field_range 5 6 k
  have hlow := field_range 1 4 k
  have hbit := field_range 11 1 k
  simp only [buildB_eq hop hf3 hrs1 hrs2, opcode_eq, funct3_eq, rs1Field_eq, rs2Field_eq,
    field_eq_emod 31, field_eq_emod 7, field_eq_emod 25, field_eq_emod 8]
  omega

include hop hrd in
theorem fields_buildU :
    let w := buildU op rd k
    (0 ≤ w ∧ w < 4294967296) ∧ opcode w = op ∧ rdField w = rd ∧
      field 12 20 w = field 0 20 k := by
  have hk := field_range 0 20 k
  simp only [buildU_eq hop hrd, opcode_eq, rdField_eq, field_eq_emod 12]
  omega

include hop hrd in
theorem fields_buildJ :
    let w := buildJ op rd k
    (0 ≤ w ∧ w < 4294967296) ∧ opcode w = op ∧ rdField w = rd ∧
      field 31 1 w = field 20 1 k ∧ field 12 8 w = field 12 8 k ∧
      field 20 1 w = field 11 1 k ∧ field 21 10 w = field 1 10 k := by
  have hsign := field_range 20 1 k
  have hlow := field_range 1 10 k
  have hbit := field_range 11 1 k
  have hhigh := field_range 12 8 k
  rw [buildJ_eq hop hrd]
  -- Two fields of the offset stand at places that are also read from the word.
  generalize field 12 8 k = high, field 20 1 k = sign at *
  simp only [opcode_eq, rdField_eq, field_eq_emod 31, field_eq_emod 12, field_eq_emod 20,
    field_eq_emod 21]
  omega

/-! ## Immediates of built words -/

include hop hf3 hrd hrs1 in
theorem generate_buildI :
    ImmediateFormat.i.generate (buildI op f3 rd rs1 k) = signExtend 12 k := by
  obtain ⟨-, -, -, -, -, hk⟩ := fields_buildI (k := k) hop hf3 hrd hrs1
  have hsum : field 0 12 k = k % 2 ^ 12 := by
    rw [field_eq_emod]
    omega
  rw [ImmediateFormat.generate, hk, hsum, signExtend_emod_left]

include hop hf3 hrs1 hrs2 in
theorem generate_buildS :
    ImmediateFormat.s.generate (buildS op f3 rs1 rs2 k) = signExtend 12 k := by
  obtain ⟨-, -, -, -, -, hhigh, hlow⟩ := fields_buildS (k := k) hop hf3 hrs1 hrs2
  have hsum : field 5 7 k * 32 + field 0 5 k = k % 2 ^ 12 := by
    rw [field_eq_emod, field_eq_emod]
    omega
  rw [ImmediateFormat.generate, hhigh, hlow, hsum, signExtend_emod_left]

include hop hf3 hrs1 hrs2 in
/-- The layout of branches drops bit 0 of the offset. -/
theorem generate_buildB :
    ImmediateFormat.b.generate (buildB op f3 rs1 rs2 k) = signExtend 13 (k - k % 2) := by
  obtain ⟨-, -, -, -, -, hsign, hbit, hhigh, hlow⟩ := fields_buildB (k := k) hop hf3 hrs1 hrs2
  have hsum : field 12 1 k * 4096 + field 11 1 k * 2048 + field 5 6 k * 32 + field 1 4 k * 2 =
      (k - k % 2) % 2 ^ 13 := by
    simp only [field_eq_emod]
    omega
  rw [ImmediateFormat.generate, hsign, hbit, hhigh, hlow, hsum, signExtend_emod_left]

include hop hrd in
/-- The layout of upper immediates drops all but the low twenty bits of the number. -/
theorem generate_buildU : ImmediateFormat.u.generate (buildU op rd k) = signed (k * 4096) := by
  obtain ⟨-, -, -, hk⟩ := fields_buildU (k := k) hop hrd
  have hshift : field 0 20 k * 4096 = k * 4096 % 2 ^ 32 := by
    rw [field_eq_emod]
    omega
  rw [ImmediateFormat.generate, hk, hshift, signed, signed, signExtend_emod_left]

include hop hrd in
/-- The layout of jumps drops bit 0 of the offset. -/
theorem generate_buildJ :
    ImmediateFormat.j.generate (buildJ op rd k) = signExtend 21 (k - k % 2) := by
  obtain ⟨-, -, -, hsign, hhigh, hbit, hlow⟩ := fields_buildJ (k := k) hop hrd
  have hsum : field 20 1 k * 1048576 + field 12 8 k * 4096 + field 11 1 k * 2048 +
      field 1 10 k * 2 = (k - k % 2) % 2 ^ 21 := by
    simp only [field_eq_emod]
    omega
  rw [ImmediateFormat.generate, hsign, hhigh, hbit, hlow, hsum, signExtend_emod_left]

end Sums

/-! ## Words rebuilt from their fields -/

section Rebuilding

variable {w : Int} (hw : 0 ≤ w ∧ w < 4294967296)

include hw in
theorem buildR_fields :
    buildR (opcode w) (funct3 w) (funct7 w) (rdField w) (rs1Field w) (rs2Field w) = w := by
  simp only [opcode_eq, funct3_eq, funct7_eq, rdField_eq, rs1Field_eq, rs2Field_eq]
  rw [buildR_eq (by omega) (by omega) (by omega) (by omega) (by omega) (by omega)]
  omega

include hw in
theorem buildI_fields :
    buildI (opcode w) (funct3 w) (rdField w) (rs1Field w) (ImmediateFormat.i.generate w) = w := by
  have hk : field 0 12 (ImmediateFormat.i.generate w) = field 20 12 w := by
    have h := signExtend_emod 12 (field 20 12 w)
    rw [field_eq_emod 0, ImmediateFormat.generate]
    rw [field_eq_emod] at h ⊢
    omega
  simp only [opcode_eq, funct3_eq, rdField_eq, rs1Field_eq]
  rw [buildI_eq (by omega) (by omega) (by omega) (by omega), hk, field_eq_emod]
  omega

include hw in
/-- The immediate of a shift is put together from a minor opcode and the amount. -/
theorem buildI_shift_fields :
    buildI (opcode w) (funct3 w) (rdField w) (rs1Field w) (funct7 w * 32 + rs2Field w) = w := by
  simp only [opcode_eq, funct3_eq, rdField_eq, rs1Field_eq, funct7_eq, rs2Field_eq]
  rw [buildI_eq (by omega) (by omega) (by omega) (by omega), field_eq_emod]
  omega

include hw in
theorem buildS_fields :
    buildS (opcode w) (funct3 w) (rs1Field w) (rs2Field w) (ImmediateFormat.s.generate w) = w := by
  have hsum := signExtend_emod 12 (field 25 7 w * 32 + field 7 5 w)
  have hhigh : field 5 7 (ImmediateFormat.s.generate w) = field 25 7 w := by
    rw [field_eq_emod 5, ImmediateFormat.generate]
    rw [field_eq_emod, field_eq_emod] at hsum ⊢
    omega
  have hlow : field 0 5 (ImmediateFormat.s.generate w) = field 7 5 w := by
    rw [field_eq_emod 0, ImmediateFormat.generate]
    rw [field_eq_emod, field_eq_emod] at hsum ⊢
    omega
  simp only [opcode_eq, funct3_eq, rs1Field_eq, rs2Field_eq]
  rw [buildS_eq (by omega) (by omega) (by omega) (by omega), hhigh, hlow, field_eq_emod,
    field_eq_emod]
  omega

include hw in
theorem buildB_fields :
    buildB (opcode w) (funct3 w) (rs1Field w) (rs2Field w) (ImmediateFormat.b.generate w) = w := by
  have hsum := signExtend_emod 13
    (field 31 1 w * 4096 + field 7 1 w * 2048 + field 25 6 w * 32 + field 8 4 w * 2)
  change ImmediateFormat.b.generate w % _ = _ at hsum
  have hsign := field_range 31 1 w
  have hbit := field_range 7 1 w
  have hhigh := field_range 25 6 w
  have hlow := field_range 8 4 w
  have hk : field 12 1 (ImmediateFormat.b.generate w) = field 31 1 w ∧
      field 11 1 (ImmediateFormat.b.generate w) = field 7 1 w ∧
      field 5 6 (ImmediateFormat.b.generate w) = field 25 6 w ∧
      field 1 4 (ImmediateFormat.b.generate w) = field 8 4 w := by
    rw [field_eq_emod 12, field_eq_emod 11, field_eq_emod 5, field_eq_emod 1]
    omega
  obtain ⟨hk12, hk11, hk5, hk1⟩ := hk
  simp only [opcode_eq, funct3_eq, rs1Field_eq, rs2Field_eq]
  rw [buildB_eq (by omega) (by omega) (by omega) (by omega), hk12, hk11, hk5, hk1]
  simp only [field_eq_emod]
  omega

include hw in
theorem buildU_fields : buildU (opcode w) (rdField w) (field 12 20 w) = w := by
  have hk : field 0 20 (field 12 20 w) = field 12 20 w := by
    have hrange := field_range 12 20 w
    rw [field_eq_emod 0]
    omega
  simp only [opcode_eq, rdField_eq]
  rw [buildU_eq (by omega) (by omega), hk, field_eq_emod]
  omega

include hw in
theorem buildJ_fields :
    buildJ (opcode w) (rdField w) (ImmediateFormat.j.generate w) = w := by
  have hsum := signExtend_emod 21
    (field 31 1 w * 1048576 + field 12 8 w * 4096 + field 20 1 w * 2048 + field 21 10 w * 2)
  change ImmediateFormat.j.generate w % _ = _ at hsum
  have hsign := field_range 31 1 w
  have hhigh := field_range 12 8 w
  have hbit := field_range 20 1 w
  have hlow := field_range 21 10 w
  generalize ImmediateFormat.j.generate w = k at *
  have hk : field 20 1 k = field 31 1 w ∧ field 12 8 k = field 12 8 w ∧
      field 11 1 k = field 20 1 w ∧ field 1 10 k = field 21 10 w := by
    rw [field_eq_emod 20 1 k, field_eq_emod 12 8 k, field_eq_emod 11, field_eq_emod 1]
    omega
  obtain ⟨hk20, hk12, hk11, hk1⟩ := hk
  simp only [opcode_eq, rdField_eq]
  rw [buildJ_eq (by omega) (by omega), hk20, hk12, hk11, hk1]
  simp only [field_eq_emod]
  omega

end Rebuilding

end Rv32.Word
