import Mathlib
import Rv32.Proofs.Instruction.Builders
import Rv32.Proofs.Instruction.Encoding
import Rv32.Proofs.Store.Views

/-!
# Builders and extractors as inverses

There is one builder for each layout of an immediate, and one for words without an immediate.
Taken together they are a function of a layout, a record of fields and a number.  It is
inverse to the extraction of the fields and of the immediate in both directions: what goes into a
word comes out again, as far as the layout has room for it, and what comes out of a word goes
back into it.

Fields are kept in a record whose components cannot leave their bits, so that nothing has to be
assumed about them.  The immediate is any integer.
-/

namespace Rv32

/-! ## Immediates that a layout can hold -/

namespace ImmediateFormat

/-- What the extractor of a layout finds of a number that its builder was given: the
representative of least absolute value modulo a power of two. -/
def kept : ImmediateFormat → Int → Int
  | i, k => k.bmod (2 ^ 12)
  | s, k => k.bmod (2 ^ 12)
  | b, k => (k - k % 2).bmod (2 ^ 13)
  | u, k => (k * 4096).bmod (2 ^ 32)
  | j, k => (k - k % 2).bmod (2 ^ 21)

/-- The number that the builder of a layout needs for the immediate `x`: upper immediates are
given without their twelve low bits. -/
def operand : ImmediateFormat → Int → Int
  | u, x => x >>> (12 : Nat)
  | _, x => x

/-- The distance of neighbouring immediates of a layout. -/
def grain : ImmediateFormat → Int
  | i => 1
  | s => 1
  | b => 2
  | u => 4096
  | j => 2

theorem grain_dvd_kept (f : ImmediateFormat) (k : Int) : f.kept k % f.grain = 0 := by
  cases f with
  | i => exact Int.emod_one _
  | s => exact Int.emod_one _
  | b =>
    have h := Word.signExtend_emod 13 (k - k % 2)
    change Word.signExtend 13 (k - k % 2) % 2 = 0
    omega
  | u =>
    have h := Word.signExtend_emod 32 (k * 4096)
    change Word.signExtend 32 (k * 4096) % 4096 = 0
    omega
  | j =>
    have h := Word.signExtend_emod 21 (k - k % 2)
    change Word.signExtend 21 (k - k % 2) % 2 = 0
    omega

theorem fits_kept (f : ImmediateFormat) (k : Int) : f.fits (f.kept k) = true := by
  cases f with
  | i => exact (fits_iff (n := 11) rfl).mpr ⟨Word.signExtend_ge 11 k, Word.signExtend_lt 11 k⟩
  | s => exact (fits_iff (n := 11) rfl).mpr ⟨Word.signExtend_ge 11 k, Word.signExtend_lt 11 k⟩
  | b => exact (fits_iff (n := 12) rfl).mpr ⟨Word.signExtend_ge 12 _, Word.signExtend_lt 12 _⟩
  | u => exact (fits_iff (n := 31) rfl).mpr ⟨Word.signExtend_ge 31 _, Word.signExtend_lt 31 _⟩
  | j => exact (fits_iff (n := 20) rfl).mpr ⟨Word.signExtend_ge 20 _, Word.signExtend_lt 20 _⟩

/-- An immediate in the range of its layout that the layout has a place for survives. -/
theorem kept_operand {f : ImmediateFormat} {x : Int} (hfits : f.fits x = true)
    (hgrain : x % f.grain = 0) : f.kept (f.operand x) = x := by
  cases f with
  | i =>
    obtain ⟨hge, hlt⟩ := (fits_iff (n := 11) rfl).mp hfits
    exact Word.signExtend_eq_self hge hlt
  | s =>
    obtain ⟨hge, hlt⟩ := (fits_iff (n := 11) rfl).mp hfits
    exact Word.signExtend_eq_self hge hlt
  | b =>
    obtain ⟨hge, hlt⟩ := (fits_iff (n := 12) rfl).mp hfits
    change x % 2 = 0 at hgrain
    simp only [kept, operand, hgrain, sub_zero]
    exact Word.signExtend_eq_self hge hlt
  | u =>
    obtain ⟨hge, hlt⟩ := (fits_iff (n := 31) rfl).mp hfits
    change x % 4096 = 0 at hgrain
    have hshift : (x >>> (12 : Nat)) * 4096 = x := by
      rw [Int.shiftRight_eq_div_pow]
      omega
    simp only [kept, operand, hshift]
    exact Word.signExtend_eq_self hge hlt
  | j =>
    obtain ⟨hge, hlt⟩ := (fits_iff (n := 20) rfl).mp hfits
    change x % 2 = 0 at hgrain
    simp only [kept, operand, hgrain, sub_zero]
    exact Word.signExtend_eq_self hge hlt

end ImmediateFormat

/-! ## Reading from an integer and from its unsigned view -/

namespace Word

/-- A field within the 32 bits of a word does not see the bits above them. -/
theorem field_unsigned {low width : Nat} (h : low + width ≤ 32) (w : Int) :
    field low width (unsigned w) = field low width w := by
  obtain ⟨rest, hrest⟩ := Nat.exists_eq_add_of_le h
  have hpow : (4294967296 : Int) = 2 ^ low * (2 ^ width * 2 ^ rest) := by
    rw [← pow_add, ← pow_add, ← Nat.add_assoc, ← hrest]
    norm_num
  have hlow : (2 : Int) ^ low ≠ 0 := by positivity
  have hsplit : unsigned w = w - 2 ^ low * (2 ^ width * (2 ^ rest * (w / 4294967296))) := by
    rw [unsigned, Int.emod_def]
    nth_rewrite 1 [hpow]
    simp only [mul_assoc]
  rw [field_eq_emod, field_eq_emod, hsplit, Int.sub_mul_ediv_left _ _ hlow]
  exact Int.sub_mul_emod_self_left _ _ _

end Word

theorem ImmediateFormat.generate_unsigned (f : ImmediateFormat) (w : Int) :
    f.generate (Word.unsigned w) = f.generate w := by
  cases f <;> simp (disch := decide) only [generate, Word.field_unsigned]

/-! ## Fields and the words built from them -/

namespace Word

/-- The fields that instruction words are built from besides the immediate. -/
structure Fields where
  opcode : Fin 128
  funct3 : Fin 8
  funct7 : Fin 128
  rd : Register
  rs1 : Register
  rs2 : Register
  deriving DecidableEq, Repr

namespace Fields

variable (f : Option ImmediateFormat) (x : Fields) (k w : Int)

/-- The word of a layout with those fields and the immediate `k`.  Where there is no immediate,
the number is not used. -/
def build : Int :=
  match f with
  | none => buildR x.opcode.val x.funct3.val x.funct7.val x.rd.val x.rs1.val x.rs2.val
  | some .i => buildI x.opcode.val x.funct3.val x.rd.val x.rs1.val k
  | some .s => buildS x.opcode.val x.funct3.val x.rs1.val x.rs2.val k
  | some .b => buildB x.opcode.val x.funct3.val x.rs1.val x.rs2.val k
  | some .u => buildU x.opcode.val x.rd.val k
  | some .j => buildJ x.opcode.val x.rd.val k

/-- The fields of a word. -/
def ofWord : Fields where
  opcode := ⟨(Word.opcode w).toNat, toNat_field_lt 0 7 w⟩
  funct3 := ⟨(Word.funct3 w).toNat, toNat_field_lt 12 3 w⟩
  funct7 := ⟨(Word.funct7 w).toNat, toNat_field_lt 25 7 w⟩
  rd := Instruction.rdOf w
  rs1 := Instruction.rs1Of w
  rs2 := Instruction.rs2Of w

/-- Those of the fields that belong to a layout are what is found in `w`. -/
def FoundIn : Prop :=
  match f with
  | none =>
    Word.opcode w = x.opcode.val ∧ Word.funct3 w = x.funct3.val ∧ Word.funct7 w = x.funct7.val ∧
      rdField w = x.rd.val ∧ rs1Field w = x.rs1.val ∧ rs2Field w = x.rs2.val
  | some .i =>
    Word.opcode w = x.opcode.val ∧ Word.funct3 w = x.funct3.val ∧ rdField w = x.rd.val ∧
      rs1Field w = x.rs1.val
  | some .s | some .b =>
    Word.opcode w = x.opcode.val ∧ Word.funct3 w = x.funct3.val ∧ rs1Field w = x.rs1.val ∧
      rs2Field w = x.rs2.val
  | some .u | some .j => Word.opcode w = x.opcode.val ∧ rdField w = x.rd.val

theorem opcode_range : 0 ≤ (x.opcode.val : Int) ∧ (x.opcode.val : Int) < 128 := by
  have h := x.opcode.isLt
  omega

theorem funct3_range : 0 ≤ (x.funct3.val : Int) ∧ (x.funct3.val : Int) < 8 := by
  have h := x.funct3.isLt
  omega

theorem funct7_range : 0 ≤ (x.funct7.val : Int) ∧ (x.funct7.val : Int) < 128 := by
  have h := x.funct7.isLt
  omega

/-! ## From fields to a word and back -/

/-- A built word has 32 bits and holds the fields that its layout has. -/
theorem build_spec :
    (0 ≤ build f x k ∧ build f x k < 4294967296) ∧ x.FoundIn f (build f x k) := by
  have hop := x.opcode_range
  have hf3 := x.funct3_range
  have hrd := x.rd.range
  have hrs1 := x.rs1.range
  have hrs2 := x.rs2.range
  cases f with
  | none => exact fields_buildR hop hf3 x.funct7_range hrd hrs1 hrs2
  | some f =>
    cases f with
    | i =>
      obtain ⟨hw, hop', hf3', hrd', hrs1', -⟩ := fields_buildI (k := k) hop hf3 hrd hrs1
      exact ⟨hw, hop', hf3', hrd', hrs1'⟩
    | s =>
      obtain ⟨hw, hop', hf3', hrs1', hrs2', -⟩ := fields_buildS (k := k) hop hf3 hrs1 hrs2
      exact ⟨hw, hop', hf3', hrs1', hrs2'⟩
    | b =>
      obtain ⟨hw, hop', hf3', hrs1', hrs2', -⟩ := fields_buildB (k := k) hop hf3 hrs1 hrs2
      exact ⟨hw, hop', hf3', hrs1', hrs2'⟩
    | u =>
      obtain ⟨hw, hop', hrd', -⟩ := fields_buildU (k := k) hop hrd
      exact ⟨hw, hop', hrd'⟩
    | j =>
      obtain ⟨hw, hop', hrd', -⟩ := fields_buildJ (k := k) hop hrd
      exact ⟨hw, hop', hrd'⟩

theorem generate_build (f : ImmediateFormat) (x : Fields) (k : Int) :
    f.generate (build (some f) x k) = f.kept k := by
  cases f with
  | i => exact generate_buildI x.opcode_range x.funct3_range x.rd.range x.rs1.range
  | s => exact generate_buildS x.opcode_range x.funct3_range x.rs1.range x.rs2.range
  | b => exact generate_buildB x.opcode_range x.funct3_range x.rs1.range x.rs2.range
  | u => exact generate_buildU x.opcode_range x.rd.range
  | j => exact generate_buildJ x.opcode_range x.rd.range

/-! ## From a word to its fields and back -/

theorem ofWord_opcode : ((ofWord w).opcode.val : Int) = Word.opcode w :=
  Int.toNat_of_nonneg (field_nonneg 0 7 w)

theorem ofWord_funct3 : ((ofWord w).funct3.val : Int) = Word.funct3 w :=
  Int.toNat_of_nonneg (field_nonneg 12 3 w)

theorem ofWord_funct7 : ((ofWord w).funct7.val : Int) = Word.funct7 w :=
  Int.toNat_of_nonneg (field_nonneg 25 7 w)

theorem ofWord_rd : ((ofWord w).rd.val : Int) = rdField w := Instruction.val_rdOf w

theorem ofWord_rs1 : ((ofWord w).rs1.val : Int) = rs1Field w := Instruction.val_rs1Of w

theorem ofWord_rs2 : ((ofWord w).rs2.val : Int) = rs2Field w := Instruction.val_rs2Of w

theorem ofWord_unsigned : ofWord (unsigned w) = ofWord w := by
  simp (disch := decide) only [ofWord, Instruction.rdOf, Instruction.rs1Of, Instruction.rs2Of,
    Word.opcode, Word.funct3, Word.funct7, rdField, rs1Field, rs2Field, field_unsigned]

/-- The twenty bits of an upper immediate are the upper field of its word. -/
theorem field_operand_u :
    field 0 20 (ImmediateFormat.u.operand (ImmediateFormat.u.generate w)) = field 12 20 w := by
  have hrange := field_range 12 20 w
  have hmod := signExtend_emod 32 (field 12 20 w * 4096)
  simp only [ImmediateFormat.operand, ImmediateFormat.generate, signed]
  rw [field_eq_emod 0, Int.shiftRight_eq_div_pow]
  omega

/-- A 32-bit word is rebuilt from its own fields and its own immediate. -/
theorem build_ofWord_of_range {w : Int} (hw : 0 ≤ w ∧ w < 4294967296) :
    build f (ofWord w) (f.elim 0 fun g => g.operand (g.generate w)) = w := by
  cases f with
  | none =>
    simp only [build, ofWord_opcode, ofWord_funct3, ofWord_funct7, ofWord_rd, ofWord_rs1,
      ofWord_rs2]
    exact buildR_fields hw
  | some f =>
    cases f with
    | i =>
      simp only [build, ofWord_opcode, ofWord_funct3, ofWord_rd, ofWord_rs1]
      exact buildI_fields hw
    | s =>
      simp only [build, ofWord_opcode, ofWord_funct3, ofWord_rs1, ofWord_rs2]
      exact buildS_fields hw
    | b =>
      simp only [build, ofWord_opcode, ofWord_funct3, ofWord_rs1, ofWord_rs2]
      exact buildB_fields hw
    | u =>
      have hk : field 0 20 (field 12 20 w) = field 12 20 w := by
        have hrange := field_range 12 20 w
        rw [field_eq_emod 0]
        omega
      have hw' := buildU_fields hw
      rw [buildU, hk] at hw'
      simp only [build, ofWord_opcode, ofWord_rd, buildU, Option.elim, field_operand_u]
      exact hw'
    | j =>
      simp only [build, ofWord_opcode, ofWord_rd]
      exact buildJ_fields hw

/-- Any integer is read as a word of 32 bits. -/
theorem build_ofWord :
    build f (ofWord w) (f.elim 0 fun g => g.operand (g.generate w)) = unsigned w := by
  have h := build_ofWord_of_range f ⟨unsigned_nonneg w, unsigned_lt w⟩
  simpa only [ofWord_unsigned, ImmediateFormat.generate_unsigned] using h

end Fields

end Word

/-! ## The immediates of a layout -/

/-- What a word gives as an immediate is what its layout keeps of the number it is rebuilt with. -/
theorem ImmediateFormat.generate_eq_kept (f : ImmediateFormat) (w : Int) :
    f.generate w = f.kept (f.operand (f.generate w)) := by
  calc f.generate w
    _ = f.generate (Word.unsigned w) := (generate_unsigned f w).symm
    _ = f.generate (Word.Fields.build (some f) (Word.Fields.ofWord w)
          (f.operand (f.generate w))) :=
      congrArg f.generate (Word.Fields.build_ofWord (some f) w).symm
    _ = f.kept (f.operand (f.generate w)) := Word.Fields.generate_build f _ _

theorem ImmediateFormat.exists_generate_eq_iff (f : ImmediateFormat) (x : Int) :
    (∃ w, f.generate w = x) ↔ f.fits x = true ∧ x % f.grain = 0 := by
  constructor
  · rintro ⟨w, rfl⟩
    rw [generate_eq_kept f w]
    exact ⟨fits_kept f _, grain_dvd_kept f _⟩
  · rintro ⟨hfits, hgrain⟩
    refine ⟨Word.Fields.build (some f) (Word.Fields.ofWord 0) (f.operand x), ?_⟩
    rw [Word.Fields.generate_build]
    exact kept_operand hfits hgrain

/-- Builders and extractors are inverse, layout by layout.  A built word has 32 bits and gives
back the fields that its layout has, and of the immediate what the layout keeps.  An integer is
rebuilt, as its unsigned view, from its fields and its immediate.  Hence the immediates that a
layout can hold are the numbers that fit it and are multiples of its grain. -/
theorem Word.builders_invert_extractors :
    (∀ (f : Option ImmediateFormat) (x : Fields) (k : Int),
      let w := x.build f k
      (0 ≤ w ∧ w < 4294967296) ∧ x.FoundIn f w) ∧
    (∀ (f : ImmediateFormat) (x : Fields) (k : Int),
      f.generate (x.build (some f) k) = f.kept k) ∧
    (∀ (f : Option ImmediateFormat) (w : Int),
      (Fields.ofWord w).build f (f.elim 0 fun g => g.operand (g.generate w)) = unsigned w) ∧
    (∀ (f : ImmediateFormat) (x : Int),
      (∃ w, f.generate w = x) ↔ f.fits x = true ∧ x % f.grain = 0) :=
  ⟨Fields.build_spec, Fields.generate_build, Fields.build_ofWord,
    ImmediateFormat.exists_generate_eq_iff⟩

end Rv32
