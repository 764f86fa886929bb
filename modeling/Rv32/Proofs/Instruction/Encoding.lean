import Mathlib
import Rv32.Proofs.Instruction.Builders
import Rv32.Proofs.Instruction.Decoding

/-!
# Encoded words decode, and words decode by the table

For each layout, the word built from the table entry of a mnemonic, registers and an immediate has
32 bits, decodes to that mnemonic, and gives its registers and its immediate back.

Which words are instructions is a matter of the table alone: a word is one if an entry describes it.
No word is described by two entries.  The two steps of the look-up therefore find an entry exactly
if there is one, and the control unit reads everything else off this entry and the word.
-/

namespace Rv32

/-! ## What the table guarantees -/

theorem Kind.opcode_range (k : Kind) : 0 ≤ k.opcode ∧ k.opcode < 128 := by
  cases k <;> decide

namespace Mnemonic

theorem funct3_range (m : Mnemonic) :
    0 ≤ m.entry.funct3.getD 0 ∧ m.entry.funct3.getD 0 < 8 := by
  cases m <;> decide

theorem funct7_range (m : Mnemonic) :
    0 ≤ m.entry.funct7.getD 0 ∧ m.entry.funct7.getD 0 < 128 := by
  cases m <;> decide

theorem funct7_eq_none_of_kind {m : Mnemonic} (hr : m.kind ≠ .register)
    (hs : m.isShift = false) : m.entry.funct7 = none := by
  cases m <;> simp_all [kind, entry, isShift]

theorem funct3_eq_none_of_kind {m : Mnemonic}
    (h : m.kind = .lui ∨ m.kind = .auipc ∨ m.kind = .jal) : m.entry.funct3 = none := by
  cases m <;> simp_all [kind, entry]

theorem isShift_eq_false {m : Mnemonic} (h : m.kind ≠ .immediate) : m.isShift = false := by
  cases m <;> first | rfl | exact absurd rfl h

theorem funct7_eq_none {m : Mnemonic} (hr : m.kind ≠ .register) (hi : m.kind ≠ .immediate) :
    m.entry.funct7 = none :=
  funct7_eq_none_of_kind hr (isShift_eq_false hi)

/-- A mnemonic selects a word that holds the minor opcodes of its entry where there are any. -/
theorem selects_of_fields {m : Mnemonic} {w : Int} (hop : Word.opcode w = m.kind.opcode)
    (h3 : m.entry.funct3 = none ∨ Word.funct3 w = m.entry.funct3.getD 0)
    (h7 : m.entry.funct7 = none ∨ Word.funct7 w = m.entry.funct7.getD 0) :
    m.Selects w where
  opcode := hop
  funct3 := by
    intro f hf
    rcases h3 with h3 | h3
    · rw [h3] at hf
      cases hf
    · rw [h3, hf, Option.getD_some]
  funct7 := by
    intro f hf
    rcases h7 with h7 | h7
    · rw [h7] at hf
      cases hf
    · rw [h7, hf, Option.getD_some]

end Mnemonic

/-! ## Immediates -/

namespace ImmediateFormat

theorem fits_iff {f : ImmediateFormat} {n : Nat} {x : Int} (hf : f.bits = n + 1) :
    f.fits x = true ↔ -2 ^ n ≤ x ∧ x < 2 ^ n := by
  simp [fits, hf]

theorem generate_i_range (w : Int) : -2048 ≤ i.generate w ∧ i.generate w ≤ 2047 := by
  have hge := Word.signExtend_ge 11 (Word.field 20 12 w)
  have hlt := Word.signExtend_lt 11 (Word.field 20 12 w)
  exact ⟨hge, Int.le_of_lt_add_one hlt⟩

theorem generate_s_range (w : Int) : -2048 ≤ s.generate w ∧ s.generate w ≤ 2047 := by
  have hge := Word.signExtend_ge 11 (Word.field 25 7 w * 32 + Word.field 7 5 w)
  have hlt := Word.signExtend_lt 11 (Word.field 25 7 w * 32 + Word.field 7 5 w)
  exact ⟨hge, Int.le_of_lt_add_one hlt⟩

/-- The offset of a branch is even and fits. -/
theorem generate_b_fits (w : Int) : b.generate w % 2 = 0 ∧ b.fits (b.generate w) = true := by
  rw [fits_iff (n := 12) rfl]
  simp only [generate]
  refine ⟨?_, Word.signExtend_ge 12 _, Word.signExtend_lt 12 _⟩
  have hmod := Word.signExtend_emod 13 (Word.field 31 1 w * 4096 + Word.field 7 1 w * 2048 +
    Word.field 25 6 w * 32 + Word.field 8 4 w * 2)
  omega

/-- The offset of a jump is even and fits. -/
theorem generate_j_fits (w : Int) : j.generate w % 2 = 0 ∧ j.fits (j.generate w) = true := by
  rw [fits_iff (n := 20) rfl]
  simp only [generate]
  refine ⟨?_, Word.signExtend_ge 20 _, Word.signExtend_lt 20 _⟩
  have hmod := Word.signExtend_emod 21 (Word.field 31 1 w * 1048576 + Word.field 12 8 w * 4096 +
    Word.field 20 1 w * 2048 + Word.field 21 10 w * 2)
  omega

end ImmediateFormat

theorem Instruction.immediate?_eq {w : Int} {m : Mnemonic} {f : ImmediateFormat}
    (h : m.kind.signals.immediate = some f) :
    immediate? ⟨w, m⟩ = some (f.generate w) := by
  simp only [immediate?, signals, kind, h, Option.map_some]

/-! ## Register fields -/

theorem Register.range (r : Register) : 0 ≤ (r.val : Int) ∧ (r.val : Int) < 32 := by
  have hr := r.isLt
  omega

namespace Instruction

theorem val_rdOf (w : Int) : ((rdOf w).val : Int) = Word.rdField w :=
  Int.toNat_of_nonneg (Word.field_nonneg 7 5 w)

theorem val_rs1Of (w : Int) : ((rs1Of w).val : Int) = Word.rs1Field w :=
  Int.toNat_of_nonneg (Word.field_nonneg 15 5 w)

theorem val_rs2Of (w : Int) : ((rs2Of w).val : Int) = Word.rs2Field w :=
  Int.toNat_of_nonneg (Word.field_nonneg 20 5 w)

theorem rdOf_eq {w : Int} {r : Register} (h : Word.rdField w = r.val) : rdOf w = r := by
  apply Fin.ext
  simp only [rdOf, h]
  rfl

theorem rs1Of_eq {w : Int} {r : Register} (h : Word.rs1Field w = r.val) : rs1Of w = r := by
  apply Fin.ext
  simp only [rs1Of, h]
  rfl

theorem rs2Of_eq {w : Int} {r : Register} (h : Word.rs2Field w = r.val) : rs2Of w = r := by
  apply Fin.ext
  simp only [rs2Of, h]
  rfl

/-! ## One theorem a layout -/

section Layouts

variable {m : Mnemonic} (rd rs1 rs2 : Register) (k : Int)

theorem decode_buildR :
    let w := Word.buildR m.kind.opcode (m.entry.funct3.getD 0) (m.entry.funct7.getD 0)
      rd.val rs1.val rs2.val
    (0 ≤ w ∧ w < 4294967296) ∧ decode w = .ok ⟨w, m⟩ ∧
      rdOf w = rd ∧ rs1Of w = rs1 ∧ rs2Of w = rs2 := by
  intro w
  obtain ⟨hw, hop, h3, h7, hrd, hrs1, hrs2⟩ := Word.fields_buildR (Kind.opcode_range m.kind)
    m.funct3_range m.funct7_range rd.range rs1.range rs2.range
  have hm : m.Selects w := Mnemonic.selects_of_fields hop (Or.inr h3) (Or.inr h7)
  exact ⟨hw, decode_eq_ok_of_selects hw hm, rdOf_eq hrd, rs1Of_eq hrs1, rs2Of_eq hrs2⟩

/-- The upper seven bits of the immediate are the second minor opcode, where the entry has one. -/
theorem decode_buildI
    (h7 : m.entry.funct7 = none ∨ k / 32 % 128 = m.entry.funct7.getD 0) :
    let w := Word.buildI m.kind.opcode (m.entry.funct3.getD 0) rd.val rs1.val k
    (0 ≤ w ∧ w < 4294967296) ∧ decode w = .ok ⟨w, m⟩ ∧
      rdOf w = rd ∧ rs1Of w = rs1 ∧ Word.rs2Field w = k % 32 ∧
      ImmediateFormat.i.generate w = Word.signExtend 12 k := by
  intro w
  have hop' := Kind.opcode_range m.kind
  obtain ⟨hw, hop, h3, hrd, hrs1, hk⟩ :=
    Word.fields_buildI (k := k) hop' m.funct3_range rd.range rs1.range
  change Word.field 20 12 w = _ at hk
  rw [Word.field_eq_emod, Word.field_eq_emod] at hk
  have hfunct7 : Word.funct7 w = k / 32 % 128 := by
    rw [Word.funct7_eq]
    omega
  have hrs2 : Word.rs2Field w = k % 32 := by
    rw [Word.rs2Field_eq]
    omega
  have hm : m.Selects w := Mnemonic.selects_of_fields hop (Or.inr h3) (by rwa [hfunct7])
  exact ⟨hw, decode_eq_ok_of_selects hw hm, rdOf_eq hrd, rs1Of_eq hrs1, hrs2,
    Word.generate_buildI hop' m.funct3_range rd.range rs1.range⟩

theorem decode_buildS (h7 : m.entry.funct7 = none) :
    let w := Word.buildS m.kind.opcode (m.entry.funct3.getD 0) rs1.val rs2.val k
    (0 ≤ w ∧ w < 4294967296) ∧ decode w = .ok ⟨w, m⟩ ∧
      rs1Of w = rs1 ∧ rs2Of w = rs2 ∧
      ImmediateFormat.s.generate w = Word.signExtend 12 k := by
  intro w
  have hop' := Kind.opcode_range m.kind
  obtain ⟨hw, hop, h3, hrs1, hrs2, -⟩ :=
    Word.fields_buildS (k := k) hop' m.funct3_range rs1.range rs2.range
  have hm : m.Selects w := Mnemonic.selects_of_fields hop (Or.inr h3) (Or.inl h7)
  exact ⟨hw, decode_eq_ok_of_selects hw hm, rs1Of_eq hrs1, rs2Of_eq hrs2,
    Word.generate_buildS hop' m.funct3_range rs1.range rs2.range⟩

theorem decode_buildB (h7 : m.entry.funct7 = none) :
    let w := Word.buildB m.kind.opcode (m.entry.funct3.getD 0) rs1.val rs2.val k
    (0 ≤ w ∧ w < 4294967296) ∧ decode w = .ok ⟨w, m⟩ ∧
      rs1Of w = rs1 ∧ rs2Of w = rs2 ∧
      ImmediateFormat.b.generate w = Word.signExtend 13 (k - k % 2) := by
  intro w
  have hop' := Kind.opcode_range m.kind
  obtain ⟨hw, hop, h3, hrs1, hrs2, -⟩ :=
    Word.fields_buildB (k := k) hop' m.funct3_range rs1.range rs2.range
  have hm : m.Selects w := Mnemonic.selects_of_fields hop (Or.inr h3) (Or.inl h7)
  exact ⟨hw, decode_eq_ok_of_selects hw hm, rs1Of_eq hrs1, rs2Of_eq hrs2,
    Word.generate_buildB hop' m.funct3_range rs1.range rs2.range⟩

theorem decode_buildU (h3 : m.entry.funct3 = none) (h7 : m.entry.funct7 = none) :
    let w := Word.buildU m.kind.opcode rd.val k
    (0 ≤ w ∧ w < 4294967296) ∧ decode w = .ok ⟨w, m⟩ ∧ rdOf w = rd ∧
      Word.field 12 20 w = k % 1048576 := by
  intro w
  obtain ⟨hw, hop, hrd, hk⟩ :=
    Word.fields_buildU (k := k) (Kind.opcode_range m.kind) rd.range
  have hm : m.Selects w := Mnemonic.selects_of_fields hop (Or.inl h3) (Or.inl h7)
  refine ⟨hw, decode_eq_ok_of_selects hw hm, rdOf_eq hrd, hk.trans ?_⟩
  rw [Word.field_eq_emod]
  omega

theorem decode_buildJ (h3 : m.entry.funct3 = none) (h7 : m.entry.funct7 = none) :
    let w := Word.buildJ m.kind.opcode rd.val k
    (0 ≤ w ∧ w < 4294967296) ∧ decode w = .ok ⟨w, m⟩ ∧ rdOf w = rd ∧
      ImmediateFormat.j.generate w = Word.signExtend 21 (k - k % 2) := by
  intro w
  have hop' := Kind.opcode_range m.kind
  obtain ⟨hw, hop, hrd, -⟩ := Word.fields_buildJ (k := k) hop' rd.range
  have hm : m.Selects w := Mnemonic.selects_of_fields hop (Or.inl h3) (Or.inl h7)
  exact ⟨hw, decode_eq_ok_of_selects hw hm, rdOf_eq hrd, Word.generate_buildJ hop' rd.range⟩

end Layouts

end Instruction

/-! ## One entry a word -/

namespace Mnemonic

/-- The look-up finds an entry of the class exactly if it agrees with both minor opcodes wherever it
fixes them. -/
theorem select?_eq_some_iff {k : Kind} {a b : Int} {m : Mnemonic} :
    select? k (some a) (some b) = some m ↔
      m.kind = k ∧ (∀ f, m.entry.funct3 = some f → a = f) ∧
        ∀ f, m.entry.funct7 = some f → b = f := by
  constructor
  · exact select?_sound
  · rintro ⟨rfl, h3, h7⟩
    exact select?_complete m h3 h7

theorem Selects.select? {m : Mnemonic} {w : Int} (h : m.Selects w) :
    select? m.kind (some (Word.funct3 w)) (some (Word.funct7 w)) = some m :=
  select?_eq_some_iff.mpr ⟨rfl, h.funct3, h.funct7⟩

/-- No word is described by two entries. -/
theorem Selects.unique {m n : Mnemonic} {w : Int} (hm : m.Selects w) (hn : n.Selects w) :
    n = m := by
  have hkind : n.kind = m.kind := by
    have hopcode := hn.opcode.symm.trans hm.opcode
    have hfound := Kind.ofOpcode?_opcode n.kind
    rw [hopcode, Kind.ofOpcode?_opcode] at hfound
    exact (Option.some.inj hfound).symm
  have hfound := hn.select?
  rw [hkind, hm.select?] at hfound
  exact (Option.some.inj hfound).symm

end Mnemonic

namespace Instruction

/-! ## What the control unit reports -/

/-- The instruction has the word and the mnemonic, the class, the operation and the inversion of the
table entry, the control signals of the class, and the register fields of the word. -/
structure Carries (i : Instruction) (w : Int) (m : Mnemonic) : Prop where
  word : i.word = w
  mnemonic : i.mnemonic = m
  kind : i.kind = m.entry.kind
  operation : i.operation = m.entry.operation
  inverted : i.inverted = m.entry.inverted
  signals : i.signals = m.entry.kind.signals
  rd : (i.rd.val : Int) = Word.rdField w
  rs1 : (i.rs1.val : Int) = Word.rs1Field w
  rs2 : (i.rs2.val : Int) = Word.rs2Field w

theorem carries (w : Int) (m : Mnemonic) : Carries ⟨w, m⟩ w m where
  word := rfl
  mnemonic := rfl
  kind := rfl
  operation := rfl
  inverted := rfl
  signals := rfl
  rd := val_rdOf w
  rs1 := val_rs1Of w
  rs2 := val_rs2Of w

/-- What comes of a word that is looked up in the table: the instruction of the one entry that
describes it, or a refusal that shows the word where no entry does. -/
inductive FollowsTable (w : Int) : Except Fault Instruction → Prop
  | accepted {m : Mnemonic} {i : Instruction} (hm : m.Selects w)
      (hunique : ∀ n : Mnemonic, n.Selects w → n = m) (hi : i.Carries w m) :
      FollowsTable w (.ok i)
  | refused {f : Fault} (hnone : ∀ m : Mnemonic, ¬ m.Selects w)
      (hfailure : f.report.failure = .instruction)
      (hsubject : f.report.subject = some (.integer w)) : FollowsTable w (.error f)

theorem not_selects_of_decode_eq_error {x : Int} {f : Fault} (h : decode x = .error f)
    (m : Mnemonic) : ¬ m.Selects (Word.unsigned x) := by
  intro hm
  have hok : decode x = .ok ⟨Word.unsigned x, m⟩ := decode_eq_ok_iff.mpr ⟨rfl, hm⟩
  rw [hok] at h
  cases h

/-- The control unit accepts the table, and nothing beside it.  Any integer decodes, by its 32
lowest bits, to the instruction of the only entry that describes them, and is refused where there is
none.  Whatever the minor opcodes are, the look-up of a class finds the entries that agree with
them. -/
theorem decode_followsTable (x : Int) :
    FollowsTable (Word.unsigned x) (decode x) ∧
      ∀ (k : Kind) (a b : Int) (m : Mnemonic), Mnemonic.select? k (some a) (some b) = some m ↔
        m.kind = k ∧ (∀ f, m.entry.funct3 = some f → a = f) ∧
          ∀ f, m.entry.funct7 = some f → b = f := by
  refine ⟨?_, fun _ _ _ _ => Mnemonic.select?_eq_some_iff⟩
  cases h : decode x with
  | ok i =>
      obtain ⟨w, m⟩ := i
      obtain ⟨rfl, hm⟩ := decode_eq_ok_iff.mp h
      exact .accepted hm (fun _ hn => hm.unique hn) (carries _ m)
  | error f =>
      obtain ⟨hfailure, hsubject⟩ := report_of_decode_eq_error h
      exact .refused (not_selects_of_decode_eq_error h) hfailure hsubject

/-- A shift by a constant with a stray minor opcode, and a multiplication, are no instructions. -/
example : (decode 0x02109093).isOk = false ∧ (decode 0x022081B3).isOk = false := by
  decide

end Instruction

end Rv32
