import Mathlib
import Rv32.Proofs.Assembly.Layout
import Rv32.Proofs.Assembly.Numerals
import Rv32.Proofs.Instruction.Encoding

/-!
# Words say what was written

`Instruction.Conveys` compares a decoded instruction with the operands of a statement, field by
field and without looking at how words are built: registers by their names, numbers by their
values, labels by their distance.  The word of every statement of an accepted source decodes to an
instruction that conveys its operands, so that encoding loses nothing and cuts nothing off.

A branch or jump says where it goes in its last operand, as a number or as a label.  Where a source
is accepted, each label that is a target has a symbol, and the immediate of the word is its
distance.
-/

namespace Rv32

open Assembly

/-! ## Statements as written -/

theorem Pseudo.ofName?_eq_some {cs : List Char} {q : Pseudo} (h : Pseudo.ofName? cs = some q) :
    q = Pseudo.nop ∧ cs = "NOP".toList := by
  have hmem := List.mem_of_find?_eq_some h
  have hname := List.find?_some h
  obtain rfl : q = Pseudo.nop := by
    simpa [Pseudo.all] using hmem
  exact ⟨rfl, (by simpa using hname : Pseudo.nop.name.toList = cs).symm⟩

namespace Assembly

/-- A line asks for a mnemonic with operands: by its own name, or by the one pseudo instruction,
which takes no operands and stands for an addition of nothing to register zero. -/
def Line.AsksFor (l : Line) (m : Mnemonic) (operands : List (List Char)) : Prop :=
  Mnemonic.ofName? (Text.upper l.operation) = some m ∧ operands = l.operands ∨
    Text.upper l.operation = "NOP".toList ∧ l.operands = [] ∧
      m = .addi ∧ operands = ["x0".toList, "x0".toList, "0".toList]

/-- A statement without problems is empty or does what its line asks for. -/
theorem Statement.ReadOff.asksFor {s : Statement} (hs : s.ReadOff) (hclean : s.problems = [])
    (hop : s.parts.operation ≠ []) :
    ∃ m, s.operation = .known m ∧ s.parts.AsksFor m s.operands := by
  have hremarks : ∀ r ∈ (readOperation s.parts).2.2, r.problem? = none := by
    intro r hr
    have hnil : s.remarks.filterMap Remark.problem? = [] := hclean
    exact List.filterMap_eq_nil_iff.mp hnil r (hs.remarks r hr)
  have hempty : s.parts.operation.isEmpty = false := by
    simpa using hop
  rw [hs.operation, hs.operands]
  simp only [readOperation, hempty, Bool.false_eq_true, if_false] at hremarks ⊢
  cases hq : Pseudo.ofName? (Text.upper s.parts.operation) with
  | some q =>
      obtain ⟨rfl, hname⟩ := Pseudo.ofName?_eq_some hq
      simp only [hq] at hremarks ⊢
      refine ⟨_, rfl, Or.inr ⟨hname, ?_, rfl, rfl⟩⟩
      by_contra hsome
      have hp := hremarks (.problem (.takesNoOperands Pseudo.nop.name)) (by simp [hsome])
      simp [Remark.problem?] at hp
  | none =>
      simp only [hq] at hremarks ⊢
      cases hm : Mnemonic.ofName? (Text.upper s.parts.operation) with
      | some m =>
          exact ⟨m, rfl, Or.inl ⟨hm, rfl⟩⟩
      | none =>
          simp only [hm] at hremarks
          have hp := hremarks (.problem (.unknownMnemonic s.parts.operation)) (by simp)
          simp [Remark.problem?] at hp

/-- A statement that does something has an operation on its line. -/
theorem Statement.ReadOff.operation_ne_nil {s : Statement} (hs : s.ReadOff)
    (h : s.operation ≠ .none) : s.parts.operation ≠ [] := by
  intro hnil
  apply h
  rw [hs.operation]
  simp [readOperation, hnil]

/-- An operand such as `8(sp)` means an offset from a register. -/
def MemoryMeant (operand : List Char) (x : Int) (r : Register) : Prop :=
  ∃ offset name, memoryParts? operand = some (offset, name) ∧
    readLiteral (offsetText offset) = .ok (some x) ∧ Register.ofName? name = some r

end Assembly

/-! ## Instructions and operands -/

/-- An instruction says the same as operands written for it: the registers stand in their fields,
and the immediate that its layout generates is the number that was written, or the distance of the
label.  A shift holds its amount in the field of the second source register, and an upper immediate
the low twenty bits of its number. -/
@[simp] def Instruction.Conveys (i : Instruction) (symbols : List Symbol) (address : Nat)
    (operands : List (List Char)) : Prop :=
  match i.kind, operands with
  | .register, [a, b, c] =>
    Register.ofName? a = some i.rd ∧ Register.ofName? b = some i.rs1 ∧
      Register.ofName? c = some i.rs2
  | .immediate, [a, b, c] =>
    Register.ofName? a = some i.rd ∧ Register.ofName? b = some i.rs1 ∧
      ∃ x, readLiteral c = .ok (some x) ∧
        if i.mnemonic.isShift then (i.rs2.val : Int) = x else i.immediate? = some x
  | .load, [a, b] =>
    Register.ofName? a = some i.rd ∧ ∃ x, MemoryMeant b x i.rs1 ∧ i.immediate? = some x
  | .store, [a, b] =>
    Register.ofName? a = some i.rs2 ∧ ∃ x, MemoryMeant b x i.rs1 ∧ i.immediate? = some x
  | .branch, [a, b, c] =>
    Register.ofName? a = some i.rs1 ∧ Register.ofName? b = some i.rs2 ∧
      ∃ x, OffsetMeant symbols address c x ∧ i.immediate? = some x
  | .lui, [a, b] | .auipc, [a, b] =>
    Register.ofName? a = some i.rd ∧
      ∃ x, readLiteral b = .ok (some x) ∧ Word.field 12 20 i.word = x % 1048576
  | .jal, [a] =>
    i.rd = Register.ra ∧ ∃ x, OffsetMeant symbols address a x ∧ i.immediate? = some x
  | .jal, [a, b] =>
    Register.ofName? a = some i.rd ∧
      ∃ x, OffsetMeant symbols address b x ∧ i.immediate? = some x
  | .jalr, [a] =>
    i.rd = Register.ra ∧ Register.ofName? a = some i.rs1 ∧ i.immediate? = some 0
  | .jalr, [a, b] =>
    Register.ofName? a = some i.rd ∧ ∃ x, MemoryMeant b x i.rs1 ∧ i.immediate? = some x
  | .jalr, [a, b, c] =>
    Register.ofName? a = some i.rd ∧ Register.ofName? b = some i.rs1 ∧
      ∃ x, readLiteral c = .ok (some x) ∧ i.immediate? = some x
  | _, _ => False

/-- The word of a mnemonic with operands is as it should be: it has 32 bits, decodes to the
mnemonic, and conveys the operands. -/
structure Assembly.Faithful (m : Mnemonic) (symbols : List Symbol) (address : Nat)
    (operands : List (List Char)) (w : Int) : Prop where
  range : 0 ≤ w ∧ w < 4294967296
  decode : Instruction.decode w = .ok ⟨w, m⟩
  conveys : Instruction.Conveys ⟨w, m⟩ symbols address operands

/-! ## One class at a time -/

namespace Instruction

/-- The word of a 12-bit immediate that fits, where the entry has no second minor opcode. -/
theorem decode_buildI_of_fits {m : Mnemonic} (rd rs1 : Register) {x : Int}
    (h7 : m.entry.funct7 = none) (hformat : m.kind.signals.immediate = some .i)
    (hge : -2048 ≤ x) (hle : x ≤ 2047) :
    let w := Word.buildI m.kind.opcode (m.entry.funct3.getD 0) rd.val rs1.val x
    (0 ≤ w ∧ w < 4294967296) ∧ decode w = .ok ⟨w, m⟩ ∧
      rdOf w = rd ∧ rs1Of w = rs1 ∧ immediate? ⟨w, m⟩ = some x := by
  intro w
  obtain ⟨hw, hdecode, hrd, hrs1, -, hk⟩ := decode_buildI rd rs1 x (Or.inl h7)
  have hself : Word.signExtend 12 x = x :=
    Word.signExtend_eq_self (n := 11) (by omega) (by omega)
  refine ⟨hw, hdecode, hrd, hrs1, ?_⟩
  rw [immediate?_eq hformat, hk, hself]

end Instruction

namespace Assembly

open Instruction

theorem memoryMeant_of_accepts {operand : List Char} {x : Int} {r : Register}
    (h : (checkMemory operand).Accepts (x, r)) :
    MemoryMeant operand x r ∧ -2048 ≤ x ∧ x ≤ 2047 := by
  obtain ⟨offset, name, hparts, hx, hr⟩ := accepts_checkMemory.mp h
  obtain ⟨hread, hge, hle⟩ := accepts_checkNumber.mp hx
  exact ⟨⟨offset, name, hparts, hread, accepts_checkRegister.mp hr⟩, hge, hle⟩

section Classes

variable {m : Mnemonic} {symbols : List Symbol} {address : Nat} {a b c : List Char}
  {rd rs1 rs2 : Register} {x : Int}

theorem faithful_register (hk : m.kind = .register) (ha : Register.ofName? a = some rd)
    (hb : Register.ofName? b = some rs1) (hc : Register.ofName? c = some rs2) :
    Faithful m symbols address [a, b, c]
      (Word.buildR m.kind.opcode (m.entry.funct3.getD 0) (m.entry.funct7.getD 0)
        rd.val rs1.val rs2.val) := by
  obtain ⟨hw, hdecode, hrd, hrs1, hrs2⟩ := decode_buildR (m := m) rd rs1 rs2
  refine ⟨hw, hdecode, ?_⟩
  generalize Word.buildR _ _ _ _ _ _ = w at hrd hrs1 hrs2 ⊢
  simp only [Conveys, kind, hk, Instruction.rd, Instruction.rs1, Instruction.rs2, hrd, hrs1, hrs2]
  exact ⟨ha, hb, hc⟩

theorem faithful_immediate (hk : m.kind = .immediate) (hs : m.isShift = false)
    (ha : Register.ofName? a = some rd) (hb : Register.ofName? b = some rs1)
    (hc : (checkNumber .immediate c).Accepts x) :
    Faithful m symbols address [a, b, c]
      (Word.buildI m.kind.opcode (m.entry.funct3.getD 0) rd.val rs1.val x) := by
  obtain ⟨hread, hge, hle⟩ := accepts_checkNumber.mp hc
  have h7 : m.entry.funct7 = none := Mnemonic.funct7_eq_none_of_kind (by simp [hk]) hs
  obtain ⟨hw, hdecode, hrd, hrs1, himm⟩ :=
    decode_buildI_of_fits rd rs1 h7 (by rw [hk]; rfl) hge hle
  refine ⟨hw, hdecode, ?_⟩
  generalize Word.buildI _ _ _ _ _ = w at hrd hrs1 himm ⊢
  simp only [Conveys, kind, hk, Instruction.rd, Instruction.rs1, hrd, hrs1, himm, hs,
    Bool.false_eq_true, if_false]
  exact ⟨ha, hb, x, hread, rfl⟩

/-- A shift has its amount in the low five bits of the immediate, and its second minor opcode in
the others. -/
theorem faithful_shift (hk : m.kind = .immediate) (hs : m.isShift = true)
    (ha : Register.ofName? a = some rd) (hb : Register.ofName? b = some rs1)
    (hc : (checkNumber .shiftAmount c).Accepts x) :
    Faithful m symbols address [a, b, c]
      (Word.buildI m.kind.opcode (m.entry.funct3.getD 0) rd.val rs1.val
        (m.entry.funct7.getD 0 * 32 + x)) := by
  obtain ⟨hread, hge, hle⟩ := accepts_checkNumber.mp hc
  change 0 ≤ x at hge
  change x ≤ 31 at hle
  obtain ⟨h7ge, h7lt⟩ := m.funct7_range
  obtain ⟨hw, hdecode, hrd, hrs1, hamount, -⟩ :=
    decode_buildI (m := m) rd rs1 (m.entry.funct7.getD 0 * 32 + x) (Or.inr (by omega))
  refine ⟨hw, hdecode, ?_⟩
  generalize Word.buildI _ _ _ _ _ = w at hrd hrs1 hamount ⊢
  simp only [Conveys, kind, hk, Instruction.rd, Instruction.rs1, Instruction.rs2, hrd, hrs1, hs,
    if_true]
  refine ⟨ha, hb, x, hread, ?_⟩
  simp only [rs2Of, hamount]
  omega

theorem faithful_memory (hk : m.kind = .load ∨ m.kind = .jalr)
    (ha : Register.ofName? a = some rd) (hb : (checkMemory b).Accepts (x, rs1)) :
    Faithful m symbols address [a, b]
      (Word.buildI m.kind.opcode (m.entry.funct3.getD 0) rd.val rs1.val x) := by
  obtain ⟨hmem, hge, hle⟩ := memoryMeant_of_accepts hb
  have h7 : m.entry.funct7 = none := by
    rcases hk with hk | hk <;> exact Mnemonic.funct7_eq_none (by simp [hk]) (by simp [hk])
  have hformat : m.kind.signals.immediate = some .i := by
    rcases hk with hk | hk <;> rw [hk] <;> rfl
  obtain ⟨hw, hdecode, hrd, hrs1, himm⟩ := decode_buildI_of_fits rd rs1 h7 hformat hge hle
  refine ⟨hw, hdecode, ?_⟩
  generalize Word.buildI _ _ _ _ _ = w at hrd hrs1 himm ⊢
  rcases hk with hk | hk
  · simp only [Conveys, kind, hk, Instruction.rd, Instruction.rs1, hrd, hrs1, himm]
    exact ⟨ha, x, hmem, rfl⟩
  · simp only [Conveys, kind, hk, Instruction.rd, Instruction.rs1, hrd, hrs1, himm]
    exact ⟨ha, x, hmem, rfl⟩

theorem faithful_store (hk : m.kind = .store) (ha : Register.ofName? a = some rs2)
    (hb : (checkMemory b).Accepts (x, rs1)) :
    Faithful m symbols address [a, b]
      (Word.buildS m.kind.opcode (m.entry.funct3.getD 0) rs1.val rs2.val x) := by
  obtain ⟨hmem, hge, hle⟩ := memoryMeant_of_accepts hb
  have h7 : m.entry.funct7 = none := Mnemonic.funct7_eq_none (by simp [hk]) (by simp [hk])
  obtain ⟨hw, hdecode, hrs1, hrs2, himm⟩ := decode_buildS (m := m) rs1 rs2 x h7
  rw [Word.signExtend_eq_self (n := 11) (by omega) (by omega)] at himm
  refine ⟨hw, hdecode, ?_⟩
  generalize Word.buildS _ _ _ _ _ = w at hrs1 hrs2 himm ⊢
  simp only [Conveys, kind, hk, Instruction.rs1, Instruction.rs2, hrs1, hrs2]
  refine ⟨ha, x, hmem, ?_⟩
  rw [immediate?_eq (by rw [hk]; rfl), himm]

theorem faithful_branch (hk : m.kind = .branch) (ha : Register.ofName? a = some rs1)
    (hb : Register.ofName? b = some rs2) (hc : (checkTarget .b symbols address c).Accepts x) :
    Faithful m symbols address [a, b, c]
      (Word.buildB m.kind.opcode (m.entry.funct3.getD 0) rs1.val rs2.val x) := by
  obtain ⟨hmeant, heven, hfits⟩ := accepts_checkTarget.mp hc
  obtain ⟨hge, hlt⟩ := (ImmediateFormat.fits_iff (n := 12) rfl).mp hfits
  have h7 : m.entry.funct7 = none := Mnemonic.funct7_eq_none (by simp [hk]) (by simp [hk])
  obtain ⟨hw, hdecode, hrs1, hrs2, himm⟩ := decode_buildB (m := m) rs1 rs2 x h7
  rw [heven, Int.sub_zero, Word.signExtend_eq_self (n := 12) hge hlt] at himm
  refine ⟨hw, hdecode, ?_⟩
  generalize Word.buildB _ _ _ _ _ = w at hrs1 hrs2 himm ⊢
  simp only [Conveys, kind, hk, Instruction.rs1, Instruction.rs2, hrs1, hrs2]
  refine ⟨ha, hb, x, hmeant, ?_⟩
  rw [immediate?_eq (by rw [hk]; rfl), himm]

theorem faithful_upper (hk : m.kind = .lui ∨ m.kind = .auipc)
    (ha : Register.ofName? a = some rd) (hb : (checkNumber .upperImmediate b).Accepts x) :
    Faithful m symbols address [a, b] (Word.buildU m.kind.opcode rd.val x) := by
  obtain ⟨hread, -⟩ := accepts_checkNumber.mp hb
  have h3 : m.entry.funct3 = none := Mnemonic.funct3_eq_none_of_kind (by tauto)
  have h7 : m.entry.funct7 = none := by
    rcases hk with hk | hk <;> exact Mnemonic.funct7_eq_none (by simp [hk]) (by simp [hk])
  obtain ⟨hw, hdecode, hrd, hupper⟩ := decode_buildU (m := m) rd x h3 h7
  refine ⟨hw, hdecode, ?_⟩
  generalize Word.buildU _ _ _ = w at hrd hupper ⊢
  rcases hk with hk | hk
  · simp only [Conveys, kind, hk, Instruction.rd, hrd]
    exact ⟨ha, x, hread, hupper⟩
  · simp only [Conveys, kind, hk, Instruction.rd, hrd]
    exact ⟨ha, x, hread, hupper⟩

/-- The offset of a jump comes back, whatever its destination is. -/
theorem decode_jump (r : Register) (hk : m.kind = .jal)
    (hb : (checkTarget .j symbols address b).Accepts x) :
    let w := Word.buildJ m.kind.opcode r.val x
    (0 ≤ w ∧ w < 4294967296) ∧ decode w = .ok ⟨w, m⟩ ∧ rdOf w = r ∧
      OffsetMeant symbols address b x ∧ immediate? ⟨w, m⟩ = some x := by
  obtain ⟨hmeant, heven, hfits⟩ := accepts_checkTarget.mp hb
  obtain ⟨hge, hlt⟩ := (ImmediateFormat.fits_iff (n := 20) rfl).mp hfits
  have h3 : m.entry.funct3 = none := Mnemonic.funct3_eq_none_of_kind (by tauto)
  have h7 : m.entry.funct7 = none := Mnemonic.funct7_eq_none (by simp [hk]) (by simp [hk])
  obtain ⟨hw, hdecode, hrd, himm⟩ := decode_buildJ (m := m) r x h3 h7
  rw [heven, Int.sub_zero, Word.signExtend_eq_self (n := 20) hge hlt] at himm
  refine ⟨hw, hdecode, hrd, hmeant, ?_⟩
  rw [immediate?_eq (by rw [hk]; rfl), himm]

theorem faithful_call (hk : m.kind = .jal) (ha : (checkTarget .j symbols address a).Accepts x) :
    Faithful m symbols address [a] (Word.buildJ m.kind.opcode Register.ra.val x) := by
  obtain ⟨hw, hdecode, hrd, hmeant, himm⟩ := decode_jump Register.ra hk ha
  refine ⟨hw, hdecode, ?_⟩
  generalize Word.buildJ _ _ _ = w at hrd himm ⊢
  simp only [Conveys, kind, hk, Instruction.rd, hrd, himm, true_and]
  exact ⟨x, hmeant, rfl⟩

theorem faithful_jump (hk : m.kind = .jal) (ha : Register.ofName? a = some rd)
    (hb : (checkTarget .j symbols address b).Accepts x) :
    Faithful m symbols address [a, b] (Word.buildJ m.kind.opcode rd.val x) := by
  obtain ⟨hw, hdecode, hrd, hmeant, himm⟩ := decode_jump rd hk hb
  refine ⟨hw, hdecode, ?_⟩
  generalize Word.buildJ _ _ _ = w at hrd himm ⊢
  simp only [Conveys, kind, hk, Instruction.rd, hrd, himm]
  exact ⟨ha, x, hmeant, rfl⟩

theorem faithful_return (hk : m.kind = .jalr) (ha : Register.ofName? a = some rs1) :
    Faithful m symbols address [a]
      (Word.buildI m.kind.opcode (m.entry.funct3.getD 0) Register.ra.val rs1.val 0) := by
  have h7 : m.entry.funct7 = none := Mnemonic.funct7_eq_none (by simp [hk]) (by simp [hk])
  obtain ⟨hw, hdecode, hrd, hrs1, himm⟩ :=
    decode_buildI_of_fits (x := 0) Register.ra rs1 h7 (by rw [hk]; rfl) (by decide) (by decide)
  refine ⟨hw, hdecode, ?_⟩
  generalize Word.buildI _ _ _ _ _ = w at hrd hrs1 himm ⊢
  simp only [Conveys, kind, hk, Instruction.rd, Instruction.rs1, hrd, hrs1, himm, true_and,
    and_true]
  exact ha

theorem faithful_indirect (hk : m.kind = .jalr) (ha : Register.ofName? a = some rd)
    (hb : Register.ofName? b = some rs1) (hc : (checkNumber .immediate c).Accepts x) :
    Faithful m symbols address [a, b, c]
      (Word.buildI m.kind.opcode (m.entry.funct3.getD 0) rd.val rs1.val x) := by
  obtain ⟨hread, hge, hle⟩ := accepts_checkNumber.mp hc
  have h7 : m.entry.funct7 = none := Mnemonic.funct7_eq_none (by simp [hk]) (by simp [hk])
  obtain ⟨hw, hdecode, hrd, hrs1, himm⟩ :=
    decode_buildI_of_fits rd rs1 h7 (by rw [hk]; rfl) hge hle
  refine ⟨hw, hdecode, ?_⟩
  generalize Word.buildI _ _ _ _ _ = w at hrd hrs1 himm ⊢
  simp only [Conveys, kind, hk, Instruction.rd, Instruction.rs1, hrd, hrs1, himm]
  exact ⟨ha, hb, x, hread, rfl⟩

end Classes

/-! ## All classes -/

/-- A word that the checks accept for some operands is faithful to them. -/
theorem faithful_of_accepts {m : Mnemonic} {symbols : List Symbol} {address : Nat}
    {operands : List (List Char)} {w : Int}
    (h : (encodeOperands symbols address m operands).Accepts w) :
    Faithful m symbols address operands w := by
  unfold encodeOperands at h
  simp only at h
  split at h
  all_goals
    try simp only [Checked.accepts_seq, Checked.accepts_map, accepts_checkRegister] at h
  · obtain ⟨_, rs2, ⟨_, rs1, ⟨rd, ha, rfl⟩, hb, rfl⟩, hc, rfl⟩ := h
    exact faithful_register ‹_› ha hb hc
  · obtain ⟨_, k, ⟨_, rs1, ⟨rd, ha, rfl⟩, hb, rfl⟩, hc, rfl⟩ := h
    unfold checkImmediate at hc
    split at hc
    · next hs =>
        obtain ⟨x, hx, rfl⟩ := Checked.accepts_map.mp hc
        exact faithful_shift ‹_› hs ha hb hx
    · next hs => exact faithful_immediate ‹_› (by simpa using hs) ha hb hc
  · next hk =>
      obtain ⟨_, ⟨x, rs1⟩, ⟨rd, ha, rfl⟩, hb, rfl⟩ := h
      exact faithful_memory (Or.inl hk) ha hb
  · obtain ⟨_, ⟨x, rs1⟩, ⟨rs2, ha, rfl⟩, hb, rfl⟩ := h
    exact faithful_store ‹_› ha hb
  · obtain ⟨_, x, ⟨_, rs2, ⟨rs1, ha, rfl⟩, hb, rfl⟩, hc, rfl⟩ := h
    exact faithful_branch ‹_› ha hb hc
  · next hk =>
      obtain ⟨_, x, ⟨rd, ha, rfl⟩, hb, rfl⟩ := h
      exact faithful_upper (Or.inl hk) ha hb
  · next hk =>
      obtain ⟨_, x, ⟨rd, ha, rfl⟩, hb, rfl⟩ := h
      exact faithful_upper (Or.inr hk) ha hb
  · obtain ⟨x, ha, rfl⟩ := h
    exact faithful_call ‹_› ha
  · obtain ⟨_, x, ⟨rd, ha, rfl⟩, hb, rfl⟩ := h
    exact faithful_jump ‹_› ha hb
  · obtain ⟨rs1, ha, rfl⟩ := h
    exact faithful_return ‹_› ha
  · next hk =>
      obtain ⟨_, ⟨x, rs1⟩, ⟨rd, ha, rfl⟩, hb, rfl⟩ := h
      exact faithful_memory (Or.inr hk) ha hb
  · obtain ⟨_, x, ⟨_, rs1, ⟨rd, ha, rfl⟩, hb, rfl⟩, hc, rfl⟩ := h
    exact faithful_indirect ‹_› ha hb hc
  · exact absurd h Checked.not_accepts_fail

theorem offsetMeant_program (l : Layout) (address : Nat) (operand : List Char) (x : Int) :
    OffsetMeant l.program.symbols address operand x ↔
      OffsetMeant l.symbols address operand x := by
  simp [OffsetMeant, findSymbol?_program]

theorem conveys_program (l : Layout) (i : Instruction) (address : Nat)
    (operands : List (List Char)) :
    i.Conveys l.program.symbols address operands ↔ i.Conveys l.symbols address operands := by
  have hmeant : OffsetMeant l.program.symbols address = OffsetMeant l.symbols address := by
    funext operand x
    exact propext (offsetMeant_program l address operand x)
  unfold Conveys
  rw [hmeant]

/-! ## Accepted sources -/

section Accepted

variable {source : List Char} {p : Program} (h : assemble source = .ok p)

include h in
/-- The statement of a line that carries an operation has a word, which is faithful to it. -/
theorem faithful_of_mem {e : Encoded} (he : e ∈ p.statements)
    (hop : e.statement.parts.operation ≠ []) :
    ∃ m w, e.word = some w ∧ e.emitted = some w ∧
      (Line.parse e.statement.source).AsksFor m e.statement.operands ∧
      Faithful m (layout source).symbols e.statement.address e.statement.operands w := by
  have hread := readOff_of_mem h he
  obtain ⟨m, hm, hasks⟩ := hread.asksFor (problems_eq_nil h he) hop
  obtain ⟨w, hw, haccepts⟩ := accepts_word h he hm
  have hemitted : e.emitted = some w := by
    simp [Encoded.emitted, hm, hw]
  rw [hread.parts] at hasks
  exact ⟨m, w, hw, hemitted, hasks, faithful_of_accepts (accepts_encode_iff.mp haccepts).2.2⟩

include h in
/-- Each word of the machine code is faithful to the statement at its address. -/
theorem faithful_of_getElem?_machineCode {j : Nat} {w : Int} (hw : p.machineCode[j]? = some w) :
    ∃ e ∈ p.statements, ∃ m, e.word = some w ∧ e.statement.address = 4 * j ∧
      (Line.parse e.statement.source).AsksFor m e.statement.operands ∧
      Faithful m (layout source).symbols e.statement.address e.statement.operands w := by
  obtain ⟨e, he, haddress, hemitted⟩ := exists_mem_of_getElem?_machineCode h hw
  have hnone : e.statement.operation ≠ .none := by
    intro hnone
    simp [Encoded.emitted, hnone] at hemitted
  obtain ⟨m, v, hv, hemitted', hasks, hfaithful⟩ :=
    faithful_of_mem h he ((readOff_of_mem h he).operation_ne_nil hnone)
  obtain rfl : w = v := Option.some.inj (hemitted.symm.trans hemitted')
  exact ⟨e, he, m, hv, haddress, hasks, hfaithful⟩

include h in
/-- Encoding loses nothing and cuts nothing off.  Where a source is accepted, each line that
carries an operation has a word, which stands in the machine code at the address of its statement
and is faithful to the mnemonic and the operands that the line asks for. -/
theorem assemble_faithful {k : Nat} {line : List Char}
    (hline : (sourceLines source)[k]? = some line) (hop : (Line.parse line).operation ≠ []) :
    ∃ e w j m operands, p.statements[k]? = some e ∧ e.word = some w ∧
      e.statement.address = 4 * j ∧ p.machineCode[j]? = some w ∧
      (Line.parse line).AsksFor m operands ∧
      Faithful m p.symbols e.statement.address operands w := by
  rw [← map_source_statements h, List.getElem?_map, Option.map_eq_some_iff] at hline
  obtain ⟨e, hk, rfl⟩ := hline
  have he : e ∈ p.statements := List.mem_of_getElem? hk
  rw [← (readOff_of_mem h he).parts] at hop
  obtain ⟨m, w, hw, hemitted, hasks, hfaithful⟩ := faithful_of_mem h he hop
  obtain ⟨j, haddress, hj⟩ := exists_index_of_mem h he hemitted
  refine ⟨e, w, j, m, e.statement.operands, hk, hw, haddress, hj, hasks, ?_⟩
  obtain ⟨rfl, -⟩ := assemble_eq_ok_iff.mp h
  exact ⟨hfaithful.range, hfaithful.decode, (conveys_program _ _ _ _).mpr hfaithful.conveys⟩

end Accepted

/-- A branch back to a label, two lines below it. -/
theorem assemble_faithful_branch :
    ∃ p e w j m operands,
      assemble "loop: sw t0, -4(sp)  # keep\n\nbeq a0, a1, loop".toList = .ok p ∧
        p.statements[2]? = some e ∧ e.word = some w ∧
        e.statement.address = 4 * j ∧ p.machineCode[j]? = some w ∧
        (Line.parse "beq a0, a1, loop".toList).AsksFor m operands ∧
        Faithful m p.symbols e.statement.address operands w := by
  have h : assemble "loop: sw t0, -4(sp)  # keep\n\nbeq a0, a1, loop".toList =
      .ok (layout "loop: sw t0, -4(sp)  # keep\n\nbeq a0, a1, loop".toList).program := by
    decide +kernel
  have hline : (sourceLines "loop: sw t0, -4(sp)  # keep\n\nbeq a0, a1, loop".toList)[2]? =
      some "beq a0, a1, loop".toList := by
    decide +kernel
  have hop : (Line.parse "beq a0, a1, loop".toList).operation ≠ [] := by
    decide +kernel
  obtain ⟨e, w, j, m, operands, hfacts⟩ := assemble_faithful h hline hop
  exact ⟨_, e, w, j, m, operands, h, hfacts⟩

/-! ## Statements with a label as their target -/

/-- A line asks for a branch or jump to a label. -/
structure Line.Targets (l : Line) (n : Mnemonic) (label : List Char) : Prop where
  mnemonic : Mnemonic.ofName? (Text.upper l.operation) = some n
  kind : n.kind = .branch ∨ n.kind = .jal
  operand : l.operands.getLast? = some label
  name : isName label = true

theorem Line.Targets.operation_ne_nil {l : Line} {n : Mnemonic} {label : List Char}
    (h : l.Targets n label) : l.operation ≠ [] := by
  intro hnil
  have hname := h.mnemonic
  rw [hnil] at hname
  cases hname

/-- Such a line asks for nothing else. -/
theorem Line.Targets.eq_of_asksFor {l : Line} {n m : Mnemonic} {label : List Char}
    {operands : List (List Char)} (h : l.Targets n label) (hasks : l.AsksFor m operands) :
    m = n ∧ operands = l.operands := by
  rcases hasks with ⟨hm, hoperands⟩ | ⟨hnop, -⟩
  · exact ⟨Option.some.inj (hm.symm.trans h.mnemonic), hoperands⟩
  · have hname := h.mnemonic
    rw [hnop] at hname
    cases hname

/-- The target of a branch or jump is its last operand. -/
theorem exists_target {i : Instruction} {symbols : List Symbol} {address : Nat}
    {operands : List (List Char)} (hk : i.kind = .branch ∨ i.kind = .jal)
    (h : i.Conveys symbols address operands) :
    ∃ target k, operands.getLast? = some target ∧ OffsetMeant symbols address target k ∧
      i.immediate? = some k := by
  -- The layouts of all other classes contradict `hk`, and the two conveyed facts remain.
  unfold Instruction.Conveys at h
  split at h <;> simp_all

/-- An offset that is written as a name is the distance of a label. -/
theorem exists_symbol_of_isName {symbols : List Symbol} {address : Nat} {label : List Char}
    {x : Int} (hname : isName label = true) (h : OffsetMeant symbols address label x) :
    ∃ s, findSymbol? symbols label = some s ∧ x = (s.address : Int) - address := by
  rcases h with hread | ⟨-, -, hfound⟩
  · rw [readLiteral_of_isName hname] at hread
    cases hread
  · exact hfound

/-- The word of a branch or jump to a label stands in the machine code at the address of its
statement, and its immediate is the distance of the label, which is a multiple of four. -/
theorem exists_word_of_targets {source : List Char} {p : Program} (h : assemble source = .ok p)
    {k : Nat} {line label : List Char} {n : Mnemonic}
    (hline : (sourceLines source)[k]? = some line) (htargets : (Line.parse line).Targets n label) :
    ∃ e w s j, p.statements[k]? = some e ∧ e.word = some w ∧
      Instruction.decode w = .ok ⟨w, n⟩ ∧ findSymbol? p.symbols label = some s ∧
      Instruction.immediate? ⟨w, n⟩ = some ((s.address : Int) - e.statement.address) ∧
      e.statement.address = 4 * j ∧ s.address % 4 = 0 ∧
      p.machineCode[j]? = some w ∧ 0 ≤ w ∧ w < 4294967296 := by
  rw [← map_source_statements h, List.getElem?_map, Option.map_eq_some_iff] at hline
  obtain ⟨e, hk, rfl⟩ := hline
  have he : e ∈ p.statements := List.mem_of_getElem? hk
  have hop : e.statement.parts.operation ≠ [] := by
    rw [(readOff_of_mem h he).parts]
    exact htargets.operation_ne_nil
  obtain ⟨m, w, hw, hemitted, hasks, hfaithful⟩ := faithful_of_mem h he hop
  obtain ⟨rfl, hoperands⟩ := htargets.eq_of_asksFor hasks
  obtain ⟨j, haddress, hcode⟩ := exists_index_of_mem h he hemitted
  obtain ⟨target, x, hlast, hmeant, himm⟩ :=
    exists_target (i := ⟨w, m⟩) htargets.kind hfaithful.conveys
  obtain rfl : target = label := by
    rw [hoperands, htargets.operand] at hlast
    exact (Option.some.inj hlast).symm
  obtain ⟨s, hs, rfl⟩ := exists_symbol_of_isName htargets.name hmeant
  have hfour : s.address % 4 = 0 := aligned_layout source s (List.mem_of_find?_eq_some hs)
  -- The symbol of the program is the one of the layout, with its uses.
  obtain ⟨rfl, -⟩ := assemble_eq_ok_iff.mp h
  have hfound := findSymbol?_program (layout source) target
  rw [hs] at hfound
  exact ⟨e, w, _, j, hk, hw, hfaithful.decode, hfound, himm, haddress, hfour, hcode,
    hfaithful.range⟩

end Assembly

end Rv32
