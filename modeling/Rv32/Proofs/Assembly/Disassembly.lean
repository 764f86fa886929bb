import Mathlib
import Rv32.Instruction.Basic
import Rv32.Proofs.Assembly.Canonical
import Rv32.Proofs.Assembly.Layout
import Rv32.Proofs.Assembly.Literals
import Rv32.Proofs.Instruction.Encoding

/-!
# Disassembled words assemble

The canonical text of an instruction is a canonical line, whose operands are accepted for the very
word that the text was made of.  A source of such lines therefore assembles to the words that were
disassembled, one a line.
-/

namespace Rv32

open Assembly
open Rv32.Text (IsToken)

namespace Instruction

/-! ## Canonical text -/

theorem isToken_regText (r : Register) : IsToken (regText r).toList := by
  have hdigits := isToken_toString r.val
  have htext : (regText r).toList = 'x' :: (toString (r.val : Int)).toList := by
    simp [regText, Register.numeric, toString]
  rw [htext]
  refine ⟨by simp, ?_⟩
  intro c hc
  rcases List.mem_cons.mp hc with rfl | hc
  · rfl
  · exact hdigits.plain c hc

theorem ofName?_regText (r : Register) : Register.ofName? (regText r).toList = some r := by
  have hall : ∀ r : Register, Register.ofName? (regText r).toList = some r := by
    decide +kernel
  exact hall r

theorem isToken_small (m : Mnemonic) : IsToken m.small.toList := by
  have hall : m.small.toList ≠ [] ∧ m.small.toList.all Text.isPlain = true := by
    cases m <;> decide +kernel
  exact ⟨hall.1, List.all_eq_true.mp hall.2⟩

theorem ofName?_small (m : Mnemonic) :
    Pseudo.ofName? (Text.upper m.small.toList) = none ∧
      Mnemonic.ofName? (Text.upper m.small.toList) = some m := by
  have hall : ∀ m ∈ Mnemonic.all, (Pseudo.ofName? (Text.upper m.small.toList)).isNone = true ∧
      Mnemonic.ofName? (Text.upper m.small.toList) = some m := by
    decide +kernel
  obtain ⟨hpseudo, hm⟩ := hall m (Mnemonic.mem_all m)
  exact ⟨Option.isNone_iff_eq_none.mp hpseudo, hm⟩

/-- An offset with a register in parentheses. -/
def memoryText (x : Int) (r : Register) : List Char :=
  (toString x).toList ++ '(' :: (regText r).toList ++ [')']

/-- The operands of the canonical text. -/
def operandTexts (i : Instruction) : List (List Char) :=
  let rd := (regText i.rd).toList
  let rs1 := (regText i.rs1).toList
  let rs2 := (regText i.rs2).toList
  let x := i.immediate?.getD 0
  match i.kind with
  | .register => [rd, rs1, rs2]
  | .immediate =>
    [rd, rs1, (toString (if i.mnemonic.isShift then (i.rs2.val : Int) else x)).toList]
  | .load | .jalr => [rd, memoryText x i.rs1]
  | .store => [rs2, memoryText x i.rs1]
  | .branch => [rs1, rs2, (toString x).toList]
  | .lui | .auipc => [rd, '0' :: 'x' :: Nat.toDigits 16 (Word.field 12 20 i.word).toNat]
  | .jal => [rd, (toString x).toList]

theorem toList_marked {x : Int} (hx : 0 ≤ x) :
    (Numeral.marked 1 x).toList = '0' :: 'x' :: Nat.toDigits 16 x.toNat := by
  have hpad : Numeral.digits 16 1 x.natAbs = Nat.toDigits 16 x.natAbs := by
    have hlen : 0 < (Nat.toDigits 16 x.natAbs).length := Nat.length_toDigits_pos
    rw [Numeral.digits, List.leftpad, Nat.sub_eq_zero_of_le hlen]
    rfl
  have habs : x.natAbs = x.toNat := by omega
  rw [Numeral.marked, if_neg (by omega), Numeral.hex, hpad, habs]
  simp

/-- The canonical text is a canonical line. -/
theorem toList_text (i : Instruction) :
    i.text.toList = i.mnemonic.small.toList ++ ' ' :: operandList i.operandTexts := by
  have hoperands : i.operandText.toList = operandList i.operandTexts := by
    unfold operandText operandTexts
    cases i.kind with
    | lui => simp [operandList_cons_cons, toString, toList_marked (Word.field_nonneg 12 20 i.word)]
    | auipc =>
        simp [operandList_cons_cons, toString, toList_marked (Word.field_nonneg 12 20 i.word)]
    | _ => simp [operandList_cons_cons, memoryText, toString]
  simp [text, toString, hoperands]

theorem isOperand_memoryText (x : Int) (r : Register) : IsOperand (memoryText x r) :=
  .memory (isToken_toString x) (isToken_regText r)

theorem isOperand_operandTexts (i : Instruction) : ∀ o ∈ i.operandTexts, IsOperand o := by
  have hreg (r : Register) : IsOperand (regText r).toList := .token (isToken_regText r)
  have hnumber (x : Int) : IsOperand x.repr.toList := .token (isToken_toString x)
  have hmemory := isOperand_memoryText
  have hmarked (n : Nat) : IsOperand ('0' :: 'x' :: Nat.toDigits 16 n) := .token (isToken_hex n)
  unfold operandTexts
  cases i.kind with
  | _ => simp [hreg, hnumber, hmemory, hmarked]

end Instruction

/-! ## Words from their parts -/

namespace Mnemonic.Selects

variable {m : Mnemonic} {w : Int}

theorem funct3_getD (h : m.Selects w) (hlui : m.kind ≠ .lui) (hauipc : m.kind ≠ .auipc)
    (hjal : m.kind ≠ .jal) : m.entry.funct3.getD 0 = Word.funct3 w := by
  have hsome : ∃ f, m.entry.funct3 = some f := by
    cases m <;> first | exact ⟨_, rfl⟩ | exact absurd rfl hlui | exact absurd rfl hauipc |
      exact absurd rfl hjal
  obtain ⟨f, hf⟩ := hsome
  rw [hf, Option.getD_some, h.funct3 f hf]

theorem funct7_getD (h : m.Selects w) (hk : m.kind = .register ∨ m.isShift = true) :
    m.entry.funct7.getD 0 = Word.funct7 w := by
  have hsome : ∃ f, m.entry.funct7 = some f := by
    cases m <;> first | exact ⟨_, rfl⟩ | exact absurd hk (by decide)
  obtain ⟨f, hf⟩ := hsome
  rw [hf, Option.getD_some, h.funct7 f hf]

end Mnemonic.Selects

namespace Instruction

/-! ## Canonical operands are accepted -/

theorem accepts_regText (r : Register) : (checkRegister (regText r).toList).Accepts r :=
  accepts_checkRegister.mpr (ofName?_regText r)

theorem accepts_number {what : Quantity} {x : Int} (hge : what.least ≤ x)
    (hle : x ≤ what.greatest) : (checkNumber what (toString x).toList).Accepts x := by
  have hbounds : -524288 ≤ what.least ∧ what.greatest ≤ 1048575 := by
    cases what <;> decide
  exact accepts_checkNumber.mpr ⟨readLiteral_toString (by omega), hge, hle⟩

theorem memoryParts?_memoryText (x : Int) (r : Register) :
    memoryParts? (memoryText x r) = some ((toString x).toList, (regText r).toList) := by
  have hreg := isToken_regText r
  have hstop : ∀ c ∈ (regText r).toList.reverse, (c != '(' && c != ')') = true := by
    intro c hc
    have hc := hreg.plain c (List.mem_reverse.mp hc)
    simp [Text.ne_of_isPlain hc (d := '(') rfl, Text.ne_of_isPlain hc (d := ')') rfl]
  have hrev : (memoryText x r).reverse =
      ')' :: ((regText r).toList.reverse ++ '(' :: (toString x).toList.reverse) := by
    simp [memoryText]
  have hne : (regText r).toList.reverse.isEmpty = false := by
    simpa using hreg.ne_nil
  simp only [memoryParts?, hrev, List.takeWhile_append_of_pos hstop,
    List.dropWhile_append_of_pos hstop]
  simp [hne]

theorem accepts_memoryText {x : Int} (r : Register) (hge : -2048 ≤ x) (hle : x ≤ 2047) :
    (checkMemory (memoryText x r)).Accepts (x, r) := by
  have hne : offsetText (toString x).toList = (toString x).toList := by
    have hempty : (toString x).toList.isEmpty = false := by
      simpa using (isToken_toString x).ne_nil
    rw [offsetText, hempty]
    rfl
  refine accepts_checkMemory.mpr ⟨_, _, memoryParts?_memoryText x r, ?_, accepts_regText r⟩
  rw [hne]
  exact accepts_number hge hle

theorem accepts_target {format : ImmediateFormat} {x : Int} (symbols : List Symbol)
    (address : Nat) (heven : x % 2 = 0) (hfits : format.fits x = true) :
    (checkTarget format symbols address (toString x).toList).Accepts x := by
  have hsmall : x.natAbs < 10 ^ 10 := by
    simp only [ImmediateFormat.fits, Bool.and_eq_true, decide_eq_true_eq] at hfits
    cases format <;> simp only [ImmediateFormat.bits] at hfits <;> norm_num at hfits <;> omega
  exact accepts_checkTarget.mpr ⟨Or.inl (readLiteral_toString hsmall), heven, hfits⟩

section Classes

variable {m : Mnemonic} {w : Int} (symbols : List Symbol) (address : Nat)
  (hw : 0 ≤ w ∧ w < 4294967296) (hm : m.Selects w)

include hw hm

theorem accepts_register (hk : m.kind = .register) :
    (encodeOperands symbols address m (operandTexts ⟨w, m⟩)).Accepts w := by
  have hop := hm.opcode
  have h3 := hm.funct3_getD (by simp [hk]) (by simp [hk]) (by simp [hk])
  have h7 := hm.funct7_getD (Or.inl hk)
  unfold encodeOperands operandTexts
  simp only [kind, hk, rd, rs1, rs2, h3, h7] at hop ⊢
  refine ((accepts_regText _).map rfl).seq (accepts_regText _) rfl |>.seq (accepts_regText _) ?_
  rw [← hop, val_rdOf, val_rs1Of, val_rs2Of]
  exact Word.buildR_fields hw

theorem accepts_immediate (hk : m.kind = .immediate) :
    (encodeOperands symbols address m (operandTexts ⟨w, m⟩)).Accepts w := by
  have hop := hm.opcode
  have h3 := hm.funct3_getD (by simp [hk]) (by simp [hk]) (by simp [hk])
  have himm := immediate?_eq (w := w) (m := m) (f := .i) (by rw [hk]; rfl)
  have hthird : ∃ k,
      (checkImmediate m (toString
        (if m.isShift then ((rs2Of w).val : Int)
          else ImmediateFormat.i.generate w)).toList).Accepts k ∧
        Word.buildI (Word.opcode w) (Word.funct3 w) (Word.rdField w) (Word.rs1Field w) k = w := by
    unfold checkImmediate
    by_cases hs : m.isShift = true
    · obtain ⟨hge, hle⟩ := (rs2Of w).range
      rw [if_pos hs, if_pos hs, hm.funct7_getD (Or.inr hs)]
      refine ⟨_, (accepts_number hge (Int.le_of_lt_add_one hle)).map rfl, ?_⟩
      rw [val_rs2Of]
      exact Word.buildI_shift_fields hw
    · obtain ⟨hge, hle⟩ := ImmediateFormat.generate_i_range w
      rw [if_neg hs, if_neg hs]
      exact ⟨_, accepts_number hge hle, Word.buildI_fields hw⟩
  obtain ⟨k, hk', hword⟩ := hthird
  unfold encodeOperands operandTexts
  simp only [kind, hk, rd, rs1, rs2, h3, himm, Option.getD_some] at hop ⊢
  refine ((accepts_regText _).map rfl).seq (accepts_regText _) rfl |>.seq hk' ?_
  rw [← hop, val_rdOf, val_rs1Of]
  exact hword

/-- Loads and jumps to a register have the same operands. -/
theorem accepts_offset (hk : m.kind = .load ∨ m.kind = .jalr) :
    (encodeOperands symbols address m (operandTexts ⟨w, m⟩)).Accepts w := by
  have hop := hm.opcode
  have h3 : m.entry.funct3.getD 0 = Word.funct3 w := by
    rcases hk with hk | hk <;> exact hm.funct3_getD (by simp [hk]) (by simp [hk]) (by simp [hk])
  have himm : immediate? ⟨w, m⟩ = some (ImmediateFormat.i.generate w) := by
    rcases hk with hk | hk <;> exact immediate?_eq (by rw [hk]; rfl)
  obtain ⟨hge, hle⟩ := ImmediateFormat.generate_i_range w
  have hmemory := accepts_memoryText (rs1Of w) hge hle
  have hword := Word.buildI_fields hw
  rcases hk with hk | hk
  all_goals
    unfold encodeOperands operandTexts
    simp only [kind, hk, rd, rs1, h3, himm, Option.getD_some] at hop ⊢
    refine ((accepts_regText _).map rfl).seq hmemory ?_
    rw [← hop, val_rdOf, val_rs1Of]
    exact hword

theorem accepts_store (hk : m.kind = .store) :
    (encodeOperands symbols address m (operandTexts ⟨w, m⟩)).Accepts w := by
  have hop := hm.opcode
  have h3 := hm.funct3_getD (by simp [hk]) (by simp [hk]) (by simp [hk])
  have himm := immediate?_eq (w := w) (m := m) (f := .s) (by rw [hk]; rfl)
  obtain ⟨hge, hle⟩ := ImmediateFormat.generate_s_range w
  unfold encodeOperands operandTexts
  simp only [kind, hk, rs1, rs2, h3, himm, Option.getD_some] at hop ⊢
  refine ((accepts_regText _).map rfl).seq (accepts_memoryText _ hge hle) ?_
  rw [← hop, val_rs1Of, val_rs2Of]
  exact Word.buildS_fields hw

theorem accepts_branch (hk : m.kind = .branch) :
    (encodeOperands symbols address m (operandTexts ⟨w, m⟩)).Accepts w := by
  have hop := hm.opcode
  have h3 := hm.funct3_getD (by simp [hk]) (by simp [hk]) (by simp [hk])
  have himm := immediate?_eq (w := w) (m := m) (f := .b) (by rw [hk]; rfl)
  obtain ⟨heven, hfits⟩ := ImmediateFormat.generate_b_fits w
  unfold encodeOperands operandTexts
  simp only [kind, hk, rs1, rs2, h3, himm, Option.getD_some] at hop ⊢
  refine ((accepts_regText _).map rfl).seq (accepts_regText _) rfl |>.seq
    (accepts_target symbols address heven hfits) ?_
  rw [← hop, val_rs1Of, val_rs2Of]
  exact Word.buildB_fields hw

theorem accepts_upper (hk : m.kind = .lui ∨ m.kind = .auipc) :
    (encodeOperands symbols address m (operandTexts ⟨w, m⟩)).Accepts w := by
  have hop := hm.opcode
  have hge := Word.field_nonneg 12 20 w
  have hlt : Word.field 12 20 w < 1048576 := Word.field_lt 12 20 w
  have hself : ((Word.field 12 20 w).toNat : Int) = Word.field 12 20 w := Int.toNat_of_nonneg hge
  have hnumber : (checkNumber .upperImmediate
      ('0' :: 'x' :: Nat.toDigits 16 (Word.field 12 20 w).toNat)).Accepts (Word.field 12 20 w) := by
    have hread := readLiteral_hex (n := (Word.field 12 20 w).toNat) (by omega)
    rw [hself] at hread
    exact accepts_checkNumber.mpr ⟨hread, le_trans (by decide) hge, Int.le_of_lt_add_one hlt⟩
  have hword := Word.buildU_fields hw
  rcases hk with hk | hk
  all_goals
    unfold encodeOperands operandTexts
    simp only [kind, hk, rd] at hop ⊢
    refine ((accepts_regText _).map rfl).seq hnumber ?_
    rw [← hop, val_rdOf]
    exact hword

theorem accepts_jump (hk : m.kind = .jal) :
    (encodeOperands symbols address m (operandTexts ⟨w, m⟩)).Accepts w := by
  have hop := hm.opcode
  have himm := immediate?_eq (w := w) (m := m) (f := .j) (by rw [hk]; rfl)
  obtain ⟨heven, hfits⟩ := ImmediateFormat.generate_j_fits w
  unfold encodeOperands operandTexts
  simp only [kind, hk, rd, himm, Option.getD_some] at hop ⊢
  refine ((accepts_regText _).map rfl).seq (accepts_target symbols address heven hfits) ?_
  rw [← hop, val_rdOf]
  exact Word.buildJ_fields hw

end Classes

/-- The canonical operands of an instruction are accepted for its word, whatever the symbols and the
address are. -/
theorem accepts_operandTexts {x : Int} {i : Instruction} (h : decode x = .ok i)
    (symbols : List Symbol) (address : Nat) :
    (encode symbols address i.mnemonic i.operandTexts).Accepts (Word.unsigned x) := by
  obtain ⟨w, m⟩ := i
  obtain ⟨rfl, hm⟩ := decode_eq_ok_iff.mp h
  have hw : 0 ≤ Word.unsigned x ∧ Word.unsigned x < 4294967296 :=
    ⟨Word.unsigned_nonneg x, Word.unsigned_lt x⟩
  have hcount : (operandTexts ⟨Word.unsigned x, m⟩).length ∈ operandCounts m.kind := by
    unfold operandTexts
    simp only [kind]
    cases m.kind <;> simp [operandCounts]
  have hne : [] ∉ operandTexts ⟨Word.unsigned x, m⟩ := by
    intro hmem
    obtain ⟨c, cs, hnil, -⟩ := (isOperand_operandTexts _ _ hmem).exists_cons
    cases hnil
  refine accepts_encode_iff.mpr ⟨hcount, hne, ?_⟩
  cases hk : m.kind with
  | register => exact accepts_register symbols address hw hm hk
  | immediate => exact accepts_immediate symbols address hw hm hk
  | load => exact accepts_offset symbols address hw hm (Or.inl hk)
  | store => exact accepts_store symbols address hw hm hk
  | branch => exact accepts_branch symbols address hw hm hk
  | lui => exact accepts_upper symbols address hw hm (Or.inl hk)
  | auipc => exact accepts_upper symbols address hw hm (Or.inr hk)
  | jal => exact accepts_jump symbols address hw hm hk
  | jalr => exact accepts_offset symbols address hw hm (Or.inr hk)

end Instruction

/-! ## Sources of canonical lines -/

namespace Assembly

/-- A line yields a word: it binds no label, and wherever it stands its operation is accepted for
that word. -/
structure Yields (line : List Char) (w : Int) : Prop where
  labels : (Line.parse line).labels = []
  operation : ∃ m operands, readOperation (Line.parse line) = (.known m, operands, []) ∧
    ∀ symbols address, (encode symbols address m operands).Accepts w

theorem yields_text {x : Int} {i : Instruction} (h : Instruction.decode x = .ok i) :
    Yields i.text.toList (Word.unsigned x) := by
  have hoperands := Instruction.isOperand_operandTexts i
  have hne : i.operandTexts ≠ [] := by
    unfold Instruction.operandTexts
    cases i.kind <;> simp
  have haccepts := Instruction.accepts_operandTexts h
  obtain ⟨o, ops, hops⟩ := List.exists_cons_of_ne_nil hne
  have htoken := Instruction.isToken_small i.mnemonic
  have hparse := parse_canonical htoken (hops ▸ hoperands)
  rw [i.toList_text, hops]
  rw [hops] at haccepts hoperands
  refine ⟨by rw [hparse], i.mnemonic, o :: ops, ?_, haccepts⟩
  obtain ⟨hpseudo, hname⟩ := Instruction.ofName?_small i.mnemonic
  have hop : i.mnemonic.small.toList.isEmpty = false := by
    simpa using htoken.ne_nil
  rw [hparse]
  simp only [readOperation, hop, hpseudo, hname, operands_canonical hoperands,
    Bool.false_eq_true, if_false]

/-- What becomes of a line that yields a word: one statement with this word and nothing wrong. -/
theorem place_of_yields {line : List Char} {w : Int} (h : Yields line w) (number address : Nat) :
    ∃ s, place [] number address line = (s, []) ∧ s.number = number ∧
      (encodeStatement [] s).emitted = some w ∧ s.problems = [] ∧
        ∀ r ∈ (encodeStatement [] s).remarks, r.Harmless := by
  obtain ⟨hlabels, m, operands, hread, haccepts⟩ := h
  obtain ⟨hvalue, hclean⟩ := haccepts [] address
  refine ⟨⟨number, address, line, Line.parse line, .known m, operands, []⟩, ?_, rfl, ?_, rfl, ?_⟩
  · simp only [place, hread, hlabels, bindLabels, List.append_nil]
  · simp [Encoded.emitted, encodeStatement, hvalue]
  · exact hclean

/-- Lines that yield words are laid out without symbols, one word a line. -/
theorem layoutFrom_of_yields {lines : List (List Char)} {ws : List Int}
    (h : List.Forall₂ Yields lines ws) (number address : Nat) :
    (layoutFrom [] number address lines).symbols = [] ∧
      let es := (layoutFrom [] number address lines).statements.map (encodeStatement [])
      es.filterMap Encoded.emitted = ws ∧
        (es.filterMap fun e => e.emitted.map fun _ => e.statement.number) =
          List.range' number ws.length ∧
        ∀ e ∈ es, e.statement.problems = [] ∧ ∀ r ∈ e.remarks, r.Harmless := by
  induction h generalizing number address with
  | nil => simp [layoutFrom]
  | cons hline hlines ih =>
      rename_i line w lines ws
      obtain ⟨s, hplace, hnumber, hemitted, hproblems, hharmless⟩ :=
        place_of_yields hline number address
      obtain ⟨hsymbols, hwords, hnumbers, hclean⟩ := ih (number + 1) (address + s.operation.size)
      simp only [layoutFrom, hplace]
      refine ⟨hsymbols, ?_, ?_, ?_⟩
      · rw [List.map_cons, List.filterMap_cons, hemitted, hwords]
      · rw [List.map_cons, List.filterMap_cons, hemitted, Option.map_some, hnumbers,
          encodeStatement_statement, hnumber, List.length_cons, List.range'_succ]
      · intro e he
        rcases List.mem_cons.mp he with rfl | he
        · rw [encodeStatement_statement]
          exact ⟨hproblems, hharmless⟩
        · exact hclean e he

/-- A source whose lines yield words assembles to these words. -/
theorem assemble_of_yields {source : List Char} {ws : List Int}
    (h : List.Forall₂ Yields (sourceLines source) ws) :
    ∃ p, assemble source = .ok p ∧ p.machineCode = ws ∧ p.lineMap = List.range' 1 ws.length := by
  obtain ⟨hsymbols, hwords, hnumbers, hclean⟩ := layoutFrom_of_yields h 1 0
  have hstatements : (layout source).program.statements =
      (layoutFrom [] 1 0 (sourceLines source)).statements.map (encodeStatement []) := by
    rw [Layout.program, layout, hsymbols]
  refine ⟨(layout source).program, assemble_eq_ok_iff.mpr ⟨rfl, ?_⟩, ?_, ?_⟩
  · rw [hstatements]
    exact hclean
  · rw [Program.machineCode, hstatements]
    exact hwords
  · rw [Program.lineMap, hstatements]
    exact hnumbers

/-! ## Joined texts -/

theorem not_mem_text (i : Instruction) {c : Char} (hc : Text.isPlain c = false)
    (hlist : c ∉ ['(', ')', ',', ' ']) : c ∉ i.text.toList := by
  rw [i.toList_text]
  exact not_mem_canonical (Instruction.isToken_small i.mnemonic)
    (Instruction.isOperand_operandTexts i) hc hlist

/-- The lines of joined texts are the texts. -/
theorem sourceLines_intercalate {texts : List String} (hne : texts ≠ [])
    (h : ∀ t ∈ texts, '\n' ∉ t.toList ∧ '\r' ∉ t.toList) :
    sourceLines (String.intercalate "\n" texts).toList = texts.map String.toList := by
  have hfeeds : ∀ l ∈ texts.map String.toList, '\n' ∉ l := by
    intro l hl
    obtain ⟨t, ht, rfl⟩ := List.mem_map.mp hl
    exact (h t ht).1
  have hreturns : '\r' ∉ ['\n'].intercalate (texts.map String.toList) := by
    intro hmem
    rcases Text.of_mem_intercalate hmem with hmem | ⟨l, hl, hmem⟩
    · exact absurd hmem (by decide)
    · obtain ⟨t, ht, rfl⟩ := List.mem_map.mp hl
      exact (h t ht).2 hmem
  have htext : (String.intercalate "\n" texts).toList =
      ['\n'].intercalate (texts.map String.toList) := String.toList_intercalate
  rw [sourceLines, htext, Text.dropReturns_eq_self hreturns,
    Text.lines_intercalate (by simpa using hne) hfeeds]

/-- Words that decode are disassembled, each to a line that yields it. -/
theorem exists_texts {ws : List Int} (h : ∀ w ∈ ws, ∃ i, Instruction.decode w = .ok i) :
    ∃ texts, ws.mapM Instruction.disassemble = .ok texts ∧
      List.Forall₂ Yields (texts.map String.toList) (ws.map Word.unsigned) ∧
      ∀ t ∈ texts, '\n' ∉ t.toList ∧ '\r' ∉ t.toList := by
  induction ws with
  | nil => exact ⟨[], rfl, .nil, by simp⟩
  | cons w ws ih =>
      obtain ⟨i, hi⟩ := h w List.mem_cons_self
      obtain ⟨texts, htexts, hyields, hsafe⟩ := ih fun x hx => h x (List.mem_cons_of_mem w hx)
      have htext : Instruction.disassemble w = .ok i.text := by
        rw [Instruction.disassemble, hi]
        rfl
      refine ⟨i.text :: texts, ?_, .cons (yields_text hi) hyields, ?_⟩
      · rw [List.mapM_cons, htext, htexts]
        rfl
      · intro t ht
        rcases List.mem_cons.mp ht with rfl | ht
        · exact ⟨not_mem_text i rfl (by decide), not_mem_text i rfl (by decide)⟩
        · exact hsafe t ht

/-- Disassembly is undone by the assembler: the texts of any words that decode, one a line, are
accepted and give the words back, the word with index `k` from line `k + 1`. -/
theorem assemble_disassemble {ws : List Int} (h : ∀ w ∈ ws, ∃ i, Instruction.decode w = .ok i) :
    ∃ texts p, ws.mapM Instruction.disassemble = .ok texts ∧
      assemble (String.intercalate "\n" texts).toList = .ok p ∧
      p.machineCode = ws.map Word.unsigned ∧ p.lineMap = List.range' 1 ws.length := by
  obtain ⟨texts, htexts, hyields, hsafe⟩ := exists_texts h
  by_cases hne : texts = []
  · -- The empty text is a source of one empty line.
    subst hne
    have hnil : ws = [] := by
      cases hyields' : ws with
      | nil => rfl
      | cons w ws' => simp [hyields'] at hyields
    subst hnil
    have hempty : assemble (String.intercalate "\n" []).toList = .ok (layout []).program := by
      decide +kernel
    exact ⟨[], _, htexts, hempty, by decide +kernel, by decide +kernel⟩
  · rw [← sourceLines_intercalate hne hsafe] at hyields
    obtain ⟨p, hp, hcode, hlines⟩ := assemble_of_yields hyields
    rw [List.length_map] at hlines
    exact ⟨texts, p, htexts, hp, hcode, hlines⟩

/-- A shift that carries a minor opcode, and a branch whose word is given as a negative integer. -/
theorem assemble_disassemble_pair :
    ∃ texts p, [1084609939, -17041437].mapM Instruction.disassemble = .ok texts ∧
      assemble (String.intercalate "\n" texts).toList = .ok p ∧
      p.machineCode = [1084609939, 4277925859] ∧ p.lineMap = [1, 2] := by
  have h : ∀ w ∈ [(1084609939 : Int), -17041437], ∃ i, Instruction.decode w = .ok i := by
    intro w hw
    rw [List.mem_cons, List.mem_singleton] at hw
    rcases hw with rfl | rfl
    · exact ⟨⟨1084609939, .srai⟩, rfl⟩
    · exact ⟨⟨4277925859, .bgeu⟩, rfl⟩
  exact assemble_disassemble h

end Assembly

end Rv32
