import Mathlib
import Rv32.Proofs.Machine.Arithmetic
import Rv32.Proofs.Machine.Stages

/-!
# Branch conditions and the flags of a subtraction

A branch asks the arithmetic unit for a comparison and may invert its answer.  The flags of the
difference of the two operands tell the same: the zero flag whether they are equal, the borrow
whether the first is less as an unsigned word, and the sign of the difference whether it is less as
a signed word, unless the difference left the signed view and the sign is the wrong one.

Each of the six branches therefore tests a condition on these flags, and the conditions come in
pairs of which exactly one holds.
-/

namespace Rv32

/-! ## Comparisons -/

namespace AluOp

/-- The exact difference of the signed operands is negative exactly if the result is, unless the
exact difference left the signed view. -/
theorem value_execute_slt (a b : Int) :
    (slt.execute a b).value =
      Word.ofBool ((sub.execute a b).negative != (sub.execute a b).overflow) := by
  have hge := Word.signed_ge a
  have hlt := Word.signed_lt a
  have hge' := Word.signed_ge b
  have hlt' := Word.signed_lt b
  have hless : (slt.execute a b).value = Word.ofBool (Word.signed a < Word.signed b) := rfl
  have hnegative : (sub.execute a b).negative =
      decide (Word.signed (Word.signed a - Word.signed b) < 0) := rfl
  have hoverflow := overflow_execute sub a b
  rw [LeavesSigned] at hoverflow
  rw [hless, hnegative]
  congr 1
  cases hflag : (sub.execute a b).overflow with
  | false =>
      rw [hflag, iff_false_left Bool.false_ne_true, not_not] at hoverflow
      rw [Bool.bne_false, decide_eq_decide, Word.signed_eq_ite (Word.signed a - Word.signed b)]
      split <;> omega
  | true =>
      rw [hflag, iff_true_left rfl] at hoverflow
      rw [Bool.bne_true, ← decide_not, decide_eq_decide,
        Word.signed_eq_ite (Word.signed a - Word.signed b)]
      split <;> omega

/-- The unsigned operands compare as their exact difference says. -/
theorem value_execute_sltu (a b : Int) :
    (sltu.execute a b).value = Word.ofBool (sub.execute a b).carry := rfl

/-- The result is zero only where the words are the same. -/
theorem value_execute_seq (a b : Int) :
    (seq.execute a b).value = Word.ofBool (sub.execute a b).zero := by
  have hge := Word.signed_ge a
  have hlt := Word.signed_lt a
  have hge' := Word.signed_ge b
  have hlt' := Word.signed_lt b
  have hequal : (seq.execute a b).value = Word.ofBool (Word.signed a = Word.signed b) := rfl
  have hzero : (sub.execute a b).zero =
      decide (Word.signed (Word.signed a - Word.signed b) = 0) := rfl
  rw [hequal, hzero]
  congr 1
  rw [decide_eq_decide, Word.signed_eq_ite (Word.signed a - Word.signed b)]
  split <;> omega

end AluOp

theorem Word.ofBool_eq_one {b : Bool} : Word.ofBool b = 1 ↔ b = true := by
  cases b <;> decide

/-! ## Conditions -/

/-- The conditions that branches test: on equality, on the order of the signed words, and on the
order of the unsigned words. -/
inductive Condition where
  | equal | unequal | less | notLess | below | notBelow
  deriving DecidableEq, Repr

namespace Condition

/-- Whether a condition holds of two words, by the flags that their difference leaves. -/
def holds (flags : AluResult) : Condition → Bool
  | equal => flags.zero
  | unequal => !flags.zero
  | less => flags.negative != flags.overflow
  | notLess => flags.negative == flags.overflow
  | below => flags.carry
  | notBelow => !flags.carry

/-- The condition that holds where this one does not. -/
def negated : Condition → Condition
  | equal => unequal
  | unequal => equal
  | less => notLess
  | notLess => less
  | below => notBelow
  | notBelow => below

/-- The branch that tests a condition. -/
def branch : Condition → Mnemonic
  | equal => .beq
  | unequal => .bne
  | less => .blt
  | notLess => .bge
  | below => .bltu
  | notBelow => .bgeu

theorem holds_negated (flags : AluResult) (c : Condition) :
    c.negated.holds flags = !c.holds flags := by
  have hless : (flags.negative == flags.overflow) = !(flags.negative != flags.overflow) :=
    (Bool.not_not _).symm
  cases c with
  | equal => rfl
  | unequal => exact (Bool.not_not _).symm
  | less => exact hless
  | notLess => rfl
  | below => rfl
  | notBelow => exact (Bool.not_not _).symm

theorem kind_branch (c : Condition) : c.branch.kind = .branch := by
  cases c <;> rfl

/-- Every branch tests a condition. -/
theorem exists_branch_eq {m : Mnemonic} (h : m.kind = .branch) : ∃ c : Condition, m = c.branch := by
  cases m with
  | beq => exact ⟨equal, rfl⟩
  | bne => exact ⟨unequal, rfl⟩
  | blt => exact ⟨less, rfl⟩
  | bge => exact ⟨notLess, rfl⟩
  | bltu => exact ⟨below, rfl⟩
  | bgeu => exact ⟨notBelow, rfl⟩
  | _ => cases h

/-- The comparison of a branch and its inversion come to the condition. -/
theorem taken_eq_holds (c : Condition) (a b : Int) :
    Flow.taken true c.branch.entry.inverted (c.branch.entry.operation.execute a b).value =
      c.holds (AluOp.sub.execute a b) := by
  have hkept (x : Bool) : Flow.taken true false (Word.ofBool x) = x := by
    cases x <;> rfl
  have hinverted (x : Bool) : Flow.taken true true (Word.ofBool x) = !x := by
    cases x <;> rfl
  cases c with
  | equal => exact (congrArg _ (AluOp.value_execute_seq a b)).trans (hkept _)
  | unequal => exact (congrArg _ (AluOp.value_execute_seq a b)).trans (hinverted _)
  | less => exact (congrArg _ (AluOp.value_execute_slt a b)).trans (hkept _)
  | notLess =>
      refine (congrArg _ (AluOp.value_execute_slt a b)).trans ((hinverted _).trans ?_)
      exact Bool.not_not _
  | below => exact (congrArg _ (AluOp.value_execute_sltu a b)).trans (hkept _)
  | notBelow => exact (congrArg _ (AluOp.value_execute_sltu a b)).trans (hinverted _)

end Condition

/-! ## Branches -/

namespace Machine

variable {m m' : Machine} {i : Instruction} {c : Condition}

/-- The flags that the difference of the source registers of an instruction leaves. -/
def difference (m : Machine) (i : Instruction) : AluResult :=
  AluOp.sub.execute (m.registers.read i.rs1) (m.registers.read i.rs2)

theorem taken_execute (m : Machine) (h : i.mnemonic = c.branch) :
    (m.execute i).taken = c.holds (m.difference i) := by
  have hkind : i.kind = .branch := by
    rw [Instruction.kind, h, c.kind_branch]
  have hoperands : (m.execute i).alu =
      i.operation.execute (m.registers.read i.rs1) (m.registers.read i.rs2) := by
    simp only [execute, Instruction.operandA, Instruction.choose, Instruction.signals, hkind,
      Kind.signals, Bool.false_eq_true, if_false]
  calc (m.execute i).taken
    _ = Flow.taken i.signals.branch i.inverted (m.execute i).alu.value := rfl
    _ = Flow.taken true c.branch.entry.inverted (c.branch.entry.operation.execute
          (m.registers.read i.rs1) (m.registers.read i.rs2)).value := by
      rw [hoperands, Instruction.signals, hkind, Instruction.inverted, Instruction.operation, h]
      rfl
    _ = c.holds (m.difference i) := c.taken_eq_holds _ _

theorem flow_branch (m : Machine) (h : i.mnemonic = c.branch) :
    flow i (m.execute i) =
      if c.holds (m.difference i) then .branch (i.immediate?.getD 0) else .next := by
  have hkind : i.kind = .branch := by
    rw [Instruction.kind, h, c.kind_branch]
  rw [← taken_execute m h, flow, Instruction.signals, hkind]
  rfl

/-- A branch goes by a condition on the flags of the difference of its source registers.  It decides
by it, a step that is completed goes where it says, and a branch with the negated condition decides
the other way wherever its source registers hold the same. -/
structure GoesBy (m : Machine) (i : Instruction) (c : Condition) : Prop where
  mnemonic : i.mnemonic = c.branch
  taken : (m.execute i).taken = c.holds (m.difference i)
  step : ∀ m' t, m.step = (m', .ok t) → t.instruction = i →
    t.taken = c.holds (m.difference i) ∧ m'.counter.value =
      Word.unsigned (m.counter.value + if t.taken then i.immediate?.getD 0 else 4)
  negated : ∀ (m' : Machine) (j : Instruction), j.mnemonic = c.negated.branch →
    m'.registers.read j.rs1 = m.registers.read i.rs1 →
    m'.registers.read j.rs2 = m.registers.read i.rs2 →
      (m'.execute j).taken = !(m.execute i).taken

theorem goesBy (m : Machine) (h : i.mnemonic = c.branch) : m.GoesBy i c where
  mnemonic := h
  taken := taken_execute m h
  step := by
    intro m' t hstep hi
    have hdone := completes_of_step hstep
    have htaken : t.taken = c.holds (m.difference i) := by
      rw [← taken_execute m h, ← hi]
      exact congrArg Execution.taken hdone.execution
    refine ⟨htaken, ?_⟩
    have hcounter : m'.counter.value = t.counterAfter := by
      rw [hdone.state]
    rw [hcounter, htaken, hdone.after, hdone.execution, hi, flow_branch m h]
    split <;> rfl
  negated := by
    intro m' j hj hrs1 hrs2
    rw [taken_execute m' hj, taken_execute m h, Condition.holds_negated, difference, hrs1, hrs2]
    rfl

end Machine

/-- Comparisons agree with the flags of a subtraction, for all integers, and so does every branch:
it goes by the condition on the flags that its mnemonic stands for. -/
theorem Machine.comparisons_agree_with_flags :
    (∀ a b : Int,
      ((AluOp.slt.execute a b).value = 1 ↔
        (AluOp.sub.execute a b).negative ≠ (AluOp.sub.execute a b).overflow) ∧
      ((AluOp.sltu.execute a b).value = 1 ↔ (AluOp.sub.execute a b).carry = true) ∧
      ((AluOp.seq.execute a b).value = 1 ↔ (AluOp.sub.execute a b).zero = true)) ∧
      ∀ (m : Machine) (i : Instruction), i.kind = .branch → ∃ c, m.GoesBy i c := by
  constructor
  · intro a b
    rw [AluOp.value_execute_slt, AluOp.value_execute_sltu, AluOp.value_execute_seq,
      Word.ofBool_eq_one, Word.ofBool_eq_one, Word.ofBool_eq_one, bne_iff_ne]
    exact ⟨Iff.rfl, Iff.rfl, Iff.rfl⟩
  · intro m i hkind
    obtain ⟨c, hc⟩ := Condition.exists_branch_eq hkind
    exact ⟨c, m.goesBy hc⟩

/-- One is taken from the least signed word.  The difference comes out positive, and the branch on
less is taken nonetheless. -/
theorem Machine.comparisons_agree_with_flags_least :
    ∃ (m : Machine) (i : Instruction), Instruction.decode 2147427 = .ok i ∧
      m.registers.read i.rs1 = -2147483648 ∧ m.registers.read i.rs2 = 1 ∧
      m.difference i = ⟨2147483647, false, false, true, false⟩ ∧
      (AluOp.slt.execute (-2147483648) 1).value = 1 ∧ m.GoesBy i .less ∧
      (m.execute i).taken = true := by
  let m : Machine :=
    { program := .empty .program 1, data := .empty .data 1
      registers := (RegisterFile.empty.write 1 (-2147483648)).write 2 1
      counter := ⟨0, 0⟩, cycles := 0 }
  let i : Instruction := ⟨2147427, .blt⟩
  obtain ⟨hcompare, hbranch⟩ := comparisons_agree_with_flags
  have hless : (AluOp.slt.execute (-2147483648) 1).value = 1 := by
    apply (hcompare _ _).1.mpr
    decide
  obtain ⟨c, hgoes⟩ := hbranch m i rfl
  obtain rfl : c = .less := by
    have hmnemonic : Mnemonic.blt = c.branch := hgoes.mnemonic
    cases c <;> first | rfl | cases hmnemonic
  exact ⟨m, i, rfl, rfl, rfl, rfl, hless, hgoes, hgoes.taken⟩

end Rv32
