import Mathlib
import Rv32.Machine.Step
import Rv32.Proofs.Machine.Arithmetic
import Rv32.Proofs.Store.Access
import Rv32.Proofs.Word.Fields

/-!
# A reference semantics

The datapath realizes an instruction through tables, control signals and two views of a word.  The
reference semantics below knows none of these: it says in one line an instruction what becomes of
the machine, in the arithmetic of 32-bit words.  One step of the machine has the outcome that the
reference semantics gives, the faults included.
-/

namespace Rv32

/-! ## The semantics -/

/-- What an instruction does.  The result of a computation and a loaded word go to the destination
register, and so does the address of the next word where the instruction jumps. -/
inductive Effect where
  | compute (result : BitVec 32)
  | load (address : BitVec 32)
  | store (address value : BitVec 32)
  | branch (taken : Bool) (target : BitVec 32)
  | jump (target : BitVec 32)

/-- The effect of an instruction, given the program counter and the two source registers. -/
def Instruction.effect (i : Instruction) (pc a b : BitVec 32) : Effect :=
  let k := BitVec.ofInt 32 (i.immediate?.getD 0)
  let upper : BitVec 32 := (BitVec.ofInt 32 i.word).extractLsb' 12 20 ++ 0#12
  match i.mnemonic with
  | .add => .compute (a + b)
  | .sub => .compute (a - b)
  | .sll => .compute (a <<< (b.toNat % 32))
  | .slt => .compute (if a.slt b then 1 else 0)
  | .sltu => .compute (if a.ult b then 1 else 0)
  | .xor => .compute (a ^^^ b)
  | .srl => .compute (a >>> (b.toNat % 32))
  | .sra => .compute (a.sshiftRight (b.toNat % 32))
  | .or => .compute (a ||| b)
  | .and => .compute (a &&& b)
  | .addi => .compute (a + k)
  | .slti => .compute (if a.slt k then 1 else 0)
  | .sltiu => .compute (if a.ult k then 1 else 0)
  | .xori => .compute (a ^^^ k)
  | .ori => .compute (a ||| k)
  | .andi => .compute (a &&& k)
  | .slli => .compute (a <<< (k.toNat % 32))
  | .srli => .compute (a >>> (k.toNat % 32))
  | .srai => .compute (a.sshiftRight (k.toNat % 32))
  | .lb | .lh | .lw | .lbu | .lhu => .load (a + k)
  | .sb | .sh | .sw => .store (a + k) b
  | .beq => .branch (a == b) (pc + k)
  | .bne => .branch (a != b) (pc + k)
  | .blt => .branch (a.slt b) (pc + k)
  | .bge => .branch (b.sle a) (pc + k)
  | .bltu => .branch (a.ult b) (pc + k)
  | .bgeu => .branch (b.ule a) (pc + k)
  | .lui => .compute upper
  | .auipc => .compute (pc + upper)
  | .jal => .jump (pc + k)
  | .jalr => .jump ((a + k) &&& ~~~1#32)

namespace Machine

/-- The machine with a word put into a register. -/
def put (m : Machine) (r : Register) (x : BitVec 32) : Machine :=
  { m with registers := m.registers.write r x.toInt }

/-- The machine one cycle later, with execution going on at an aligned address. -/
def goTo (m : Machine) (pc : BitVec 32) : Except Fault Machine :=
  if pc.toNat % 4 = 0 then
    .ok { m with counter := { m.counter with value := pc.toNat }, cycles := m.cycles + 1 }
  else .error (.counterUnaligned pc.toNat)

/-- The program counter. -/
def pc (m : Machine) : BitVec 32 := BitVec.ofInt 32 m.counter.value

/-- The machine after an effect with a destination register. -/
def perform (m : Machine) (rd : Register) : Effect → Except Fault Machine
  | .compute x => (m.put rd x).goTo (m.pc + 4)
  | .load address => do
    let x ← m.data.read (.integer address.toInt)
    (m.put rd (BitVec.ofInt 32 x)).goTo (m.pc + 4)
  | .store address x => do
    let data ← m.data.write (.integer address.toInt) x.toInt
    { m with data }.goTo (m.pc + 4)
  | .branch taken target => m.goTo (if taken then target else m.pc + 4)
  | .jump target => (m.put rd (m.pc + 4)).goTo target

/-- What becomes of the machine where it carries out an instruction. -/
def reference (m : Machine) (i : Instruction) : Except Fault Machine :=
  m.perform i.rd (i.effect m.pc (BitVec.ofInt 32 (m.registers.read i.rs1))
    (BitVec.ofInt 32 (m.registers.read i.rs2)))

end Machine

/-! ## When an effect is refused -/

namespace Effect

/-- The address in data memory that an effect uses. -/
def address? : Effect → Option (BitVec 32)
  | .load address | .store address _ => some address
  | .compute _ | .branch _ _ | .jump _ => none

/-- The address to continue at after an effect. -/
def next (pc : BitVec 32) : Effect → BitVec 32
  | .branch taken target => if taken then target else pc + 4
  | .jump target => target
  | .compute _ | .load _ | .store _ _ => pc + 4

end Effect

namespace Machine

variable {m : Machine} {f : Fault}

theorem goTo_eq_error_iff {x : BitVec 32} :
    m.goTo x = .error f ↔ x.toNat % 4 ≠ 0 ∧ f = .counterUnaligned x.toNat := by
  unfold goTo
  by_cases hx : x.toNat % 4 = 0
  · simp [hx]
  · simp [hx, eq_comm]

/-- From an aligned counter, an effect is refused for its address in data memory or for the address
to continue at. -/
theorem perform_eq_error_iff {rd : Register} {e : Effect} (hnext : (m.pc + 4).toNat % 4 = 0) :
    m.perform rd e = .error f ↔
      (∃ a, e.address? = some a ∧ m.data.Refuses a.toInt f) ∨
        (e.next m.pc).toNat % 4 ≠ 0 ∧ f = .counterUnaligned (e.next m.pc).toNat := by
  -- After an access the next word follows, so that only the access itself can be refused.
  have haccess {α : Type} {x : Except Fault α} (g : α → Machine) {a : BitVec 32}
      (hx : ∀ f, x = .error f ↔ m.data.Refuses a.toInt f) :
      (x >>= fun v => (g v).goTo (m.pc + 4)) = .error f ↔
        (∃ b, some a = some b ∧ m.data.Refuses b.toInt f) ∨
          (m.pc + 4).toNat % 4 ≠ 0 ∧ f = .counterUnaligned (m.pc + 4).toNat := by
    simp only [Option.some.injEq, exists_eq_left', hnext, ne_eq, not_true_eq_false, false_and,
      or_false, ← hx]
    constructor
    · intro h
      rcases Fault.bind_eq_error h with h | ⟨v, -, hv⟩
      · exact h
      · exact absurd hnext (goTo_eq_error_iff.mp hv).1
    · intro h
      rw [h]
      rfl
  cases e with
  | compute x => simp [perform, goTo_eq_error_iff, Effect.address?, Effect.next]
  | load address => exact haccess _ fun f => Store.read_eq_error_iff
  | store address x => exact haccess _ fun f => Store.write_eq_error_iff
  | branch taken target => simp [perform, goTo_eq_error_iff, Effect.address?, Effect.next]
  | jump target => simp [perform, goTo_eq_error_iff, Effect.address?, Effect.next]

end Machine

/-! ## Words -/

/-- The upper immediate is the upper part of the word, with zeros below it. -/
theorem Word.ofInt_generate_u (w : Int) :
    BitVec.ofInt 32 (ImmediateFormat.u.generate w) =
      (BitVec.ofInt 32 w).extractLsb' 12 20 ++ 0#12 := by
  apply BitVec.eq_of_toNat_eq
  rw [ImmediateFormat.generate, Word.ofInt_signed, Word.field_eq_emod]
  simp only [BitVec.toNat_append, BitVec.toNat_ofInt, BitVec.extractLsb'_toNat]
  simp
  omega

/-- Clearing bit 0 rounds down to an even number. -/
theorem Word.toNat_clear_low (x : BitVec 32) : (x &&& ~~~1#32).toNat = x.toNat / 2 * 2 := by
  have hshift : x &&& ~~~1#32 = (x >>> 1) <<< 1 := by
    ext i hi
    rw [BitVec.getElem_and, BitVec.getElem_not, BitVec.getElem_one, BitVec.getElem_shiftLeft]
    cases i with
    | zero => simp
    | succ i => simp [Nat.add_comm 1 i, BitVec.getLsbD_eq_getElem hi]
  have hlt := x.isLt
  rw [hshift, BitVec.toNat_shiftLeft, BitVec.toNat_ushiftRight, Nat.shiftLeft_eq,
    Nat.shiftRight_eq_div_pow]
  omega

/-! ## The tables agree with the semantics -/

/-- The effect of an instruction by its class, its operation and its inversion. -/
theorem Instruction.effect_eq (i : Instruction) (pc a b : BitVec 32) :
    i.effect pc a b =
      let k := BitVec.ofInt 32 (i.immediate?.getD 0)
      match i.kind with
      | .register => .compute (i.operation.onWords a b)
      | .immediate => .compute (i.operation.onWords a k)
      | .load => .load (a + k)
      | .store => .store (a + k) b
      | .branch => .branch ((i.operation.onWords a b != 0) != i.inverted) (pc + k)
      | .lui => .compute k
      | .auipc => .compute (pc + k)
      | .jal => .jump (pc + k)
      | .jalr => .jump ((a + k) &&& ~~~1#32) := by
  obtain ⟨w, m⟩ := i
  cases m with
  | beq =>
      change Effect.branch _ _ = .branch ((AluOp.seq.onWords a b != 0) != false) _
      rw [AluOp.seq_ne_zero, Bool.bne_false]
  | bne =>
      change Effect.branch _ _ = .branch ((AluOp.seq.onWords a b != 0) != true) _
      rw [AluOp.seq_ne_zero, Bool.bne_true]
      rfl
  | blt =>
      change Effect.branch _ _ = .branch ((AluOp.slt.onWords a b != 0) != false) _
      rw [AluOp.slt_ne_zero, Bool.bne_false]
  | bge =>
      change Effect.branch _ _ = .branch ((AluOp.slt.onWords a b != 0) != true) _
      rw [AluOp.slt_ne_zero, Bool.bne_true, ← BitVec.sle_eq_not_slt]
  | bltu =>
      change Effect.branch _ _ = .branch ((AluOp.sltu.onWords a b != 0) != false) _
      rw [AluOp.sltu_ne_zero, Bool.bne_false]
  | bgeu =>
      change Effect.branch _ _ = .branch ((AluOp.sltu.onWords a b != 0) != true) _
      rw [AluOp.sltu_ne_zero, Bool.bne_true, ← BitVec.ule_eq_not_ult]
  | lui => exact congrArg Effect.compute (Word.ofInt_generate_u w).symm
  | auipc => exact congrArg (fun k => Effect.compute (pc + k)) (Word.ofInt_generate_u w).symm
  | _ => rfl

/-- Where the arithmetic unit is not asked for anything else, it adds. -/
theorem Instruction.operation_eq_add {i : Instruction} (hr : i.kind ≠ .register)
    (hi : i.kind ≠ .immediate) (hb : i.kind ≠ .branch) : i.operation = .add := by
  obtain ⟨w, m⟩ := i
  cases m <;> first | rfl | exact absurd rfl hr | exact absurd rfl hi | exact absurd rfl hb

namespace Machine

/-! ## The stages of a step -/

/-- The machine after a step, or the fault that refused it. -/
def outcome (m : Machine) : Except Fault Machine := m.step.2.map fun _ => m.step.1

variable {m : Machine} {i : Instruction}

theorem outcome_of_access_eq_error {e : Fault} (h : m.fetch = .ok i)
    (ha : m.access i (m.execute i) = .error e) : m.outcome = .error e := by
  simp [outcome, step, h, ha, Except.map]

theorem outcome_of_access_eq_ok {a : Access} {target : BitVec 32} (h : m.fetch = .ok i)
    (ha : m.access i (m.execute i) = .ok a)
    (ht : (flow i (m.execute i)).target m.counter.value = target.toNat) :
    m.outcome = (m.commit i a.data (m.writeBack i (m.execute i) a.loaded)).goTo target := by
  have hself : Word.unsigned (target.toNat : Int) = target.toNat := by
    rw [Word.unsigned_eq_toNat, BitVec.ofInt_natCast, BitVec.ofNat_toNat, BitVec.setWidth_eq]
  by_cases hfour : target.toNat % 4 = 0
  · have hset : m.counter.set target.toNat = .ok { m.counter with value := target.toNat } := by
      rw [ProgramCounter.set, ProgramCounter.aligned, hself, if_pos (by omega)]
      rfl
    simp only [outcome, step, h, ha, ht, goTo, commit, if_pos hfour, hset, Except.map]
  · have hset : m.counter.set target.toNat = .error (.counterUnaligned target.toNat) := by
      rw [ProgramCounter.set, ProgramCounter.aligned, hself, if_neg (by omega)]
      rfl
    simp only [outcome, step, h, ha, ht, goTo, commit, if_neg hfour, hset, Except.map]

theorem commit_writeBack {v : Int} {x : BitVec 32} (data : Store) (hv : Word.signed v = x.toInt) :
    m.commit i data (if i.rd.val != 0 then some v else none) = { m.put i.rd x with data } := by
  by_cases hz : i.rd.val = 0
  · simp [commit, put, RegisterFile.write, hz]
  · simp [commit, put, RegisterFile.write, hz, hv]

/-! ## The values in the datapath -/

/-- What the arithmetic unit makes in each class. -/
theorem value_execute (m : Machine) (i : Instruction) :
    let a := BitVec.ofInt 32 (m.registers.read i.rs1)
    let k := BitVec.ofInt 32 (i.immediate?.getD 0)
    (m.execute i).alu.value =
      BitVec.toInt (match i.kind with
        | .register | .branch =>
          i.operation.onWords a (BitVec.ofInt 32 (m.registers.read i.rs2))
        | .immediate => i.operation.onWords a k
        | .lui => k
        | .auipc | .jal => m.pc + k
        | .load | .store | .jalr => a + k) := by
  intro a k
  have hvalue : (m.execute i).alu.value =
      (i.operation.onWords
        (BitVec.ofInt 32 (i.operandA m.counter.value (m.registers.read i.rs1)))
        (BitVec.ofInt 32 (Instruction.choose i.signals.aluSrcImm (i.immediate?.getD 0)
          (m.registers.read i.rs2)))).toInt :=
    AluOp.value_execute _ _ _
  have hadd := Instruction.operation_eq_add (i := i)
  rw [hvalue]
  cases hk : i.kind <;>
    simp [Instruction.operandA, Instruction.choose, Instruction.signals, hk, Kind.signals, hadd,
      AluOp.onWords, pc, a, k]

theorem target_next (m : Machine) :
    Flow.next.target m.counter.value = (m.pc + 4).toNat := by
  rw [Flow.target, Word.unsigned_eq_toNat, BitVec.ofInt_add]
  rfl

theorem target_offset (m : Machine) (k : Int) :
    Word.unsigned (m.counter.value + k) = (m.pc + BitVec.ofInt 32 k).toNat := by
  rw [Word.unsigned_eq_toNat, BitVec.ofInt_add]
  rfl

theorem target_indirect (m : Machine) (base k : Int) :
    (Flow.indirect base k).target m.counter.value =
      ((BitVec.ofInt 32 base + BitVec.ofInt 32 k) &&& ~~~1#32).toNat := by
  rw [Flow.target, Word.toNat_clear_low, ← BitVec.ofInt_add, BitVec.toNat_ofInt, Word.unsigned]
  omega

/-- An instruction of a class that computes neither uses data memory nor jumps. -/
theorem outcome_compute {x : BitVec 32} (h : m.fetch = .ok i)
    (hk : i.kind = .register ∨ i.kind = .immediate ∨ i.kind = .lui ∨ i.kind = .auipc)
    (hx : (m.execute i).alu.value = x.toInt) :
    m.outcome = (m.put i.rd x).goTo (m.pc + 4) := by
  have ha : m.access i (m.execute i) = .ok ⟨none, none, m.data⟩ := by
    rcases hk with hk | hk | hk | hk <;> simp [access, Instruction.signals, hk, Kind.signals]
  have ht : (flow i (m.execute i)).target m.counter.value = (m.pc + 4).toNat := by
    rw [← target_next]
    rcases hk with hk | hk | hk | hk <;>
      simp [flow, Flow.select, execute, Flow.taken, Instruction.signals, hk, Kind.signals]
  have hw : m.writeBack i (m.execute i) none =
      if i.rd.val != 0 then some x.toInt else none := by
    rcases hk with hk | hk | hk | hk <;>
      simp [writeBack, Instruction.signals, hk, Kind.signals, Instruction.choose, hx]
  rw [outcome_of_access_eq_ok h ha ht, hw, commit_writeBack m.data (Word.signed_toInt x)]
  rfl

/-- A store keeps the same word of either view. -/
theorem write_signed (s : Store) (address : Datum) (x : Int) :
    s.write address (Word.signed x) = s.write address x := by
  have hview : s.kind.view (Word.signed x) = s.kind.view x := by
    cases s.kind <;> simp [StoreKind.view]
  simp only [Store.write, Store.put, hview]

theorem outcome_load (h : m.fetch = .ok i) (hk : i.kind = .load) {address : BitVec 32}
    (haddress : (m.execute i).alu.value = address.toInt) :
    m.outcome = m.perform i.rd (.load address) := by
  have ha : m.access i (m.execute i) = (m.data.read (.integer address.toInt)).map
      fun x => ⟨some address.toInt, some x, m.data⟩ := by
    simp only [access, Instruction.signals, hk, Kind.signals, haddress, if_true]
    rfl
  have ht : (flow i (m.execute i)).target m.counter.value = (m.pc + 4).toNat := by
    rw [← target_next]
    simp [flow, Flow.select, execute, Flow.taken, Instruction.signals, hk, Kind.signals]
  rw [perform]
  cases hread : m.data.read (.integer address.toInt) with
  | error e =>
      rw [hread] at ha
      exact outcome_of_access_eq_error h ha
  | ok x =>
      rw [hread] at ha
      have hw : m.writeBack i (m.execute i) (some x) =
          if i.rd.val != 0 then some x else none := by
        simp [writeBack, Instruction.signals, hk, Kind.signals, Instruction.choose]
      rw [outcome_of_access_eq_ok h ha ht, hw, commit_writeBack m.data (Word.signed_eq_toInt x)]
      rfl

theorem outcome_store (h : m.fetch = .ok i) (hk : i.kind = .store) {address : BitVec 32}
    (haddress : (m.execute i).alu.value = address.toInt) :
    m.outcome =
      m.perform i.rd (.store address (BitVec.ofInt 32 (m.registers.read i.rs2))) := by
  have ha : m.access i (m.execute i) =
      (m.data.write (.integer address.toInt) (m.registers.read i.rs2)).map
        fun data => ⟨some address.toInt, none, data⟩ := by
    simp only [access, Instruction.signals, hk, Kind.signals, haddress, if_true]
    rfl
  have ht : (flow i (m.execute i)).target m.counter.value = (m.pc + 4).toNat := by
    rw [← target_next]
    simp [flow, Flow.select, execute, Flow.taken, Instruction.signals, hk, Kind.signals]
  rw [perform, ← Word.signed_eq_toInt, write_signed]
  cases hwrite : m.data.write (.integer address.toInt) (m.registers.read i.rs2) with
  | error e =>
      rw [hwrite] at ha
      exact outcome_of_access_eq_error h ha
  | ok data =>
      rw [hwrite] at ha
      have hw : m.writeBack i (m.execute i) none = none := by
        simp [writeBack, Instruction.signals, hk, Kind.signals]
      rw [outcome_of_access_eq_ok h ha ht, hw]
      rfl

theorem outcome_branch (h : m.fetch = .ok i) (hk : i.kind = .branch) {x : BitVec 32}
    (hx : (m.execute i).alu.value = x.toInt) :
    m.outcome = m.perform i.rd (.branch ((x != 0) != i.inverted)
      (m.pc + BitVec.ofInt 32 (i.immediate?.getD 0))) := by
  have ha : m.access i (m.execute i) = .ok ⟨none, none, m.data⟩ := by
    simp [access, Instruction.signals, hk, Kind.signals]
  have hzero : (x.toInt != 0) = (x != 0) := by
    rw [Bool.eq_iff_iff, bne_iff_ne, bne_iff_ne, ne_eq, ne_eq, ← BitVec.toInt_inj]
    rfl
  have htaken : (m.execute i).taken = ((x != 0) != i.inverted) := by
    change Flow.taken i.signals.branch i.inverted (m.execute i).alu.value = _
    simp only [Flow.taken, Instruction.signals, hk, Kind.signals, hx, hzero, Bool.true_and]
  have hw : m.writeBack i (m.execute i) none = none := by
    simp [writeBack, Instruction.signals, hk, Kind.signals]
  have hflow : flow i (m.execute i) =
      if (x != 0) != i.inverted then .branch (i.immediate?.getD 0) else .next := by
    rw [← htaken]
    simp [flow, Flow.select, Instruction.signals, hk, Kind.signals, execute]
  have ht : (flow i (m.execute i)).target m.counter.value =
      (if (x != 0) != i.inverted then m.pc + BitVec.ofInt 32 (i.immediate?.getD 0)
        else m.pc + 4).toNat := by
    rw [hflow]
    split
    · exact target_offset m _
    · exact target_next m
  rw [outcome_of_access_eq_ok h ha ht, hw]
  rfl

theorem outcome_jump (h : m.fetch = .ok i) (hk : i.kind = .jal ∨ i.kind = .jalr)
    {target : BitVec 32}
    (ht : (flow i (m.execute i)).target m.counter.value = target.toNat) :
    m.outcome = m.perform i.rd (.jump target) := by
  have ha : m.access i (m.execute i) = .ok ⟨none, none, m.data⟩ := by
    rcases hk with hk | hk <;> simp [access, Instruction.signals, hk, Kind.signals]
  have hw : m.writeBack i (m.execute i) none =
      if i.rd.val != 0 then some (Word.signed (m.counter.value + 4)) else none := by
    rcases hk with hk | hk <;> simp [writeBack, Instruction.signals, hk, Kind.signals]
  have hlink : Word.signed (Word.signed (m.counter.value + 4)) = (m.pc + 4).toInt := by
    rw [Word.signed_signed, Word.signed_eq_toInt, BitVec.ofInt_add]
    rfl
  rw [outcome_of_access_eq_ok h ha ht, hw, commit_writeBack m.data hlink]
  rfl

/-- One step of the machine has the outcome that the reference semantics gives. -/
theorem outcome_eq_reference (h : m.fetch = .ok i) : m.outcome = m.reference i := by
  have hvalue := value_execute m i
  rw [reference, Instruction.effect_eq]
  cases hk : i.kind with
  | register =>
      simp only [hk] at hvalue
      exact outcome_compute h (by simp [hk]) hvalue
  | immediate =>
      simp only [hk] at hvalue
      exact outcome_compute h (by simp [hk]) hvalue
  | load =>
      simp only [hk] at hvalue
      exact outcome_load h hk hvalue
  | store =>
      simp only [hk] at hvalue
      exact outcome_store h hk hvalue
  | branch =>
      simp only [hk] at hvalue
      exact outcome_branch h hk hvalue
  | lui =>
      simp only [hk] at hvalue
      exact outcome_compute h (by simp [hk]) hvalue
  | auipc =>
      simp only [hk] at hvalue
      exact outcome_compute h (by simp [hk]) hvalue
  | jal =>
      apply outcome_jump h (by simp [hk])
      simp only [flow, Flow.select, Instruction.signals, hk, Kind.signals]
      exact target_offset m _
  | jalr =>
      apply outcome_jump h (by simp [hk])
      simp only [flow, Flow.select, Instruction.signals, hk, Kind.signals]
      exact target_indirect m _ _

/-- The step of an instruction that is fetched succeeds exactly if the reference semantics allows
it, and leaves exactly the machine that the semantics describes. -/
theorem exists_step_eq_ok_iff (h : m.fetch = .ok i) {m' : Machine} :
    (∃ t, m.step = (m', .ok t)) ↔ m.reference i = .ok m' := by
  rw [← outcome_eq_reference h, outcome]
  obtain ⟨m₁, e | t⟩ := m.step
  · simp [Except.map]
  · simp [Except.map]

/-- The step of an instruction that is fetched is refused exactly for the fault that the reference
semantics gives. -/
theorem exists_step_eq_error_iff (h : m.fetch = .ok i) {e : Fault} :
    (∃ m', m.step = (m', .error e)) ↔ m.reference i = .error e := by
  rw [← outcome_eq_reference h, outcome]
  obtain ⟨m₁, e | t⟩ := m.step
  · simp [Except.map]
  · simp [Except.map]

/-- The machine refines the reference semantics.  Whatever the state, an instruction that is
fetched succeeds exactly if the semantics allows it and leaves exactly the machine that the
semantics describes, and it is refused exactly for the fault that the semantics gives.  A machine
advances as the semantics describes wherever its cycles can be announced, and nowhere else. -/
theorem step_iff_reference (h : m.fetch = .ok i) :
    (∀ m', (∃ t, m.step = (m', .ok t)) ↔ m.reference i = .ok m') ∧
      (∀ e, (∃ m', m.step = (m', .error e)) ↔ m.reference i = .error e) ∧
      ∀ m', (∃ t, m.advance = (m', .ok t)) ↔
        Text.exceedsLimit m.cycles = false ∧ m.reference i = .ok m' := by
  refine ⟨fun m' => exists_step_eq_ok_iff h, fun e => exists_step_eq_error_iff h, ?_⟩
  intro m'
  simp only [advance_eq_ok_iff, exists_and_left, exists_step_eq_ok_iff h]

/-- A jump through the register that it links: the target is taken from the old value. -/
theorem step_iff_reference_link :
    let m : Machine :=
      { program := ⟨.program, #[3178727], false⟩, data := .empty .data 1
        registers := RegisterFile.empty.write 1 41, counter := ⟨0, 0⟩, cycles := 7 }
    m.fetch = .ok ⟨3178727, .jalr⟩ ∧
      ∃ t, m.step =
        ({ m with registers := m.registers.write 1 4, counter := ⟨44, 0⟩, cycles := 8 },
          .ok t) := by
  intro m
  have h : m.fetch = .ok ⟨3178727, .jalr⟩ := rfl
  refine ⟨h, ((step_iff_reference h).1 _).mpr ?_⟩
  have hrd : Instruction.rd ⟨3178727, .jalr⟩ = 1 := by decide
  have hrs1 : Instruction.rs1 ⟨3178727, .jalr⟩ = 1 := by decide
  have hk : Instruction.immediate? ⟨3178727, .jalr⟩ = some 3 := by decide
  have hread : m.registers.read 1 = 41 := rfl
  simp only [reference, Instruction.effect, perform, hrd, hrs1, hk, hread, Option.getD_some]
  rfl

end Machine

end Rv32
