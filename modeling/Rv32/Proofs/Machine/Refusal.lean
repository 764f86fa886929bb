import Mathlib
import Rv32.Proofs.Instruction.Decoding
import Rv32.Proofs.Machine.Invariant
import Rv32.Proofs.Machine.Reference

/-!
# When a step is refused

`Machine.Refusal` lists what can refuse a step: there is no word at the counter, the word is no
instruction, the address of a load or store is no address of the data store, or the next address is
not aligned.  The causes are stated for the words of the program and for the reference semantics,
not for the stages of the datapath.  A step is refused exactly for one of them.

The stages change data memory, the registers and the counter in this order, but a store cannot be
refused after it has written, because it moves on to the next word.  Only a jump can have done
something before it is refused: it has written the return address.

A machine that announces its steps is refused for one cause more, before it has done anything: its
cycles have too many digits to be shown.  No run gets there from zero, but a state with any number
of cycles can be put into a machine.
-/

namespace Rv32

/-! ## The causes -/

/-- A load or store uses the sum of a register and the immediate. -/
theorem Instruction.address?_effect (i : Instruction) (pc a b x : BitVec 32) :
    (i.effect pc a b).address? = some x ↔
      (i.kind = .load ∨ i.kind = .store) ∧ x = a + BitVec.ofInt 32 (i.immediate?.getD 0) := by
  rw [effect_eq]
  cases hk : i.kind <;> simp [Effect.address?, eq_comm]

/-- An instruction that jumps, which makes it write a return address. -/
def Instruction.Jumps (i : Instruction) : Prop := i.kind = .jal ∨ i.kind = .jalr

namespace Machine

variable {m m' : Machine} {i : Instruction} {f : Fault}

/-- The instruction that stands at the counter. -/
def Fetches (m : Machine) (i : Instruction) : Prop :=
  ∃ w, m.program.words[(m.counter.value / 4).toNat]? = some w ∧ Instruction.decode w = .ok i

/-- The address in data memory that a load or store uses, as a signed word. -/
def dataAddress (m : Machine) (i : Instruction) : Int :=
  Word.signed (m.registers.read i.rs1 + i.immediate?.getD 0)

/-- The address to continue at after an instruction, as an unsigned word. -/
def nextCounter (m : Machine) (i : Instruction) : Int :=
  ((i.effect m.pc (BitVec.ofInt 32 (m.registers.read i.rs1))
    (BitVec.ofInt 32 (m.registers.read i.rs2))).next m.pc).toNat

/-- What can refuse a step, with the class of the failure. -/
inductive Refusal (m : Machine) : FailureClass → Fault → Prop
  /-- The counter points behind the program store. -/
  | fetch (h : m.program.capacity ≤ m.counter.value / 4) :
    m.Refusal .address (.addressOutside .program (.integer m.counter.value))
  /-- The word at the counter is no instruction. -/
  | decode {w : Int} {f : Fault}
    (hw : m.program.words[(m.counter.value / 4).toNat]? = some w)
    (h : Instruction.decode w = .error f) : m.Refusal .instruction f
  /-- The address of a load or store is not aligned or outside data memory. -/
  | access {i : Instruction} {f : Fault} (hi : m.Fetches i)
    (hk : i.kind = .load ∨ i.kind = .store) (h : m.data.Refuses (m.dataAddress i) f) :
    m.Refusal .address f
  /-- The address to continue at is not aligned. -/
  | target {i : Instruction} (hi : m.Fetches i) (h : m.nextCounter i % 4 ≠ 0) :
    m.Refusal .address (.counterUnaligned (m.nextCounter i))

theorem Refusal.ne_value {c : FailureClass} (h : m.Refusal c f) : c ≠ .value := by
  cases h <;> decide

/-- None of the causes has a number with too many digits in its wording. -/
theorem WellFormed.failure_of_refusal {p d : Nat} {start : Int} (hm : m.WellFormed p d start)
    {c : FailureClass} (h : m.Refusal c f) : f.report.failure = c := by
  cases h with
  | fetch hout =>
      obtain ⟨hfour, hnonneg, hlt⟩ := hm.counter.bounds
      have hrefuses : m.program.Refuses m.counter.value
          (.addressOutside m.program.kind (.integer m.counter.value)) :=
        .outside hfour (Or.inr hout)
      rw [hm.program.kind] at hrefuses
      rw [hrefuses.failure]
      exact Store.addressClass_of_natAbs_le (by omega)
  | decode _ h => exact (Instruction.report_of_decode_eq_error h).1
  | @access i _ _ _ h =>
      have hge := Word.signed_ge (m.registers.read i.rs1 + i.immediate?.getD 0)
      have hlt := Word.signed_lt (m.registers.read i.rs1 + i.immediate?.getD 0)
      rw [h.failure, dataAddress]
      exact Store.addressClass_of_natAbs_le (by omega)
  | target => rfl

/-- Apart from the fetch, the reference semantics refuses an instruction for the listed causes. -/
theorem reference_eq_error_iff (hnext : (m.pc + 4).toNat % 4 = 0) :
    m.reference i = .error f ↔
      ((i.kind = .load ∨ i.kind = .store) ∧ m.data.Refuses (m.dataAddress i) f) ∨
        m.nextCounter i % 4 ≠ 0 ∧ f = .counterUnaligned (m.nextCounter i) := by
  have haddress : (BitVec.ofInt 32 (m.registers.read i.rs1) +
      BitVec.ofInt 32 (i.immediate?.getD 0)).toInt = m.dataAddress i := by
    rw [dataAddress, Word.signed_eq_toInt, BitVec.ofInt_add]
  have hfour (x : BitVec 32) : (x.toNat : Int) % 4 ≠ 0 ↔ x.toNat % 4 ≠ 0 := by
    omega
  rw [reference, perform_eq_error_iff hnext, nextCounter, hfour]
  simp only [Instruction.address?_effect, and_assoc]
  refine or_congr_left ?_
  constructor
  · rintro ⟨a, hk, rfl, h⟩
    rw [haddress] at h
    exact ⟨hk, h⟩
  · rintro ⟨hk, h⟩
    rw [← haddress] at h
    exact ⟨_, hk, rfl, h⟩

namespace WellFormed

variable {p d : Nat} {start : Int}

/-- The program store is read at the place that the counter gives. -/
theorem read_counter_iff (hm : m.WellFormed p d start) {w : Int} :
    m.program.read (.integer m.counter.value) = .ok w ↔
      m.program.words[(m.counter.value / 4).toNat]? = some w := by
  obtain ⟨hfour, hnonneg, -⟩ := hm.counter.bounds
  have hplace : 4 * ((m.counter.value / 4).toNat : Int) = m.counter.value := by
    omega
  constructor
  · intro h
    exact (Store.getElem?_of_read_eq_ok h).2.2
  · intro h
    rw [← Store.read_integer h, hplace]

theorem fetch_eq_ok_iff (hm : m.WellFormed p d start) : m.fetch = .ok i ↔ m.Fetches i := by
  constructor
  · intro h
    obtain ⟨w, hread, hw⟩ := Fault.bind_eq_ok h
    exact ⟨w, hm.read_counter_iff.mp hread, hw⟩
  · rintro ⟨w, hword, hw⟩
    rw [fetch, hm.read_counter_iff.mpr hword]
    exact hw

theorem fetch_eq_error (hm : m.WellFormed p d start) (h : m.fetch = .error f) :
    ∃ c, m.Refusal c f := by
  obtain ⟨hfour, hnonneg, -⟩ := hm.counter.bounds
  rcases Fault.bind_eq_error h with hread | ⟨w, hread, hw⟩
  · have hrefuses := Store.read_eq_error_iff.mp hread
    cases hrefuses with
    | unaligned hne => exact absurd hfour hne
    | outside _ hout =>
        rw [hm.program.kind]
        exact ⟨_, .fetch (hout.resolve_left (not_lt.mpr hnonneg))⟩
  · exact ⟨_, .decode (hm.read_counter_iff.mp hread) hw⟩

theorem aligned_next (hm : m.WellFormed p d start) : (m.pc + 4).toNat % 4 = 0 := by
  have hfour := hm.counter.aligned
  have hnext := target_next m
  rw [Flow.target, Word.unsigned] at hnext
  omega

theorem refusal_of_step_eq_error (hm : m.WellFormed p d start) (h : m.step = (m', .error f)) :
    ∃ c, m.Refusal c f := by
  rcases step_eq_error h with ⟨hfetch, -⟩ | ⟨i, hi, -⟩
  · exact hm.fetch_eq_error hfetch
  · have hreference := (exists_step_eq_error_iff hi).mp ⟨m', h⟩
    have hi := hm.fetch_eq_ok_iff.mp hi
    rcases (reference_eq_error_iff hm.aligned_next).mp hreference with
      ⟨hk, hrefuses⟩ | ⟨hfour, rfl⟩
    · exact ⟨_, .access hi hk hrefuses⟩
    · exact ⟨_, .target hi hfour⟩

/-- A refused step is no failure about a plain value. -/
theorem failure_ne_value (hm : m.WellFormed p d start) (h : m.step = (m', .error f)) :
    f.report.failure ≠ .value := by
  obtain ⟨c, hcause⟩ := hm.refusal_of_step_eq_error h
  rw [hm.failure_of_refusal hcause]
  exact hcause.ne_value

theorem exists_step_of_refusal (hm : m.WellFormed p d start) {c : FailureClass}
    (h : m.Refusal c f) : ∃ m', m.step = (m', .error f) := by
  have hfetch (he : m.fetch = .error f) : ∃ m', m.step = (m', .error f) := by
    refine ⟨m, ?_⟩
    rw [Machine.step, he]
  cases h with
  | fetch hout =>
      apply hfetch
      have hrefuses : m.program.Refuses m.counter.value
          (.addressOutside m.program.kind (.integer m.counter.value)) :=
        .outside hm.counter.aligned (Or.inr hout)
      rw [Machine.fetch, Store.read_eq_error_iff.mpr hrefuses, hm.program.kind]
      rfl
  | decode hw hdecode =>
      apply hfetch
      rw [Machine.fetch, hm.read_counter_iff.mpr hw]
      exact hdecode
  | access hi hk hrefuses =>
      apply (exists_step_eq_error_iff (hm.fetch_eq_ok_iff.mpr hi)).mpr
      exact (reference_eq_error_iff hm.aligned_next).mpr (Or.inl ⟨hk, hrefuses⟩)
  | target hi hfour =>
      apply (exists_step_eq_error_iff (hm.fetch_eq_ok_iff.mpr hi)).mpr
      exact (reference_eq_error_iff hm.aligned_next).mpr (Or.inr ⟨hfour, rfl⟩)

/-- A step is refused exactly for one of the causes. -/
theorem step_eq_error_iff (hm : m.WellFormed p d start) {c : FailureClass} :
    (∃ m', m.step = (m', .error f) ∧ f.report.failure = c) ↔ m.Refusal c f := by
  constructor
  · rintro ⟨m', h, hc⟩
    obtain ⟨c', hcause⟩ := hm.refusal_of_step_eq_error h
    obtain rfl : c' = c := (hm.failure_of_refusal hcause).symm.trans hc
    exact hcause
  · intro h
    obtain ⟨m', hstep⟩ := hm.exists_step_of_refusal h
    exact ⟨m', hstep, hm.failure_of_refusal h⟩

end WellFormed

/-! ## What is left -/

/-- The machine with the return address in the destination of an instruction. -/
def link (m : Machine) (i : Instruction) : Machine :=
  { m with registers := ⟨m.registers.slots.set i.rd (Word.signed (m.counter.value + 4))⟩ }

/-- A branch or jump leaves data memory alone. -/
theorem access_eq_keep (x : Execution) (hk : i.kind = .branch ∨ i.Jumps) :
    m.access i x = .ok ⟨none, none, m.data⟩ := by
  rcases hk with hk | hk | hk <;> simp [access, Instruction.signals, hk, Kind.signals]

/-- An instruction of a class other than the branches and jumps moves on to the next word. -/
theorem flow_eq_next (m : Machine) (hk : ¬(i.kind = .branch ∨ i.Jumps)) :
    flow i (m.execute i) = .next := by
  unfold Instruction.Jumps at hk
  cases hi : i.kind <;>
    simp_all [flow, Flow.select, execute, Flow.taken, Instruction.signals, Kind.signals]

theorem commit_branch (x : Execution) (hk : i.kind = .branch) :
    m.commit i m.data (m.writeBack i x none) = m := by
  have hnone : m.writeBack i x none = none := by
    simp [writeBack, Instruction.signals, hk, Kind.signals]
  rw [hnone]
  rfl

theorem writeBack_of_jumps (x : Execution) (hj : i.Jumps) :
    m.writeBack i x none =
      if i.rd = 0 then none else some (Word.signed (m.counter.value + 4)) := by
  have hrd : i.rd = 0 ↔ i.rd.val = 0 := Fin.ext_iff
  rcases hj with hk | hk <;>
    by_cases hz : i.rd.val = 0 <;> simp [writeBack, Instruction.signals, hk, Kind.signals, hrd, hz]

theorem commit_jump_zero (x : Execution) (hj : i.Jumps) (hrd : i.rd = 0) :
    m.commit i m.data (m.writeBack i x none) = m := by
  rw [writeBack_of_jumps x hj, if_pos hrd]
  rfl

theorem commit_jump_link (x : Execution) (hj : i.Jumps) (hrd : i.rd ≠ 0) :
    m.commit i m.data (m.writeBack i x none) = m.link i := by
  have hne : i.rd.val ≠ 0 := fun h => hrd (Fin.ext h)
  rw [writeBack_of_jumps x hj, if_neg hrd]
  simp only [commit, link, RegisterFile.write, if_neg hne, Word.signed_signed]

/-- A refused step leaves the machine as it was, except that a jump keeps its return address. -/
theorem WellFormed.eq_of_step_eq_error {p d : Nat} {start : Int} (hm : m.WellFormed p d start)
    (h : m.step = (m', .error f)) :
    (∀ i, m.Fetches i → i.Jumps → i.rd ≠ 0 → m' = m.link i) ∧
      ((∀ i, m.Fetches i → i.Jumps → i.rd = 0) → m' = m) := by
  rcases step_eq_error h with ⟨hfetch, rfl⟩ | ⟨i, hfetch, hrest⟩
  · refine ⟨?_, fun _ => rfl⟩
    intro i hi
    rw [hm.fetch_eq_ok_iff.mpr hi] at hfetch
    cases hfetch
  -- From here on there is one instruction, and its class alone decides what is left.
  have hi := hm.fetch_eq_ok_iff.mp hfetch
  suffices hleft : (i.Jumps → i.rd ≠ 0 → m' = m.link i) ∧ ((i.Jumps → i.rd = 0) → m' = m) by
    refine ⟨?_, fun hall => hleft.2 (hall i hi)⟩
    intro j hj
    rw [← hm.fetch_eq_ok_iff, hfetch] at hj
    obtain rfl := Except.ok.inj hj
    exact hleft.1
  rcases hrest with ⟨haccess, rfl⟩ | ⟨a, haccess, hfour, rfl⟩
  · refine ⟨?_, fun _ => rfl⟩
    intro hj
    rw [access_eq_keep _ (Or.inr hj)] at haccess
    cases haccess
  · by_cases hk : i.kind = .branch ∨ i.Jumps
    · rw [access_eq_keep _ hk] at haccess
      obtain rfl := Except.ok.inj haccess
      refine ⟨commit_jump_link _, ?_⟩
      intro hzero
      rcases hk with hb | hj
      · exact commit_branch _ hb
      · exact commit_jump_zero _ hj (hzero hj)
    · -- The next word is aligned, so that nothing else is refused at this stage.
      have hnext := hm.aligned_next
      rw [flow_eq_next m hk, target_next] at hfour
      omega

/-! ## Announced steps -/

/-- What can refuse to advance a machine: its cycles cannot be announced, or its step is refused. -/
def Stops (m : Machine) (c : FailureClass) (f : Fault) : Prop :=
  (10 ^ Text.digitLimit ≤ m.cycles ∧ c = .value ∧ f = .excess .shown) ∨
    (m.cycles < 10 ^ Text.digitLimit ∧ m.Refusal c f)

theorem WellFormed.advance_eq_error_iff_stops {p d : Nat} {start : Int}
    (hm : m.WellFormed p d start) {c : FailureClass} :
    (∃ m', m.advance = (m', .error f) ∧ f.report.failure = c) ↔ m.Stops c f := by
  unfold Stops
  rw [← hm.step_eq_error_iff]
  cases hlimit : Text.exceedsLimit m.cycles with
  | true =>
      have hmany := Text.exceedsLimit_natCast_eq_true_iff.mp hlimit
      rw [advance_eq_error hlimit]
      constructor
      · rintro ⟨m', heq, rfl⟩
        obtain rfl := Except.error.inj (Prod.mk.inj heq).2
        exact Or.inl ⟨hmany, rfl, rfl⟩
      · rintro (⟨-, rfl, rfl⟩ | ⟨hfew, -⟩)
        · exact ⟨m, rfl, rfl⟩
        · omega
  | false =>
      have hfew := Text.exceedsLimit_natCast_eq_false_iff.mp hlimit
      rw [advance_eq_step hlimit]
      constructor
      · intro h
        exact Or.inr ⟨hfew, h⟩
      · rintro (⟨hmany, -⟩ | ⟨-, h⟩)
        · omega
        · exact h

/-- When a machine is refused, and what it leaves then.  It is refused for one of the causes and no
other: its cycles have too many digits to be announced, or its step is refused.  It leaves
everything as it was, except that the step of a jump to an unaligned address has written its return
address unless its destination is register zero. -/
theorem advance_refusal (h : m.Reachable) :
    (∀ c f, (∃ m', m.advance = (m', .error f) ∧ f.report.failure = c) ↔ m.Stops c f) ∧
      ∀ m' f, m.advance = (m', .error f) →
        (∀ i, m.cycles < 10 ^ Text.digitLimit → m.Fetches i → i.Jumps → i.rd ≠ 0 →
          m' = m.link i) ∧
        (10 ^ Text.digitLimit ≤ m.cycles ∨ (∀ i, m.Fetches i → i.Jumps → i.rd = 0) → m' = m) := by
  obtain ⟨p, d, start, hm⟩ := h.wellFormed
  refine ⟨fun _ _ => hm.advance_eq_error_iff_stops, ?_⟩
  intro m' f hrefused
  rcases advance_eq_error_iff.mp hrefused with ⟨hlimit, rfl, -⟩ | ⟨hlimit, hstep⟩
  · have hmany := Text.exceedsLimit_natCast_eq_true_iff.mp hlimit
    refine ⟨?_, fun _ => rfl⟩
    intro i hfew
    omega
  · have hfew := Text.exceedsLimit_natCast_eq_false_iff.mp hlimit
    obtain ⟨hlink, hkept⟩ := hm.eq_of_step_eq_error hstep
    refine ⟨fun i _ => hlink i, ?_⟩
    rintro (hmany | hzero)
    · omega
    · exact hkept hzero

/-- A jump by 6 bytes with `ra` as its destination. -/
theorem advance_refusal_link :
    ∃ m m' : Machine, m.Reachable ∧ m.Fetches ⟨6291695, .jal⟩ ∧
      m.advance = (m', .error (.counterUnaligned 6)) ∧
      m.Refusal .address (.counterUnaligned 6) ∧ m' = m.link ⟨6291695, .jal⟩ ∧
      m'.registers.read 1 = 4 := by
  let m₀ : Machine := ⟨.empty .program 1, .empty .data 1, .empty, ⟨0, 0⟩, 0⟩
  let m := m₀.after [.machine (.load [6291695])]
  have hreachable : m.Reachable := ⟨.integer 1, .integer 1, 0, m₀, _, rfl, rfl⟩
  have hfetches : m.Fetches ⟨6291695, .jal⟩ := ⟨6291695, rfl, rfl⟩
  have hfew : m.cycles < 10 ^ Text.digitLimit := Nat.pow_pos (by decide)
  obtain ⟨m', hstep⟩ : ∃ m', m.step = (m', .error (.counterUnaligned 6)) := ⟨_, rfl⟩
  have hadvance : m.advance = (m', .error (.counterUnaligned 6)) := by
    rw [advance_eq_step (Text.exceedsLimit_natCast_eq_false_iff.mpr hfew), hstep]
  obtain ⟨hcauses, hleft⟩ := advance_refusal hreachable
  have hlink := (hleft m' _ hadvance).1 _ hfew hfetches (Or.inl rfl) (by decide)
  have hstops : m.Stops .address (.counterUnaligned 6) :=
    (hcauses _ _).mp ⟨m', hadvance, rfl⟩
  have hcause : m.Refusal .address (.counterUnaligned 6) := by
    rcases hstops with ⟨hmany, -⟩ | ⟨-, hcause⟩
    · omega
    · exact hcause
  refine ⟨m, m', hreachable, hfetches, hadvance, hcause, hlink, ?_⟩
  rw [hlink]
  decide

/-- An instruction that does nothing is refused where the cycles have too many digits, although
there is none of the causes that refuse a step. -/
theorem refused_without_cause :
    ∃ m : Machine, m.Reachable ∧ (∀ c f, ¬ m.Refusal c f) ∧
      ∃ f, m.advance = (m, .error f) ∧ f.report.failure = .value := by
  obtain ⟨n, hn⟩ : ∃ n, n = 10 ^ Text.digitLimit := ⟨_, rfl⟩
  have hreachable := reachable_atCycle n
  obtain ⟨p, d, start, hm⟩ := hreachable.wellFormed
  obtain ⟨m', t, hstep⟩ : ∃ m' t,
      step ⟨⟨.program, #[19], false⟩, .empty .data 1, .empty, ⟨0, 0⟩, n⟩ = (m', .ok t) :=
    ⟨_, _, rfl⟩
  refine ⟨_, hreachable, ?_, .excess .shown, ?_, rfl⟩
  · intro c f hcause
    obtain ⟨_, hrefused⟩ := hm.exists_step_of_refusal hcause
    rw [hstep] at hrefused
    cases hrefused
  · exact advance_eq_error (Text.exceedsLimit_natCast_eq_true_iff.mpr hn.ge)

end Machine

end Rv32
