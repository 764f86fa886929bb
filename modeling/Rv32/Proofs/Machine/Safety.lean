import Mathlib
import Rv32.Machine.Request
import Rv32.Proofs.Assembly.Fidelity
import Rv32.Proofs.Machine.Loading
import Rv32.Proofs.Machine.Reference
import Rv32.Proofs.Machine.Stages

/-!
# Assembled programs cannot go wrong

While an accepted program runs, every word that is fetched is the word of a statement, and a
statement can fail in two ways only: a load or store may miss the data store, and a jump or branch
may go to an address that is not aligned.  The latter takes a register or an offset that was written
as a number, since labels stand at aligned addresses.

The invariant of a run is `Machine.Holds`: the program store holds the program and the counter is
aligned.  One step keeps it and is permitted; induction over the run does the rest.
-/

namespace Rv32

open Assembly

/-! ## What a step keeps -/

namespace Store

theorem kind_of_write_eq_ok {s t : Store} {address : Datum} {x : Int}
    (h : s.write address x = .ok t) : t.kind = s.kind := by
  obtain ⟨i, -, ht⟩ := Fault.bind_eq_ok h
  obtain rfl := Except.ok.inj ht
  rfl

end Store

namespace Machine

variable {m m' : Machine} {code : List Int}

theorem goTo_eq_ok {x : BitVec 32} (h : m.goTo x = .ok m') :
    x.toNat % 4 = 0 ∧
      m' = { m with counter := { m.counter with value := x.toNat }, cycles := m.cycles + 1 } := by
  unfold goTo at h
  split at h
  · next hx => exact ⟨hx, (Except.ok.inj h).symm⟩
  · cases h

namespace Holds

theorem goTo (hm : m.Holds code) {n : Machine} {x : BitVec 32} (hprogram : n.program = m.program)
    (hkind : n.data.kind = m.data.kind) (h : n.goTo x = .ok m') : m'.Holds code := by
  obtain ⟨hx, rfl⟩ := goTo_eq_ok h
  refine ⟨?_, ?_, ?_, hkind.trans hm.dataKind⟩
  · change ∀ (j : Nat) (w : Int), code[j]? = some w →
      n.program.words[j]? = some (Word.unsigned w)
    rw [hprogram]
    exact hm.word
  · change (x.toNat : Int) % 4 = 0
    omega
  · exact Int.natCast_nonneg x.toNat

/-- Whatever an instruction does, the program stays and the counter stays aligned. -/
theorem perform (hm : m.Holds code) {rd : Register} {e : Effect}
    (h : m.perform rd e = .ok m') : m'.Holds code := by
  cases e with
  | compute x => exact hm.goTo (n := m.put rd x) rfl rfl h
  | load address =>
      obtain ⟨x, -, hx⟩ := Fault.bind_eq_ok h
      exact hm.goTo (n := m.put rd (BitVec.ofInt 32 x)) rfl rfl hx
  | store address x =>
      obtain ⟨data, hwrite, hdata⟩ := Fault.bind_eq_ok h
      have hkind := Store.kind_of_write_eq_ok hwrite
      exact hm.goTo (n := { m with data }) rfl hkind hdata
  | branch taken target => exact hm.goTo rfl rfl h
  | jump target => exact hm.goTo (n := m.put rd (m.pc + 4)) rfl rfl h

/-! ## What can fail -/

/-- The next word, and any word at a distance that is a multiple of four, is aligned. -/
theorem aligned_offset (hm : m.Holds code) {k : Int} (hk : k % 4 = 0) :
    (m.pc + BitVec.ofInt 32 k).toNat % 4 = 0 := by
  have haligned := hm.aligned
  have hsum := target_offset m k
  unfold Word.unsigned at hsum
  omega

/-- What refuses an effect, class by class. -/
theorem perform_eq_error (hm : m.Holds code) {rd : Register} {e : Effect} {f : Fault}
    (h : m.perform rd e = .error f) :
    match e with
    | .compute _ => False
    | .load _ | .store _ _ => ∃ a, f = .addressUnaligned .data a ∨ f = .addressOutside .data a
    | .branch taken target =>
      taken = true ∧ target.toNat % 4 ≠ 0 ∧ f = .counterUnaligned target.toNat
    | .jump target => target.toNat % 4 ≠ 0 ∧ f = .counterUnaligned target.toNat := by
  have hnext : (m.pc + 4).toNat % 4 = 0 := hm.aligned_offset (k := 4) rfl
  have haccess {a : BitVec 32} (hrefuses : m.data.Refuses a.toInt f) :
      ∃ a, f = .addressUnaligned .data a ∨ f = .addressOutside .data a := by
    rw [← hm.dataKind]
    exact ⟨_, hrefuses.eq_or⟩
  rcases (perform_eq_error_iff hnext).mp h with ⟨a, ha, hrefuses⟩ | htarget
  · cases e with
    | load address => exact haccess hrefuses
    | store address x => exact haccess hrefuses
    | compute x => cases ha
    | branch taken target => cases ha
    | jump target => cases ha
  · cases e with
    | compute x => exact htarget.1 hnext
    | load address => exact absurd hnext htarget.1
    | store address x => exact absurd hnext htarget.1
    | branch taken target =>
        cases taken with
        | false => exact absurd hnext htarget.1
        | true => exact ⟨rfl, htarget⟩
    | jump target => exact htarget

end Holds

end Machine

/-! ## What an accepted program permits -/

namespace Assembly

/-- How a statement that asks for a mnemonic with operands may fail: a load or store by missing
the data store, a jump to a register by its address, and any other jump by an offset that is
written as a number and no multiple of four. -/
def Line.MayFail (l : Line) (f : Fault) : Prop :=
  ∃ m operands, l.AsksFor m operands ∧
    match m.kind with
    | .load | .store => ∃ a, f = .addressUnaligned .data a ∨ f = .addressOutside .data a
    | .jalr => ∃ x, f = .counterUnaligned x
    | .branch | .jal =>
      (∃ x, f = .counterUnaligned x) ∧
        ∃ target k, operands.getLast? = some target ∧ readLiteral target = .ok (some k) ∧ k % 4 ≠ 0
    | _ => False

/-- An attempt to carry out an instruction is as it should be: the word at the counter is the word
of the statement there, and if the attempt fails then the statement may fail like that. -/
def Program.Permits (p : Program) (m : Machine) (r : Except Fault Trace) : Prop :=
  ∃ e ∈ p.statements, ∃ w, e.word = some w ∧ e.statement.address = m.counter.value ∧
    p.machineCode[(m.counter.value / 4).toNat]? = some w ∧
    m.program.read (.integer m.counter.value) = .ok w ∧
    ∀ f, r = .error f → (Line.parse e.statement.source).MayFail f

/-- An offset that is aligned wherever it is a label leads from an aligned address to an aligned
one, unless it is written as a number. -/
theorem exists_literal_of_unaligned {symbols : List Symbol} {address : Nat} {target : List Char}
    {k : Int} (hsymbols : Aligned symbols) (haddress : address % 4 = 0)
    (h : OffsetMeant symbols address target k) (hk : k % 4 ≠ 0) :
    readLiteral target = .ok (some k) := by
  rcases h with hread | ⟨-, -, s, hs, rfl⟩
  · exact hread
  · have hlabel := hsymbols s (List.mem_of_find?_eq_some hs)
    omega

end Assembly

namespace Machine

variable {m m' : Machine} {code : List Int}

/-- An instruction that conveys its statement fails only as the statement may fail. -/
theorem Holds.mayFail (hm : m.Holds code) {i : Instruction} {symbols : List Symbol}
    {address : Nat} {operands : List (List Char)} {l : Line} {f : Fault}
    (hsymbols : Aligned symbols) (haddress : (address : Int) = m.counter.value)
    (hconveys : i.Conveys symbols address operands) (hasks : l.AsksFor i.mnemonic operands)
    (h : m.reference i = .error f) : l.MayFail f := by
  have haligned := hm.aligned
  refine ⟨i.mnemonic, operands, hasks, ?_⟩
  change match i.kind with
    | .load | .store => _
    | .jalr => _
    | .branch | .jal => _
    | _ => _
  rw [reference, Instruction.effect_eq] at h
  -- A jump by an offset that is a multiple of four cannot be refused.
  have hjump (hk : i.kind = .branch ∨ i.kind = .jal)
      (hfour : (m.pc + BitVec.ofInt 32 (i.immediate?.getD 0)).toNat % 4 ≠ 0) :
      ∃ target k, operands.getLast? = some target ∧ readLiteral target = .ok (some k) ∧
        k % 4 ≠ 0 := by
    obtain ⟨target, k, hlast, hmeant, himm⟩ := exists_target hk hconveys
    rw [himm, Option.getD_some] at hfour
    have hk4 : k % 4 ≠ 0 := fun hk4 => hfour (hm.aligned_offset hk4)
    exact ⟨target, k, hlast,
      exists_literal_of_unaligned hsymbols (by omega) hmeant hk4, hk4⟩
  cases hk : i.kind with
  | register =>
      simp only [hk] at h
      exact hm.perform_eq_error h
  | immediate =>
      simp only [hk] at h
      exact hm.perform_eq_error h
  | load =>
      simp only [hk] at h
      exact hm.perform_eq_error h
  | store =>
      simp only [hk] at h
      exact hm.perform_eq_error h
  | branch =>
      simp only [hk] at h
      obtain ⟨-, hfour, hf⟩ := hm.perform_eq_error h
      exact ⟨⟨_, hf⟩, hjump (Or.inl hk) hfour⟩
  | lui =>
      simp only [hk] at h
      exact hm.perform_eq_error h
  | auipc =>
      simp only [hk] at h
      exact hm.perform_eq_error h
  | jal =>
      simp only [hk] at h
      obtain ⟨hfour, hf⟩ := hm.perform_eq_error h
      exact ⟨⟨_, hf⟩, hjump (Or.inr hk) hfour⟩
  | jalr =>
      simp only [hk] at h
      obtain ⟨-, hf⟩ := hm.perform_eq_error h
      exact ⟨_, hf⟩

/-! ## One step -/

/-- The word at the counter is the word of the program there. -/
theorem Holds.read (hm : m.Holds code) {j : Nat} {w : Int} (hw : code[j]? = some w)
    (hrange : 0 ≤ w ∧ w < 4294967296) (hj : m.counter.value = 4 * j) :
    m.program.read (.integer m.counter.value) = .ok w := by
  have hself : Word.unsigned w = w := by
    unfold Word.unsigned
    omega
  have hfound := hm.word j w hw
  rw [hself] at hfound
  rw [hj]
  exact Store.read_integer hfound

/-- A step keeps the program held. -/
theorem Holds.of_step (hm : m.Holds code) {t : Trace} (h : m.step = (m', .ok t)) :
    m'.Holds code := by
  have hdone : m.reference t.instruction = .ok m' := by
    rw [← outcome_eq_reference (completes_of_step h).fetch, outcome, h]
    rfl
  exact hm.perform hdone

variable {source : List Char} {p : Program}

/-- While the program is not finished, an attempt is permitted, and a success keeps the program
held. -/
theorem Holds.step (h : assemble source = .ok p) (hm : m.Holds p.machineCode)
    (hrunning : m.finished p.machineCode.length = false) :
    p.Permits m m.step.2 ∧ ∀ m' t, m.step = (m', .ok t) → m'.Holds p.machineCode := by
  have haligned := hm.aligned
  have hnonneg := hm.nonneg
  have hbelow : m.counter.value < p.machineCode.length * 4 := by
    simpa [finished] using hrunning
  obtain ⟨j, hj⟩ : ∃ j : Nat, m.counter.value = 4 * j := ⟨(m.counter.value / 4).toNat, by omega⟩
  have hlt : j < p.machineCode.length := by omega
  have hw := List.getElem?_eq_getElem hlt
  obtain ⟨e, he, n, hword, haddress, hasks, hfaithful⟩ := faithful_of_getElem?_machineCode h hw
  generalize p.machineCode[j] = w at hw hword hfaithful
  have hread := hm.read hw hfaithful.range hj
  have hfetch : m.fetch = .ok ⟨w, n⟩ := by
    rw [fetch, hread]
    exact hfaithful.decode
  refine ⟨⟨e, he, w, hword, by omega, ?_, hread, ?_⟩, fun _ _ => hm.of_step⟩
  · rw [show (m.counter.value / 4).toNat = j by omega]
    exact hw
  · intro f hf
    have hrefused : m.reference ⟨w, n⟩ = .error f := by
      rw [← outcome_eq_reference hfetch, outcome, hf]
      rfl
    exact hm.mayFail (aligned_layout source) (by omega) hfaithful.conveys hasks hrefused

/-! ## Runs -/

/-- An observer that keeps every attempt: the machine before it and what came of it. -/
def log (seen : List (Machine × Except Fault Trace)) (m _ : Machine) (r : Except Fault Trace) :
    List (Machine × Except Fault Trace) :=
  seen ++ [(m, r)]

/-- All attempts of a run are permitted, as were those before it. -/
theorem Holds.driveFor (h : assemble source = .ok p) (hm : m.Holds p.machineCode) (fuel : Nat)
    (seen : List (Machine × Except Fault Trace)) (hseen : ∀ a ∈ seen, p.Permits a.1 a.2) :
    ∀ a ∈ (Machine.driveFor Machine.step p.machineCode.length log fuel seen m).seen,
      p.Permits a.1 a.2 := by
  induction fuel generalizing m seen with
  | zero => exact hseen
  | succ fuel ih =>
      rw [Machine.driveFor]
      by_cases hdone : m.finished p.machineCode.length = true
      · rw [if_pos hdone]
        exact hseen
      · rw [if_neg hdone]
        obtain ⟨hpermits, hkeeps⟩ := hm.step h (by simpa using hdone)
        have hlogged : ∀ a ∈ log seen m m m.step.2, p.Permits a.1 a.2 := by
          intro a ha
          rcases List.mem_append.mp ha with ha | ha
          · exact hseen a ha
          · rw [List.mem_singleton.mp ha]
            exact hpermits
        split
        · next m' f hstep =>
            rw [hstep] at hlogged
            exact hlogged
        · next m' t hstep =>
            rw [hstep] at hlogged
            exact ih (hkeeps m' t hstep) _ hlogged

end Machine

end Rv32
