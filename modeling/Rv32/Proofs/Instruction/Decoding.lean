import Mathlib
import Rv32.Instruction.Basic
import Rv32.Proofs.Word.Fields

/-!
# What the control unit accepts

A mnemonic selects the words that hold its major opcode and the minor opcodes that its table entry
fixes.  The control unit looks words up in two steps, first by both minor opcodes and then by the
first alone.  Here the look-up is compared with the plain reading of the table: a word decodes to
a mnemonic exactly if the mnemonic selects it.
-/

namespace Rv32

namespace Mnemonic

/-- The words that a table entry describes. -/
structure Selects (m : Mnemonic) (w : Int) : Prop where
  opcode : Word.opcode w = m.kind.opcode
  funct3 : ∀ f, m.entry.funct3 = some f → Word.funct3 w = f
  funct7 : ∀ f, m.entry.funct7 = some f → Word.funct7 w = f

theorem withKey?_eq_some {k : Kind} {a b : Option Int} {m : Mnemonic}
    (h : withKey? k a b = some m) :
    m.kind = k ∧ m.entry.funct3 = a ∧ m.entry.funct7 = b := by
  have hkey := List.find?_some h
  simp only [Bool.and_eq_true, beq_iff_eq] at hkey
  exact ⟨hkey.1.1, hkey.1.2, hkey.2⟩

/-- What the look-up finds has the class and agrees with the minor opcodes. -/
theorem select?_sound {k : Kind} {a b : Int} {m : Mnemonic}
    (h : select? k (some a) (some b) = some m) :
    m.kind = k ∧ (∀ f, m.entry.funct3 = some f → a = f) ∧
      ∀ f, m.entry.funct7 = some f → b = f := by
  have hkeys : withKey? k none none = some m ∨ withKey? k (some a) (some b) = some m ∨
      withKey? k (some a) none = some m := by
    unfold select? at h
    split at h
    · exact Or.inl h
    · exact Or.inl h
    · exact Or.inl h
    · rw [Option.or_eq_some_iff] at h
      exact Or.inr (h.imp_right And.right)
  rcases hkeys with hm | hm | hm
  all_goals
    obtain ⟨hk, h3, h7⟩ := withKey?_eq_some hm
    refine ⟨hk, fun f hf => ?_, fun f hf => ?_⟩
    · simp_all
    · simp_all

theorem withKey?_entry (m : Mnemonic) :
    withKey? m.kind m.entry.funct3 m.entry.funct7 = some m := by
  cases m <;> rfl

/-- Entries of one class that share the first minor opcode all fix the second one, or none does. -/
theorem funct7_eq_none_of_funct3_eq {m n : Mnemonic}
    (hkind : m.kind = n.kind) (h3 : m.entry.funct3 = n.entry.funct3)
    (h7 : m.entry.funct7 = none) :
    n.entry.funct7 = none := by
  have htable : ∀ m ∈ all, ∀ n ∈ all, m.kind = n.kind → m.entry.funct3 = n.entry.funct3 →
      m.entry.funct7 = none → n.entry.funct7 = none := by
    decide +kernel
  exact htable m (mem_all m) n (mem_all n) hkind h3 h7

/-- The three classes without minor opcodes are looked up without them. -/
theorem select?_of_funct3_eq_none {m : Mnemonic} (h : m.entry.funct3 = none)
    (a b : Option Int) :
    select? m.kind a b = withKey? m.kind none none ∧ m.entry.funct7 = none := by
  cases m <;> simp_all [select?, kind, entry]

theorem select?_of_funct3_eq_some {m : Mnemonic} {f : Int} (h : m.entry.funct3 = some f)
    (a b : Option Int) :
    select? m.kind a b = (withKey? m.kind a b).or (withKey? m.kind a none) := by
  cases m <;> simp_all [select?, kind, entry]

/-- The look-up misses no entry: the minor opcodes of a mnemonic lead to that mnemonic. -/
theorem select?_complete (m : Mnemonic) {a b : Int}
    (h3 : ∀ f, m.entry.funct3 = some f → a = f)
    (h7 : ∀ f, m.entry.funct7 = some f → b = f) :
    select? m.kind (some a) (some b) = some m := by
  have hself := withKey?_entry m
  cases hf3 : m.entry.funct3 with
  | none =>
      obtain ⟨hselect, hf7⟩ := select?_of_funct3_eq_none hf3 (some a) (some b)
      rw [hf3, hf7] at hself
      rw [hselect, hself]
  | some f =>
      obtain rfl := h3 f hf3
      rw [select?_of_funct3_eq_some hf3]
      cases hf7 : m.entry.funct7 with
      | some g =>
          obtain rfl := h7 g hf7
          rw [hf3, hf7] at hself
          rw [hself, Option.some_or]
      | none =>
          -- The first look-up fails, since no entry beside this one fixes the second opcode.
          have hnone : withKey? m.kind (some a) (some b) = none := by
            cases hn : withKey? m.kind (some a) (some b) with
            | none => rfl
            | some n =>
                obtain ⟨hkind, hn3, hn7⟩ := withKey?_eq_some hn
                have hn7' := funct7_eq_none_of_funct3_eq hkind.symm (hf3.trans hn3.symm) hf7
                rw [hn7] at hn7'
                exact absurd hn7' (Option.some_ne_none b)
          rw [hf3, hf7] at hself
          rw [hnone, hself, Option.none_or]

end Mnemonic

theorem Kind.opcode_of_ofOpcode?_eq_some {n : Int} {k : Kind} (h : Kind.ofOpcode? n = some k) :
    k.opcode = n := by
  simpa using List.find?_some h

namespace Instruction

/-- A word decodes to the instruction whose mnemonic selects its 32 bits, and to no other. -/
theorem decode_eq_ok_iff {x : Int} {i : Instruction} :
    decode x = .ok i ↔ i.word = Word.unsigned x ∧ i.mnemonic.Selects (Word.unsigned x) := by
  constructor
  · intro h
    unfold decode at h
    simp only at h
    split at h
    · cases h
    · next k hk =>
        split at h
        · cases h
        · next m hm =>
            obtain rfl := Except.ok.inj h
            obtain ⟨hkind, h3, h7⟩ := Mnemonic.select?_sound hm
            have hop := Kind.opcode_of_ofOpcode?_eq_some hk
            exact ⟨rfl, ⟨by rw [← hop, hkind], h3, h7⟩⟩
  · rintro ⟨hword, hop, h3, h7⟩
    have hselect := Mnemonic.select?_complete i.mnemonic h3 h7
    unfold decode
    simp only [hop, Kind.ofOpcode?_opcode, hselect]
    rw [← hword]

/-- A word of 32 bits that a mnemonic selects decodes to that mnemonic. -/
theorem decode_eq_ok_of_selects {w : Int} {m : Mnemonic}
    (hw : 0 ≤ w ∧ w < 4294967296) (hm : m.Selects w) :
    decode w = .ok ⟨w, m⟩ := by
  have hunsigned : Word.unsigned w = w := by
    unfold Word.unsigned
    omega
  rw [decode_eq_ok_iff, hunsigned]
  exact ⟨rfl, hm⟩

/-- A refusal to decode shows the 32 bits of the word. -/
theorem report_of_decode_eq_error {x : Int} {f : Fault} (h : decode x = .error f) :
    f.report.failure = .instruction ∧ f.report.subject = some (.integer (Word.unsigned x)) := by
  simp only [decode] at h
  split at h
  · obtain rfl := Except.error.inj h
    exact ⟨rfl, rfl⟩
  · split at h
    · obtain rfl := Except.error.inj h
      exact ⟨rfl, rfl⟩
    · cases h

end Instruction

end Rv32
