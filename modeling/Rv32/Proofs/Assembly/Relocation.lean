import Mathlib
import Rv32.Assembly.Program
import Rv32.Proofs.Assembly.Operands

/-!
# Moved statements

A source that stands behind another one has its statements at higher addresses and on later lines.
Moving adds to every address and to every line, and touches nothing else.  `Carries` compares the
symbols before and after: each label is known as before, at an address that moved along.  A label
counts only through its distance from a statement, so a statement that is moved together with the
labels it uses keeps its word, and the remarks on it move with it.
-/

namespace Rv32.Assembly

/-! ## Moving -/

/-- A remark on a statement that is moved. -/
def Remark.moved (k : Nat) : Remark → Remark
  | .bound label address => .bound label (address + k)
  | .resolved label address offset => .resolved label (address + k) offset
  | r => r

/-- A symbol that is moved, with its definition and its uses. -/
def Symbol.moved (k l : Nat) (s : Symbol) : Symbol :=
  { s with address := s.address + k, line := s.line + l, uses := s.uses.map (· + l) }

/-- A statement that is moved. -/
def Statement.moved (k l : Nat) (s : Statement) : Statement :=
  { s with
    number := s.number + l
    address := s.address + k
    remarks := s.remarks.map (Remark.moved k) }

/-- A check of the operands of a statement that is moved. -/
def Checked.moved {α : Type} (k : Nat) (c : Checked α) : Checked α :=
  { c with remarks := c.remarks.map (Remark.moved k) }

/-- A moved statement with its word. -/
def Encoded.moved (k l : Nat) (e : Encoded) : Encoded :=
  ⟨e.statement.moved k l, e.word, e.remarks.map (Remark.moved k)⟩

section Remark

variable (k : Nat)

@[simp] theorem Remark.problem?_moved (r : Remark) : (r.moved k).problem? = r.problem? := by
  cases r <;> rfl

@[simp] theorem Remark.excess?_moved (r : Remark) : (r.moved k).excess? = r.excess? := by
  cases r <;> rfl

@[simp] theorem Remark.resolved?_moved (r : Remark) : (r.moved k).resolved? = r.resolved? := by
  cases r <;> rfl

theorem Remark.harmless_moved {r : Remark} : (r.moved k).Harmless ↔ r.Harmless := by
  rw [Harmless, problem?_moved, excess?_moved, Harmless]

@[simp] theorem Remark.moved_zero : Remark.moved 0 = id := by
  funext r
  cases r <;> rfl

end Remark

@[simp] theorem Statement.operation_moved (k l : Nat) (s : Statement) :
    (s.moved k l).operation = s.operation := rfl

@[simp] theorem Statement.problems_moved (k l : Nat) (s : Statement) :
    (s.moved k l).problems = s.problems := by
  simp [Statement.problems, Statement.moved, List.filterMap_map]

@[simp] theorem Encoded.emitted_moved (k l : Nat) (e : Encoded) :
    (e.moved k l).emitted = e.emitted := rfl

@[simp] theorem Statement.moved_zero : Statement.moved 0 0 = id := by
  funext s
  simp [Statement.moved]

@[simp] theorem Encoded.moved_zero : Encoded.moved 0 0 = id := by
  funext e
  simp [Encoded.moved]

namespace Checked

variable {α β : Type} (k : Nat)

theorem moved_seq (f : Checked (α → β)) (x : Checked α) :
    (f <*> x).moved k = f.moved k <*> x.moved k := by
  change (⟨_, (f.remarks ++ x.remarks).map _⟩ : Checked β) = ⟨_, _⟩
  rw [List.map_append]
  rfl

end Checked

/-! ## Moving a statement with its labels -/

/-- Every label of the first symbols is known to the second ones, `k` bytes further on. -/
def Carries (k : Nat) (symbols symbols' : List Symbol) : Prop :=
  ∀ ⦃label s⦄, findSymbol? symbols label = some s →
    ∃ s', findSymbol? symbols' label = some s' ∧ s'.address = s.address + k

/-- What is accepted before a move is the same after it. -/
theorem Checked.congruence_moved (k : Nat) :
    Checked.Congruence (fun _ => True) fun {_} x y => x.Clean → y = x.moved k where
  pure a := fun _ => rfl
  fail p := fun _ => rfl
  stop _ := fun _ => rfl
  map f hx := by
    intro hc
    rw [hx hc]
    rfl
  seq hf hx := by
    intro hc
    obtain ⟨hcf, hcx⟩ := clean_seq.mp hc
    rw [hf hcf, hx hcx, moved_seq]

section Carries

variable {k : Nat} {symbols symbols' : List Symbol} (h : Carries k symbols symbols')

include h

theorem checkTarget_moved {address : Nat} (format : ImmediateFormat) (operand : List Char)
    (hclean : (checkTarget format symbols address operand).Clean) :
    checkTarget format symbols' (address + k) operand =
      (checkTarget format symbols address operand).moved k := by
  have hoffset (x : Int) :=
    (Checked.congruence_moved k).checkOffset format (x := x) fun _ => trivial
  unfold checkTarget at hclean ⊢
  cases hread : readLiteral operand with
  | error e => rfl
  | ok value =>
      simp only [hread] at hclean
      cases value with
      | some x => exact hoffset x hclean
      | none =>
          simp only at hclean ⊢
          split
          · rfl
          · next hname =>
              rw [if_neg hname] at hclean
              cases hfind : findSymbol? symbols operand with
              | none =>
                  simp only [hfind] at hclean
                  exact absurd hclean (Checked.not_clean_fail _)
              | some s =>
                  obtain ⟨s', hs', haddress⟩ := h hfind
                  -- The distance is the same before and after.
                  have hdistance : ((s.address + k : Nat) : Int) - (address + k : Nat) =
                      s.address - address := by
                    omega
                  simp only [hfind] at hclean
                  simp only [hs', haddress, hdistance]
                  have hrest := hoffset _ fun r hr => hclean r (List.mem_cons_of_mem _ hr)
                  exact congrArg (Checked.noting _) hrest

theorem encode_moved {address : Nat} {m : Mnemonic} {operands : List (List Char)}
    (hclean : (encode symbols address m operands).Clean) :
    encode symbols' (address + k) m operands = (encode symbols address m operands).moved k :=
  (Checked.congruence_moved k).encode symbols' (address + k) (fun _ _ _ _ => trivial)
    (fun o _ format => checkTarget_moved h format o) m hclean

/-- A statement whose operands are in order keeps its word where it is moved with its labels. -/
theorem encodeStatement_moved {s : Statement} (l : Nat)
    (hclean : ∀ r ∈ (encodeStatement symbols s).remarks, r.Harmless) :
    encodeStatement symbols' (s.moved k l) = (encodeStatement symbols s).moved k l := by
  cases hop : s.operation with
  | none => simp [encodeStatement, Statement.moved, Encoded.moved, hop]
  | unknown name => simp [encodeStatement, Statement.moved, Encoded.moved, hop]
  | known m =>
      simp only [encodeStatement, hop] at hclean
      have hmoved := encode_moved h hclean
      simp only [encodeStatement, Statement.moved, Encoded.moved, hop, hmoved]
      rfl

end Carries

end Rv32.Assembly
