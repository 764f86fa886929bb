import Mathlib
import Rv32.Assembly.Encoding

/-!
# Checks that succeed

A check yields a value or remarks what is wrong.  `Checked.Accepts` says that it yields a given
value and remarks nothing wrong, `Checked.Honest` that it never lacks a value in silence.  Every
check of an operand is honest, and for each there is one statement that says exactly which operands
it accepts; later arguments cite these and do not open the checks.
-/

namespace Rv32.Assembly

/-- A remark that does not speak of a problem or of an excess of digits. -/
def Remark.Harmless (r : Remark) : Prop := r.problem? = none ∧ r.excess? = none

namespace Checked

variable {α β : Type}

/-- Nothing wrong was remarked. -/
def Clean (c : Checked α) : Prop := ∀ r ∈ c.remarks, r.Harmless

/-- The value was found and nothing wrong was remarked. -/
def Accepts (c : Checked α) (a : α) : Prop := c.value = some a ∧ c.Clean

/-- A value is missing only where something wrong was remarked. -/
def Honest (c : Checked α) : Prop := c.Clean → ∃ a, c.value = some a

theorem Honest.exists_accepts {c : Checked α} (h : c.Honest) (hc : c.Clean) :
    ∃ a, c.Accepts a := by
  obtain ⟨a, ha⟩ := h hc
  exact ⟨a, ha, hc⟩

/-! ## Combining checks -/

theorem clean_pure (a : α) : (pure a : Checked α).Clean := by
  intro r hr
  simp at hr

theorem clean_seq {f : Checked (α → β)} {x : Checked α} :
    (f <*> x).Clean ↔ f.Clean ∧ x.Clean := by
  simp only [Clean, remarks_seq, List.mem_append]
  constructor
  · intro h
    exact ⟨fun r hr => h r (Or.inl hr), fun r hr => h r (Or.inr hr)⟩
  · rintro ⟨hf, hx⟩ r (hr | hr)
    · exact hf r hr
    · exact hx r hr

theorem not_clean_fail (p : Problem) : ¬ (fail p : Checked α).Clean := by
  intro h
  have hp := (h (.problem p) (by simp [fail])).1
  simp [Remark.problem?] at hp

theorem not_clean_stop (e : Text.Excess) : ¬ (stop e : Checked α).Clean := by
  intro h
  have he := (h (.stopped e) (by simp [stop])).2
  simp [Remark.excess?] at he

theorem not_clean_failShowing (x : Int) (p : Problem) :
    ¬ (failShowing x p : Checked α).Clean := by
  unfold failShowing
  split
  · exact not_clean_stop _
  · exact not_clean_fail p

theorem accepts_pure {a b : α} : (pure a : Checked α).Accepts b ↔ b = a := by
  simp only [Accepts, value_pure, Option.some.injEq, clean_pure, and_true]
  exact eq_comm

theorem accepts_map {f : α → β} {x : Checked α} {b : β} :
    (f <$> x).Accepts b ↔ ∃ a, x.Accepts a ∧ b = f a := by
  simp only [Accepts, Clean, value_map, remarks_map, Option.map_eq_some_iff]
  constructor
  · rintro ⟨⟨a, ha, hb⟩, hc⟩
    exact ⟨a, ⟨ha, hc⟩, hb.symm⟩
  · rintro ⟨a, ⟨ha, hc⟩, hb⟩
    exact ⟨⟨a, ha, hb.symm⟩, hc⟩

theorem accepts_seq {f : Checked (α → β)} {x : Checked α} {b : β} :
    (f <*> x).Accepts b ↔ ∃ g a, f.Accepts g ∧ x.Accepts a ∧ b = g a := by
  simp only [Accepts, value_seq, clean_seq, Option.bind_eq_some_iff, Option.map_eq_some_iff]
  constructor
  · rintro ⟨⟨g, hg, a, ha, hb⟩, hcf, hcx⟩
    exact ⟨g, a, ⟨hg, hcf⟩, ⟨ha, hcx⟩, hb.symm⟩
  · rintro ⟨g, a, ⟨hg, hcf⟩, ⟨ha, hcx⟩, hb⟩
    exact ⟨⟨g, hg, a, ha, hb.symm⟩, hcf, hcx⟩

theorem Accepts.map {f : α → β} {x : Checked α} {a : α} {b : β} (hx : x.Accepts a)
    (hb : f a = b) : (f <$> x).Accepts b :=
  accepts_map.mpr ⟨a, hx, hb.symm⟩

theorem Accepts.seq {f : Checked (α → β)} {x : Checked α} {g : α → β} {a : α} {b : β}
    (hf : f.Accepts g) (hx : x.Accepts a) (hb : g a = b) : (f <*> x).Accepts b :=
  accepts_seq.mpr ⟨g, a, hf, hx, hb.symm⟩

theorem not_accepts_fail {p : Problem} {a : α} : ¬ (fail p).Accepts a :=
  fun h => not_clean_fail p h.2

theorem not_accepts_stop {e : Text.Excess} {a : α} : ¬ (stop e).Accepts a :=
  fun h => not_clean_stop e h.2

theorem not_accepts_failShowing {x : Int} {p : Problem} {a : α} :
    ¬ (failShowing x p).Accepts a :=
  fun h => not_clean_failShowing x p h.2

theorem accepts_noting {r : Remark} {c : Checked α} {a : α} (hr : r.Harmless) :
    (noting r c).Accepts a ↔ c.Accepts a := by
  simp only [Accepts, Clean, noting, List.mem_cons, forall_eq_or_imp, hr, true_and]

end Checked

/-! ## Registers and numbers -/

theorem accepts_checkRegister {operand : List Char} {r : Register} :
    (checkRegister operand).Accepts r ↔ Register.ofName? operand = some r := by
  unfold checkRegister
  split
  · next s hs =>
      rw [Checked.accepts_pure, hs, Option.some.injEq]
      exact eq_comm
  · next hnone => simp [hnone, Checked.not_accepts_fail]

theorem accepts_checkNumber {what : Quantity} {operand : List Char} {x : Int} :
    (checkNumber what operand).Accepts x ↔
      readLiteral operand = .ok (some x) ∧ what.least ≤ x ∧ x ≤ what.greatest := by
  unfold checkNumber
  split
  · next e he => simp [he, Checked.not_accepts_stop]
  · next hnone => simp [hnone, Checked.not_accepts_fail]
  · next y hy =>
      rw [hy, Except.ok.injEq, Option.some.injEq]
      split
      · next hout =>
          simp only [Bool.or_eq_true, decide_eq_true_eq] at hout
          simp only [Checked.not_accepts_failShowing, false_iff]
          rintro ⟨rfl, hrange⟩
          omega
      · next hin =>
          simp only [Bool.or_eq_true, decide_eq_true_eq] at hin
          rw [Checked.accepts_pure]
          constructor
          · rintro rfl
            omega
          · rintro ⟨rfl, -⟩
            rfl

/-! ## Memory operands and targets -/

/-- What is read as the offset of a memory operand: zero where none is written. -/
def offsetText (offset : List Char) : List Char := if offset.isEmpty then ['0'] else offset

theorem accepts_checkMemory {operand : List Char} {x : Int} {r : Register} :
    (checkMemory operand).Accepts (x, r) ↔
      ∃ offset name, memoryParts? operand = some (offset, name) ∧
        (checkNumber .offset (offsetText offset)).Accepts x ∧ (checkRegister name).Accepts r := by
  unfold checkMemory
  split
  · next hnone => simp [hnone, Checked.not_accepts_fail]
  · next offset name hparts =>
      simp only [Checked.accepts_seq, Checked.accepts_map, hparts, Option.some.injEq,
        Prod.mk.injEq]
      constructor
      · rintro ⟨_, s, ⟨y, hy, rfl⟩, hs, hxr⟩
        obtain ⟨rfl, rfl⟩ := Prod.mk.inj hxr
        exact ⟨offset, name, ⟨rfl, rfl⟩, hy, hs⟩
      · rintro ⟨_, _, ⟨rfl, rfl⟩, hx, hr⟩
        exact ⟨_, r, ⟨x, hx, rfl⟩, hr, rfl⟩

theorem accepts_checkOffset {format : ImmediateFormat} {x y : Int} :
    (checkOffset format x).Accepts y ↔ y = x ∧ x % 2 = 0 ∧ format.fits x = true := by
  unfold checkOffset
  split
  · next hodd =>
      simp only [Checked.not_accepts_failShowing, false_iff]
      rintro ⟨-, heven, -⟩
      exact hodd heven
  · next heven =>
      have heven' : x % 2 = 0 := not_not.mp heven
      split
      · next hfits => simp [Checked.accepts_pure, heven', hfits]
      · next hfar => simp [Checked.not_accepts_failShowing, hfar]

/-- An operand means an offset: it is a number, or a label at that distance. -/
def OffsetMeant (symbols : List Symbol) (address : Nat) (operand : List Char) (x : Int) : Prop :=
  readLiteral operand = .ok (some x) ∨
    readLiteral operand = .ok none ∧ isName operand = true ∧
      ∃ s, findSymbol? symbols operand = some s ∧ x = (s.address : Int) - address

theorem accepts_checkTarget {format : ImmediateFormat} {symbols : List Symbol} {address : Nat}
    {operand : List Char} {x : Int} :
    (checkTarget format symbols address operand).Accepts x ↔
      OffsetMeant symbols address operand x ∧ x % 2 = 0 ∧ format.fits x = true := by
  unfold checkTarget OffsetMeant
  split
  · next e he => simp [he, Checked.not_accepts_stop]
  · next y hy =>
      simp only [hy, accepts_checkOffset, Except.ok.injEq, Option.some.injEq, reduceCtorEq,
        false_and, or_false]
      constructor
      · rintro ⟨rfl, heven, hfits⟩
        exact ⟨rfl, heven, hfits⟩
      · rintro ⟨rfl, heven, hfits⟩
        exact ⟨rfl, heven, hfits⟩
  · next hnone =>
      simp only [hnone, Except.ok.injEq, reduceCtorEq, false_or, true_and]
      split
      · next hname => simp_all [Checked.not_accepts_fail]
      · next hname =>
          have hname' : isName operand = true := by simpa using hname
          split
          · next hfind => simp [hfind, Checked.not_accepts_fail]
          · next s hs =>
              rw [Checked.accepts_noting ⟨rfl, rfl⟩, accepts_checkOffset]
              simp only [hs, hname', true_and, Option.some.injEq, exists_eq_left']
              constructor
              · rintro ⟨rfl, heven, hfits⟩
                exact ⟨rfl, heven, hfits⟩
              · rintro ⟨rfl, heven, hfits⟩
                exact ⟨rfl, heven, hfits⟩

/-! ## Words -/

theorem accepts_encode_iff {symbols : List Symbol} {address : Nat} {m : Mnemonic}
    {operands : List (List Char)} {w : Int} :
    (encode symbols address m operands).Accepts w ↔
      operands.length ∈ operandCounts m.kind ∧ [] ∉ operands ∧
        (encodeOperands symbols address m operands).Accepts w := by
  unfold encode
  split
  · next hcount =>
      have hcount' : operands.length ∉ operandCounts m.kind := by
        simpa using hcount
      simp [hcount', Checked.not_accepts_fail]
  · next hcount =>
      have hcount' : operands.length ∈ operandCounts m.kind := by
        simpa using hcount
      split
      · next hempty =>
          have hempty' : [] ∈ operands := by
            simpa using hempty
          simp [hempty', Checked.not_accepts_fail]
      · next hempty =>
          have hempty' : [] ∉ operands := by
            simpa using hempty
          simp [hcount', hempty']

/-! ## Numbers with too many digits -/

/-- What stops the assembler where a text is read as a number: it has too many digits, or its value
has too many to be shown. -/
inductive Overruns (text : List Char) : Text.Excess → Prop where
  | read {x : Int} (hvalue : literal? text = some x)
      (hmany : Text.digitLimit < (decimalDigits text).length) :
      Overruns text (.read (decimalDigits text).length)
  | shown {x : Int} (hread : readLiteral text = .ok (some x))
      (hmany : Text.exceedsLimit x = true) : Overruns text .shown

/-- What stops the assembler at an operand: it is a number, or has an offset, with too many digits,
or it is a label whose distance has too many. -/
inductive Exceeds (symbols : List Symbol) (address : Nat) (operand : List Char) :
    Text.Excess → Prop where
  | number {e : Text.Excess} (h : Overruns operand e) : Exceeds symbols address operand e
  | offset {e : Text.Excess} {offset name : List Char}
      (hparts : memoryParts? operand = some (offset, name)) (h : Overruns (offsetText offset) e) :
      Exceeds symbols address operand e
  | distance {s : Symbol} (hs : findSymbol? symbols operand = some s)
      (hmany : Text.exceedsLimit ((s.address : Int) - address) = true) :
      Exceeds symbols address operand .shown

theorem overruns_of_readLiteral {text : List Char} {e : Text.Excess}
    (h : readLiteral text = .error e) : Overruns text e := by
  unfold readLiteral at h
  split at h
  · cases h
  · next x hvalue =>
      simp only at h
      split at h
      · next hmany =>
          obtain rfl := Except.error.inj h
          exact .read hvalue hmany
      · cases h

/-! ## All checks

What a relation keeps through combining, it keeps through every check that does not read the
symbols; checks that do are related where the checks of targets are. -/

/-- A relation between checks that relates the simplest ones to themselves, those that stop at the
given excesses among them, and is kept where checks are combined. -/
structure Checked.Congruence (Stops : Text.Excess → Prop)
    (R : ∀ {α : Type}, Checked α → Checked α → Prop) : Prop where
  pure : ∀ {α : Type} (a : α), R (Pure.pure a) (Pure.pure a)
  fail : ∀ {α : Type} (p : Problem), R (Checked.fail p : Checked α) (Checked.fail p)
  stop : ∀ {α : Type} {e : Text.Excess}, Stops e →
    R (Checked.stop e : Checked α) (Checked.stop e)
  map : ∀ {α β : Type} {x y : Checked α} (f : α → β), R x y → R (f <$> x) (f <$> y)
  seq : ∀ {α β : Type} {f g : Checked (α → β)} {x y : Checked α},
    R f g → R x y → R (f <*> x) (g <*> y)

namespace Checked.Congruence

variable {Stops : Text.Excess → Prop} {R : ∀ {α : Type}, Checked α → Checked α → Prop}
  (h : Congruence Stops R)

include h

theorem failShowing {α : Type} {x : Int} (hstops : Text.exceedsLimit x = true → Stops .shown)
    (p : Problem) : R (Checked.failShowing x p : Checked α) (Checked.failShowing x p) := by
  unfold Checked.failShowing
  split
  · next hmany => exact h.stop (hstops hmany)
  · exact h.fail p

theorem checkRegister (operand : List Char) :
    R (Assembly.checkRegister operand) (Assembly.checkRegister operand) := by
  unfold Assembly.checkRegister
  split
  · exact h.pure _
  · exact h.fail _

theorem checkNumber (what : Quantity) {text : List Char}
    (hstops : ∀ e, Overruns text e → Stops e) :
    R (Assembly.checkNumber what text) (Assembly.checkNumber what text) := by
  unfold Assembly.checkNumber
  split
  · next e he => exact h.stop (hstops e (overruns_of_readLiteral he))
  · exact h.fail _
  · next x hx =>
      split
      · exact h.failShowing (fun hmany => hstops _ (.shown hx hmany)) _
      · exact h.pure _

theorem checkOffset (format : ImmediateFormat) {x : Int}
    (hstops : Text.exceedsLimit x = true → Stops .shown) :
    R (Assembly.checkOffset format x) (Assembly.checkOffset format x) := by
  unfold Assembly.checkOffset
  split
  · exact h.failShowing hstops _
  · split
    · exact h.pure _
    · exact h.failShowing hstops _

section Operand

variable {symbols : List Symbol} {address : Nat} {operand : List Char}
  (hstops : ∀ e, Exceeds symbols address operand e → Stops e)

include hstops

theorem checkMemory : R (Assembly.checkMemory operand) (Assembly.checkMemory operand) := by
  unfold Assembly.checkMemory
  split
  · exact h.fail _
  · next hparts =>
      have hoffset := h.checkNumber .offset fun e he => hstops e (.offset hparts he)
      exact h.seq (h.map _ hoffset) (h.checkRegister _)

theorem checkImmediate (m : Mnemonic) :
    R (Assembly.checkImmediate m operand) (Assembly.checkImmediate m operand) := by
  have hnumber (what : Quantity) := h.checkNumber what fun e he => hstops e (.number he)
  unfold Assembly.checkImmediate
  split
  · exact h.map _ (hnumber _)
  · exact hnumber _

end Operand

variable {symbols : List Symbol} (symbols' : List Symbol) {address : Nat} (address' : Nat)
  {operands : List (List Char)}
  (hstops : ∀ o ∈ operands, ∀ e, Exceeds symbols address o e → Stops e)
  (htarget : ∀ o ∈ operands, ∀ format,
    R (checkTarget format symbols address o) (checkTarget format symbols' address' o))

include hstops htarget

theorem encodeOperands (m : Mnemonic) :
    R (Assembly.encodeOperands symbols address m operands)
      (Assembly.encodeOperands symbols' address' m operands) := by
  have hreg := h.checkRegister
  have himm {o : List Char} (ho : o ∈ operands) := h.checkImmediate (hstops o ho) m
  have hmem {o : List Char} (ho : o ∈ operands) := h.checkMemory (hstops o ho)
  have hnum {o : List Char} (ho : o ∈ operands) (what : Quantity) :=
    h.checkNumber what fun e he => hstops o ho e (.number he)
  unfold Assembly.encodeOperands
  simp only
  split
  · exact h.seq (h.seq (h.map _ (hreg _)) (hreg _)) (hreg _)
  · exact h.seq (h.seq (h.map _ (hreg _)) (hreg _)) (himm (by simp))
  · exact h.seq (h.map _ (hreg _)) (hmem (by simp))
  · exact h.seq (h.map _ (hreg _)) (hmem (by simp))
  · exact h.seq (h.seq (h.map _ (hreg _)) (hreg _)) (htarget _ (by simp) _)
  · exact h.seq (h.map _ (hreg _)) (hnum (by simp) _)
  · exact h.seq (h.map _ (hreg _)) (hnum (by simp) _)
  · exact h.map _ (htarget _ (by simp) _)
  · exact h.seq (h.map _ (hreg _)) (htarget _ (by simp) _)
  · exact h.map _ (hreg _)
  · exact h.seq (h.map _ (hreg _)) (hmem (by simp))
  · exact h.seq (h.seq (h.map _ (hreg _)) (hreg _)) (hnum (by simp) _)
  · exact h.fail _

theorem encode (m : Mnemonic) :
    R (Assembly.encode symbols address m operands)
      (Assembly.encode symbols' address' m operands) := by
  unfold Assembly.encode
  split
  · exact h.fail _
  · split
    · exact h.fail _
    · exact h.encodeOperands symbols' address' hstops htarget m

end Checked.Congruence

/-! ## No word is missing in silence -/

theorem Checked.congruence_honest :
    Checked.Congruence (fun _ => True) fun {_} x _ => x.Honest where
  pure a := fun _ => ⟨a, rfl⟩
  fail p := fun h => absurd h (not_clean_fail p)
  stop _ := fun h => absurd h (not_clean_stop _)
  map {_ _ x _} f hx := by
    intro hc
    obtain ⟨a, ha⟩ := hx hc
    exact ⟨f a, by rw [value_map, ha, Option.map_some]⟩
  seq {_ _ f _ x _} hf hx := by
    intro hc
    obtain ⟨hcf, hcx⟩ := clean_seq.mp hc
    obtain ⟨g, hg⟩ := hf hcf
    obtain ⟨a, ha⟩ := hx hcx
    exact ⟨g a, by rw [value_seq, hg, ha, Option.bind_some, Option.map_some]⟩

theorem honest_checkTarget (format : ImmediateFormat) (symbols : List Symbol) (address : Nat)
    (operand : List Char) : (checkTarget format symbols address operand).Honest := by
  have h := Checked.congruence_honest
  unfold checkTarget
  split
  · exact h.stop trivial
  · exact h.checkOffset format fun _ => trivial
  · split
    · exact h.fail _
    · split
      · exact h.fail _
      · next s _ =>
          intro hc
          exact h.checkOffset format (fun _ => trivial) fun r hr =>
            hc r (List.mem_cons_of_mem _ hr)

theorem honest_encode (symbols : List Symbol) (address : Nat) (m : Mnemonic)
    (operands : List (List Char)) : (encode symbols address m operands).Honest :=
  Checked.congruence_honest.encode symbols address (fun _ _ _ _ => trivial)
    (fun o _ format => honest_checkTarget format symbols address o) m

/-! ## What is remarked on operands -/

/-- What is remarked on operands: a problem, what stops the assembler at one of them, or a label
among them with its distance. -/
inductive Remark.OnOperands (symbols : List Symbol) (address : Nat)
    (operands : List (List Char)) : Remark → Prop where
  | problem (p : Problem) : OnOperands symbols address operands (.problem p)
  | stopped {o : List Char} {e : Text.Excess} (ho : o ∈ operands)
      (he : Exceeds symbols address o e) : OnOperands symbols address operands (.stopped e)
  | resolved {label : List Char} {s : Symbol} (hlabel : label ∈ operands)
      (hs : findSymbol? symbols label = some s) :
      OnOperands symbols address operands
        (.resolved label s.address ((s.address : Int) - address))

section OnOperands

variable (symbols : List Symbol) (address : Nat) (operands : List (List Char))

theorem Checked.congruence_onOperands :
    Checked.Congruence (fun e => ∃ o ∈ operands, Exceeds symbols address o e)
      fun {_} x _ => ∀ r ∈ x.remarks, r.OnOperands symbols address operands where
  pure a := fun _ hr => absurd hr List.not_mem_nil
  fail p := by
    intro r hr
    obtain rfl := List.mem_singleton.mp hr
    exact .problem p
  stop he := by
    intro r hr
    obtain ⟨o, ho, he⟩ := he
    obtain rfl := List.mem_singleton.mp hr
    exact .stopped ho he
  map f hx := hx
  seq hf hx := by
    intro r hr
    rw [remarks_seq, List.mem_append] at hr
    exact hr.elim (hf r) (hx r)

theorem onOperands_checkTarget {o : List Char} (ho : o ∈ operands) (format : ImmediateFormat) :
    ∀ r ∈ (checkTarget format symbols address o).remarks,
      r.OnOperands symbols address operands := by
  have h := Checked.congruence_onOperands symbols address operands
  unfold checkTarget
  split
  · next e he => exact h.stop ⟨o, ho, .number (overruns_of_readLiteral he)⟩
  · next x hx => exact h.checkOffset format fun hmany => ⟨o, ho, .number (.shown hx hmany)⟩
  · split
    · exact h.fail _
    · split
      · exact h.fail _
      · next s hs =>
          intro r hr
          rcases List.mem_cons.mp hr with rfl | hr
          · exact .resolved ho hs
          · exact h.checkOffset format (fun hmany => ⟨o, ho, .distance hs hmany⟩) r hr

theorem onOperands_encode (m : Mnemonic) :
    ∀ r ∈ (encode symbols address m operands).remarks,
      r.OnOperands symbols address operands :=
  (Checked.congruence_onOperands symbols address operands).encode symbols address
    (fun o ho _ he => ⟨o, ho, he⟩)
    (fun _ ho format => onOperands_checkTarget symbols address operands ho format) m

end OnOperands

end Rv32.Assembly
