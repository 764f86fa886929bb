import Mathlib
import Rv32.Proofs.Assembly.Literals
import Rv32.Proofs.Assembly.Positions

/-!
# The language of operands

Which operands a mnemonic takes is said here without the checks: by the class of the mnemonic, in
terms of registers, integer literals, offsets in front of a register and targets, with the ranges of
the numbers.  The checks accept exactly these operands, and of all others they record what is wrong
and yield no word.

A number with too many digits is outside this alternative.  It stops the assembler wherever it is
read, whatever its value, and wherever it would have to be shown in a complaint.
-/

namespace Rv32.Assembly

/-! ## Checks as tests -/

namespace Checked

variable {α β : Type} {P Q : Prop}

/-- A check tests a property: nothing is found wrong only where it holds, and where it holds nothing
is found wrong, unless a number has too many digits. -/
structure Tests (c : Checked α) (P : Prop) : Prop where
  sound : c.Clean → P
  complete : P → c.Clean ∨ ∃ e, .stopped e ∈ c.remarks

theorem tests_pure (a : α) : (pure a : Checked α).Tests True :=
  ⟨fun _ => trivial, fun _ => Or.inl (clean_pure a)⟩

theorem tests_fail (p : Problem) : (fail p : Checked α).Tests False :=
  ⟨not_clean_fail p, False.elim⟩

theorem tests_stop (e : Text.Excess) (P : Prop) : (stop e : Checked α).Tests P :=
  ⟨fun h => absurd h (not_clean_stop e), fun _ => Or.inr ⟨e, List.mem_singleton_self _⟩⟩

theorem tests_failShowing (x : Int) (p : Problem) : (failShowing x p : Checked α).Tests False :=
  ⟨not_clean_failShowing x p, False.elim⟩

namespace Tests

variable {c : Checked α}

theorem iff (h : c.Tests P) (hPQ : P ↔ Q) : c.Tests Q :=
  ⟨fun hc => hPQ.mp (h.sound hc), fun hQ => h.complete (hPQ.mpr hQ)⟩

theorem map (h : c.Tests P) (f : α → β) : (f <$> c).Tests P := ⟨h.sound, h.complete⟩

/-- Checks one after the other test both properties. -/
theorem seq {f : Checked (α → β)} (hf : f.Tests P) (h : c.Tests Q) : (f <*> c).Tests (P ∧ Q) where
  sound hc := (clean_seq.mp hc).imp hf.sound h.sound
  complete := by
    rintro ⟨hP, hQ⟩
    rw [remarks_seq]
    rcases hf.complete hP with hcf | ⟨e, he⟩
    · rcases h.complete hQ with hcx | ⟨e, he⟩
      · exact Or.inl (clean_seq.mpr ⟨hcf, hcx⟩)
      · exact Or.inr ⟨e, List.mem_append_right _ he⟩
    · exact Or.inr ⟨e, List.mem_append_left _ he⟩

theorem noting (h : c.Tests P) {r : Remark} (hr : r.Harmless) : (noting r c).Tests P where
  sound hc := h.sound fun s hs => hc s (List.mem_cons_of_mem r hs)
  complete hP := by
    rcases h.complete hP with hc | ⟨e, he⟩
    · refine Or.inl fun s hs => ?_
      rcases List.mem_cons.mp hs with rfl | hs
      · exact hr
      · exact hc s hs
    · exact Or.inr ⟨e, List.mem_cons_of_mem r he⟩

end Tests

/-- A check yields a value only where it found nothing wrong. -/
def Strict (c : Checked α) : Prop := ∀ a, c.value = some a → c.Clean

theorem congruence_strict : Congruence (fun _ => True) fun {_} x _ => x.Strict where
  pure a := fun _ _ => clean_pure a
  fail p := fun _ h => nomatch h
  stop _ := fun _ h => nomatch h
  map {_ _ x _} f hx := by
    intro b hb
    rw [value_map, Option.map_eq_some_iff] at hb
    obtain ⟨a, ha, -⟩ := hb
    exact hx a ha
  seq {_ _ f _ x _} hf hx := by
    intro b hb
    rw [value_seq, Option.bind_eq_some_iff] at hb
    obtain ⟨g, hg, hb⟩ := hb
    obtain ⟨a, ha, -⟩ := Option.map_eq_some_iff.mp hb
    exact clean_seq.mpr ⟨hf g hg, hx a ha⟩

end Checked

theorem strict_checkTarget (format : ImmediateFormat) (symbols : List Symbol) (address : Nat)
    (operand : List Char) : (checkTarget format symbols address operand).Strict := by
  have h := Checked.congruence_strict
  unfold checkTarget
  split
  · exact h.stop trivial
  · exact h.checkOffset format fun _ => trivial
  · split
    · exact h.fail _
    · split
      · exact h.fail _
      · next s _ =>
          intro x hx r hr
          rcases List.mem_cons.mp hr with rfl | hr
          · exact ⟨rfl, rfl⟩
          · exact h.checkOffset format (fun _ => trivial) x hx r hr

theorem strict_encode (symbols : List Symbol) (address : Nat) (m : Mnemonic)
    (operands : List (List Char)) : (encode symbols address m operands).Strict :=
  Checked.congruence_strict.encode symbols address (fun _ _ _ _ => trivial)
    (fun o _ format => strict_checkTarget format symbols address o) m

/-! ## The language -/

/-- A name of a register. -/
def IsRegister (operand : List Char) : Prop := ∃ r, Register.ofName? operand = some r

/-- An integer literal between two bounds. -/
def IsNumber (least greatest : Int) (operand : List Char) : Prop :=
  ∃ x, literal? operand = some x ∧ least ≤ x ∧ x ≤ greatest

/-- A register in parentheses, with an offset in front of it or without one. -/
def IsMemory (operand : List Char) : Prop :=
  ∃ offset name, operand = offset ++ '(' :: (name ++ [')']) ∧
    (offset = [] ∨ IsNumber (-2048) 2047 offset) ∧ IsRegister name

/-- An even offset, or a label at an offset, from `-reach` to `reach - 2`. -/
def IsTarget (symbols : List Symbol) (address : Nat) (reach : Int) (operand : List Char) : Prop :=
  (∃ x, literal? operand = some x ∧ x % 2 = 0 ∧ -reach ≤ x ∧ x ≤ reach - 2) ∨
    ∃ s ∈ symbols, s.name = operand ∧
      -reach ≤ (s.address : Int) - address ∧ (s.address : Int) - address ≤ reach - 2

/-- The operands that a mnemonic takes in a statement at an address. -/
def InLanguage (symbols : List Symbol) (address : Nat) (m : Mnemonic)
    (operands : List (List Char)) : Prop :=
  match m.kind, operands with
  | .register, [a, b, c] => IsRegister a ∧ IsRegister b ∧ IsRegister c
  | .immediate, [a, b, c] =>
    IsRegister a ∧ IsRegister b ∧
      if m.isShift then IsNumber 0 31 c else IsNumber (-2048) 2047 c
  | .load, [a, b] => IsRegister a ∧ IsMemory b
  | .store, [a, b] => IsRegister a ∧ IsMemory b
  | .branch, [a, b, c] => IsRegister a ∧ IsRegister b ∧ IsTarget symbols address 4096 c
  | .lui, [a, b] => IsRegister a ∧ IsNumber (-524288) 1048575 b
  | .auipc, [a, b] => IsRegister a ∧ IsNumber (-524288) 1048575 b
  | .jal, [a] => IsTarget symbols address 1048576 a
  | .jal, [a, b] => IsRegister a ∧ IsTarget symbols address 1048576 b
  | .jalr, [a] => IsRegister a
  | .jalr, [a, b] => IsRegister a ∧ IsMemory b
  | .jalr, [a, b, c] => IsRegister a ∧ IsRegister b ∧ IsNumber (-2048) 2047 c
  | _, _ => False

/-! ## Registers and numbers -/

theorem tests_checkRegister (operand : List Char) :
    (checkRegister operand).Tests (IsRegister operand) := by
  unfold checkRegister
  split
  · next r hr => exact (Checked.tests_pure r).iff (iff_of_true trivial ⟨r, hr⟩)
  · next hnone =>
      refine (Checked.tests_fail _).iff (iff_of_false id ?_)
      rintro ⟨r, hr⟩
      rw [hnone] at hr
      cases hr

theorem tests_checkNumber (what : Quantity) (operand : List Char) :
    (checkNumber what operand).Tests (IsNumber what.least what.greatest operand) := by
  unfold checkNumber
  split
  · exact Checked.tests_stop _ _
  · next hnone =>
      refine (Checked.tests_fail _).iff (iff_of_false id ?_)
      rintro ⟨x, hx, -⟩
      rw [literal?_of_readLiteral hnone] at hx
      cases hx
  · next y hy =>
      have hvalue := literal?_of_readLiteral hy
      have hiff : IsNumber what.least what.greatest operand ↔
          what.least ≤ y ∧ y ≤ what.greatest := by
        simp [IsNumber, hvalue]
      split
      · next hout =>
          rw [Bool.or_eq_true, decide_eq_true_eq, decide_eq_true_eq] at hout
          refine (Checked.tests_failShowing _ _).iff (iff_of_false id ?_)
          rw [hiff]
          omega
      · next hin =>
          rw [Bool.or_eq_true, decide_eq_true_eq, decide_eq_true_eq] at hin
          refine (Checked.tests_pure y).iff (iff_of_true trivial ?_)
          rw [hiff]
          omega

theorem tests_checkImmediate (m : Mnemonic) (operand : List Char) :
    (checkImmediate m operand).Tests
      (if m.isShift then IsNumber 0 31 operand else IsNumber (-2048) 2047 operand) := by
  unfold checkImmediate
  split
  · exact (tests_checkNumber .shiftAmount operand).map _
  · exact tests_checkNumber .immediate operand

/-! ## Registers in parentheses -/

theorem mem_trim {c : Char} {cs : List Char} (hc : c ∈ cs) (hblank : Text.isBlank c = false) :
    c ∈ Text.trim cs := by
  have hdrop {ds : List Char} (hd : c ∈ ds) : c ∈ ds.dropWhile Text.isBlank := by
    rw [← List.takeWhile_append_dropWhile (p := Text.isBlank) (l := ds), List.mem_append] at hd
    refine hd.resolve_left fun h => ?_
    rw [List.mem_takeWhile_imp h] at hblank
    cases hblank
  have hstart := hdrop hc
  exact List.mem_reverse.mpr (hdrop (List.mem_reverse.mpr hstart))

/-- The characters between which the name of a register may stand. -/
def isInner (c : Char) : Bool := c != '(' && c != ')'

/-- No register has a parenthesis in its name. -/
theorem IsRegister.isInner {name : List Char} (h : IsRegister name) {c : Char} (hc : c ∈ name) :
    isInner c = true := by
  obtain ⟨r, hr⟩ := h
  have hnames : ∀ r : Register, ∀ n ∈ r.names, '(' ∉ n.toList ∧ ')' ∉ n.toList := by
    decide +kernel
  have hfound := List.find?_some hr
  obtain ⟨n, hn, hkey⟩ := List.any_eq_true.mp hfound
  -- A parenthesis is neither trimmed nor changed by a change of case.
  have hkept {d : Char} (hd : d ∈ name) (hblank : Text.isBlank d = false) :
      d.toLower ∈ n.toList := by
    rw [eq_of_beq hkey]
    exact List.mem_map_of_mem (mem_trim hd hblank)
  rw [Assembly.isInner, Bool.and_eq_true, bne_iff_ne, bne_iff_ne]
  constructor
  · rintro rfl
    exact (hnames r n hn).1 (hkept hc (by decide))
  · rintro rfl
    exact (hnames r n hn).2 (hkept hc (by decide))

theorem IsRegister.ne_nil {name : List Char} (h : IsRegister name) : name ≠ [] := by
  rintro rfl
  obtain ⟨r, hr⟩ := h
  have hnone : Register.ofName? [] = none := by
    decide +kernel
  rw [hnone] at hr
  cases hr

/-- What an operand is cut into are its parts. -/
theorem eq_of_memoryParts? {operand offset name : List Char}
    (h : memoryParts? operand = some (offset, name)) :
    operand = offset ++ '(' :: (name ++ [')']) := by
  unfold memoryParts? at h
  split at h
  · next rest hrest =>
      simp only at h
      split at h
      · next back hback =>
          split at h
          · cases h
          · obtain ⟨rfl, rfl⟩ := Prod.mk.inj (Option.some.inj h)
            have hsplit := List.takeWhile_append_dropWhile (p := isInner) (l := rest)
            change _ ++ rest.dropWhile (fun c => c != '(' && c != ')') = rest at hsplit
            rw [hback] at hsplit
            calc operand
              _ = (')' :: rest).reverse := by rw [← hrest, List.reverse_reverse]
              _ = (')' :: (rest.takeWhile isInner ++ '(' :: back)).reverse := by rw [hsplit]
              _ = back.reverse ++ '(' :: ((rest.takeWhile isInner).reverse ++ [')']) := by simp
      · cases h
  · cases h

/-- An operand with a register in parentheses is cut in front of them. -/
theorem memoryParts?_append {offset name : List Char} (hname : IsRegister name) :
    memoryParts? (offset ++ '(' :: (name ++ [')'])) = some (offset, name) := by
  have hinner : ∀ c ∈ name.reverse, (fun c => c != '(' && c != ')') c = true := fun c hc =>
    hname.isInner (List.mem_reverse.mp hc)
  have hreverse : (offset ++ '(' :: (name ++ [')'])).reverse =
      ')' :: (name.reverse ++ '(' :: offset.reverse) := by
    simp
  simp only [memoryParts?, hreverse]
  rw [List.dropWhile_append_of_pos hinner, List.takeWhile_append_of_pos hinner]
  simp [hname.ne_nil]

theorem isNumber_offsetText {offset : List Char} :
    IsNumber (-2048) 2047 (offsetText offset) ↔
      offset = [] ∨ IsNumber (-2048) 2047 offset := by
  by_cases hnil : offset = []
  · subst hnil
    have hzero : literal? ['0'] = some 0 := by
      decide +kernel
    exact iff_of_true ⟨0, hzero, by decide, by decide⟩ (Or.inl rfl)
  · have htext : offsetText offset = offset := by
      simp [offsetText, hnil]
    rw [htext]
    exact (or_iff_right hnil).symm

theorem tests_checkMemory (operand : List Char) :
    (checkMemory operand).Tests (IsMemory operand) := by
  unfold checkMemory
  split
  · next hnone =>
      refine (Checked.tests_fail _).iff (iff_of_false id ?_)
      rintro ⟨offset, name, rfl, -, hname⟩
      rw [memoryParts?_append hname] at hnone
      cases hnone
  · next offset name hparts =>
      have hboth := ((tests_checkNumber .offset (offsetText offset)).map Prod.mk).seq
        (tests_checkRegister name)
      refine hboth.iff ?_
      constructor
      · rintro ⟨hoffset, hname⟩
        exact ⟨offset, name, eq_of_memoryParts? hparts, isNumber_offsetText.mp hoffset, hname⟩
      · rintro ⟨offset', name', rfl, hoffset, hname⟩
        rw [memoryParts?_append hname] at hparts
        obtain ⟨rfl, rfl⟩ := Prod.mk.inj (Option.some.inj hparts)
        exact ⟨isNumber_offsetText.mpr hoffset, hname⟩

/-! ## Targets -/

/-- Symbols as the first walk makes them: distinct names at word addresses. -/
structure Tabled (symbols : List Symbol) : Prop where
  name : ∀ s ∈ symbols, isName s.name = true
  distinct : (labelsOf symbols).Nodup
  aligned : Aligned symbols

theorem tabled_layout (source : List Char) : Tabled (layout source).symbols where
  name := by
    intro s hs
    rcases mem_symbols_layoutFrom hs with hnil | ⟨-, hname, -⟩
    · exact absurd hnil List.not_mem_nil
    · exact hname
  distinct := nodup_layoutFrom 1 0 _ List.nodup_nil
  aligned := aligned_layout source

theorem name_of_findSymbol? {symbols : List Symbol} {label : List Char} {s : Symbol}
    (h : findSymbol? symbols label = some s) : s.name = label :=
  eq_of_beq (List.find?_some (p := fun t : Symbol => t.name == label) h)

/-- Where names are distinct, a name finds its symbol. -/
theorem findSymbol?_eq_some_iff {symbols : List Symbol} (hdistinct : (labelsOf symbols).Nodup)
    {label : List Char} {s : Symbol} :
    findSymbol? symbols label = some s ↔ s ∈ symbols ∧ s.name = label := by
  constructor
  · intro h
    exact ⟨List.mem_of_find?_eq_some h, name_of_findSymbol? h⟩
  · rintro ⟨hs, rfl⟩
    cases hfind : findSymbol? symbols s.name with
    | none => exact absurd (List.mem_map_of_mem hs) (findSymbol?_eq_none_iff.mp hfind)
    | some t =>
        have ht := List.mem_of_find?_eq_some hfind
        rw [List.inj_on_of_nodup_map hdistinct ht hs (name_of_findSymbol? hfind)]

theorem tests_checkOffset {format : ImmediateFormat} {reach : Int}
    (hreach : ∀ x, format.fits x = true ↔ -reach ≤ x ∧ x < reach) (heven : reach % 2 = 0)
    (x : Int) : (checkOffset format x).Tests (x % 2 = 0 ∧ -reach ≤ x ∧ x ≤ reach - 2) := by
  unfold checkOffset
  split
  · next hodd =>
      refine (Checked.tests_failShowing _ _).iff (iff_of_false id ?_)
      omega
  · split
    · next hfits =>
        refine (Checked.tests_pure x).iff (iff_of_true trivial ?_)
        have hrange := (hreach x).mp hfits
        omega
    · next hfar =>
        rw [hreach] at hfar
        refine (Checked.tests_failShowing _ _).iff (iff_of_false id ?_)
        omega

section Target

variable {symbols : List Symbol} (htable : Tabled symbols) {address : Nat} {reach : Int}
  {operand : List Char}

include htable

/-- A target that is a number is no label. -/
theorem isTarget_iff_of_literal {x : Int} (hvalue : literal? operand = some x) :
    IsTarget symbols address reach operand ↔ x % 2 = 0 ∧ -reach ≤ x ∧ x ≤ reach - 2 := by
  constructor
  · rintro (⟨y, hy, hrange⟩ | ⟨s, hs, rfl, -⟩)
    · rw [hvalue] at hy
      obtain rfl := Option.some.inj hy
      exact hrange
    · rw [literal?_of_isName (htable.name s hs)] at hvalue
      cases hvalue
  · exact fun hrange => Or.inl ⟨x, hvalue, hrange⟩

/-- A target that is no number is the label that is found for it. -/
theorem isTarget_iff_of_label (hvalue : literal? operand = none) :
    IsTarget symbols address reach operand ↔
      ∃ s, findSymbol? symbols operand = some s ∧
        -reach ≤ (s.address : Int) - address ∧ (s.address : Int) - address ≤ reach - 2 := by
  have hfind {s : Symbol} : findSymbol? symbols operand = some s ↔ s ∈ symbols ∧ s.name = operand :=
    findSymbol?_eq_some_iff htable.distinct
  constructor
  · rintro (⟨y, hy, -⟩ | ⟨s, hs, hname, hrange⟩)
    · rw [hvalue] at hy
      cases hy
    · exact ⟨s, hfind.mpr ⟨hs, hname⟩, hrange⟩
  · rintro ⟨s, hs, hrange⟩
    obtain ⟨hmem, hname⟩ := hfind.mp hs
    exact Or.inr ⟨s, hmem, hname, hrange⟩

theorem tests_checkTarget {format : ImmediateFormat}
    (hreach : ∀ x, format.fits x = true ↔ -reach ≤ x ∧ x < reach) (heven : reach % 2 = 0)
    (haddress : address % 4 = 0) (operand : List Char) :
    (checkTarget format symbols address operand).Tests
      (IsTarget symbols address reach operand) := by
  unfold checkTarget
  split
  · exact Checked.tests_stop _ _
  · next x hread =>
      have hvalue := literal?_of_readLiteral hread
      exact (tests_checkOffset hreach heven x).iff (isTarget_iff_of_literal htable hvalue).symm
  · next hread =>
      have hlabel : IsTarget symbols address reach operand ↔ _ :=
        isTarget_iff_of_label htable (literal?_of_readLiteral hread)
      split
      · next hinvalid =>
          refine (Checked.tests_fail _).iff (iff_of_false id ?_)
          rw [hlabel]
          rintro ⟨s, hs, -⟩
          have hname := htable.name s (List.mem_of_find?_eq_some hs)
          rw [name_of_findSymbol? hs] at hname
          rw [hname] at hinvalid
          cases hinvalid
      · split
        · next hundefined =>
            refine (Checked.tests_fail _).iff (iff_of_false id ?_)
            rw [hlabel, hundefined]
            rintro ⟨s, hs, -⟩
            cases hs
        · next s hs =>
            -- The label and the statement stand at word addresses, and so their distance is even.
            have hfour := htable.aligned s (List.mem_of_find?_eq_some hs)
            refine ((tests_checkOffset hreach heven _).noting ⟨rfl, rfl⟩).iff ?_
            rw [hlabel]
            constructor
            · rintro ⟨-, hrange⟩
              exact ⟨s, hs, hrange⟩
            · rintro ⟨t, ht, hrange⟩
              rw [hs] at ht
              obtain rfl := Option.some.inj ht
              exact ⟨by omega, hrange⟩

end Target

/-! ## Statements -/

section Statement

variable {symbols : List Symbol} {address : Nat} {m : Mnemonic} {operands : List (List Char)}

theorem InLanguage.length_mem (h : InLanguage symbols address m operands) :
    operands.length ∈ operandCounts m.kind := by
  unfold InLanguage at h
  split at h
  case h_13 => exact h.elim
  all_goals
    next hk => simp [operandCounts, hk]

theorem IsNumber.ne_nil {least greatest : Int} {operand : List Char}
    (h : IsNumber least greatest operand) : operand ≠ [] := by
  rintro rfl
  obtain ⟨x, hx, -⟩ := h
  cases hx

theorem IsMemory.ne_nil {operand : List Char} (h : IsMemory operand) : operand ≠ [] := by
  rintro rfl
  obtain ⟨offset, name, hoperand, -⟩ := h
  simp at hoperand

theorem IsTarget.ne_nil (hnames : ∀ s ∈ symbols, isName s.name = true) {reach : Int}
    {operand : List Char} (h : IsTarget symbols address reach operand) : operand ≠ [] := by
  rintro rfl
  rcases h with ⟨x, hx, -⟩ | ⟨s, hs, hname, -⟩
  · cases hx
  · have hnil := hnames s hs
    rw [hname] at hnil
    cases hnil

theorem InLanguage.nil_not_mem (hnames : ∀ s ∈ symbols, isName s.name = true)
    (h : InLanguage symbols address m operands) : [] ∉ operands := by
  have hne : ∀ o ∈ operands, o ≠ [] := by
    unfold InLanguage at h
    split at h
    case h_13 => exact h.elim
    all_goals
      simp only [List.forall_mem_cons, List.not_mem_nil, false_implies, implies_true, and_true]
    · exact h.imp IsRegister.ne_nil (And.imp IsRegister.ne_nil IsRegister.ne_nil)
    · refine h.imp IsRegister.ne_nil (And.imp IsRegister.ne_nil fun hc => ?_)
      split at hc
      · exact hc.ne_nil
      · exact hc.ne_nil
    · exact h.imp IsRegister.ne_nil IsMemory.ne_nil
    · exact h.imp IsRegister.ne_nil IsMemory.ne_nil
    · exact h.imp IsRegister.ne_nil (And.imp IsRegister.ne_nil (IsTarget.ne_nil hnames))
    · exact h.imp IsRegister.ne_nil IsNumber.ne_nil
    · exact h.imp IsRegister.ne_nil IsNumber.ne_nil
    · exact h.ne_nil hnames
    · exact h.imp IsRegister.ne_nil (IsTarget.ne_nil hnames)
    · exact h.ne_nil
    · exact h.imp IsRegister.ne_nil IsMemory.ne_nil
    · exact h.imp IsRegister.ne_nil (And.imp IsRegister.ne_nil IsNumber.ne_nil)
  exact fun hnil => hne [] hnil rfl

variable (htable : Tabled symbols) (haddress : address % 4 = 0)

include htable haddress

theorem tests_encodeOperands (m : Mnemonic) (operands : List (List Char)) :
    (encodeOperands symbols address m operands).Tests (InLanguage symbols address m operands) := by
  have hreg := tests_checkRegister
  have hbranch (o : List Char) :
      (checkTarget .b symbols address o).Tests (IsTarget symbols address 4096 o) :=
    tests_checkTarget htable (fun x => ImmediateFormat.fits_iff (n := 12) rfl) rfl haddress o
  have hjump (o : List Char) :
      (checkTarget .j symbols address o).Tests (IsTarget symbols address 1048576 o) :=
    tests_checkTarget htable (fun x => ImmediateFormat.fits_iff (n := 20) rfl) rfl haddress o
  unfold encodeOperands
  simp only
  split
  all_goals
    simp only [InLanguage, *]
  · exact ((((hreg _).map _).seq (hreg _)).seq (hreg _)).iff and_assoc
  · exact ((((hreg _).map _).seq (hreg _)).seq (tests_checkImmediate m _)).iff and_assoc
  · exact ((hreg _).map _).seq (tests_checkMemory _)
  · exact ((hreg _).map _).seq (tests_checkMemory _)
  · exact ((((hreg _).map _).seq (hreg _)).seq (hbranch _)).iff and_assoc
  · exact ((hreg _).map _).seq (tests_checkNumber .upperImmediate _)
  · exact ((hreg _).map _).seq (tests_checkNumber .upperImmediate _)
  · exact (hjump _).map _
  · exact ((hreg _).map _).seq (hjump _)
  · exact (hreg _).map _
  · exact ((hreg _).map _).seq (tests_checkMemory _)
  · exact ((((hreg _).map _).seq (hreg _)).seq (tests_checkNumber .immediate _)).iff and_assoc
  · exact Checked.tests_fail _

theorem tests_encode (m : Mnemonic) (operands : List (List Char)) :
    (encode symbols address m operands).Tests (InLanguage symbols address m operands) := by
  unfold encode
  split
  · next hcount =>
      refine (Checked.tests_fail _).iff (iff_of_false id fun h => ?_)
      rw [List.contains_iff_mem.mpr h.length_mem] at hcount
      cases hcount
  · split
    · next hempty =>
        refine (Checked.tests_fail _).iff (iff_of_false id fun h => ?_)
        exact h.nil_not_mem htable.name (by simpa using hempty)
    · exact tests_encodeOperands htable haddress m operands

end Statement

/-! ## What comes of operands -/

/-- A check decides a property: it yields a value and finds nothing wrong where the property holds,
it yields none and records a problem where it does not hold, and otherwise it yields none and is
stopped. -/
inductive Checked.Decides {α : Type} (c : Checked α) (P : Prop) (Stops : Text.Excess → Prop) : Prop
  | accepted {a : α} (hP : P) (h : c.Accepts a)
  | refused {p : Problem} (hP : ¬ P) (hvalue : c.value = none) (hp : .problem p ∈ c.remarks)
      (hstopped : ∀ e, .stopped e ∉ c.remarks)
  | stopped {e : Text.Excess} (hvalue : c.value = none) (he : .stopped e ∈ c.remarks)
      (hstops : Stops e)

theorem Checked.Tests.decides {α : Type} {c : Checked α} {P : Prop} {Stops : Text.Excess → Prop}
    (h : c.Tests P) (hhonest : c.Honest) (hstrict : c.Strict)
    (hstops : ∀ e, .stopped e ∈ c.remarks → Stops e) : c.Decides P Stops := by
  by_cases hc : c.Clean
  · obtain ⟨a, ha⟩ := hhonest.exists_accepts hc
    exact .accepted (h.sound hc) ha
  · have hvalue : c.value = none := by
      cases hv : c.value with
      | none => rfl
      | some a => exact absurd (hstrict a hv) hc
    by_cases hstopped : ∃ e, .stopped e ∈ c.remarks
    · obtain ⟨e, he⟩ := hstopped
      exact .stopped hvalue he (hstops e he)
    · have hP : ¬ P := fun hP => (h.complete hP).elim hc hstopped
      have hnone : ∀ e, .stopped e ∉ c.remarks := fun e he => hstopped ⟨e, he⟩
      obtain ⟨r, hr, hharm⟩ : ∃ r ∈ c.remarks, ¬ r.Harmless := by
        simpa [Checked.Clean] using hc
      cases r with
      | problem p => exact .refused hP hvalue hr hnone
      | stopped e => exact absurd hr (hnone e)
      | rewritten target operands => exact absurd ⟨rfl, rfl⟩ hharm
      | bound label address => exact absurd ⟨rfl, rfl⟩ hharm
      | resolved label address offset => exact absurd ⟨rfl, rfl⟩ hharm

/-- The encoders accept the language of operands.  In a statement at any word address, with the
labels of any source, a word comes out and nothing is found wrong where the operands are in the
language; where they are not, no word comes out and a problem is recorded.  The only other end is
that no word comes out because a number has more digits than are read or shown. -/
theorem encode_decides_language (source : List Char) {address : Nat} (haddress : address % 4 = 0)
    (m : Mnemonic) (operands : List (List Char)) :
    (encode (layout source).symbols address m operands).Decides
      (InLanguage (layout source).symbols address m operands)
      fun e => ∃ o ∈ operands, Exceeds (layout source).symbols address o e := by
  apply (tests_encode (tabled_layout source) haddress m operands).decides
  · exact honest_encode _ _ _ _
  · exact strict_encode _ _ _ _
  · intro e he
    cases onOperands_encode _ _ _ m _ he with
    | stopped ho hexceeds => exact ⟨_, ho, hexceeds⟩

/-- A branch back to a label, one word behind it. -/
theorem encode_decides_language_loop :
    ∃ source operands, source = "loop:\n nop".toList ∧
      operands = ["t0".toList, "x0".toList, "loop".toList] ∧
      (encode (layout source).symbols 4 .bne operands).value = some 4261584611 ∧
      (encode (layout source).symbols 4 .bne operands).Decides
        (InLanguage (layout source).symbols 4 .bne operands)
        fun e => ∃ o ∈ operands, Exceeds (layout source).symbols 4 o e := by
  refine ⟨_, _, rfl, rfl, by decide +kernel, ?_⟩
  exact encode_decides_language _ rfl _ _

/-! ## A number in range with too many digits -/

theorem denotes_zeros (n : Nat) : Denotes 10 (List.replicate (n + 1) '0') 0 := by
  rw [List.replicate_succ']
  exact (denotes_toDigits (by decide) (by decide) 0).zeros_append (by decide) n

/-- Zero may be written with any number of digits. -/
theorem isLiteral_zeros (n : Nat) : IsLiteral (List.replicate (n + 1) '0') 0 :=
  .intro .absent (.intro .decimal (denotes_zeros n))

/-- Operands whose immediate is zero, written with `n` digits. -/
def zeroOperands (n : Nat) : List (List Char) := [['x', '1'], ['x', '0'], List.replicate n '0']

theorem inLanguage_zeroOperands (n : Nat) :
    InLanguage (layout []).symbols 0 .addi (zeroOperands (n + 1)) := by
  have hregisters : IsRegister ['x', '1'] ∧ IsRegister ['x', '0'] :=
    ⟨⟨1, by decide +kernel⟩, ⟨0, by decide +kernel⟩⟩
  exact ⟨hregisters.1, hregisters.2, 0, (isLiteral_zeros n).literal?_eq, by decide, by decide⟩

theorem not_accepts_zeroOperands {n : Nat} (hmany : Text.digitLimit < n + 1) (w : Int) :
    ¬ (encode (layout []).symbols 0 .addi (zeroOperands (n + 1))).Accepts w := by
  intro hw
  have hread := readLiteral_of_trim (isLiteral_zeros n).trim_eq .absent .decimal (denotes_zeros n)
  rw [if_pos ⟨rfl, by rwa [List.length_replicate]⟩] at hread
  obtain ⟨-, -, hword⟩ := accepts_encode_iff.mp hw
  obtain ⟨_, k, -, himmediate, -⟩ := Checked.accepts_seq.mp hword
  obtain ⟨hread', -⟩ := accepts_checkNumber.mp himmediate
  rw [hread] at hread'
  cases hread'

/-- Zero with one digit more than are read is in the language, and no word comes out. -/
theorem not_accepts_zeros :
    InLanguage (layout []).symbols 0 .addi (zeroOperands 4301) ∧
      ¬ ∃ w, (encode (layout []).symbols 0 .addi (zeroOperands 4301)).Accepts w :=
  ⟨inLanguage_zeroOperands 4300, fun ⟨w, hw⟩ => not_accepts_zeroOperands (by decide) w hw⟩

end Rv32.Assembly
