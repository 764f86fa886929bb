import Mathlib
import Rv32.Proofs.Text.Tokens
import Rv32.Store

/-!
# Accesses to a store

An integer is refused as an address for its alignment or for its range, and a read or a write is
refused exactly where its address is.  The failure is about the address, unless the complaint would
show a number with too many digits: the place of an aligned address, or whatever a value that is no
integer holds.  The first lemmas take apart computations that may be refused.
-/

namespace Rv32

/-! ## Computations that may be refused -/

namespace Fault

variable {α β : Type} {x : Except Fault α} {f : α → Except Fault β}

theorem ok_bind (a : α) (f : α → Except Fault β) : (Except.ok a >>= f) = f a := rfl

theorem bind_eq_ok {b : β} (h : x >>= f = .ok b) : ∃ a, x = .ok a ∧ f a = .ok b := by
  cases x with
  | error e => cases h
  | ok a => exact ⟨a, rfl, h⟩

theorem bind_eq_error {e : Fault} (h : x >>= f = .error e) :
    x = .error e ∨ ∃ a, x = .ok a ∧ f a = .error e := by
  cases x with
  | error e' => exact Or.inl (congrArg Except.error (Except.error.inj h))
  | ok a => exact Or.inr ⟨a, rfl, h⟩

/-- What is made of a result cannot be refused by itself. -/
theorem bind_pure_eq_error_iff {g : α → β} {e : Fault} :
    (x >>= fun a => pure (g a)) = .error e ↔ x = .error e := by
  constructor
  · intro h
    rcases bind_eq_error h with hx | ⟨a, -, ha⟩
    · exact hx
    · cases ha
  · intro h
    rw [h]
    rfl

end Fault

/-! ## Refused addresses -/

namespace Store

/-- Why an integer is no address of a store. -/
inductive Refuses (s : Store) (a : Int) : Fault → Prop
  | unaligned (h : a % 4 ≠ 0) : s.Refuses a (.addressUnaligned s.kind (.integer a))
  | outside (hfour : a % 4 = 0) (h : a < 0 ∨ s.capacity ≤ a / 4) :
    s.Refuses a (.addressOutside s.kind (.integer a))

variable {s : Store} {a x : Int} {f : Fault}

theorem Refuses.eq_or (h : s.Refuses a f) :
    f = .addressUnaligned s.kind (.integer a) ∨ f = .addressOutside s.kind (.integer a) := by
  cases h with
  | unaligned => exact Or.inl rfl
  | outside => exact Or.inr rfl

/-- The class of the failure that a datum causes where it is refused as an address. -/
def addressClass (address : Datum) : FailureClass :=
  match address.integer? with
  | none => if address.exceedsLimit then .value else .address
  | some a => if a % 4 = 0 ∧ Text.exceedsLimit (a / 4) = true then .value else .address

theorem failure_of_slot_eq_error {address : Datum} (h : s.slot address = .error f) :
    f.report.failure = addressClass address := by
  unfold slot at h
  unfold addressClass
  cases hinteger : address.integer? with
  | none =>
      simp only [hinteger] at h
      obtain rfl := Except.error.inj h
      rw [Fault.report]
      simp only [Fault.overlong, Fault.shown, List.any_cons, List.any_nil, Bool.or_false]
      split <;> rfl
  | some a =>
      have ha : address.toInt = a := by
        rw [Datum.toInt, hinteger, Option.getD_some]
      simp only [hinteger] at h
      by_cases hfour : a % 4 = 0
      · rw [if_neg (not_not.mpr hfour)] at h
        split at h
        · cases h
        · obtain rfl := Except.error.inj h
          rw [Fault.report]
          simp only [Fault.overlong, Fault.shown, List.any_cons, List.any_nil, Bool.or_false,
            Datum.exceedsLimit_integer, ha, hfour, true_and]
          split <;> rfl
      · rw [if_pos hfour] at h
        obtain rfl := Except.error.inj h
        simp only [hfour, false_and, if_false]
        rfl

/-- An address of thirty-two bits is refused as an address. -/
theorem addressClass_of_natAbs_le (h : a.natAbs ≤ 2 ^ 32) :
    addressClass (.integer a) = .address := by
  have hfew : Text.exceedsLimit (a / 4) = false := by
    apply Text.exceedsLimit_of_natAbs_le
    omega
  simp only [addressClass, Datum.integer?, hfew, Bool.false_eq_true, and_false, if_false]

/-- An aligned address whose place has too many digits is not refused as an address. -/
theorem addressClass_four_mul {n : Nat} (h : 10 ^ Text.digitLimit ≤ n) :
    addressClass (.integer (4 * n)) = .value := by
  have hfour : (4 * n : Int) % 4 = 0 := by
    omega
  have hplace : (4 * n : Int) / 4 = n := by
    omega
  have hmany : Text.exceedsLimit n = true := Text.exceedsLimit_natCast_eq_true_iff.mpr h
  simp only [addressClass, Datum.integer?, hfour, hplace, hmany, and_self, if_true]

theorem slot_eq_error_iff : s.slot (.integer a) = .error f ↔ s.Refuses a f := by
  simp only [slot, Datum.integer?]
  by_cases hfour : a % 4 = 0
  · rw [if_neg (not_not.mpr hfour)]
    by_cases hin : 0 ≤ a / 4 ∧ a / 4 < s.words.size
    · rw [dif_pos hin]
      constructor
      · intro h
        cases h
      · intro h
        cases h with
        | unaligned h => exact absurd hfour h
        | outside _ h =>
            unfold capacity at h
            omega
    · rw [dif_neg hin]
      have hout : a < 0 ∨ s.capacity ≤ a / 4 := by
        unfold capacity
        omega
      constructor
      · intro h
        obtain rfl := Except.error.inj h
        exact .outside hfour hout
      · intro h
        cases h with
        | unaligned h => exact absurd hfour h
        | outside => rfl
  · rw [if_pos hfour]
    constructor
    · intro h
      obtain rfl := Except.error.inj h
      exact .unaligned hfour
    · intro h
      cases h with
      | unaligned => rfl
      | outside h => exact absurd h hfour

theorem Refuses.failure (h : s.Refuses a f) : f.report.failure = addressClass (.integer a) :=
  failure_of_slot_eq_error (slot_eq_error_iff.mpr h)

theorem read_eq_error_iff : s.read (.integer a) = .error f ↔ s.Refuses a f := by
  rw [← slot_eq_error_iff]
  exact Fault.bind_pure_eq_error_iff

theorem write_eq_error_iff : s.write (.integer a) x = .error f ↔ s.Refuses a f := by
  rw [← slot_eq_error_iff]
  exact Fault.bind_pure_eq_error_iff

/-! ## Accepted addresses -/

theorem read_integer {k : Nat} (h : s.words[k]? = some x) :
    s.read (.integer (4 * k)) = .ok x := by
  obtain ⟨hk, hx⟩ := Array.getElem?_eq_some_iff.mp h
  have hslot : s.slot (.integer (4 * k)) = .ok ⟨k, hk⟩ := slot_eq_ok_iff.mpr rfl
  rw [read, hslot]
  exact congrArg Except.ok hx

/-- A word is read from the place that its address gives. -/
theorem getElem?_of_read_eq_ok (h : s.read (.integer a) = .ok x) :
    a % 4 = 0 ∧ 0 ≤ a ∧ s.words[(a / 4).toNat]? = some x := by
  obtain ⟨i, hslot, hx⟩ := Fault.bind_eq_ok h
  obtain rfl : a = 4 * (i.val : Int) := Option.some.inj (slot_eq_ok_iff.mp hslot)
  have hplace : (4 * (i.val : Int) / 4).toNat = i.val := by
    omega
  refine ⟨by omega, by omega, ?_⟩
  rw [hplace, Array.getElem?_eq_getElem i.isLt]
  exact congrArg some (Except.ok.inj hx)

/-- A word is put into the place that its address gives. -/
theorem exists_put_of_write_eq_ok {t : Store} (h : s.write (.integer a) x = .ok t) :
    ∃ i : Fin s.words.size, a = 4 * (i.val : Int) ∧ t = s.put i x := by
  obtain ⟨i, hslot, ht⟩ := Fault.bind_eq_ok h
  exact ⟨i, Option.some.inj (slot_eq_ok_iff.mp hslot), (Except.ok.inj ht).symm⟩

end Store

end Rv32
