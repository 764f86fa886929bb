import Mathlib
import Rv32.Proofs.Store.Access
import Rv32.Store

/-!
# Stores keep their view

The words of a store are kept in one view.  Nothing that is asked of a store changes its kind or
the number of its words, and every word that it puts in is wrapped to the view first, whatever
number was given.  So a store is well formed from its creation on.
-/

namespace Rv32

namespace Word

theorem signed_eq_self_iff {x : Int} : signed x = x ↔ -2147483648 ≤ x ∧ x < 2147483648 := by
  constructor
  · intro h
    rw [← h]
    exact ⟨signed_ge x, signed_lt x⟩
  · intro h
    rw [signed_eq_ite]
    split <;> omega

theorem unsigned_eq_self_iff {x : Int} : unsigned x = x ↔ 0 ≤ x ∧ x < 4294967296 := by
  constructor
  · intro h
    rw [← h]
    exact ⟨unsigned_nonneg x, unsigned_lt x⟩
  · intro h
    exact Int.emod_eq_of_lt h.1 h.2

end Word

@[simp] theorem StoreKind.view_zero (k : StoreKind) : k.view 0 = 0 := by
  cases k <;> rfl

namespace Store

/-! ## Words put in -/

section Words

variable {view : Int → Int} {x : Int}

theorem size_scatter {words : Array Int} (entries : List (Nat × Int)) :
    (scatter view words entries).size = words.size := by
  induction entries generalizing words with
  | nil => rfl
  | cons e entries ih => rw [scatter, ih, Array.size_setIfInBounds]

theorem mem_scatter {words : Array Int} {entries : List (Nat × Int)}
    (hx : x ∈ scatter view words entries) : x ∈ words ∨ ∃ y, x = view y := by
  induction entries generalizing words with
  | nil => exact Or.inl hx
  | cons e entries ih =>
      rcases ih hx with hx | hx
      · rcases Array.mem_or_eq_of_mem_setIfInBounds hx with hx | rfl
        · exact Or.inl hx
        · exact Or.inr ⟨e.2, rfl⟩
      · exact Or.inr hx

/-- Filling from a place on is putting at one place after the other. -/
theorem fill_eq_scatter (words : Array Int) (start : Nat) (xs : List Int) :
    fill view words start xs =
      scatter view words ((xs.zipIdx start).map fun (x, i) => (i, x)) := by
  induction xs generalizing words start with
  | nil => rfl
  | cons x xs ih => exact ih _ _

theorem size_fill {words : Array Int} {start : Nat} (xs : List Int) :
    (fill view words start xs).size = words.size := by
  rw [fill_eq_scatter, size_scatter]

theorem mem_fill {words : Array Int} {start : Nat} {xs : List Int}
    (hx : x ∈ fill view words start xs) : x ∈ words ∨ ∃ y, x = view y := by
  rw [fill_eq_scatter] at hx
  exact mem_scatter hx

variable (view)

theorem getElem?_fill_of_lt {words : Array Int} {start j : Nat} (xs : List Int) (hj : j < start) :
    (fill view words start xs)[j]? = words[j]? := by
  induction xs generalizing words start with
  | nil => rfl
  | cons x xs ih =>
      rw [fill, ih (by omega), Array.getElem?_setIfInBounds_ne (by omega)]

/-- Words that fit are found one after the other. -/
theorem getElem?_fill {words : Array Int} {start j : Nat} {xs : List Int} {x : Int}
    (hfit : start + xs.length ≤ words.size) (hj : xs[j]? = some x) :
    (fill view words start xs)[start + j]? = some (view x) := by
  induction xs generalizing words start j with
  | nil => cases hj
  | cons y ys ih =>
      rw [List.length_cons] at hfit
      rw [fill]
      cases j with
      | zero =>
          obtain rfl : y = x := by simpa using hj
          have hstart : start < words.size := by omega
          rw [Nat.add_zero, getElem?_fill_of_lt view ys (by omega)]
          exact Array.getElem?_setIfInBounds_self_of_lt hstart
      | succ j =>
          rw [List.getElem?_cons_succ] at hj
          have hsize : start + 1 + ys.length ≤ (words.setIfInBounds start (view y)).size := by
            rw [Array.size_setIfInBounds]
            omega
          rw [show start + (j + 1) = start + 1 + j by omega]
          exact ih hsize hj

/-- Filling a store from end to end leaves nothing of it. -/
theorem fill_zero {words : Array Int} {xs : List Int} (h : xs.length = words.size) :
    fill view words 0 xs = (xs.map view).toArray := by
  apply Array.ext_getElem?
  intro j
  by_cases hj : j < xs.length
  · have hfound := getElem?_fill view (by omega : 0 + xs.length ≤ words.size)
      (List.getElem?_eq_getElem hj)
    rw [Nat.zero_add] at hfound
    rw [hfound]
    simp [hj]
  · have hsize : (fill view words 0 xs).size ≤ j := by
      rw [size_fill]
      omega
    rw [Array.getElem?_eq_none hsize]
    simp [hj]

end Words

/-! ## Exchanged words -/

/-- The store `t` is `s` with as many words, each of which was there before or is wrapped to the
view. -/
structure Rewords (s t : Store) : Prop where
  eq : ∃ words, t = { s with words }
  capacity : t.capacity = s.capacity
  view : ∀ x ∈ t.words, x ∈ s.words ∨ ∃ y, x = s.kind.view y

namespace Rewords

variable {s t u : Store}

theorem refl (s : Store) : s.Rewords s := ⟨⟨s.words, rfl⟩, rfl, fun _ hx => Or.inl hx⟩

theorem kind (h : s.Rewords t) : t.kind = s.kind := by
  obtain ⟨words, rfl⟩ := h.eq
  rfl

theorem size (h : s.Rewords t) : t.size = s.size := by
  obtain ⟨⟨words, rfl⟩, hcapacity, -⟩ := h
  simp only [Store.size, hcapacity]

theorem trans (h : s.Rewords t) (h' : t.Rewords u) : s.Rewords u := by
  refine ⟨?_, h'.capacity.trans h.capacity, ?_⟩
  · obtain ⟨first, rfl⟩ := h.eq
    obtain ⟨words, rfl⟩ := h'.eq
    exact ⟨words, rfl⟩
  · intro x hx
    rcases h'.view x hx with hx | ⟨y, rfl⟩
    · exact h.view x hx
    · rw [h.kind]
      exact Or.inr ⟨y, rfl⟩

theorem exchange {words : Array Int} (hsize : words.size = s.words.size)
    (hview : ∀ x ∈ words, x ∈ s.words ∨ ∃ y, x = s.kind.view y) :
    s.Rewords { s with words } :=
  ⟨⟨words, rfl⟩, hsize, hview⟩

theorem put (s : Store) (i : Fin s.words.size) (x : Int) : s.Rewords (s.put i x) := by
  apply exchange (Array.size_set _)
  intro y hy
  exact (Array.mem_or_eq_of_mem_set hy).imp id fun h => ⟨x, h⟩

theorem write {address : Datum} {x : Int} (h : s.write address x = .ok t) : s.Rewords t := by
  obtain ⟨i, -, ht⟩ := Fault.bind_eq_ok h
  obtain rfl := Except.ok.inj ht
  exact put s i x

theorem reset (s : Store) : s.Rewords s.reset := by
  apply exchange Array.size_replicate
  intro x hx
  obtain ⟨-, rfl⟩ := Array.mem_replicate.mp hx
  exact Or.inr ⟨0, s.kind.view_zero.symm⟩

theorem load {xs : List Int} {base : Datum} (h : s.load xs base = .ok t) : s.Rewords t := by
  obtain ⟨start, -, h⟩ := Fault.bind_eq_ok h
  by_cases hlong : s.capacity < start + xs.length
  · rw [if_pos hlong] at h
    cases h
  · rw [if_neg hlong] at h
    obtain rfl := Except.ok.inj h
    exact exchange (size_fill xs) fun _ => mem_fill

theorem loadMap {entries : List (Datum × Int)} (h : s.loadMap entries = .ok t) : s.Rewords t := by
  obtain ⟨places, -, h⟩ := Fault.bind_eq_ok h
  obtain rfl := Except.ok.inj h
  exact exchange (size_scatter places) fun _ => mem_scatter

theorem importState {state : Datum} (h : s.importState state = .ok t) : s.Rewords t := by
  unfold Store.importState at h
  split at h
  · cases h
  · next items _ =>
      by_cases hlength : items.length = s.capacity
      · rw [if_neg (not_not.mpr hlength)] at h
        obtain rfl := Except.ok.inj h
        apply exchange
        · simpa [Store.capacity] using hlength
        · intro x hx
          obtain ⟨d, -, rfl⟩ : ∃ d ∈ items, s.kind.view d.toInt = x := by
            simpa using hx
          exact Or.inr ⟨_, rfl⟩
      · rw [if_pos hlength] at h
        cases h

/-- Whatever is asked of a store, refused or not, only its words may change. -/
theorem after (s : Store) (r : Request) : s.Rewords (s.after r) := by
  unfold Store.after
  split
  · next reply t h =>
      cases r with
      | read address =>
          obtain ⟨x, -, h⟩ := Fault.bind_eq_ok h
          obtain ⟨-, rfl⟩ := Prod.mk.inj (Except.ok.inj h)
          exact refl s
      | write address value enabled =>
          simp only [serve] at h
          split at h
          · obtain ⟨t', hwrite, h⟩ := Fault.bind_eq_ok h
            obtain ⟨-, rfl⟩ := Prod.mk.inj (Except.ok.inj h)
            exact write hwrite
          · obtain ⟨-, rfl⟩ := Prod.mk.inj (Except.ok.inj h)
            exact refl s
      | reset =>
          obtain ⟨-, rfl⟩ := Prod.mk.inj (Except.ok.inj h)
          exact reset s
      | load words base =>
          obtain ⟨t', hload, h⟩ := Fault.bind_eq_ok h
          obtain ⟨-, rfl⟩ := Prod.mk.inj (Except.ok.inj h)
          exact load hload
      | loadMap entries =>
          obtain ⟨t', hload, h⟩ := Fault.bind_eq_ok h
          obtain ⟨-, rfl⟩ := Prod.mk.inj (Except.ok.inj h)
          exact loadMap hload
      | exportState =>
          obtain ⟨-, rfl⟩ := Prod.mk.inj (Except.ok.inj h)
          exact refl s
      | importState state =>
          obtain ⟨t', himport, h⟩ := Fault.bind_eq_ok h
          obtain ⟨-, rfl⟩ := Prod.mk.inj (Except.ok.inj h)
          exact importState himport
      | nonzero =>
          obtain ⟨-, rfl⟩ := Prod.mk.inj (Except.ok.inj h)
          exact refl s
      | dump start count =>
          obtain ⟨lines, -, h⟩ := Fault.bind_eq_ok h
          obtain ⟨-, rfl⟩ := Prod.mk.inj (Except.ok.inj h)
          exact refl s
  · exact refl s

end Rewords

/-! ## Well-formed stores -/

/-- A store of `n` words that keeps each of them in the view of its kind. -/
structure WellFormed (k : StoreKind) (n : Nat) (s : Store) : Prop where
  kind : s.kind = k
  capacity : s.capacity = n
  view : ∀ x ∈ s.words, k.view x = x

theorem wellFormed_of_create {k : StoreKind} {size : Datum} {s : Store}
    (h : create k size = .ok s) : s.WellFormed k s.capacity := by
  have hempty (n : Nat) (b : Bool) :
      WellFormed k (empty k n).capacity { empty k n with sizedByTruth := b } := by
    refine ⟨rfl, rfl, ?_⟩
    intro x hx
    obtain ⟨-, rfl⟩ := Array.mem_replicate.mp hx
    exact k.view_zero
  unfold create at h
  split at h
  · obtain rfl := Except.ok.inj h
    exact hempty 1 true
  · next n =>
      split at h
      · obtain rfl := Except.ok.inj h
        exact hempty n.toNat false
      · cases h
  · cases h

/-- A well-formed store may be reworded. -/
theorem WellFormed.of_rewords {k : StoreKind} {n : Nat} {s t : Store} (hs : s.WellFormed k n)
    (h : s.Rewords t) : t.WellFormed k n := by
  refine ⟨h.kind.trans hs.kind, h.capacity.trans hs.capacity, ?_⟩
  intro x hx
  rcases h.view x hx with hx | ⟨y, rfl⟩
  · exact hs.view x hx
  · rw [hs.kind, StoreKind.view_view]

/-! ## New stores -/

theorem capacity_empty (kind : StoreKind) (n : Nat) : (empty kind n).capacity = n :=
  Array.size_replicate

theorem words_of_create {kind : StoreKind} {size : Datum} {s : Store}
    (h : create kind size = .ok s) : s.words = Array.replicate s.capacity 0 := by
  unfold create at h
  split at h
  · obtain rfl := Except.ok.inj h
    rfl
  · split at h
    · obtain rfl := Except.ok.inj h
      rw [capacity_empty]
      rfl
    · cases h
  · cases h

theorem reset_of_create {kind : StoreKind} {size : Datum} {s : Store}
    (h : create kind size = .ok s) : s.reset = s := by
  rw [reset, ← words_of_create h]

end Store

end Rv32
