import Mathlib
import Rv32.Proofs.Store.Log

/-!
# Loading many words at once

A list of words and a table of addresses are loaded without a check before each single word.  Here
both are compared with single writes, each of which has a check of its own: what is loaded at once
is what the writes leave, and the writes for a table may come in any order, since no two keys of a
table are one address.  What cannot be loaded as a whole is not loaded in part.
-/

namespace Rv32

/-! ## Keys of a table -/

namespace Datum

variable {α : Type}

/-- No key of a table stands twice. -/
def DistinctKeys (t : List (Datum × α)) : Prop :=
  t.Pairwise fun e f => sameKey e.1 f.1 = false

theorem sameKey_of_integer? {d e : Datum} {a : Int} (hd : d.integer? = some a)
    (he : e.integer? = some a) : sameKey d e = true := by
  cases d <;> cases e <;> simp_all [integer?, sameKey, whole?]

/-- A value under a key brings in no other key. -/
theorem fst_mem_put {key : Datum} {x : α} {t : List (Datum × α)} {e : Datum × α}
    (he : e ∈ put key x t) : e.1 = key ∨ ∃ f ∈ t, f.1 = e.1 := by
  induction t with
  | nil =>
      rw [put, List.mem_singleton] at he
      exact Or.inl (congrArg Prod.fst he)
  | cons f t ih =>
      rw [put] at he
      split at he
      · rcases List.mem_cons.mp he with rfl | he
        · exact Or.inr ⟨f, List.mem_cons_self, rfl⟩
        · exact Or.inr ⟨e, List.mem_cons_of_mem f he, rfl⟩
      · rcases List.mem_cons.mp he with rfl | he
        · exact Or.inr ⟨f, List.mem_cons_self, rfl⟩
        · refine (ih he).imp_right ?_
          rintro ⟨g, hg, hkey⟩
          exact ⟨g, List.mem_cons_of_mem f hg, hkey⟩

theorem DistinctKeys.put {t : List (Datum × α)} (h : DistinctKeys t) (key : Datum) (x : α) :
    DistinctKeys (put key x t) := by
  induction t with
  | nil => exact List.pairwise_singleton _ _
  | cons f t ih =>
      obtain ⟨hf, ht⟩ := List.pairwise_cons.mp h
      rw [Datum.put]
      split
      · exact List.pairwise_cons.mpr ⟨hf, ht⟩
      · next hkey =>
          refine List.pairwise_cons.mpr ⟨fun e he => ?_, ih ht⟩
          rcases fst_mem_put he with heq | ⟨g, hg, heq⟩
          · rw [heq]
            exact Bool.eq_false_of_not_eq_true hkey
          · rw [← heq]
            exact hf g hg

theorem distinctKeys_table (entries : List (Datum × α)) : DistinctKeys (table entries) := by
  have hfold (t : List (Datum × α)) (ht : DistinctKeys t) :
      DistinctKeys (entries.foldl (fun t e => Datum.put e.1 e.2 t) t) := by
    induction entries generalizing t with
    | nil => exact ht
    | cons e entries ih => exact ih _ (ht.put e.1 e.2)
  exact hfold [] List.Pairwise.nil

end Datum

namespace Store

/-! ## Single writes -/

/-- The store after several writes, one after the other. -/
def writeAll (s : Store) : List (Datum × Int) → Except Fault Store
  | [] => .ok s
  | e :: entries => do (← s.write e.1 e.2).writeAll entries

/-- The place that an entry is about, with its value. -/
def placeOf (e : Datum × Int) : Nat × Int := ((e.1.toInt / 4).toNat, e.2)

section Places

variable {s : Store} {entries : List (Datum × Int)}

theorem slot_placeOf {e : Datum × Int} (h : (address? s.capacity e.1).isSome = true) :
    ∃ hlt : (placeOf e).1 < s.words.size, s.slot e.1 = .ok ⟨(placeOf e).1, hlt⟩ := by
  obtain ⟨a, ha⟩ := Option.isSome_iff_exists.mp h
  obtain ⟨i, hslot, rfl⟩ := exists_slot_of_address? ha
  have hplace : (placeOf e).1 = i := by
    rw [placeOf, toInt_of_address? ha]
    simp only
    omega
  refine ⟨hplace ▸ i.isLt, ?_⟩
  rw [hslot]
  exact congrArg Except.ok (Fin.ext hplace.symm)

theorem mapM_placeOf (h : ∀ e ∈ entries, (address? s.capacity e.1).isSome = true) :
    entries.mapM s.place = .ok (entries.map placeOf) := by
  induction entries with
  | nil => rfl
  | cons e entries ih =>
      obtain ⟨he, hrest⟩ := List.forall_mem_cons.mp h
      obtain ⟨_, hslot⟩ := slot_placeOf he
      rw [List.mapM_cons, place, hslot, ih hrest]
      rfl

/-- Single writes put one word after the other into their places. -/
theorem writeAll_eq_ok (h : ∀ e ∈ entries, (address? s.capacity e.1).isSome = true) :
    s.writeAll entries =
      .ok { s with words := scatter s.kind.view s.words (entries.map placeOf) } := by
  induction entries generalizing s with
  | nil => rfl
  | cons e entries ih =>
      obtain ⟨he, hrest⟩ := List.forall_mem_cons.mp h
      obtain ⟨hlt, hslot⟩ := slot_placeOf he
      have hwrite : s.write e.1 e.2 = .ok (s.put ⟨(placeOf e).1, hlt⟩ e.2) := by
        rw [write, hslot]
        rfl
      have hput : (s.put ⟨(placeOf e).1, hlt⟩ e.2).words =
          s.words.setIfInBounds (placeOf e).1 (s.kind.view e.2) := by
        simp only [put, Array.setIfInBounds_def, dif_pos hlt]
      rw [← capacity_put s ⟨(placeOf e).1, hlt⟩ e.2] at hrest
      rw [writeAll, hwrite, Fault.ok_bind, ih hrest, hput, kind_put]
      rfl

end Places

/-! ## The order of writes -/

theorem scatter_eq_foldl (view : Int → Int) (words : Array Int) (places : List (Nat × Int)) :
    scatter view words places =
      places.foldl (fun ws p => ws.setIfInBounds p.1 (view p.2)) words := by
  induction places generalizing words with
  | nil => rfl
  | cons p places ih => exact ih _

/-- Words may be put into different places in any order. -/
theorem scatter_perm (view : Int → Int) (words : Array Int) {places places' : List (Nat × Int)}
    (hdistinct : (places.map Prod.fst).Nodup) (h : places'.Perm places) :
    scatter view words places' = scatter view words places := by
  rw [scatter_eq_foldl, scatter_eq_foldl]
  refine (h.symm.foldl_eq' ?_ words).symm
  intro p hp q hq ws
  by_cases hplace : p.1 = q.1
  · rw [List.inj_on_of_nodup_map hdistinct hp hq hplace]
  · exact Array.setIfInBounds_comm _ _ hplace

/-- Different keys are about different places. -/
theorem nodup_placeOf {n : Nat} {entries : List (Datum × Int)}
    (h : ∀ e ∈ entries, (address? n e.1).isSome = true) (hkeys : Datum.DistinctKeys entries) :
    ((entries.map placeOf).map Prod.fst).Nodup := by
  rw [List.map_map, List.Nodup, List.pairwise_map]
  refine hkeys.imp_of_mem fun {e f} he hf hkey hplace => ?_
  obtain ⟨a, ha⟩ := Option.isSome_iff_exists.mp (h e he)
  obtain ⟨b, hb⟩ := Option.isSome_iff_exists.mp (h f hf)
  obtain ⟨hinteger, hfour, hnonneg, -⟩ := address?_eq_some_iff.mp ha
  obtain ⟨hinteger', hfour', hnonneg', -⟩ := address?_eq_some_iff.mp hb
  simp only [Function.comp_apply, placeOf, toInt_of_address? ha, toInt_of_address? hb] at hplace
  obtain rfl : a = b := by
    omega
  rw [Datum.sameKey_of_integer? hinteger hinteger'] at hkey
  cases hkey

/-! ## All or nothing -/

/-- Several words fit behind an address of a store of `n` words. -/
def Fits (n : Nat) (base : Datum) (count : Nat) : Prop :=
  ∃ a, address? n base = some a ∧ a / 4 + count ≤ n

/-- The entries of words that stand one after the other from the address `a` on. -/
def successive (a : Int) (words : List Int) : List (Datum × Int) :=
  words.zipIdx.map fun (x, k) => (.integer (a + 4 * k), x)

/-- A request that stores many words is served exactly if a condition holds, and then it leaves what
single writes leave, in every order of the entries that counts.  Otherwise it is refused for an
address, as `Request.refusal` says.  In place, where one word is assigned after the other, the store
is left with all of the words then, and with none of them otherwise. -/
inductive AllOrNothing (s : Store) (r : Request) (P : Prop)
    (Counts : List (Datum × Int) → Prop) : Prop
  | served {t : Store} (hP : P) (h : s.serve r = .ok (.done, t))
      (hplace : s.serveInPlace r = (t, .ok .done))
      (hwrites : ∀ entries, Counts entries → s.writeAll entries = .ok t)
  | refused {f : Fault} (hP : ¬ P) (h : s.serve r = .error f)
      (hfailure : f.report.failure = r.refusal s.capacity)
      (hunchanged : s.serveInPlace r = (s, .error (.refused f)))

/-- Whatever is not accepted is refused as a whole. -/
theorem AllOrNothing.of_not_accepts {s : Store} {r : Request} {P : Prop}
    {Counts : List (Datum × Int) → Prop} (hP : ¬ P) (h : r.accepts s.capacity = false) :
    s.AllOrNothing r P Counts := by
  obtain ⟨f, hserve, hf⟩ := exists_serve_eq_error h
  exact .refused hP hserve hf (serveInPlace_of_error hserve)

theorem accepts_load_iff {n : Nat} {words : List Int} {base : Datum} :
    (Request.load words base).accepts n = true ↔ Fits n base words.length := by
  simp only [Request.accepts, Option.any_eq_true, decide_eq_true_eq, Fits]
  refine exists_congr fun a => and_congr_right fun ha => ?_
  obtain ⟨-, hfour, hnonneg, -⟩ := address?_eq_some_iff.mp ha
  omega

theorem load_allOrNothing (s : Store) (words : List Int) (base : Datum) :
    s.AllOrNothing (.load words base) (Fits s.capacity base words.length)
      (· = successive base.toInt words) := by
  by_cases hfits : Fits s.capacity base words.length
  · obtain ⟨a, ha, hfit⟩ := hfits
    obtain ⟨i, hslot, rfl⟩ := exists_slot_of_address? ha
    have hshort : ¬ s.capacity < i + words.length := by
      omega
    have hload : s.load words base =
        .ok { s with words := fill s.kind.view s.words i words } := by
      rw [load, hslot, Fault.ok_bind, if_neg hshort]
      rfl
    have hserve : s.serve (.load words base) =
        .ok (.done, { s with words := fill s.kind.view s.words i words }) := by
      rw [serve, hload]
      rfl
    refine .served ⟨_, ha, hfit⟩ hserve (serveInPlace_of_ok hserve) ?_
    rintro _ rfl
    -- The one check for all words is the check of each word.
    have hvalid : ∀ e ∈ successive base.toInt words, (address? s.capacity e.1).isSome = true := by
      intro e he
      obtain ⟨⟨x, k⟩, hk, rfl⟩ := List.mem_map.mp he
      have hlt := List.snd_lt_of_mem_zipIdx hk
      rw [toInt_of_address? ha]
      refine Option.isSome_iff_exists.mpr ⟨4 * (i : Int) + 4 * k, ?_⟩
      exact address?_eq_some_iff.mpr ⟨rfl, by omega, by omega, by omega⟩
    have hplaces : (successive base.toInt words).map placeOf =
        (words.zipIdx i).map fun (x, i) => (i, x) := by
      rw [List.zipIdx_eq_map_add, toInt_of_address? ha, successive, List.map_map,
        List.map_map]
      apply List.map_congr_left
      intro p _
      simp only [Function.comp_apply, placeOf, Datum.toInt, Datum.integer?, Option.getD_some,
        Prod.mk.injEq, and_true]
      omega
    rw [writeAll_eq_ok hvalid, hplaces, ← fill_eq_scatter]
  · refine .of_not_accepts hfits ?_
    rw [← accepts_load_iff] at hfits
    exact Bool.eq_false_of_not_eq_true hfits

theorem loadMap_allOrNothing (s : Store) (entries : List (Datum × Int)) :
    s.AllOrNothing (.loadMap entries)
      (∀ e ∈ Datum.table entries, (address? s.capacity e.1).isSome = true)
      (·.Perm (Datum.table entries)) := by
  by_cases hvalid : ∀ e ∈ Datum.table entries, (address? s.capacity e.1).isSome = true
  · have hload : s.loadMap entries = .ok { s with
        words := scatter s.kind.view s.words ((Datum.table entries).map placeOf) } := by
      rw [loadMap_eq, mapM_placeOf hvalid]
      rfl
    have hserve : s.serve (.loadMap entries) = .ok (.done, { s with
        words := scatter s.kind.view s.words ((Datum.table entries).map placeOf) }) := by
      rw [serve, hload]
      rfl
    refine .served hvalid hserve (serveInPlace_of_ok hserve) ?_
    intro order horder
    have hdistinct := nodup_placeOf hvalid (Datum.distinctKeys_table entries)
    rw [writeAll_eq_ok fun e he => hvalid e (horder.mem_iff.mp he),
      scatter_perm _ _ hdistinct (horder.map placeOf)]
  · refine .of_not_accepts hvalid ?_
    rw [← List.all_eq_true] at hvalid
    exact Bool.eq_false_of_not_eq_true hvalid

/-- Words that are loaded at once are all written or none is.  A list is loaded exactly if its base
is an address and the words fit behind it, and it leaves what the writes at the successive
addresses leave; a table is loaded exactly if all its keys are addresses, and it leaves what the
writes of its entries leave, in any order. -/
theorem bulk_allOrNothing (s : Store) :
    (∀ (words : List Int) (base : Datum), s.AllOrNothing (.load words base)
      (Fits s.capacity base words.length) (· = successive base.toInt words)) ∧
    ∀ entries : List (Datum × Int), s.AllOrNothing (.loadMap entries)
      (∀ e ∈ Datum.table entries, (address? s.capacity e.1).isSome = true)
      (·.Perm (Datum.table entries)) :=
  ⟨s.load_allOrNothing, s.loadMap_allOrNothing⟩

/-- A base or a key whose place has too many digits is not refused as an address.  A base of `4.0`
is no address, although it is the number four. -/
theorem bulk_refused_otherwise :
    ∃ (s : Store) (a : Datum), create .data (.integer 4) = .ok s ∧
      (∃ f, s.serve (.load [7] a) = .error f ∧ f.report.failure = .value) ∧
      (∃ f, s.serve (.loadMap [(.integer 0, 7), (a, 7)]) = .error f ∧
        f.report.failure = .value) ∧
      Datum.whole? (.decimal 40 1) = some 4 ∧
        ∃ f, s.serve (.load [7] (.decimal 40 1)) = .error f := by
  obtain ⟨n, hn⟩ : ∃ n, n = 10 ^ Text.digitLimit := ⟨_, rfl⟩
  have hlarge : 10 ^ 2 ≤ n := by
    rw [hn]
    exact Nat.pow_le_pow_right (by decide) (by decide)
  have hcapacity : (empty .data 4).capacity = 4 := capacity_empty .data 4
  have hclass := addressClass_four_mul hn.ge
  -- The key zero is an address, so that the other one is what the table is refused for.
  have hnone : address? 4 (.integer (4 * n)) = none := by
    simp only [address?, Datum.integer?, Option.filter_some, decide_eq_true_eq]
    rw [if_neg (by omega)]
  have htable : Datum.table [(Datum.integer 0, (7 : Int)), (.integer (4 * n), 7)] =
      [(.integer 0, 7), (.integer (4 * n), 7)] := by
    have hkey : Datum.sameKey (.integer 0) (.integer (4 * n)) = false := by
      simp only [Datum.sameKey, Datum.whole?, Datum.integer?, beq_eq_false_iff_ne]
      omega
    simp only [Datum.table, List.foldl_cons, List.foldl_nil, Datum.put, hkey]
    rfl
  refine ⟨empty .data 4, .integer (4 * n), rfl, ?_, ?_, rfl, _, rfl⟩
  · obtain ⟨f, hserve, hf⟩ := exists_serve_eq_error (s := empty .data 4)
      (r := .load [7] (.integer (4 * n))) (by rw [Request.accepts, hcapacity, hnone]; rfl)
    refine ⟨f, hserve, ?_⟩
    rw [hf, Request.refusal, hcapacity, hnone, hclass]
    rfl
  · obtain ⟨f, hserve, hf⟩ := exists_serve_eq_error (s := empty .data 4)
      (r := .loadMap [(.integer 0, 7), (.integer (4 * n), 7)])
      (by simp only [Request.accepts, htable, hcapacity, List.all_cons, hnone]; rfl)
    refine ⟨f, hserve, ?_⟩
    rw [hf, Request.refusal, htable, hcapacity]
    simp only [List.find?_cons, hnone, Option.isNone_none]
    exact hclass

/-- Words go up to the last place of a store and not one further. -/
example : ((empty .data 3).load [1, 2] (.integer 4)).isOk = true ∧
    ((empty .data 3).load [1, 2, 3] (.integer 4)).isOk = false ∧
    ((empty .data 3).load [] (.integer 12)).isOk = false := by
  decide

end Store

end Rv32
