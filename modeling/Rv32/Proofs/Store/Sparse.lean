import Mathlib
import Rv32.Proofs.Store.Bulk

/-!
# The words other than zero

A store is determined by its kind, its size and its words other than zero.  These are listed with
their addresses in ascending order, and loading the list into a new store of the same size brings
all words back: the others are zero there, and a word that was kept in the view of a store is not
changed when it is wrapped to that view again.  The exported words bring a store back whatever the
store held that takes them in.
-/

namespace Rv32

/-! ## Tables without repeated keys -/

namespace Datum

variable {α : Type}

theorem put_of_forall_ne {key : Datum} {x : α} {t : List (Datum × α)}
    (h : ∀ e ∈ t, sameKey e.1 key = false) : put key x t = t ++ [(key, x)] := by
  induction t with
  | nil => rfl
  | cons e t ih =>
      obtain ⟨he, ht⟩ := List.forall_mem_cons.mp h
      rw [put, he, ih ht]
      rfl

/-- Entries whose keys differ are a table as they stand. -/
theorem table_eq_self {entries : List (Datum × α)} (h : DistinctKeys entries) :
    table entries = entries := by
  have hfold (t : List (Datum × α)) (ht : DistinctKeys (t ++ entries)) :
      entries.foldl (fun t e => put e.1 e.2 t) t = t ++ entries := by
    induction entries generalizing t with
    | nil => exact (List.append_nil t).symm
    | cons e entries ih =>
        have hnew : ∀ f ∈ t, sameKey f.1 e.1 = false := fun f hf =>
          (List.pairwise_append.mp ht).2.2 f hf e List.mem_cons_self
        rw [List.append_cons] at ht
        rw [List.foldl_cons, put_of_forall_ne hnew, ih (List.pairwise_cons.mp h).2 _ ht]
        exact (List.append_cons t e entries).symm
  exact hfold [] h

end Datum

namespace Store

/-! ## Logs without repeated addresses -/

namespace Log

variable {log : Log} {a x : Int}

theorem value_of_mem (hdistinct : (log.map Prod.fst).Nodup) (hmem : (a, x) ∈ log) :
    log.value a = x := by
  induction log with
  | nil => cases hmem
  | cons e log ih =>
      obtain ⟨b, y⟩ := e
      obtain ⟨hnew, hrest⟩ := List.nodup_cons.mp hdistinct
      rw [value_cons]
      rcases List.mem_cons.mp hmem with heq | htail
      · obtain ⟨rfl, rfl⟩ := Prod.mk.inj heq
        exact if_pos rfl
      · have haddress : a ∈ log.map Prod.fst := List.mem_map_of_mem htail
        have hne : a ≠ b := fun hab => hnew (hab ▸ haddress)
        rw [if_neg hne]
        exact ih hrest htail

theorem value_of_forall_ne (h : ∀ e ∈ log, e.1 ≠ a) : log.value a = 0 := by
  have hnone : log.lookup a = none := by
    rw [List.lookup_eq_none_iff]
    intro e he
    exact bne_iff_ne.mpr (h e he).symm
  rw [value, hnone]
  rfl

end Log

/-! ## The list of words other than zero -/

variable {s t : Store} {a x : Int}

theorem mem_nonzero_iff :
    (a, x) ∈ s.nonzero ↔ x ≠ 0 ∧ ∃ i : Nat, s.words[i]? = some x ∧ a = 4 * i := by
  simp only [nonzero, List.mem_filterMap, Prod.exists, List.mk_mem_zipIdx_iff_getElem?,
    Array.getElem?_toList]
  constructor
  · rintro ⟨y, i, hi, hy⟩
    split at hy
    · next hne =>
        obtain ⟨rfl, rfl⟩ := Prod.mk.inj (Option.some.inj hy)
        exact ⟨hne, i, hi, mul_comm _ _⟩
    · cases hy
  · rintro ⟨hne, i, hi, rfl⟩
    refine ⟨x, i, hi, ?_⟩
    rw [if_pos hne, mul_comm]

/-- The listed words are those that read as other than zero, at the addresses given. -/
theorem mem_nonzero_iff_read :
    (a, x) ∈ s.nonzero ↔ x ≠ 0 ∧ s.read (.integer a) = .ok x := by
  rw [mem_nonzero_iff]
  refine and_congr_right fun _ => ⟨?_, fun h => ?_⟩
  · rintro ⟨i, hi, rfl⟩
    exact read_integer hi
  · obtain ⟨hfour, hnonneg, hword⟩ := getElem?_of_read_eq_ok h
    exact ⟨(a / 4).toNat, hword, by omega⟩

theorem pairwise_nonzero (s : Store) : s.nonzero.Pairwise fun e f => e.1 < f.1 := by
  have hplaces : s.words.toList.zipIdx.Pairwise fun p q => p.2 < q.2 := by
    rw [← List.pairwise_map, List.zipIdx_map_snd]
    exact List.pairwise_lt_range'
  have hlisted {p : Int × Nat} {e : Int × Int}
      (he : (if p.1 ≠ 0 then some ((p.2 : Int) * 4, p.1) else none) = some e) :
      e.1 = p.2 * 4 := by
    split at he
    · exact congrArg Prod.fst (Option.some.inj he).symm
    · cases he
  refine List.pairwise_filterMap.mpr (hplaces.imp ?_)
  intro p q hpq e he f hf
  rw [hlisted he, hlisted hf]
  omega

theorem nodup_nonzero (s : Store) : (s.nonzero.map Prod.fst).Nodup :=
  List.pairwise_map.mpr (s.pairwise_nonzero.imp ne_of_lt)

/-- As a log, in either order, the list knows every word of the store. -/
theorem value_nonzero {i : Nat} (h : s.words[i]? = some x) :
    Log.value s.nonzero.reverse (4 * i) = x := by
  by_cases hx : x = 0
  · rw [hx]
    apply Log.value_of_forall_ne
    rintro ⟨a, y⟩ hmem heq
    obtain ⟨hne, j, hj, rfl⟩ := mem_nonzero_iff.mp (List.mem_reverse.mp hmem)
    obtain rfl : j = i := by
      simp only at heq
      omega
    rw [h] at hj
    exact hne ((Option.some.inj hj).symm.trans hx)
  · apply Log.value_of_mem
    · rw [List.map_reverse, List.nodup_reverse]
      exact s.nodup_nonzero
    · exact List.mem_reverse.mpr (mem_nonzero_iff.mpr ⟨hx, i, h, rfl⟩)

/-! ## Bringing the words back -/

/-- Pairs of addresses and words, as entries for loading. -/
def entries (pairs : List (Int × Int)) : List (Datum × Int) :=
  pairs.map fun e => (.integer e.1, e.2)

theorem distinctKeys_entries {pairs : List (Int × Int)} (h : (pairs.map Prod.fst).Nodup) :
    Datum.DistinctKeys (entries pairs) := by
  rw [List.Nodup, List.pairwise_map] at h
  refine List.pairwise_map.mpr (h.imp ?_)
  intro e f hne
  exact beq_eq_false_iff_ne.mpr hne

theorem stored_entries {pairs : List (Int × Int)} (h : (pairs.map Prod.fst).Nodup) :
    (Request.loadMap (entries pairs)).stored = pairs := by
  rw [Request.stored, Datum.table_eq_self (distinctKeys_entries h), entries, List.map_map]
  exact List.map_id' pairs

theorem accepts_nonzero (s : Store) :
    (Request.loadMap (entries s.nonzero)).accepts s.capacity = true := by
  rw [Request.accepts, Datum.table_eq_self (distinctKeys_entries s.nodup_nonzero),
    List.all_eq_true]
  intro e he
  obtain ⟨⟨a, x⟩, hmem, rfl⟩ := List.mem_map.mp he
  obtain ⟨-, i, hi, rfl⟩ := mem_nonzero_iff.mp hmem
  have hlt : i < s.capacity := (Array.getElem?_eq_some_iff.mp hi).1
  exact Option.isSome_iff_exists.mpr
    ⟨4 * i, address?_eq_some_iff.mpr ⟨rfl, by omega, by omega, by omega⟩⟩

/-- A store whose log knows every word of a well-formed store holds its words. -/
theorem Reflects.words_eq {log : Log} (ht : t.Reflects log)
    (hs : s.WellFormed t.kind t.capacity)
    (hlog : ∀ (i : Nat) (x : Int), s.words[i]? = some x → log.value (4 * i) = x) :
    t.words = s.words := by
  apply Array.ext_getElem?
  intro i
  cases hi : s.words[i]? with
  | none =>
      have hsize : t.words.size = s.words.size := hs.capacity.symm
      rw [Array.getElem?_eq_none_iff] at hi ⊢
      exact hsize.trans_le hi
  | some x =>
      obtain ⟨hlt, hx⟩ := Array.getElem?_eq_some_iff.mp hi
      have hlt' : i < t.capacity := lt_of_lt_of_eq hlt hs.capacity
      rw [ht i hlt', hlog i x hi, hs.view x (hx ▸ Array.getElem_mem hlt)]

/-- The words other than zero bring a well-formed store back in a store of zeros. -/
theorem loadMap_nonzero (ht : t.Reflects []) (hs : s.WellFormed t.kind t.capacity) :
    t.loadMap (entries s.nonzero) = .ok { t with words := s.words } := by
  have haccepts := s.accepts_nonzero
  rw [hs.capacity] at haccepts
  obtain ⟨u, hload, hstores⟩ := loadMap_of_accepts haccepts
  have hrewords := Rewords.loadMap hload
  have hreflects := ht.stores hstores
  rw [stored_entries s.nodup_nonzero, List.append_nil] at hreflects
  rw [← hrewords.kind, ← hrewords.capacity] at hs
  have hwords := hreflects.words_eq hs fun i x => value_nonzero
  obtain ⟨words, rfl⟩ := hrewords.eq
  rw [hload]
  exact congrArg (fun words => Except.ok { t with words }) hwords

/-- The exported words bring a well-formed store back in any store. -/
theorem importState_exportState (hs : s.WellFormed t.kind t.capacity) :
    t.importState s.exportState = .ok { t with words := s.words } := by
  have hitems : (s.exportState.get? "words").bind Datum.items? =
      some (s.words.toList.map .integer) := rfl
  have hlength : (s.words.toList.map Datum.integer).length = t.capacity := by
    rw [List.length_map, Array.length_toList]
    exact hs.capacity
  have hview : (s.words.toList.map fun x => t.kind.view (Datum.integer x).toInt) =
      s.words.toList := by
    refine (List.map_congr_left fun x hx => ?_).trans (List.map_id _)
    exact hs.view x (Array.mem_toList_iff.mp hx)
  simp only [importState, hitems, hlength, ne_eq, not_true_eq_false, if_false, List.map_map,
    Function.comp_def, hview]

/-- The words other than zero determine a store.  Whatever was asked of a new store, its list of
them has ascending addresses, each with the word that is read there, and no word but zero is left
out; and the words of the store come back by loading the list into a new store of the same kind
and size, and by importing its exported words into any store of that kind and size. -/
theorem nonzero_determines {kind : StoreKind} {size : Datum} {new : Store}
    (hnew : create kind size = .ok new) (requests : List Request) :
    let s := new.afterAll requests
    s.serve .nonzero = .ok (.pairs s.nonzero, s) ∧
    s.nonzero.Pairwise (fun e f => e.1 < f.1) ∧
    (∀ a x, (a, x) ∈ s.nonzero ↔
      x ≠ 0 ∧ s.serve (.read (.integer a)) = .ok (.word x, s)) ∧
    (∀ size' t, create kind size' = .ok t → t.capacity = s.capacity →
      t.serve (.loadMap (entries s.nonzero)) = .ok (.done, { t with words := s.words })) ∧
    ∀ t : Store, t.kind = kind → t.capacity = s.capacity →
      t.serve (.importState s.exportState) = .ok (.done, { t with words := s.words }) := by
  intro s
  have hs : s.WellFormed kind s.capacity := by
    have hrewords := Rewords.afterAll new requests
    rw [hrewords.capacity]
    exact (wellFormed_of_create hnew).of_rewords hrewords
  refine ⟨rfl, s.pairwise_nonzero, ?_, ?_, ?_⟩
  · intro a x
    rw [mem_nonzero_iff_read, serve]
    refine and_congr_right fun _ => ⟨fun h => by rw [h]; rfl, fun h => ?_⟩
    obtain ⟨y, hread, hy⟩ := Fault.bind_eq_ok h
    obtain ⟨hword, -⟩ := Prod.mk.inj (Except.ok.inj hy)
    rw [hread, Reply.word.inj hword]
  · intro size' t ht hcapacity
    have hkind := (wellFormed_of_create ht).kind
    rw [← hkind, ← hcapacity] at hs
    rw [serve, loadMap_nonzero (reflects_of_create ht) hs]
    rfl
  · intro t hkind hcapacity
    rw [← hkind, ← hcapacity] at hs
    rw [serve, importState_exportState hs]
    rfl

/-- A data store of three words in which `-1` and `7` were written. -/
theorem nonzero_determines_three :
    create .data (.integer 3) = .ok (empty .data 3) ∧
      let s := (empty .data 3).afterAll
        [.write (.integer 8) 7 true, .write (.integer 4) 4294967295 true]
      s.serve .nonzero = .ok (.pairs [(4, -1), (8, 7)], s) ∧
      (empty .data 3).serve (.loadMap (entries [(4, -1), (8, 7)])) = .ok (.done, s) ∧
      ((empty .data 3).put ⟨0, by decide⟩ 5).serve (.importState s.exportState) =
        .ok (.done, s) := by
  have hnew : create .data (.integer 3) = .ok (empty .data 3) := rfl
  refine ⟨hnew, ?_⟩
  intro s
  have hpairs : s.nonzero = [(4, -1), (8, 7)] := by decide
  obtain ⟨hserve, -, -, hload, himport⟩ := nonzero_determines hnew
    [.write (.integer 8) 7 true, .write (.integer 4) 4294967295 true]
  rw [← hpairs]
  exact ⟨hserve, hload _ _ hnew rfl, himport _ rfl rfl⟩

end Store

end Rv32
