import Mathlib
import Rv32.Proofs.Store.InPlace

/-!
# A store is a map from addresses to words

What a store holds can be read off a log of what was stored in it since the last reset: an address
holds the last value that the log has for it, or zero.  The log is made from the requests alone.
It knows the number of words, which decides what is accepted, but neither the view of the store nor
its words.  Two stores of one size that are asked the same therefore go together, whatever their
kinds.
-/

namespace Rv32.Store

/-! ## Addresses -/

/-- The address that a datum is in a store of `n` words: a multiple of four, from zero to the last
word. -/
def address? (n : Nat) (address : Datum) : Option Int :=
  address.integer?.filter fun a => a % 4 = 0 ∧ 0 ≤ a ∧ a < 4 * n

theorem address?_eq_some_iff {n : Nat} {address : Datum} {a : Int} :
    address? n address = some a ↔
      address.integer? = some a ∧ a % 4 = 0 ∧ 0 ≤ a ∧ a < 4 * n := by
  simp [address?, Option.filter_eq_some_iff]

variable {s : Store} {address : Datum} {a : Int}

theorem slot_eq_ok_iff_address? {i : Fin s.words.size} :
    s.slot address = .ok i ↔ address? s.capacity address = some (4 * (i.val : Int)) := by
  have hi := i.isLt
  rw [slot_eq_ok_iff, address?_eq_some_iff, capacity]
  constructor
  · intro h
    exact ⟨h, by omega, by omega, by omega⟩
  · intro h
    exact h.1

theorem exists_slot_of_address? (h : address? s.capacity address = some a) :
    ∃ i : Fin s.words.size, s.slot address = .ok i ∧ a = 4 * (i.val : Int) := by
  obtain ⟨-, hfour, hnonneg, hlt⟩ := address?_eq_some_iff.mp h
  have hplace : (a / 4).toNat < s.words.size := by
    unfold capacity at hlt
    omega
  have ha : a = 4 * ((a / 4).toNat : Int) := by
    omega
  refine ⟨⟨(a / 4).toNat, hplace⟩, ?_, ha⟩
  rw [slot_eq_ok_iff_address?, h]
  exact congrArg some ha

/-- Whatever is no address is refused, and `addressClass` says as what. -/
theorem exists_error_of_address? (h : (address? s.capacity address).isSome = false) :
    ∃ f, s.slot address = .error f ∧ f.report.failure = addressClass address := by
  cases hslot : s.slot address with
  | error f => exact ⟨f, rfl, failure_of_slot_eq_error hslot⟩
  | ok i =>
      rw [slot_eq_ok_iff_address?.mp hslot] at h
      cases h

/-! ## Requests -/

namespace Request

/-- Whether a store of `n` words accepts a request. -/
def accepts (n : Nat) : Request → Bool
  | .read address | .write address _ true | .dump address _ => (address? n address).isSome
  | .load words base => (address? n base).any fun (a : Int) => a + 4 * words.length ≤ 4 * n
  | .loadMap entries => (Datum.table entries).all fun e => (address? n e.1).isSome
  | .importState state => ((state.get? "words").bind Datum.items?).any fun l => l.length = n
  | .write _ _ false | .reset | .exportState | .nonzero => true

/-- The values that an accepted request stores, each with its address, one after the other. -/
def stored : Request → List (Int × Int)
  | .write address value true => [(address.toInt, value)]
  | .load words base => words.zipIdx.map fun (x, k) => (base.toInt + 4 * k, x)
  | .loadMap entries => (Datum.table entries).map fun (address, x) => (address.toInt, x)
  | .importState state =>
    (((state.get? "words").bind Datum.items?).getD []).zipIdx.map fun (d, k) => (4 * k, d.toInt)
  | _ => []

/-- The class of the failure with which a store of `n` words refuses a request that it does not
accept.  It is that of the address which is refused; words that do not fit behind an address are
refused for it all the same. -/
def refusal (n : Nat) : Request → FailureClass
  | .read address | .write address _ _ | .dump address _ => addressClass address
  | .load _ base => if (address? n base).isSome then .address else addressClass base
  | .loadMap entries =>
    ((Datum.table entries).find? fun e => (address? n e.1).isNone).elim .address
      fun e => addressClass e.1
  | .importState _ => .state
  | .reset | .exportState | .nonzero => .address

end Request

/-! ## Logs -/

/-- The addresses that were stored to since the last reset, with their values, the latest first. -/
abbrev Log := List (Int × Int)

namespace Log

/-- The last value that was stored at an address, or zero. -/
def value (log : Log) (a : Int) : Int := (log.lookup a).getD 0

/-- The log of a store of `n` words after one more request. -/
def after (n : Nat) (log : Log) : Request → Log
  | .reset => []
  | r => if r.accepts n then r.stored.reverse ++ log else log

/-- The log of a new store of `n` words after several requests. -/
def ofRequests (n : Nat) (requests : List Request) : Log := requests.foldl (after n) []

theorem value_cons (log : Log) (a b x : Int) :
    value ((a, x) :: log) b = if b = a then x else log.value b := by
  unfold value
  rw [List.lookup_cons]
  by_cases h : b = a
  · rw [if_pos h, beq_iff_eq.mpr h]
    rfl
  · rw [if_neg h, beq_eq_false_iff_ne.mpr h]

theorem after_of_ne_reset {n : Nat} {log : Log} {r : Request} (hr : r ≠ .reset)
    (h : r.accepts n = true) : log.after n r = r.stored.reverse ++ log := by
  unfold after
  split
  · exact absurd rfl hr
  · rw [if_pos h]

theorem after_of_refused {n : Nat} {log : Log} {r : Request} (h : r.accepts n = false) :
    log.after n r = log := by
  unfold after
  split
  · cases h
  · rw [h]
    rfl

end Log

/-! ## What a store holds -/

/-- At each place a store holds the last value of the log, in its view. -/
def Reflects (s : Store) (log : Log) : Prop :=
  ∀ i < s.capacity, s.words[i]? = some (s.kind.view (log.value (4 * i)))

variable {log : Log}

theorem reflects_reset (s : Store) : s.reset.Reflects [] := by
  intro i hi
  have hlt : i < s.capacity := by
    simpa [reset, capacity] using hi
  simp [reset, Log.value, hlt]

theorem reflects_of_create {kind : StoreKind} {size : Datum} (h : create kind size = .ok s) :
    s.Reflects [] := by
  rw [← reset_of_create h]
  exact reflects_reset s

theorem Reflects.set (h : s.Reflects log) (i : Nat) (x : Int) :
    Reflects { s with words := s.words.setIfInBounds i (s.kind.view x) }
      ((4 * (i : Int), x) :: log) := by
  intro j hj
  have hlt : j < s.words.size := by
    simpa [capacity] using hj
  rw [Array.getElem?_setIfInBounds, Log.value_cons]
  by_cases hij : i = j
  · subst hij
    simp [hlt]
  · have hne : ¬ (4 * (j : Int) = 4 * i) := by
      omega
    rw [if_neg hij, if_neg hne]
    exact h j hlt

/-- The store `t` is `s` with values stored at several addresses, one after the other. -/
def Stores (s t : Store) (entries : List (Int × Int)) : Prop :=
  ∃ places : List (Nat × Int),
    t = { s with words := scatter s.kind.view s.words places } ∧
      places.map (fun p => (4 * (p.1 : Int), p.2)) = entries

/-- What is stored goes to the front of the log. -/
theorem Reflects.stores {t : Store} {entries : List (Int × Int)} (h : s.Reflects log)
    (ht : s.Stores t entries) : t.Reflects (entries.reverse ++ log) := by
  obtain ⟨places, rfl, rfl⟩ := ht
  induction places generalizing s log with
  | nil => exact h
  | cons p places ih =>
      have hrest := ih (h.set p.1 p.2)
      rw [List.map_cons, List.reverse_cons, List.append_assoc]
      exact hrest

/-! ## Accepted requests -/

theorem toInt_of_address? {n : Nat} (h : address? n address = some a) : address.toInt = a := by
  rw [Datum.toInt, (address?_eq_some_iff.mp h).1]
  rfl

theorem write_of_address? (h : address? s.capacity address = some a) (x : Int) :
    ∃ i : Fin s.words.size, a = 4 * (i.val : Int) ∧ s.write address x = .ok (s.put i x) := by
  obtain ⟨i, hslot, ha⟩ := exists_slot_of_address? h
  refine ⟨i, ha, ?_⟩
  rw [write, hslot]
  rfl

theorem stores_put (s : Store) (i : Fin s.words.size) (x : Int) :
    s.Stores (s.put i x) [(4 * (i.val : Int), x)] := by
  refine ⟨[(i.val, x)], ?_, rfl⟩
  simp only [put, scatter, Array.setIfInBounds_def, dif_pos i.isLt]

theorem load_of_accepts {words : List Int} {base : Datum}
    (h : (Request.load words base).accepts s.capacity = true) :
    ∃ t, s.load words base = .ok t ∧ s.Stores t (Request.load words base).stored := by
  obtain ⟨a, ha, hfit⟩ := (Option.any_eq_true _ _).mp h
  rw [decide_eq_true_eq] at hfit
  obtain ⟨i, hslot, rfl⟩ := exists_slot_of_address? ha
  have hshort : ¬ s.capacity < i + words.length := by
    omega
  refine ⟨{ s with words := fill s.kind.view s.words i words }, ?_, ?_⟩
  · rw [load, hslot, Fault.ok_bind, if_neg hshort]
    rfl
  · refine ⟨_, by rw [fill_eq_scatter], ?_⟩
    rw [Request.stored, toInt_of_address? ha, List.zipIdx_eq_map_add, List.map_map, List.map_map]
    apply List.map_congr_left
    intro p _
    simp only [Function.comp_apply, Prod.mk.injEq, and_true]
    push_cast
    ring

theorem mapM_place_of_all {entries : List (Datum × Int)}
    (h : (entries.all fun e => (address? s.capacity e.1).isSome) = true) :
    ∃ places : List (Nat × Int), entries.mapM s.place = .ok places ∧
      places.map (fun p => (4 * (p.1 : Int), p.2)) = entries.map fun e => (e.1.toInt, e.2) := by
  induction entries with
  | nil => exact ⟨[], rfl, rfl⟩
  | cons e entries ih =>
      obtain ⟨he, hrest⟩ := Bool.and_eq_true_iff.mp (List.all_cons.symm.trans h)
      obtain ⟨a, ha⟩ := Option.isSome_iff_exists.mp he
      obtain ⟨i, hslot, rfl⟩ := exists_slot_of_address? ha
      obtain ⟨places, hplaces, hstored⟩ := ih hrest
      refine ⟨(i.val, e.2) :: places, ?_, ?_⟩
      · rw [List.mapM_cons, place, hslot, hplaces]
        rfl
      · rw [List.map_cons, List.map_cons, hstored, toInt_of_address? ha]

theorem loadMap_of_accepts {entries : List (Datum × Int)}
    (h : (Request.loadMap entries).accepts s.capacity = true) :
    ∃ t, s.loadMap entries = .ok t ∧ s.Stores t (Request.loadMap entries).stored := by
  obtain ⟨places, hplaces, hstored⟩ := mapM_place_of_all h
  refine ⟨_, ?_, places, rfl, hstored⟩
  rw [loadMap_eq, hplaces]
  rfl

theorem importState_of_accepts {state : Datum}
    (h : (Request.importState state).accepts s.capacity = true) :
    ∃ t, s.importState state = .ok t ∧ s.Stores t (Request.importState state).stored := by
  obtain ⟨items, hitems, hlength⟩ := (Option.any_eq_true _ _).mp h
  rw [decide_eq_true_eq] at hlength
  have hsize : (items.map Datum.toInt).length = s.words.size := by
    rw [List.length_map]
    exact hlength
  refine ⟨{ s with words := fill s.kind.view s.words 0 (items.map Datum.toInt) }, ?_, ?_⟩
  · rw [fill_zero s.kind.view hsize, List.map_map]
    simp only [Store.importState, hitems, if_neg (not_not.mpr hlength)]
    rfl
  · refine ⟨_, by rw [fill_eq_scatter], ?_⟩
    simp only [Request.stored, hitems, Option.getD_some, List.zipIdx_map, List.map_map]
    rfl

/-- An accepted request has a reply, and leaves a store that the longer log is about. -/
theorem Reflects.exists_serve (h : s.Reflects log) {r : Request}
    (hr : r.accepts s.capacity = true) :
    ∃ reply t, s.serve r = .ok (reply, t) ∧ t.Reflects (log.after s.capacity r) := by
  -- Most requests store nothing, and those that do are told apart by what they store.
  have hkept {r : Request} (hne : r ≠ .reset) (hnone : r.stored = [])
      (hr : r.accepts s.capacity = true) : s.Reflects (log.after s.capacity r) := by
    rw [Log.after_of_ne_reset hne hr, hnone]
    exact h
  have hstores {r : Request} {t : Store} (hne : r ≠ .reset) (ht : s.Stores t r.stored)
      (hr : r.accepts s.capacity = true) : t.Reflects (log.after s.capacity r) := by
    rw [Log.after_of_ne_reset hne hr]
    exact h.stores ht
  cases r with
  | read address =>
      obtain ⟨a, ha⟩ := Option.isSome_iff_exists.mp hr
      obtain ⟨i, hslot, rfl⟩ := exists_slot_of_address? ha
      refine ⟨.word s.words[i], s, ?_, hkept (by simp) rfl hr⟩
      rw [serve, read, hslot]
      rfl
  | write address value enabled =>
      cases enabled with
      | false => exact ⟨.written false, s, rfl, hkept (by simp) rfl hr⟩
      | true =>
          obtain ⟨a, ha⟩ := Option.isSome_iff_exists.mp hr
          obtain ⟨i, rfl, hwrite⟩ := write_of_address? ha value
          have hstored : s.Stores (s.put i value) (Request.write address value true).stored := by
            rw [Request.stored, toInt_of_address? ha]
            exact stores_put s i value
          refine ⟨.written true, s.put i value, ?_, hstores (by simp) hstored hr⟩
          rw [serve, if_pos rfl, hwrite]
          rfl
  | reset => exact ⟨.done, s.reset, rfl, reflects_reset s⟩
  | load words base =>
      obtain ⟨t, hload, ht⟩ := load_of_accepts hr
      refine ⟨.done, t, ?_, hstores (by simp) ht hr⟩
      rw [serve, hload]
      rfl
  | loadMap entries =>
      obtain ⟨t, hload, ht⟩ := loadMap_of_accepts hr
      refine ⟨.done, t, ?_, hstores (by simp) ht hr⟩
      rw [serve, hload]
      rfl
  | exportState => exact ⟨.state s.exportState, s, rfl, hkept (by simp) rfl hr⟩
  | importState state =>
      obtain ⟨t, himport, ht⟩ := importState_of_accepts hr
      refine ⟨.done, t, ?_, hstores (by simp) ht hr⟩
      rw [serve, himport]
      rfl
  | nonzero => exact ⟨.pairs s.nonzero, s, rfl, hkept (by simp) rfl hr⟩
  | dump start count =>
      obtain ⟨a, ha⟩ := Option.isSome_iff_exists.mp hr
      obtain ⟨i, hslot, rfl⟩ := exists_slot_of_address? ha
      obtain ⟨lines, hlines⟩ : ∃ lines, s.dump start count = .ok lines := by
        rw [dump, hslot]
        exact ⟨_, rfl⟩
      refine ⟨.text lines, s, ?_, hkept (by simp) rfl hr⟩
      rw [serve, hlines]
      rfl

/-! ## Refused requests -/

theorem load_of_not_accepts {words : List Int} {base : Datum}
    (h : (Request.load words base).accepts s.capacity = false) :
    ∃ f, s.load words base = .error f ∧
      f.report.failure = (Request.load words base).refusal s.capacity := by
  rw [Request.refusal]
  cases ha : address? s.capacity base with
  | none =>
      have hnone : (address? s.capacity base).isSome = false := by
        rw [ha]
        rfl
      obtain ⟨f, hslot, hf⟩ := exists_error_of_address? hnone
      refine ⟨f, ?_, hf⟩
      rw [load, hslot]
      rfl
  | some a =>
      obtain ⟨i, hslot, rfl⟩ := exists_slot_of_address? ha
      have hlong : s.capacity < i + words.length := by
        simp only [Request.accepts, ha, Option.any_some, decide_eq_false_iff_not] at h
        omega
      refine ⟨.loadTooLong s.kind base words.length s.size, ?_, rfl⟩
      rw [load, hslot, Fault.ok_bind, if_pos hlong]
      rfl

/-- The first entry whose key is no address decides how a table is refused. -/
theorem mapM_place_of_not_all {entries : List (Datum × Int)}
    (h : (entries.all fun e => (address? s.capacity e.1).isSome) = false) :
    ∃ f, entries.mapM s.place = .error f ∧
      f.report.failure = (entries.find? fun e => (address? s.capacity e.1).isNone).elim .address
        fun e => addressClass e.1 := by
  induction entries with
  | nil => cases h
  | cons e entries ih =>
      rw [List.mapM_cons, List.find?_cons, ← Option.not_isSome]
      cases he : (address? s.capacity e.1).isSome with
      | false =>
          obtain ⟨f, hslot, hf⟩ := exists_error_of_address? he
          refine ⟨f, ?_, hf⟩
          rw [place, hslot]
          rfl
      | true =>
          obtain ⟨a, ha⟩ := Option.isSome_iff_exists.mp he
          obtain ⟨i, hslot, rfl⟩ := exists_slot_of_address? ha
          rw [List.all_cons, he, Bool.true_and] at h
          obtain ⟨f, hrest, hf⟩ := ih h
          refine ⟨f, ?_, hf⟩
          rw [place, hslot, hrest]
          rfl

theorem importState_of_not_accepts {state : Datum}
    (h : (Request.importState state).accepts s.capacity = false) :
    ∃ f, s.importState state = .error f ∧ f.report.failure = .state := by
  unfold Store.importState
  simp only [Request.accepts] at h
  split
  · exact ⟨_, rfl, rfl⟩
  · next items hitems =>
      rw [hitems, Option.any_some, decide_eq_false_iff_not] at h
      rw [if_pos h]
      exact ⟨_, rfl, rfl⟩

/-- Whatever is not accepted is refused, with a failure of its class. -/
theorem exists_serve_eq_error {r : Request} (hr : r.accepts s.capacity = false) :
    ∃ f, s.serve r = .error f ∧ f.report.failure = r.refusal s.capacity := by
  cases r with
  | read address =>
      obtain ⟨f, hslot, hf⟩ := exists_error_of_address? hr
      refine ⟨f, ?_, hf⟩
      rw [serve, read, hslot]
      rfl
  | write address value enabled =>
      cases enabled with
      | false => cases hr
      | true =>
          obtain ⟨f, hslot, hf⟩ := exists_error_of_address? hr
          refine ⟨f, ?_, hf⟩
          rw [serve, if_pos rfl, write, hslot]
          rfl
  | load words base =>
      obtain ⟨f, hload, hf⟩ := load_of_not_accepts hr
      refine ⟨f, ?_, hf⟩
      rw [serve, hload]
      rfl
  | loadMap entries =>
      obtain ⟨f, hplaces, hf⟩ := mapM_place_of_not_all hr
      refine ⟨f, ?_, hf⟩
      rw [serve, loadMap_eq, hplaces]
      rfl
  | importState state =>
      obtain ⟨f, himport, hf⟩ := importState_of_not_accepts hr
      refine ⟨f, ?_, hf⟩
      rw [serve, himport]
      rfl
  | dump start count =>
      obtain ⟨f, hslot, hf⟩ := exists_error_of_address? hr
      refine ⟨f, ?_, hf⟩
      rw [serve, dump, hslot]
      rfl
  | reset => cases hr
  | exportState => cases hr
  | nonzero => cases hr

/-! ## Any number of requests -/

/-- The store after several requests, refused or not. -/
def afterAll (s : Store) (requests : List Request) : Store := requests.foldl Store.after s

theorem after_of_serve_eq_error {f : Fault} {r : Request} (h : s.serve r = .error f) :
    s.after r = s := by
  simp only [Store.after, h]

/-- One more request leaves a store that the longer log is about. -/
theorem Reflects.after (h : s.Reflects log) (r : Request) :
    (s.after r).Reflects (log.after s.capacity r) := by
  cases hr : r.accepts s.capacity with
  | true =>
      obtain ⟨reply, t, hserve, ht⟩ := h.exists_serve hr
      simp only [Store.after, hserve]
      exact ht
  | false =>
      obtain ⟨f, hserve, -⟩ := exists_serve_eq_error hr
      rw [after_of_serve_eq_error hserve, Log.after_of_refused hr]
      exact h

theorem Rewords.afterAll (s : Store) (requests : List Request) :
    s.Rewords (s.afterAll requests) := by
  induction requests generalizing s with
  | nil => exact refl s
  | cons r requests ih => exact (after s r).trans (ih (s.after r))

theorem Reflects.afterAll (h : s.Reflects log) (requests : List Request) :
    (s.afterAll requests).Reflects (requests.foldl (Log.after s.capacity) log) := by
  induction requests generalizing s log with
  | nil => exact h
  | cons r requests ih =>
      have hrest := ih (h.after r)
      rw [(Rewords.after s r).capacity] at hrest
      exact hrest

/-! ## The map -/

/-- The store `s` acts as the map that a log describes.  An address reads as its last value, a write
changes what its address reads as and nothing else, a write that is not enabled does nothing, and a
request is served or refused as the number of words says.  In place as well it is served as a whole
or leaves every word as it was. -/
structure ActsAsMap (kind : StoreKind) (n : Nat) (log : Log) (s : Store) : Prop where
  read : ∀ address a, address? n address = some a →
    s.serve (.read address) = .ok (.word (kind.view (log.value a)), s)
  write : ∀ address a x, address? n address = some a →
    ∃ t, s.serve (.write address x true) = .ok (.written true, t) ∧
      ∀ other b, address? n other = some b →
        t.read other = if b = a then .ok (kind.view x) else s.read other
  disabled : ∀ address x, s.serve (.write address x false) = .ok (.written false, s)
  served : ∀ r, r.accepts n = true → ∃ reply,
    s.serve r = .ok (reply, s.after r) ∧ s.serveInPlace r = (s.after r, .ok reply)
  refused : ∀ r, r.accepts n = false → ∃ f,
    s.serve r = .error f ∧ f.report.failure = r.refusal n ∧
      s.serveInPlace r = (s, .error (.refused f)) ∧ s.after r = s

/-- Two stores serve and refuse the same requests, and hold the same words. -/
structure Agree (s t : Store) : Prop where
  served : ∀ r, (s.serve r).isOk = (t.serve r).isOk
  words : s.words.map Word.unsigned = t.words.map Word.unsigned

theorem Reflects.read_eq (h : s.Reflects log) (ha : address? s.capacity address = some a) :
    s.read address = .ok (s.kind.view (log.value a)) := by
  obtain ⟨i, hslot, rfl⟩ := exists_slot_of_address? ha
  have hword := h i i.isLt
  rw [Array.getElem?_eq_getElem i.isLt] at hword
  rw [Store.read, hslot]
  exact congrArg Except.ok (Option.some.inj hword)

theorem Reflects.actsAsMap (h : s.Reflects log) : s.ActsAsMap s.kind s.capacity log where
  read := by
    intro address a ha
    rw [serve, h.read_eq ha]
    rfl
  write := by
    intro address a x ha
    obtain ⟨i, rfl, hwrite⟩ := write_of_address? ha x
    refine ⟨s.put i x, ?_, ?_⟩
    · rw [serve, if_pos rfl, hwrite]
      rfl
    · intro other b hb
      have hput := h.stores (stores_put s i x)
      have hcapacity := capacity_put s i x
      rw [h.read_eq hb]
      rw [← hcapacity] at hb
      rw [hput.read_eq hb, List.reverse_singleton, List.singleton_append, Log.value_cons, kind_put]
      split <;> rfl
  disabled := fun _ _ => rfl
  served := by
    intro r hr
    obtain ⟨reply, t, hserve, -⟩ := h.exists_serve hr
    have hafter : s.after r = t := by
      simp only [Store.after, hserve]
    rw [hafter]
    exact ⟨reply, hserve, serveInPlace_of_ok hserve⟩
  refused := by
    intro r hr
    obtain ⟨f, hserve, hf⟩ := exists_serve_eq_error hr
    exact ⟨f, hserve, hf, serveInPlace_of_error hserve, after_of_serve_eq_error hserve⟩

theorem Reflects.isOk_serve (h : s.Reflects log) (r : Request) :
    (s.serve r).isOk = r.accepts s.capacity := by
  cases hr : r.accepts s.capacity with
  | true =>
      obtain ⟨reply, t, hserve, -⟩ := h.exists_serve hr
      rw [hserve]
      rfl
  | false =>
      obtain ⟨f, hserve, -⟩ := exists_serve_eq_error hr
      rw [hserve]
      rfl

/-- Stores of one size with one log agree, whatever their views. -/
theorem Reflects.agree {t : Store} (hs : s.Reflects log) (ht : t.Reflects log)
    (hcapacity : t.capacity = s.capacity) : s.Agree t where
  served := by
    intro r
    rw [hs.isOk_serve, ht.isOk_serve, hcapacity]
  words := by
    apply Array.ext_getElem?
    intro i
    rw [Array.getElem?_map, Array.getElem?_map]
    by_cases hi : i < s.capacity
    · rw [hs i hi, ht i (hcapacity ▸ hi), Option.map_some, Option.map_some,
        StoreKind.unsigned_view, StoreKind.unsigned_view]
    · have hout : s.words.size ≤ i := not_lt.mp hi
      have hout' : t.words.size ≤ i := hcapacity.trans_le hout
      rw [Array.getElem?_eq_none hout, Array.getElem?_eq_none hout']

/-! ## New stores -/

theorem exists_create (kind : StoreKind) {n : Nat} (hn : 0 < n) {size : Datum}
    (hsize : size.integer? = some (n : Int)) :
    ∃ s, create kind size = .ok s ∧ s.kind = kind ∧ s.capacity = n ∧ s.Reflects [] := by
  cases size with
  | flag b =>
      cases b with
      | true =>
          obtain rfl : 1 = n := Int.ofNat.inj (Option.some.inj hsize)
          have hcreate : create kind (.flag true) =
              .ok { empty kind 1 with sizedByTruth := true } := rfl
          exact ⟨_, hcreate, rfl, rfl, reflects_of_create hcreate⟩
      | false =>
          obtain rfl : 0 = n := Int.ofNat.inj (Option.some.inj hsize)
          exact absurd hn (lt_irrefl 0)
  | integer x =>
      obtain rfl : x = n := Option.some.inj hsize
      have hpos : 0 < (n : Int) := by
        omega
      have hcreate : create kind (.integer n) = .ok (empty kind n) := if_pos hpos
      exact ⟨empty kind n, hcreate, rfl, capacity_empty kind n, reflects_of_create hcreate⟩
  | null => cases hsize
  | decimal digits places => cases hsize
  | text cs => cases hsize
  | list items => cases hsize
  | record fields => cases hsize

/-- Stores act as maps.  Whatever is asked of a new program store and of a new data store of as many
words, in whatever order and with whatever addresses and values, refused or not, each of the two
acts as the map that the requests describe, and the two agree. -/
theorem afterAll_actsAsMap {n : Nat} (hn : 0 < n) {programSize dataSize : Datum}
    (hprogram : programSize.integer? = some (n : Int))
    (hdata : dataSize.integer? = some (n : Int)) :
    ∃ program data, create .program programSize = .ok program ∧ create .data dataSize = .ok data ∧
      ∀ requests,
        (program.afterAll requests).ActsAsMap .program n (.ofRequests n requests) ∧
        (data.afterAll requests).ActsAsMap .data n (.ofRequests n requests) ∧
        (program.afterAll requests).Agree (data.afterAll requests) := by
  -- The log of a new store is empty, and stays the log of the requests.
  have hreflects {s : Store} (hcapacity : s.capacity = n) (hzero : s.Reflects [])
      (requests : List Request) :
      (s.afterAll requests).Reflects (.ofRequests n requests) ∧
        (s.afterAll requests).kind = s.kind ∧ (s.afterAll requests).capacity = n := by
    have hlog := hzero.afterAll requests
    have hrewords := Rewords.afterAll s requests
    rw [hcapacity] at hlog
    exact ⟨hlog, hrewords.kind, hrewords.capacity.trans hcapacity⟩
  obtain ⟨program, hcreate, hkind, hcapacity, hzero⟩ := exists_create .program hn hprogram
  obtain ⟨data, hcreate', hkind', hcapacity', hzero'⟩ := exists_create .data hn hdata
  refine ⟨program, data, hcreate, hcreate', ?_⟩
  intro requests
  obtain ⟨hlog, hsame, hsize⟩ := hreflects hcapacity hzero requests
  obtain ⟨hlog', hsame', hsize'⟩ := hreflects hcapacity' hzero' requests
  have hmap := hlog.actsAsMap
  have hmap' := hlog'.actsAsMap
  rw [hsame, hkind, hsize] at hmap
  rw [hsame', hkind', hsize'] at hmap'
  exact ⟨hmap, hmap', hlog.agree hlog' (hsize'.trans hsize.symm)⟩

/-- Words from all ways of storing, with refused requests between them. -/
theorem afterAll_actsAsMap_mixed :
    ∃ program data, create .program (.integer 3) = .ok program ∧
      create .data (.integer 3) = .ok data ∧
      let requests : List Request :=
        [.write (.integer 0) 7 true, .write (.integer (-4)) 1 true, .write (.integer 8) 9 false,
          .load [-1, 4294967297] (.integer 4), .load [5, 5] (.integer 8),
          .loadMap [(.integer 4, 5), (.integer 6, 5)], .loadMap [(.flag false, -2)],
          .importState (.record [("words".toList, .ofInts [1, 2])])]
      Log.ofRequests 3 requests = [(0, -2), (8, 4294967297), (4, -1), (0, 7)] ∧
      (program.afterAll requests).serve (.read (.integer 4)) =
        .ok (.word 4294967295, program.afterAll requests) ∧
      (data.afterAll requests).serve (.read (.integer 4)) =
        .ok (.word (-1), data.afterAll requests) ∧
      (program.afterAll requests).Agree (data.afterAll requests) := by
  obtain ⟨program, data, hcreate, hcreate', hall⟩ :=
    afterAll_actsAsMap (n := 3) (by decide) (rfl : (Datum.integer 3).integer? = some 3)
      (rfl : (Datum.integer 3).integer? = some 3)
  refine ⟨program, data, hcreate, hcreate', ?_⟩
  intro requests
  obtain ⟨hmap, hmap', hagree⟩ := hall requests
  exact ⟨rfl, hmap.read _ 4 rfl, hmap'.read _ 4 rfl, hagree⟩

/-- An aligned address beyond the store, the place of which has too many digits to be shown, is not
refused as an address.  A write that is not enabled does not look at its address at all. -/
theorem refused_or_overlooked_address :
    ∃ (s : Store) (a : Int), create .data (.integer 1) = .ok s ∧ a % 4 = 0 ∧ 4 * s.capacity ≤ a ∧
      (∃ f, s.serve (.read (.integer a)) = .error f ∧ f.report.failure = .value) ∧
      s.serve (.write (.integer 3) 5 false) = .ok (.written false, s) := by
  obtain ⟨n, hn⟩ : ∃ n, n = 10 ^ Text.digitLimit := ⟨_, rfl⟩
  have hpos : 0 < n := hn ▸ Nat.pow_pos (by decide)
  have hcapacity : (empty .data 1).capacity = 1 := capacity_empty .data 1
  have hrefuses : (empty .data 1).Refuses (4 * n)
      (.addressOutside .data (.integer (4 * n))) := by
    refine .outside (by omega) (Or.inr ?_)
    omega
  refine ⟨empty .data 1, 4 * n, rfl, by omega, by omega,
    ⟨.addressOutside .data (.integer (4 * n)), ?_, ?_⟩, rfl⟩
  · rw [serve, read_eq_error_iff.mpr hrefuses]
    rfl
  · rw [hrefuses.failure, addressClass_four_mul hn.ge]

end Rv32.Store
