import Mathlib
import Rv32.Proofs.Store.Views

/-!
# Stores that are changed in place

A request that stores several words assigns them one after the other, without a check before each
single one.  `serveInPlace` is a store that is changed by such assignments: all checks of a request
come first, and an assignment beyond the words of the store stops it with whatever has been assigned
before.  No request ever gets that far.  A store that is changed in place therefore serves a request
as a whole or leaves every word as it was.
-/

namespace Rv32.Store

/-! ## Assignments -/

/-- Why a request to a store in place stops: it is refused, or it comes to a place that is not
there. -/
inductive Halt where
  | refused (f : Fault)
  | noPlace (i : Nat)

/-- One word assigned to a place, if the store has it. -/
def assign (s : Store) (i : Nat) (x : Int) : Store × Except Halt Unit :=
  if i < s.words.size then
    ({ s with words := s.words.setIfInBounds i (s.kind.view x) }, .ok ())
  else (s, .error (.noPlace i))

/-- Words assigned to their places one after the other, up to the first place that is not there. -/
def assignAll (s : Store) : List (Nat × Int) → Store × Except Halt Unit
  | [] => (s, .ok ())
  | (i, x) :: rest =>
    match s.assign i x with
    | (s, .error h) => (s, .error h)
    | (s, .ok _) => s.assignAll rest

/-- Where every word has its place, all of them are assigned. -/
theorem assignAll_eq {s : Store} {places : List (Nat × Int)}
    (h : ∀ p ∈ places, p.1 < s.words.size) :
    s.assignAll places = ({ s with words := scatter s.kind.view s.words places }, .ok ()) := by
  induction places generalizing s with
  | nil => rfl
  | cons p places ih =>
      obtain ⟨hp, hrest⟩ := List.forall_mem_cons.mp h
      simp only [assignAll, assign, if_pos hp]
      rw [ih]
      · rfl
      · intro q hq
        rw [Array.size_setIfInBounds]
        exact hrest q hq

/-! ## Requests -/

/-- The place of a value that is to be stored at an address. -/
def place (s : Store) (entry : Datum × Int) : Except Fault (Nat × Int) :=
  return ((← s.slot entry.1).val, entry.2)

/-- The reply to a request whose assignments have all been made. -/
def replying (reply : Reply) (x : Store × Except Halt Unit) : Store × Except Halt Reply :=
  (x.1, x.2.map fun _ => reply)

/-- The store that a request leaves where it is served or refused as a whole, and the reply. -/
def settled (s : Store) (r : Request) : Store × Except Halt Reply :=
  match s.serve r with
  | .ok (reply, t) => (t, .ok reply)
  | .error f => (s, .error (.refused f))

/-- The store that a request leaves in place, and the reply: the address of a word, or of the first
of several, is checked before anything is assigned, and of a table all addresses are.  What assigns
no single words has nothing to leave halfway. -/
def serveInPlace (s : Store) : Request → Store × Except Halt Reply
  | .write address value true =>
    match s.slot address with
    | .error f => (s, .error (.refused f))
    | .ok i => replying (.written true) (s.assign i value)
  | .load words base =>
    match s.slot base with
    | .error f => (s, .error (.refused f))
    | .ok start =>
      if s.capacity < start + words.length then
        (s, .error (.refused (.loadTooLong s.kind base words.length s.size)))
      else replying .done (s.assignAll ((words.zipIdx start).map fun (x, i) => (i, x)))
  | .loadMap entries =>
    match (Datum.table entries).mapM s.place with
    | .error f => (s, .error (.refused f))
    | .ok places => replying .done (s.assignAll places)
  | r => s.settled r

variable {s : Store}

theorem loadMap_eq (s : Store) (entries : List (Datum × Int)) :
    s.loadMap entries = (Datum.table entries).mapM s.place >>= fun places =>
      pure { s with words := scatter s.kind.view s.words places } := rfl

/-- What has passed the checks of a table has its place. -/
theorem lt_of_mapM_place {entries : List (Datum × Int)} {places : List (Nat × Int)}
    (h : entries.mapM s.place = .ok places) : ∀ p ∈ places, p.1 < s.words.size := by
  induction entries generalizing places with
  | nil =>
      obtain rfl := Except.ok.inj h
      intro p hp
      cases hp
  | cons e entries ih =>
      rw [List.mapM_cons] at h
      obtain ⟨p, hp, h⟩ := Fault.bind_eq_ok h
      obtain ⟨rest, hrest, h⟩ := Fault.bind_eq_ok h
      obtain rfl := Except.ok.inj h
      obtain ⟨i, -, hi⟩ := Fault.bind_eq_ok hp
      obtain rfl := Except.ok.inj hi
      exact List.forall_mem_cons.mpr ⟨i.isLt, ih hrest⟩

/-- The one check for a list of words is enough for each of them. -/
theorem lt_of_mem_zipIdx {words : List Int} {start : Nat}
    (hfit : start + words.length ≤ s.capacity) :
    ∀ p ∈ (words.zipIdx start).map fun (x, i) => (i, x), p.1 < s.words.size := by
  intro p hp
  obtain ⟨⟨x, i⟩, hi, rfl⟩ := List.mem_map.mp hp
  have hlt := List.snd_lt_add_of_mem_zipIdx hi
  change i < s.words.size
  unfold capacity at hfit
  omega

/-- No request stops between two assignments: each is served or refused as a whole. -/
theorem serveInPlace_eq (s : Store) (r : Request) : s.serveInPlace r = s.settled r := by
  cases r with
  | write address value enabled =>
      cases enabled with
      | false => rfl
      | true =>
          simp only [serveInPlace, settled, serve, if_true, write]
          cases s.slot address with
          | error f => rfl
          | ok i =>
              simp only [assign, if_pos i.isLt, Array.setIfInBounds_def, dif_pos i.isLt]
              rfl
  | load words base =>
      simp only [serveInPlace, settled, serve, load]
      cases s.slot base with
      | error f => rfl
      | ok start =>
          by_cases hlong : s.capacity < start + words.length
          · simp only [Fault.ok_bind, if_pos hlong]
            rfl
          · have hplaces := lt_of_mem_zipIdx (not_lt.mp hlong)
            simp only [Fault.ok_bind, if_neg hlong, assignAll_eq hplaces, ← fill_eq_scatter]
            rfl
  | loadMap entries =>
      simp only [serveInPlace, settled, serve, loadMap_eq]
      cases hplaces : (Datum.table entries).mapM s.place with
      | error f => rfl
      | ok places =>
          simp only [assignAll_eq (lt_of_mapM_place hplaces)]
          rfl
  | _ => rfl

/-- A request that is refused leaves every word in place. -/
theorem serveInPlace_of_error {f : Fault} {r : Request} (h : s.serve r = .error f) :
    s.serveInPlace r = (s, .error (.refused f)) := by
  rw [serveInPlace_eq, settled, h]

theorem serveInPlace_of_ok {t : Store} {reply : Reply} {r : Request}
    (h : s.serve r = .ok (reply, t)) : s.serveInPlace r = (t, .ok reply) := by
  rw [serveInPlace_eq, settled, h]

end Rv32.Store
