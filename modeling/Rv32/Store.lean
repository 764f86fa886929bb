import Rv32.Fault

/-!
# Word stores

A store is an array of words at the byte addresses `0`, `4`, `8` and so on.  An address is valid if
it is a multiple of four whose word lies inside the store; alignment is checked before the range,
and an operation that is given an invalid address changes nothing.  Every word is kept in the view
of its store.  Addresses and sizes come from outside, and complaints show them as they were given.

What a user may ask of a store is also here as data: each request has a reply or is refused, and
leaves a store.  A refused request leaves the store as it was.
-/

namespace Rv32

/-- A store of words. -/
structure Store where
  kind : StoreKind
  words : Array Int
  /-- Whether the store was asked for with a truth value as its size, which makes it one word. -/
  sizedByTruth : Bool := false
  deriving DecidableEq, Repr

namespace Store

/-- The number of words. -/
def capacity (s : Store) : Nat := s.words.size

/-- The size of a store as it was given. -/
def size (s : Store) : Datum := if s.sizedByTruth then .flag true else .integer s.capacity

/-- A store of `n` zero words. -/
def empty (kind : StoreKind) (n : Nat) : Store := { kind, words := Array.replicate n 0 }

/-- A new store, whose size must be a positive integer. -/
def create (kind : StoreKind) (size : Datum) : Except Fault Store :=
  match size with
  | .flag true => .ok { empty kind 1 with sizedByTruth := true }
  | .integer n => if 0 < n then .ok (empty kind n.toNat) else .error (.invalidCapacity kind size)
  | _ => .error (.invalidCapacity kind size)

theorem toNat_lt_size {words : Array Int} {i : Int} (h : 0 ≤ i ∧ i < words.size) :
    i.toNat < words.size := by
  omega

/-- The place of the word at an address. -/
def slot (s : Store) (address : Datum) : Except Fault (Fin s.words.size) :=
  match address.integer? with
  | none => .error (.addressNotInteger s.kind address)
  | some a =>
    if a % 4 ≠ 0 then .error (.addressUnaligned s.kind address)
    else if h : 0 ≤ a / 4 ∧ a / 4 < s.words.size then .ok ⟨(a / 4).toNat, toNat_lt_size h⟩
    else .error (.addressOutside s.kind address)

/-- The valid addresses are the multiples of four of the places. -/
theorem slot_eq_ok_iff {s : Store} {address : Datum} {i : Fin s.words.size} :
    s.slot address = .ok i ↔ address.integer? = some (4 * (i.val : Int)) := by
  have hi := i.isLt
  unfold slot
  cases ha : address.integer? with
  | none => simp
  | some a =>
    simp only [Option.some.injEq]
    constructor
    · intro h
      split at h
      · exact nomatch h
      · split at h
        · cases h
          simp only
          omega
        · exact nomatch h
    · intro h
      have haligned : ¬ a % 4 ≠ 0 := by omega
      have hinside : 0 ≤ a / 4 ∧ a / 4 < s.words.size := by omega
      rw [if_neg haligned, dif_pos hinside]
      congr 1
      apply Fin.ext
      simp only
      omega

/-- The word at an address. -/
def read (s : Store) (address : Datum) : Except Fault Int := return s.words[← s.slot address]

/-- A word put at a place. -/
def put (s : Store) (i : Fin s.words.size) (value : Int) : Store :=
  { s with words := s.words.set i (s.kind.view value) }

@[simp] theorem kind_put (s : Store) (i : Fin s.words.size) (value : Int) :
    (s.put i value).kind = s.kind := rfl

@[simp] theorem capacity_put (s : Store) (i : Fin s.words.size) (value : Int) :
    (s.put i value).capacity = s.capacity := by
  simp [put, capacity]

/-- Putting a word in a place changes that place and nothing else. -/
theorem getElem?_words_put (s : Store) (i : Fin s.words.size) (value : Int) (j : Nat) :
    (s.put i value).words[j]? = if i.val = j then some (s.kind.view value) else s.words[j]? := by
  simp [put, Array.getElem?_set]

/-- The store after a word is written at an address. -/
def write (s : Store) (address : Datum) (value : Int) : Except Fault Store :=
  return s.put (← s.slot address) value

/-- The store with all words zero. -/
def reset (s : Store) : Store := { s with words := Array.replicate s.capacity 0 }

/-- Words put one after the other, from a place on. -/
def fill (view : Int → Int) (words : Array Int) (start : Nat) : List Int → Array Int
  | [] => words
  | x :: xs => fill view (words.setIfInBounds start (view x)) (start + 1) xs

/-- The store after a list of words is loaded from the address `base` on.  All of them must fit. -/
def load (s : Store) (xs : List Int) (base : Datum) : Except Fault Store := do
  let start ← s.slot base
  if s.capacity < start + xs.length then throw (.loadTooLong s.kind base xs.length s.size)
  return { s with words := fill s.kind.view s.words start xs }

/-- Words put at several places. -/
def scatter (view : Int → Int) (words : Array Int) : List (Nat × Int) → Array Int
  | [] => words
  | (i, x) :: entries => scatter view (words.setIfInBounds i (view x)) entries

/-- The store after values are written at several addresses, all of which are checked first.
Equal addresses are one, which takes the last of their values. -/
def loadMap (s : Store) (entries : List (Datum × Int)) : Except Fault Store := do
  let places ← (Datum.table entries).mapM fun (a, x) => return ((← s.slot a).val, x)
  return { s with words := scatter s.kind.view s.words places }

/-- The words of a store, for keeping outside. -/
def exportState (s : Store) : Datum := .record [("words".toList, .ofInts s.words.toList)]

/-- The store with the words of a kept state, which must be as many as it holds. -/
def importState (s : Store) (state : Datum) : Except Fault Store :=
  match (state.get? "words").bind Datum.items? with
  | none => .error (.noWordList s.kind)
  | some items =>
    if items.length ≠ s.capacity then .error (.wordCount s.kind items.length s.size)
    else .ok { s with words := (items.map fun d => s.kind.view d.toInt).toArray }

/-- The words other than zero, with their addresses, in ascending order. -/
def nonzero (s : Store) : List (Int × Int) :=
  s.words.toList.zipIdx.filterMap fun (x, i) => if x ≠ 0 then some ((i : Int) * 4, x) else none

/-- One word with its address, in hexadecimal and as a signed number. -/
def lineAt (s : Store) (i : Nat) : String :=
  s!"0x{Numeral.hex 4 (i * 4)}: {Word.shown (s.words.getD i 0)}"

/-- The lines of at most `count` words from the address `start` on. -/
def dump (s : Store) (start : Datum) (count : Option Int) : Except Fault (List String) := do
  let first := (← s.slot start).val
  let rest := s.capacity - first
  let shown := match count with
    | none => rest
    | some n => min n.toNat rest
  return (List.range' first shown).map s.lineAt

/-! ## Requests and replies -/

/-- What may be asked of a store. -/
inductive Request where
  | read (address : Datum)
  | write (address : Datum) (value : Int) (enabled : Bool)
  | reset
  | load (words : List Int) (base : Datum)
  | loadMap (entries : List (Datum × Int))
  | exportState
  | importState (state : Datum)
  | nonzero
  | dump (start : Datum) (count : Option Int)

/-- What a store replies. -/
inductive Reply where
  | done
  | word (x : Int)
  | written (b : Bool)
  | state (d : Datum)
  | pairs (entries : List (Int × Int))
  | text (lines : List String)

/-- The reply to a request and the store after it, unless the request is refused.  A write that is
not enabled does nothing and is never refused. -/
def serve (s : Store) : Request → Except Fault (Reply × Store)
  | .read address => do return (.word (← s.read address), s)
  | .write address value enabled => do
    if enabled then return (.written true, ← s.write address value)
    else return (.written false, s)
  | .reset => .ok (.done, s.reset)
  | .load words base => do return (.done, ← s.load words base)
  | .loadMap entries => do return (.done, ← s.loadMap entries)
  | .exportState => .ok (.state s.exportState, s)
  | .importState state => do return (.done, ← s.importState state)
  | .nonzero => .ok (.pairs s.nonzero, s)
  | .dump start count => do return (.text (← s.dump start count), s)

/-- The store after a request, refused or not. -/
def after (s : Store) (r : Request) : Store :=
  match s.serve r with
  | .ok (_, s') => s'
  | .error _ => s

end Store

end Rv32
