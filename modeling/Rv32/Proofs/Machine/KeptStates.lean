import Mathlib
import Rv32.Proofs.Machine.Invariant

/-!
# Kept states are put back as a whole or not at all

A kept state is checked as a whole before anything is changed, and is then put back part by part,
where each part checks once more what concerns it.  `Keeps` says which values pass the first check
and what they hold, and `holding` is the machine with all of it in place.

The second checks could refuse a part when others are in place already.  `importInPlace` and
`restoreInPlace` put the parts back one after the other and give the machine as far as they got; the
main statement is that they never stop halfway, so that they are the all-or-nothing requests that a
machine serves.

A value that keeps no state is refused as one, unless the message would have to show a program
counter or a number of cycles with too many digits.  For the same reason a restored machine may be
unable to announce itself, which is told to the caller although all of it is back in place.
-/

namespace Rv32

/-! ## Registers -/

namespace RegisterFile

/-- Registers with the given values, of which the first counts for nothing. -/
def ofValues (items : List Datum) : RegisterFile :=
  ⟨Vector.ofFn fun r : Register =>
    if r.val = 0 then 0 else Word.signed (items.getD r.val .null).toInt⟩

theorem ofItems?_eq_some {items : List Datum} (h : items.length = 32) :
    ofItems? items = some (ofValues items) := by
  have hsize : (items.map fun d => Word.signed d.toInt).toArray.size = 32 := by
    simpa using h
  simp only [ofItems?]
  rw [dif_pos hsize, Option.some.injEq, ofValues, RegisterFile.mk.injEq]
  ext i hi
  have hlt : i < items.length := by omega
  rw [Vector.getElem_set, Vector.getElem_ofFn]
  by_cases hzero : i = 0
  · subst hzero
    simp
  · simp [hzero, hlt, Ne.symm hzero]

theorem ofState_eq_ok {items : List Datum} (h : items.length = 32) :
    ofState (.record [("registers".toList, .list items)]) = .ok (ofValues items) := by
  have hget : (Datum.record [("registers".toList, .list items)]).get? "registers" =
      some (.list items) := by
    simp [Datum.get?]
  simp only [ofState, hget, Option.bind_some, Datum.items?, ofItems?_eq_some h]

/-- Registers that hold signed words are those with their own values. -/
theorem WellFormed.ofValues_toList {f : RegisterFile} (hf : f.WellFormed) :
    ofValues (f.toList.map .integer) = f := by
  obtain ⟨slots⟩ := f
  rw [ofValues, RegisterFile.mk.injEq]
  ext i hi
  rw [Vector.getElem_ofFn]
  by_cases hzero : i = 0
  · rw [if_pos hzero]
    subst hzero
    exact hf.zero.symm
  · have hread : RegisterFile.read ⟨slots⟩ ⟨i, hi⟩ = slots[i] := if_neg hzero
    have hsigned : Word.signed slots[i] = slots[i] := hf.signed ⟨i, hi⟩
    rw [if_neg hzero]
    simp [toList, Register.all, hi, hread, hsigned, Datum.toInt, Datum.integer?]

end RegisterFile

namespace Store

/-- A store takes in a list of words as long as it is. -/
theorem importState_eq_ok {s : Store} {items : List Datum} (h : items.length = s.capacity) :
    s.importState (.record [("words".toList, .list items)]) =
      .ok { s with words := (items.map fun d => s.kind.view d.toInt).toArray } := by
  have hget : (Datum.record [("words".toList, .list items)]).get? "words" =
      some (.list items) := by
    simp [Datum.get?]
  simp only [importState, hget, Option.bind_some, Datum.items?]
  rw [if_neg (not_not.mpr h)]

/-- Words that are in their view already are taken in as they are. -/
theorem map_view_words {k : StoreKind} {n : Nat} {s : Store} (hs : s.WellFormed k n) :
    ((s.words.toList.map Datum.integer).map fun d => k.view d.toInt).toArray = s.words := by
  have hview : ∀ x ∈ s.words.toList, k.view x = id x :=
    fun x hx => hs.view x (Array.mem_toList_iff.mp hx)
  have hmap : (s.words.toList.map Datum.integer).map (fun d => k.view d.toInt) =
      s.words.toList.map k.view := by
    rw [List.map_map]
    rfl
  rw [hmap, List.map_congr_left hview, List.map_id, Array.toArray_toList]

end Store

namespace ProgramCounter

theorem set_eq_ok_of_aligned (c : ProgramCounter) {x : Int} (h : x % 4 = 0) :
    c.set x = .ok { c with value := Word.unsigned x } := by
  have haligned : aligned x = .ok (Word.unsigned x) := by
    apply aligned_eq_ok_iff.mpr
    refine ⟨rfl, ?_⟩
    unfold Word.unsigned
    omega
  rw [set, haligned]
  rfl

end ProgramCounter

namespace Machine

/-! ## What a value keeps -/

/-- What is kept of a machine: the values of its registers and data words, the program counter and
the number of cycles. -/
structure Kept where
  registers : List Datum
  words : List Datum
  counter : Int
  cycles : Nat

/-- A value keeps the state of a machine with `n` data words.  Truth values pass for integers, but
not as a number of cycles. -/
structure Keeps (n : Nat) (state : Datum) (k : Kept) : Prop where
  isRecord : ∃ fields, state = .record fields
  registers : state.get? "registers" = some (.list k.registers)
  registerCount : k.registers.length = 32
  words : state.get? "words" = some (.list k.words)
  wordCount : k.words.length = n
  counter : ∃ d, state.get? "pc" = some d ∧ d.integer? = some k.counter
  aligned : k.counter % 4 = 0
  cycles : state.get? "cycles" = some (.integer k.cycles)

/-- The first check of the fields of a kept state. -/
def readFields (m : Machine) (state : Datum) : Except Fault Kept := do
  let pc ← part state "pc"
  let cycles ← part state "cycles"
  let registers ← part state "registers"
  let words ← part state "words"
  let registers ← itemsOf 32 .registerCount registers
  let words ← itemsOf m.data.capacity (.dataWordCount m.data.size) words
  let counter ← counterOf pc
  let cycles ← cyclesOf cycles
  return { registers, words, counter, cycles }

/-- The first check of a kept state, which changes nothing. -/
def readKept (m : Machine) (state : Datum) : Except Fault Kept :=
  match state with
  | .record _ => m.readFields state
  | _ => .error .stateNotRecord

variable {m m' : Machine} {state : Datum}

section Parts

variable {d : Datum} {key : String} {n : Nat} {fault f : Fault}

theorem part_eq_ok_iff : part state key = .ok d ↔ state.get? key = some d := by
  unfold part
  split <;> simp_all

theorem part_eq_error (h : part state key = .error f) : f = .stateWithout key := by
  unfold part at h
  split at h
  · cases h
  · exact (Except.error.inj h).symm

theorem itemsOf_eq_ok_iff {items : List Datum} :
    itemsOf n fault d = .ok items ↔ d = .list items ∧ items.length = n := by
  cases d with
  | list ds =>
      simp only [itemsOf, Datum.items?, Datum.list.injEq]
      by_cases hn : ds.length = n
      · rw [if_pos hn, Except.ok.injEq]
        exact ⟨fun h => ⟨h, h ▸ hn⟩, And.left⟩
      · rw [if_neg hn]
        constructor
        · intro h
          cases h
        · rintro ⟨rfl, h⟩
          exact absurd h hn
  | _ => simp [itemsOf, Datum.items?]

theorem itemsOf_eq_error (h : itemsOf n fault d = .error f) : f = fault := by
  unfold itemsOf at h
  split at h
  · split at h
    · cases h
    · exact (Except.error.inj h).symm
  · exact (Except.error.inj h).symm

theorem counterOf_eq_ok_iff {x : Int} :
    counterOf d = .ok x ↔ d.integer? = some x ∧ x % 4 = 0 := by
  unfold counterOf
  split
  · next y hy =>
      rw [hy, Option.some.injEq]
      by_cases hfour : y % 4 = 0
      · rw [if_pos hfour, Except.ok.injEq]
        exact ⟨fun h => ⟨h, h ▸ hfour⟩, And.left⟩
      · rw [if_neg hfour]
        constructor
        · intro h
          cases h
        · rintro ⟨rfl, h⟩
          exact absurd h hfour
  · next hnone => simp [hnone]

theorem counterOf_eq_error (h : counterOf d = .error f) : f = .counterRejected d := by
  unfold counterOf at h
  split at h
  · split at h
    · cases h
    · exact (Except.error.inj h).symm
  · exact (Except.error.inj h).symm

theorem cyclesOf_eq_ok_iff : cyclesOf d = .ok n ↔ d = .integer n := by
  cases d with
  | integer x =>
      simp only [cyclesOf, Datum.integer.injEq]
      split
      · rw [Except.ok.injEq]
        omega
      · simp only [reduceCtorEq, false_iff]
        omega
  | _ => simp [cyclesOf]

theorem cyclesOf_eq_error (h : cyclesOf d = .error f) : f = .cyclesRejected d := by
  unfold cyclesOf at h
  split at h
  · split at h
    · cases h
    · exact (Except.error.inj h).symm
  · exact (Except.error.inj h).symm

end Parts

theorem readFields_eq_ok_iff {k : Kept} (hrecord : ∃ fields, state = .record fields) :
    m.readFields state = .ok k ↔ Keeps m.data.capacity state k := by
  constructor
  · intro h
    obtain ⟨pc, hpc, h⟩ := Fault.bind_eq_ok h
    obtain ⟨cycles, hcycles, h⟩ := Fault.bind_eq_ok h
    obtain ⟨registers, hregisters, h⟩ := Fault.bind_eq_ok h
    obtain ⟨words, hwords, h⟩ := Fault.bind_eq_ok h
    obtain ⟨registerItems, hregisterItems, h⟩ := Fault.bind_eq_ok h
    obtain ⟨wordItems, hwordItems, h⟩ := Fault.bind_eq_ok h
    obtain ⟨counter, hcounter, h⟩ := Fault.bind_eq_ok h
    obtain ⟨n, hn, h⟩ := Fault.bind_eq_ok h
    obtain rfl := Except.ok.inj h
    obtain ⟨rfl, hregisterCount⟩ := itemsOf_eq_ok_iff.mp hregisterItems
    obtain ⟨rfl, hwordCount⟩ := itemsOf_eq_ok_iff.mp hwordItems
    obtain ⟨hinteger, haligned⟩ := counterOf_eq_ok_iff.mp hcounter
    obtain rfl := cyclesOf_eq_ok_iff.mp hn
    exact ⟨hrecord, part_eq_ok_iff.mp hregisters, hregisterCount, part_eq_ok_iff.mp hwords,
      hwordCount, ⟨pc, part_eq_ok_iff.mp hpc, hinteger⟩, haligned, part_eq_ok_iff.mp hcycles⟩
  · intro h
    obtain ⟨pc, hpc, hinteger⟩ := h.counter
    have hregisters : itemsOf 32 .registerCount (.list k.registers) = .ok k.registers :=
      itemsOf_eq_ok_iff.mpr ⟨rfl, h.registerCount⟩
    have hwords : itemsOf m.data.capacity (.dataWordCount m.data.size) (.list k.words) =
        .ok k.words :=
      itemsOf_eq_ok_iff.mpr ⟨rfl, h.wordCount⟩
    have hcounter : counterOf pc = .ok k.counter :=
      counterOf_eq_ok_iff.mpr ⟨hinteger, h.aligned⟩
    have hcycles : cyclesOf (.integer k.cycles) = .ok k.cycles := cyclesOf_eq_ok_iff.mpr rfl
    rw [readFields, part_eq_ok_iff.mpr hpc, part_eq_ok_iff.mpr h.cycles,
      part_eq_ok_iff.mpr h.registers, part_eq_ok_iff.mpr h.words]
    simp only [Fault.ok_bind, hregisters, hwords, hcounter, hcycles]
    rfl

/-- The first check accepts a value exactly if it keeps a state. -/
theorem readKept_eq_ok_iff {k : Kept} :
    m.readKept state = .ok k ↔ Keeps m.data.capacity state k := by
  cases state with
  | record fields => exact readFields_eq_ok_iff ⟨fields, rfl⟩
  | _ =>
      constructor
      · intro h
        cases h
      · intro h
        obtain ⟨fields, hfields⟩ := h.isRecord
        cases hfields

/-! ## Why a value keeps no state -/

/-- The refusal of a value that keeps no state.  It is a failure about a state, unless its message
would have to show the rejected program counter or number of cycles with too many digits. -/
structure RejectsState (state : Datum) (f : Fault) : Prop where
  failure : f.report.failure = if f.overlong then .value else .state
  overlong : f.overlong = true ↔ ∃ d, d.exceedsLimit = true ∧
    (state.get? "pc" = some d ∧ f = .counterRejected d ∨
      state.get? "cycles" = some d ∧ f = .cyclesRejected d)

namespace RejectsState

variable {f : Fault} {d : Datum}

theorem failure_eq (hstate : f.account.failure = .state) :
    f.report.failure = if f.overlong then .value else .state := by
  cases hlong : f.overlong with
  | false =>
      rw [Fault.report_eq_account hlong]
      exact hstate
  | true =>
      rw [Fault.report_eq_excess hlong]
      rfl

/-- A message that shows no value from outside always tells of a state. -/
theorem of_shown_eq_nil (hstate : f.account.failure = .state) (hshown : f.shown = []) :
    RejectsState state f where
  failure := failure_eq hstate
  overlong := by
    constructor
    · intro hlong
      rw [Fault.overlong, hshown] at hlong
      cases hlong
    · rintro ⟨d, -, ⟨-, rfl⟩ | ⟨-, rfl⟩⟩ <;> cases hshown

theorem counter (hget : state.get? "pc" = some d) : RejectsState state (.counterRejected d) where
  failure := failure_eq rfl
  overlong := by
    simp [Fault.overlong, Fault.shown, hget]

theorem cycles (hget : state.get? "cycles" = some d) : RejectsState state (.cyclesRejected d) where
  failure := failure_eq rfl
  overlong := by
    simp [Fault.overlong, Fault.shown, hget]

theorem stateWithout {key : String} (h : part state key = .error f) : RejectsState state f := by
  rw [part_eq_error h]
  exact of_shown_eq_nil rfl rfl

end RejectsState

theorem rejectsState_of_readFields {f : Fault} (h : m.readFields state = .error f) :
    RejectsState state f := by
  obtain h | ⟨pc, hpc, h⟩ := Fault.bind_eq_error h
  · exact .stateWithout h
  obtain h | ⟨cycles, hcycles, h⟩ := Fault.bind_eq_error h
  · exact .stateWithout h
  obtain h | ⟨registers, -, h⟩ := Fault.bind_eq_error h
  · exact .stateWithout h
  obtain h | ⟨words, -, h⟩ := Fault.bind_eq_error h
  · exact .stateWithout h
  obtain h | ⟨registerItems, -, h⟩ := Fault.bind_eq_error h
  · rw [itemsOf_eq_error h]
    exact .of_shown_eq_nil rfl rfl
  obtain h | ⟨wordItems, -, h⟩ := Fault.bind_eq_error h
  · rw [itemsOf_eq_error h]
    exact .of_shown_eq_nil rfl rfl
  obtain h | ⟨counter, -, h⟩ := Fault.bind_eq_error h
  · rw [counterOf_eq_error h]
    exact .counter (part_eq_ok_iff.mp hpc)
  obtain h | ⟨n, -, h⟩ := Fault.bind_eq_error h
  · rw [cyclesOf_eq_error h]
    exact .cycles (part_eq_ok_iff.mp hcycles)
  · cases h

/-- The program counter is checked behind the two lists. -/
theorem readFields_of_counterOf_eq_error {pc cycles : Datum} {registers words : List Datum}
    {f : Fault} (hpc : state.get? "pc" = some pc) (hcycles : state.get? "cycles" = some cycles)
    (hregisters : state.get? "registers" = some (.list registers))
    (hregisterCount : registers.length = 32)
    (hwords : state.get? "words" = some (.list words)) (hwordCount : words.length = m.data.capacity)
    (h : counterOf pc = .error f) : m.readFields state = .error f := by
  simp only [readFields, part_eq_ok_iff.mpr hpc, part_eq_ok_iff.mpr hcycles,
    part_eq_ok_iff.mpr hregisters, part_eq_ok_iff.mpr hwords, Fault.ok_bind,
    itemsOf_eq_ok_iff.mpr ⟨rfl, hregisterCount⟩, itemsOf_eq_ok_iff.mpr ⟨rfl, hwordCount⟩, h]
  rfl

theorem rejectsState_of_readKept {f : Fault} (h : m.readKept state = .error f) :
    RejectsState state f := by
  cases state with
  | record fields => exact rejectsState_of_readFields h
  | _ =>
      obtain rfl := Except.error.inj h
      exact .of_shown_eq_nil rfl rfl

/-! ## Putting the parts back -/

/-- The machine with a kept state in it, every value in the view of its place. -/
def holding (m : Machine) (k : Kept) : Machine :=
  { m with
    registers := .ofValues k.registers
    data := { m.data with words := (k.words.map fun d => Word.signed d.toInt).toArray }
    counter := { m.counter with value := Word.unsigned k.counter }
    cycles := k.cycles }

/-- The machine with a kept program in it. -/
def holdingProgram (m : Machine) (items : List Datum) : Machine :=
  { m with
    program := { m.program with words := (items.map fun d => Word.unsigned d.toInt).toArray } }

/-- The parts of a kept state put back one after the other.  Where a part is refused, the machine is
left with those before it. -/
def putParts (m : Machine) (k : Kept) : Machine × Except Fault Reply :=
  match RegisterFile.ofState (.record [("registers".toList, .list k.registers)]) with
  | .error f => (m, .error f)
  | .ok registers =>
    let m := { m with registers }
    match m.data.importState (.record [("words".toList, .list k.words)]) with
    | .error f => (m, .error f)
    | .ok data =>
      let m := { m with data }
      match m.counter.set k.counter with
      | .error f => (m, .error f)
      | .ok counter => ({ m with counter, cycles := k.cycles }, .ok .done)

/-- A kept state put back part by part. -/
def importInPlace (m : Machine) (state : Datum) : Machine × Except Fault Reply :=
  match m.readKept state with
  | .error f => (m, .error f)
  | .ok k => m.putParts k

/-- What the caller is told of a machine that was restored. -/
def announced (m : Machine) : Except Fault Reply := m.announce.map fun _ => .done

/-- A snapshot put back part by part, its program last, and then announced. -/
def restoreInPlace (m : Machine) (state : Datum) : Machine × Except Fault Reply :=
  match itemsOf m.program.capacity (.programWordCount m.program.size)
      ((state.get? "program").getD .null) with
  | .error f => (m, .error f)
  | .ok items =>
    match m.importInPlace state with
    | (m, .error f) => (m, .error f)
    | (m, .ok _) =>
      match m.program.importState (.record [("words".toList, .list items)]) with
      | .error f => (m, .error f)
      | .ok program =>
        let m := { m with program }
        (m, m.announced)

theorem announced_eq (m : Machine) :
    m.announced =
      if Text.exceedsLimit m.cycles then .error (.excess .shown) else .ok .done := by
  cases hcycles : Text.exceedsLimit m.cycles with
  | false =>
      rw [announced, announce_eq_ok hcycles]
      rfl
  | true =>
      rw [announced, announce_eq_error hcycles]
      rfl

/-- What passed the first check is never refused by a part. -/
theorem putParts_eq_holding {k : Kept} (hkind : m.data.kind = .data)
    (hk : Keeps m.data.capacity state k) : m.putParts k = (m.holding k, .ok .done) := by
  have hview : m.data.kind.view = Word.signed := congrArg StoreKind.view hkind
  simp only [putParts, RegisterFile.ofState_eq_ok hk.registerCount,
    Store.importState_eq_ok hk.wordCount, ProgramCounter.set_eq_ok_of_aligned _ hk.aligned, hview,
    holding]

theorem importState_eq : m.importState state = do
    let k ← m.readKept state
    let registers ← RegisterFile.ofState (.record [("registers".toList, .list k.registers)])
    let data ← m.data.importState (.record [("words".toList, .list k.words)])
    let counter ← m.counter.set k.counter
    return { m with data, registers, counter, cycles := k.cycles } := by
  cases state with
  | record fields => simp only [importState, readKept, readFields, bind_assoc, pure_bind]
  | _ => rfl

/-! ## Whole or not at all -/

theorem importState_eq_map (hkind : m.data.kind = .data) (state : Datum) :
    m.importState state = (m.readKept state).map m.holding := by
  rw [importState_eq]
  cases hread : m.readKept state with
  | error f => rfl
  | ok k =>
      have hk := readKept_eq_ok_iff.mp hread
      have hview : m.data.kind.view = Word.signed := congrArg StoreKind.view hkind
      simp only [Fault.ok_bind, RegisterFile.ofState_eq_ok hk.registerCount,
        Store.importState_eq_ok hk.wordCount,
        ProgramCounter.set_eq_ok_of_aligned _ hk.aligned, hview]
      rfl

theorem restored_eq_map (hprogram : m.program.kind = .program) (hdata : m.data.kind = .data)
    (state : Datum) :
    m.restored state = do
      let items ← itemsOf m.program.capacity (.programWordCount m.program.size)
        ((state.get? "program").getD .null)
      return (m.holding (← m.readKept state)).holdingProgram items := by
  rw [restored, importState_eq_map hdata]
  cases hitems : itemsOf m.program.capacity (.programWordCount m.program.size)
      ((state.get? "program").getD .null) with
  | error f => rfl
  | ok items =>
      cases m.readKept state with
      | error f => rfl
      | ok k =>
          have hview : (m.holding k).program.kind.view = Word.unsigned :=
            congrArg StoreKind.view hprogram
          have hlength : items.length = (m.holding k).program.capacity :=
            (itemsOf_eq_ok_iff.mp hitems).2
          have hput := Store.importState_eq_ok hlength
          rw [hview] at hput
          change (do
            let program ← (m.holding k).program.importState _
            return { m.holding k with program }) = _
          rw [hput]
          rfl

/-- A value keeps a program of `n` words. -/
structure KeepsProgram (n : Nat) (state : Datum) (items : List Datum) : Prop where
  program : state.get? "program" = some (.list items)
  count : items.length = n

theorem itemsOf_program_eq_ok_iff {n : Nat} {fault : Fault} {items : List Datum} :
    itemsOf n fault ((state.get? "program").getD .null) = .ok items ↔
      KeepsProgram n state items := by
  rw [itemsOf_eq_ok_iff]
  constructor
  · rintro ⟨hlist, hcount⟩
    refine ⟨?_, hcount⟩
    cases hget : state.get? "program" with
    | none =>
        rw [hget] at hlist
        cases hlist
    | some d =>
        rw [hget] at hlist
        exact congrArg some hlist
  · rintro ⟨hprogram, hcount⟩
    rw [hprogram]
    exact ⟨rfl, hcount⟩

theorem importInPlace_eq_ok {k : Kept} (hkind : m.data.kind = .data)
    (hk : Keeps m.data.capacity state k) : m.importInPlace state = (m.holding k, .ok .done) := by
  simp only [importInPlace, readKept_eq_ok_iff.mpr hk]
  exact putParts_eq_holding hkind hk

theorem restoreInPlace_eq_ok {k : Kept} {items : List Datum}
    (hprogram : m.program.kind = .program) (hdata : m.data.kind = .data)
    (hk : Keeps m.data.capacity state k) (hitems : KeepsProgram m.program.capacity state items) :
    m.restoreInPlace state =
      ((m.holding k).holdingProgram items, ((m.holding k).holdingProgram items).announced) := by
  have hview : (m.holding k).program.kind.view = Word.unsigned :=
    congrArg StoreKind.view hprogram
  have hlength : items.length = (m.holding k).program.capacity := hitems.count
  simp only [restoreInPlace, itemsOf_program_eq_ok_iff.mpr hitems, importInPlace_eq_ok hdata hk,
    Store.importState_eq_ok hlength, hview]
  rfl

/-- A kept state is put back as if all of it were done at once. -/
theorem importInPlace_eq_serve (hkind : m.data.kind = .data) (state : Datum) :
    m.importInPlace state = m.serve (.importState state) := by
  simp only [serve, importState_eq_map hkind]
  cases hread : m.readKept state with
  | error f =>
      simp only [importInPlace, hread]
      rfl
  | ok k => exact importInPlace_eq_ok hkind (readKept_eq_ok_iff.mp hread)

/-- A snapshot is put back as if all of it were done at once. -/
theorem restoreInPlace_eq_serve (hprogram : m.program.kind = .program)
    (hdata : m.data.kind = .data) (state : Datum) :
    m.restoreInPlace state = m.serve (.restore state) := by
  simp only [serve, restore, restored_eq_map hprogram hdata]
  cases hitems : itemsOf m.program.capacity (.programWordCount m.program.size)
      ((state.get? "program").getD .null) with
  | error f =>
      simp only [restoreInPlace, hitems]
      rfl
  | ok items =>
      cases hread : m.readKept state with
      | error f =>
          simp only [restoreInPlace, hitems, importInPlace, hread]
          rfl
      | ok k =>
          exact restoreInPlace_eq_ok hprogram hdata (readKept_eq_ok_iff.mp hread)
            (itemsOf_program_eq_ok_iff.mp hitems)

/-- Either a value keeps a state, or it is refused before anything is changed. -/
theorem keeps_or_refused (m : Machine) (state : Datum) :
    (∃ k, Keeps m.data.capacity state k) ∨
      (¬ ∃ k, Keeps m.data.capacity state k) ∧
        ∃ f, m.importInPlace state = (m, .error f) ∧ RejectsState state f := by
  cases hread : m.readKept state with
  | ok k => exact Or.inl ⟨k, readKept_eq_ok_iff.mp hread⟩
  | error f =>
      refine Or.inr ⟨?_, f, ?_, rejectsState_of_readKept hread⟩
      · rintro ⟨k, hk⟩
        rw [readKept_eq_ok_iff.mpr hk] at hread
        cases hread
      · simp only [importInPlace, hread]

/-- Either a value keeps a state and a program, or it is refused before anything is changed. -/
theorem keepsProgram_or_refused (m : Machine) (state : Datum) :
    (∃ k items, Keeps m.data.capacity state k ∧ KeepsProgram m.program.capacity state items) ∨
      (¬ ∃ k items, Keeps m.data.capacity state k ∧
        KeepsProgram m.program.capacity state items) ∧
        ∃ f, m.restoreInPlace state = (m, .error f) ∧ RejectsState state f := by
  cases hitems : itemsOf m.program.capacity (.programWordCount m.program.size)
      ((state.get? "program").getD .null) with
  | error f =>
      refine Or.inr ⟨?_, f, ?_, ?_⟩
      · rintro ⟨k, items, -, hprogram⟩
        rw [itemsOf_program_eq_ok_iff.mpr hprogram] at hitems
        cases hitems
      · simp only [restoreInPlace, hitems]
      · rw [itemsOf_eq_error hitems]
        exact .of_shown_eq_nil rfl rfl
  | ok items =>
      rcases keeps_or_refused m state with ⟨k, hk⟩ | ⟨hno, f, hrefused, hrejects⟩
      · exact Or.inl ⟨k, items, hk, itemsOf_program_eq_ok_iff.mp hitems⟩
      · refine Or.inr ⟨?_, f, ?_, hrejects⟩
        · rintro ⟨k, -, hk, -⟩
          exact hno ⟨k, hk⟩
        · simp only [restoreInPlace, hitems, hrefused]

/-! ## Normal states -/

/-- A kept state with every value in its view. -/
def Kept.normal (k : Kept) : Datum :=
  .record
    [("pc".toList, .integer (Word.unsigned k.counter)),
     ("cycles".toList, .integer k.cycles),
     ("registers".toList, .ofInts ((k.registers.map fun d => Word.signed d.toInt).set 0 0)),
     ("words".toList, .ofInts (k.words.map fun d => Word.signed d.toInt))]

theorem RegisterFile.toList_ofValues {items : List Datum} (h : items.length = 32) :
    (RegisterFile.ofValues items).toList =
      (items.map fun d => Word.signed d.toInt).set 0 0 := by
  apply List.ext_getElem
  · simp [RegisterFile.toList, Register.all, h]
  · intro i hi _
    have hlt : i < items.length := by simpa [RegisterFile.toList, Register.all, h] using hi
    have hi' : i < 32 := by omega
    by_cases hzero : i = 0
    · subst hzero
      simp [RegisterFile.toList, Register.all, RegisterFile.read]
    · have hne : (⟨i, hi'⟩ : Register) ≠ 0 := fun h => hzero (congrArg Fin.val h)
      simp [RegisterFile.toList, Register.all, RegisterFile.read, RegisterFile.ofValues, hzero, hne,
        hlt, Ne.symm hzero]

theorem exportState_holding {n : Nat} {k : Kept} (hk : Keeps n state k) :
    (m.holding k).exportState = k.normal := by
  have hregisters := RegisterFile.toList_ofValues hk.registerCount
  simp only [exportState, stateFields, holding, Kept.normal, hregisters]

/-- What a machine keeps of itself. -/
def kept (m : Machine) : Kept where
  registers := m.registers.toList.map .integer
  words := m.data.words.toList.map .integer
  counter := m.counter.value
  cycles := m.cycles

/-- The fields of an exported state keep the machine's own state, whatever follows them. -/
theorem keeps_stateFields {p d : Nat} {start : Int} (hm : m.WellFormed p d start)
    (rest : List (List Char × Datum)) :
    Keeps d (.record (m.stateFields ++ rest)) m.kept where
  isRecord := ⟨_, rfl⟩
  registers := by
    simp [Datum.get?, stateFields, List.lookup_cons, kept, Datum.ofInts]
  registerCount := by
    simp [kept, RegisterFile.toList, Register.all]
  words := by
    simp [Datum.get?, stateFields, List.lookup_cons, kept, Datum.ofInts]
  wordCount := by
    simpa [kept, Store.capacity] using hm.data.capacity
  counter := ⟨.integer m.counter.value, by simp [Datum.get?, stateFields], rfl⟩
  aligned := hm.counter.aligned
  cycles := by
    simp [Datum.get?, stateFields, List.lookup_cons, kept]

/-- What a machine keeps of itself is put back as it was. -/
theorem WellFormed.holding_kept {p d : Nat} {start : Int} (hm' : m'.WellFormed p d start)
    (m : Machine) :
    m.holding m'.kept =
      { m with
        registers := m'.registers
        data := { m.data with words := m'.data.words }
        counter := { m.counter with value := m'.counter.value }
        cycles := m'.cycles } := by
  have hregisters := hm'.registers.ofValues_toList
  have hwords := Store.map_view_words hm'.data
  have hcounter := hm'.counter.unsigned
  simp only [StoreKind.view] at hwords
  simp only [holding, kept, hregisters, hwords, hcounter]

/-- The state that a machine exports is put back without a change. -/
theorem WellFormed.importInPlace_exportState {p d : Nat} {start : Int}
    (hm : m.WellFormed p d start) : m.importInPlace m.exportState = (m, .ok .done) := by
  have hkeeps := keeps_stateFields hm []
  rw [List.append_nil, ← hm.data.capacity] at hkeeps
  have hput := importInPlace_eq_ok hm.data.kind hkeeps
  rwa [hm.holding_kept] at hput

/-- A machine exports what `k` keeps with every value in its view, and putting that back changes
nothing. -/
structure ExportsNormal (m : Machine) (k : Kept) : Prop where
  exported : m.exportState = k.normal
  again : m.importInPlace k.normal = (m, .ok .done)

theorem WellFormed.exportsNormal {p d : Nat} {start : Int} {k : Kept}
    (hm : m.WellFormed p d start) (hexport : m.exportState = k.normal) : m.ExportsNormal k := by
  refine ⟨hexport, ?_⟩
  rw [← hexport]
  exact hm.importInPlace_exportState

/-! ## The two requests -/

/-- Kept states and snapshots are put back as a whole or not at all.  A value that keeps a state is
accepted, no part refuses what it is given, and the machine holds every value in the view of its
place; a snapshot also exchanges the program, and the caller is told of the restored machine unless
its cycles have too many digits to be shown.  Any other value is refused as `RejectsState` says and
leaves the machine as it was, although the parts are put back one after the other. -/
theorem importState_restore_atomic {m : Machine} (hm : m.Reachable) (state : Datum) :
    ((∃ k, Keeps m.data.capacity state k ∧
          m.importInPlace state = (m.holding k, .ok .done) ∧ (m.holding k).ExportsNormal k) ∨
        (¬ ∃ k, Keeps m.data.capacity state k) ∧
          ∃ f, m.importInPlace state = (m, .error f) ∧ RejectsState state f) ∧
      ((∃ k items, Keeps m.data.capacity state k ∧
          KeepsProgram m.program.capacity state items ∧
          m.restoreInPlace state =
            ((m.holding k).holdingProgram items,
              if Text.exceedsLimit k.cycles then .error (.excess .shown) else .ok .done) ∧
          ((m.holding k).holdingProgram items).ExportsNormal k) ∨
        (¬ ∃ k items, Keeps m.data.capacity state k ∧
          KeepsProgram m.program.capacity state items) ∧
          ∃ f, m.restoreInPlace state = (m, .error f) ∧ RejectsState state f) ∧
      m.serve (.importState state) = m.importInPlace state ∧
      m.serve (.restore state) = m.restoreInPlace state := by
  obtain ⟨p, d, start, hwell⟩ := hm.wellFormed
  have hprogram := hwell.program.kind
  have hdata := hwell.data.kind
  have himport := importInPlace_eq_serve hdata state
  have hrestore := restoreInPlace_eq_serve hprogram hdata state
  refine ⟨?_, ?_, himport.symm, hrestore.symm⟩
  · rcases keeps_or_refused m state with ⟨k, hk⟩ | hrefused
    · have hput := importInPlace_eq_ok hdata hk
      have hleft := hwell.serve (.importState state)
      rw [← himport, hput] at hleft
      exact Or.inl ⟨k, hk, hput, hleft.exportsNormal (exportState_holding hk)⟩
    · exact Or.inr hrefused
  · rcases keepsProgram_or_refused m state with ⟨k, items, hk, hitems⟩ | hrefused
    · have hput := restoreInPlace_eq_ok hprogram hdata hk hitems
      have hleft := hwell.serve (.restore state)
      rw [← hrestore, hput] at hleft
      rw [announced_eq] at hput
      exact Or.inl ⟨k, items, hk, hitems, hput, hleft.exportsNormal (exportState_holding hk)⟩
    · exact Or.inr hrefused

/-- A snapshot with values out of range and truth values among them is put back. -/
theorem importState_restore_atomic_overflow :
    let state : Datum := .record
      [("program".toList, .list [.integer (-1), .flag true]), ("pc".toList, .flag false),
       ("cycles".toList, .integer 7),
       ("registers".toList, .list (List.replicate 32 (.integer 4294967295))),
       ("words".toList, .list [.integer 2147483648])]
    ∃ m k items, create (.integer 2) (.integer 1) 4 = .ok m ∧
      Keeps m.data.capacity state k ∧ KeepsProgram m.program.capacity state items ∧
      m.restoreInPlace state = ((m.holding k).holdingProgram items, .ok .done) ∧
      ((m.holding k).holdingProgram items).ExportsNormal k := by
  intro state
  let m : Machine := ⟨.empty .program 2, .empty .data 1, .empty, ⟨4, 4⟩, 0⟩
  have hcreate : create (.integer 2) (.integer 1) 4 = .ok m := rfl
  have hm : m.Reachable := ⟨_, _, _, m, [], hcreate, rfl⟩
  have hkeeps : Keeps m.data.capacity state
      ⟨List.replicate 32 (.integer 4294967295), [.integer 2147483648], 0, 7⟩ :=
    ⟨⟨_, rfl⟩, rfl, rfl, rfl, rfl, ⟨_, rfl, rfl⟩, rfl, rfl⟩
  have hprogram : KeepsProgram m.program.capacity state [.integer (-1), .flag true] :=
    ⟨rfl, rfl⟩
  rcases (importState_restore_atomic hm state).2.1 with
    ⟨k, items, hk, hitems, hput, hexports⟩ | ⟨hno, -⟩
  · have hcycles : k.cycles = 7 := by
      have hseven : Datum.integer 7 = .integer k.cycles := Option.some.inj hk.cycles
      exact (Int.ofNat.inj (Datum.integer.inj hseven)).symm
    have hshort : Text.exceedsLimit k.cycles = false := by
      rw [hcycles]
      exact Text.exceedsLimit_of_natAbs_le (by decide)
    rw [hshort] at hput
    exact ⟨m, k, items, hcreate, hk, hitems, hput, hexports⟩
  · exact absurd ⟨_, _, hkeeps, hprogram⟩ hno

/-- A program counter with too many digits that is not aligned is not refused as a state.  A
snapshot with as many cycles is put back as a whole, and yet the caller is told of a failure. -/
theorem kept_with_excess :
    ∃ m unaligned lasting k items, create (.integer 1) (.integer 1) 0 = .ok m ∧
      (¬ ∃ k, Keeps m.data.capacity unaligned k) ∧
      (∃ f, m.serve (.importState unaligned) = (m, .error f) ∧ f.report.failure = .value) ∧
      Keeps m.data.capacity lasting k ∧ KeepsProgram m.program.capacity lasting items ∧
      m.serve (.restore lasting) =
        ((m.holding k).holdingProgram items, .error (.excess .shown)) ∧
      (m.holding k).holdingProgram items ≠ m := by
  obtain ⟨n, hn⟩ : ∃ n : Nat, n = 10 ^ Text.digitLimit := ⟨_, rfl⟩
  have hpos : 0 < n := hn ▸ Nat.pow_pos (by decide)
  let state (pc cycles : Int) : Datum := .record
    [("pc".toList, .integer pc), ("cycles".toList, .integer cycles),
     ("registers".toList, .list (List.replicate 32 (.integer 0))),
     ("words".toList, .list [.integer 0]), ("program".toList, .list [.integer 0])]
  let m : Machine := ⟨.empty .program 1, .empty .data 1, .empty, ⟨0, 0⟩, 0⟩
  let k : Kept := ⟨List.replicate 32 (.integer 0), [.integer 0], 0, n⟩
  have hk : Keeps m.data.capacity (state 0 n) k :=
    ⟨⟨_, rfl⟩, rfl, rfl, rfl, rfl, ⟨_, rfl, rfl⟩, rfl, rfl⟩
  have hitems : KeepsProgram m.program.capacity (state 0 n) [.integer 0] := ⟨rfl, rfl⟩
  have hunaligned : (4 * n + 1 : Int) % 4 ≠ 0 := by
    omega
  have hno : ¬ ∃ k, Keeps m.data.capacity (state (4 * n + 1) 0) k := by
    rintro ⟨k, hk⟩
    obtain ⟨d, hget, hinteger⟩ := hk.counter
    obtain rfl : Datum.integer (4 * n + 1) = d := Option.some.inj hget
    have hcounter : (4 * n + 1 : Int) = k.counter := Option.some.inj hinteger
    exact hunaligned (hcounter ▸ hk.aligned)
  -- The check gets as far as the program counter, and its message would show all digits of it.
  have hread : m.readKept (state (4 * n + 1) 0) =
      .error (.counterRejected (.integer (4 * n + 1))) := by
    apply readFields_of_counterOf_eq_error rfl rfl rfl rfl rfl rfl
    simp only [counterOf, Datum.integer?, if_neg hunaligned]
  have hlong : Fault.overlong (.counterRejected (.integer (4 * n + 1))) = true := by
    simp only [Fault.overlong, Fault.shown, List.any_cons, List.any_nil, Bool.or_false,
      Datum.exceedsLimit_integer, Text.exceedsLimit_eq_true_iff]
    omega
  have hannounced : ((m.holding k).holdingProgram [.integer 0]).announced =
      .error (.excess .shown) := by
    have hcycles : Text.exceedsLimit k.cycles = true :=
      Text.exceedsLimit_natCast_eq_true_iff.mpr hn.ge
    rw [announced_eq]
    exact if_pos hcycles
  refine ⟨m, state (4 * n + 1) 0, state 0 n, k, [.integer 0], rfl, hno,
    ⟨.counterRejected (.integer (4 * n + 1)), ?_, ?_⟩, hk, hitems, ?_, ?_⟩
  · rw [← importInPlace_eq_serve rfl]
    simp only [importInPlace, hread]
  · rw [Fault.report_eq_excess hlong]
    rfl
  · rw [← restoreInPlace_eq_serve rfl rfl, restoreInPlace_eq_ok rfl rfl hk hitems, hannounced]
  · intro hsame
    have hcycles : n = 0 := congrArg cycles hsame
    omega

end Machine

end Rv32
