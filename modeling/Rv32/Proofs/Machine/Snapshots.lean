import Mathlib
import Rv32.Proofs.Machine.KeptStates
import Rv32.Proofs.Machine.Sizes

/-!
# A snapshot is a complete machine

What is asked of a machine exchanges the words of its stores and whatever else it holds, but never
its build: the kinds and the sizes of the stores and the address that the counter returns to.  A
snapshot holds all the rest.  Put back into a machine with as much room and the same start it
therefore makes that machine the one it was taken from, whatever the machine held before, but for
the terms in which its stores were asked for.  With the same terms as well, the two cannot be told
apart by anything that is asked of them afterwards.

The machine is put back before it is announced, so that it is complete also where its cycles have
too many digits to be shown and the caller is told of a failure.
-/

namespace Rv32

/-! ## The build of a store -/

namespace Store

/-- A store is what was made of a store of the size that it was asked for with. -/
def Built (kind : StoreKind) (s : Store) : Prop :=
  ∃ new, create kind s.size = .ok new ∧ new.Rewords s

variable {kind : StoreKind} {s t : Store}

theorem size_of_create {size : Datum} (h : create kind size = .ok s) : s.size = size := by
  unfold create at h
  split at h
  · obtain rfl := Except.ok.inj h
    rfl
  · split at h
    · next n hn =>
        obtain rfl := Except.ok.inj h
        have hcapacity : (empty kind n.toNat).capacity = n.toNat := Array.size_replicate
        have hsize : (empty kind n.toNat).size = .integer n.toNat :=
          congrArg (fun k : Nat => Datum.integer k) hcapacity
        rw [hsize, Int.toNat_of_nonneg hn.le]
    · cases h
  · cases h

theorem built_of_create {size : Datum} (h : create kind size = .ok s) : s.Built kind := by
  refine ⟨s, ?_, .refl s⟩
  rw [size_of_create h]
  exact h

theorem Built.of_rewords (hs : s.Built kind) (h : s.Rewords t) : t.Built kind := by
  obtain ⟨new, hnew, hrewords⟩ := hs
  refine ⟨new, ?_, hrewords.trans h⟩
  rw [h.size]
  exact hnew

/-- Stores of one kind and one size differ in their words only. -/
theorem Built.eq_of_size_eq (hs : s.Built kind) (ht : t.Built kind) (hsize : t.size = s.size) :
    { t with words := s.words } = s := by
  obtain ⟨new, hnew, hrewords⟩ := hs
  obtain ⟨new', hnew', hrewords'⟩ := ht
  rw [hsize, hnew] at hnew'
  obtain rfl := Except.ok.inj hnew'
  obtain ⟨words, rfl⟩ := hrewords.eq
  obtain ⟨words', rfl⟩ := hrewords'.eq
  rfl

end Store

namespace Machine

variable {m m' : Machine}

theorem Reachable.built (hm : m.Reachable) :
    m.program.Built .program ∧ m.data.Built .data := by
  obtain ⟨programWords, dataWords, start, new, ops, hcreate, rfl⟩ := hm
  obtain ⟨program, hprogram, h⟩ := Fault.bind_eq_ok hcreate
  obtain ⟨data, hdata, h⟩ := Fault.bind_eq_ok h
  obtain ⟨counter, -, h⟩ := Fault.bind_eq_ok h
  obtain rfl := Except.ok.inj h
  have hevolves := Evolves.after ⟨program, data, .empty, counter, 0⟩ ops
  exact ⟨(Store.built_of_create hprogram).of_rewords hevolves.program,
    (Store.built_of_create hdata).of_rewords hevolves.data⟩

theorem Reachable.after (hm : m.Reachable) (ops : List Operation) : (m.after ops).Reachable := by
  obtain ⟨programWords, dataWords, start, new, before, hcreate, rfl⟩ := hm
  refine ⟨programWords, dataWords, start, new, before ++ ops, hcreate, ?_⟩
  simp only [Machine.after, List.foldl_append]

/-! ## Machines with as much room -/

/-- Machines with as much room, whose counters return to the same address. -/
structure SameRoom (m m' : Machine) : Prop where
  program : m'.program.capacity = m.program.capacity
  data : m'.data.capacity = m.data.capacity
  initial : m'.counter.initial = m.counter.initial

/-- Machines of one build: their stores were asked for with the same sizes, which complaints show as
they were given, and their counters return to the same address. -/
structure SameBuild (m m' : Machine) : Prop where
  program : m'.program.size = m.program.size
  data : m'.data.size = m.data.size
  initial : m'.counter.initial = m.counter.initial

theorem Evolves.sameRoom (h : m.Evolves m') : m.SameRoom m' :=
  ⟨h.program.capacity, h.data.capacity, h.initial⟩

theorem Evolves.sameBuild (h : m.Evolves m') : m.SameBuild m' :=
  ⟨h.program.size, h.data.size, h.initial⟩

/-- A snapshot of `m` makes any machine with as much room hold what `m` holds. -/
theorem SameRoom.serve_restore (hroom : m.SameRoom m') (hm : m.Reachable) (hm' : m'.Reachable) :
    m'.serve (.restore m.snapshot) =
      ({ m with
          program := { m'.program with words := m.program.words }
          data := { m'.data with words := m.data.words } },
        m.announced) := by
  obtain ⟨p, d, start, hwell⟩ := hm.wellFormed
  obtain ⟨p', d', start', hwell'⟩ := hm'.wellFormed
  have hkeeps : Keeps m'.data.capacity m.snapshot m.kept := by
    rw [hroom.data, hwell.data.capacity]
    exact keeps_stateFields hwell _
  have hitems : KeepsProgram m'.program.capacity m.snapshot
      (m.program.words.toList.map .integer) := by
    refine ⟨by simp [snapshot, stateFields, Datum.get?, List.lookup_cons, Datum.ofInts], ?_⟩
    rw [hroom.program]
    simp [Store.capacity]
  have hput := restoreInPlace_eq_ok hwell'.program.kind hwell'.data.kind hkeeps hitems
  rw [restoreInPlace_eq_serve hwell'.program.kind hwell'.data.kind] at hput
  have hwords := Store.map_view_words hwell.program
  simp only [StoreKind.view] at hwords
  have hcounter : (⟨m.counter.value, m'.counter.initial⟩ : ProgramCounter) = m.counter := by
    rw [hroom.initial]
  rw [hput, hwell.holding_kept]
  simp only [holdingProgram, hwords, hcounter]
  rfl

/-! ## What can be seen of a machine -/

/-- What is replied to an operation. -/
inductive Answer where
  | machine (x : Except Fault Reply)
  | store (x : Except Fault Store.Reply)

/-- The answer to an operation. -/
def answer (m : Machine) : Operation → Answer
  | .machine r => .machine (m.serve r).2
  | .program r => .store ((m.program.serve r).map Prod.fst)
  | .data r => .store ((m.data.serve r).map Prod.fst)

/-- The answers to operations, one after the other, with the machine that each of them leaves. -/
def history (m : Machine) : List Operation → List (Answer × Machine)
  | [] => []
  | op :: ops => (m.answer op, m.operate op) :: (m.operate op).history ops

/-- An answer in which no failure shows the size of a store. -/
def Answer.unsized : Answer → Answer
  | machine x => .machine (Fault.unsize id x)
  | store x => .store (Fault.unsize id x)

theorem answer_unsized (m : Machine) (op : Operation) :
    (m.unsized.answer op).unsized = (m.answer op).unsized := by
  cases op with
  | machine r => exact congrArg Answer.machine (m.serve_unsized r).2
  | program r =>
      exact congrArg Answer.store
        (Fault.unsize_bind (m.program.serve_unsized r) fun _ => rfl)
  | data r =>
      exact congrArg Answer.store (Fault.unsize_bind (m.data.serve_unsized r) fun _ => rfl)

/-- Machines that hold the same, in stores that may have been asked for in other terms. -/
def Alike (n m : Machine) : Prop := n.unsized = m.unsized

/-- Histories in which nothing but the sizes of stores is shown in other terms. -/
def AlikeHistories (h k : List (Answer × Machine)) : Prop :=
  h.map (Prod.map Answer.unsized unsized) = k.map (Prod.map Answer.unsized unsized)

/-- Machines that hold the same go on alike. -/
theorem Alike.history {n : Machine} (h : n.Alike m) (ops : List Operation) :
    AlikeHistories (n.history ops) (m.history ops) := by
  induction ops generalizing n m with
  | nil => rfl
  | cons op ops ih =>
      have hanswer : (n.answer op).unsized = (m.answer op).unsized := by
        rw [← answer_unsized, ← answer_unsized m, h]
      have hstate : (n.operate op).unsized = (m.operate op).unsized := by
        rw [← operate_unsized, ← operate_unsized m, h]
      exact congrArg₂ List.cons (Prod.ext hanswer hstate) (ih hstate)

/-! ## Machines that go on -/

/-- With the snapshot of `m` put back into it, the machine `n` goes on as `m` does: everything that
is asked of it, refused or not, has the same answers and leaves the same states.  The snapshot is
accepted unless the cycles of `m` have too many digits to be shown. -/
structure ResumesAs (n m : Machine) : Prop where
  accepted : n.answer (.machine (.restore m.snapshot)) =
    .machine (if Text.exceedsLimit m.cycles then .error (.excess .shown) else .ok .done)
  state : n.operate (.machine (.restore m.snapshot)) = m
  history : ∀ ops, (n.operate (.machine (.restore m.snapshot))).history ops = m.history ops

/-- The machine `n` goes on as `m` does, where only the sizes of stores may be shown in other
terms. -/
structure ResumesAlike (n m : Machine) : Prop where
  accepted : n.answer (.machine (.restore m.snapshot)) =
    .machine (if Text.exceedsLimit m.cycles then .error (.excess .shown) else .ok .done)
  state : (n.operate (.machine (.restore m.snapshot))).Alike m
  history : ∀ ops,
    AlikeHistories ((n.operate (.machine (.restore m.snapshot))).history ops) (m.history ops)

theorem SameRoom.answer_restore (hroom : m.SameRoom m') (hm : m.Reachable) (hm' : m'.Reachable) :
    m'.answer (.machine (.restore m.snapshot)) =
      .machine (if Text.exceedsLimit m.cycles then .error (.excess .shown) else .ok .done) := by
  rw [← announced_eq]
  exact congrArg (fun x : Machine × Except Fault Reply => Answer.machine x.2)
    (hroom.serve_restore hm hm')

theorem SameRoom.resumesAlike (hroom : m.SameRoom m') (hm : m.Reachable) (hm' : m'.Reachable) :
    m'.ResumesAlike m := by
  obtain ⟨p, d, start, hwell⟩ := hm.wellFormed
  obtain ⟨p', d', start', hwell'⟩ := hm'.wellFormed
  have hstate : (m'.operate (.machine (.restore m.snapshot))).Alike m := by
    have hserve := congrArg Prod.fst (hroom.serve_restore hm hm')
    change (m'.serve (.restore m.snapshot)).1.unsized = m.unsized
    rw [hserve]
    simp only [unsized, Store.unsized, hwell.program.kind, hwell'.program.kind, hwell.data.kind,
      hwell'.data.kind]
  exact ⟨hroom.answer_restore hm hm', hstate, hstate.history⟩

theorem SameRoom.resumesAs (hroom : m.SameRoom m') (hm : m.Reachable) (hm' : m'.Reachable)
    (hbuild : m.SameBuild m') : m'.ResumesAs m := by
  obtain ⟨hprogram, hdata⟩ := hm.built
  obtain ⟨hprogram', hdata'⟩ := hm'.built
  have hstate : m'.operate (.machine (.restore m.snapshot)) = m := by
    refine (congrArg Prod.fst (hroom.serve_restore hm hm')).trans ?_
    rw [hprogram.eq_of_size_eq hprogram' hbuild.program,
      hdata.eq_of_size_eq hdata' hbuild.data]
  refine ⟨hroom.answer_restore hm hm', hstate, ?_⟩
  intro ops
  rw [hstate]

/-- A snapshot is a complete machine: any machine with as much room and the same start, in whatever
state, goes on as the machine that the snapshot was taken from, and cannot be told apart from it at
all if it was asked for in the same terms.  In particular a machine is brought back by its own
snapshot, whatever was done to it since. -/
theorem resumes_of_snapshot (hm : m.Reachable) (hm' : m'.Reachable) (hroom : m.SameRoom m') :
    m'.ResumesAlike m ∧ (m.SameBuild m' → m'.ResumesAs m) ∧
      ∀ ops, (m.after ops).ResumesAs m := by
  refine ⟨hroom.resumesAlike hm hm', hroom.resumesAs hm hm', ?_⟩
  intro ops
  have hevolves := Evolves.after m ops
  exact hevolves.sameRoom.resumesAs hm (hm.after ops) hevolves.sameBuild

/-- A machine stopped in the middle of a program goes on in another one that was asked for in other
terms, holds another program and was refused a step. -/
theorem resumes_of_snapshot_midway :
    ∃ m m' new new', create (.integer 2) (.integer 1) 4 = .ok new ∧
      create (.integer 2) (.flag true) 4 = .ok new' ∧
      m = new.after [.machine (.load [1048723, 7340179]), .machine (.setCounter 0),
        .machine .step, .data (.write (.integer 0) 5 true)] ∧
      m' = new'.after [.machine (.load [0]), .machine .step] ∧
      m.registers.read 1 = 1 ∧ m'.ResumesAlike m ∧
      ∀ ops, (m.after ops).ResumesAs m := by
  let new : Machine := ⟨.empty .program 2, .empty .data 1, .empty, ⟨4, 4⟩, 0⟩
  let new' : Machine :=
    ⟨.empty .program 2, { Store.empty .data 1 with sizedByTruth := true }, .empty, ⟨4, 4⟩, 0⟩
  have hcreate : create (.integer 2) (.integer 1) 4 = .ok new := rfl
  have hcreate' : create (.integer 2) (.flag true) 4 = .ok new' := rfl
  have hnew : new.Reachable := ⟨_, _, _, new, [], hcreate, rfl⟩
  have hnew' : new'.Reachable := ⟨_, _, _, new', [], hcreate', rfl⟩
  have hroom (ops ops' : List Operation) : (new.after ops).SameRoom (new'.after ops') := by
    have h := (Evolves.after new ops).sameRoom
    have h' := (Evolves.after new' ops').sameRoom
    exact ⟨h'.program.trans h.program.symm, h'.data.trans h.data.symm,
      h'.initial.trans h.initial.symm⟩
  obtain ⟨halike, -, hback⟩ := resumes_of_snapshot (hnew.after _) (hnew'.after _) (hroom _ _)
  exact ⟨_, _, new, new', hcreate, hcreate', rfl, rfl, by decide +kernel, halike, hback⟩

/-- A machine whose cycles have too many digits is put back, and yet the caller is told of a
failure.  A machine that was asked for with a truth value as its size shows that size in a
complaint. -/
theorem restored_not_resuming :
    (∃ m : Machine, m.Reachable ∧ m.SameBuild m ∧
      m.answer (.machine (.restore m.snapshot)) = .machine (.error (.excess .shown))) ∧
    ∃ (m m' : Machine) (f g : Fault), m.Reachable ∧ m'.Reachable ∧ m.SameRoom m' ∧
      m.answer (.data (.load [0, 0] (.integer 0))) = .store (.error f) ∧
      (m'.operate (.machine (.restore m.snapshot))).answer (.data (.load [0, 0] (.integer 0))) =
        .store (.error g) ∧
      f.report.message ≠ g.report.message := by
  constructor
  · obtain ⟨n, hn⟩ : ∃ n, n = 10 ^ Text.digitLimit := ⟨_, rfl⟩
    have hm := reachable_atCycle n
    refine ⟨_, hm, ⟨rfl, rfl, rfl⟩, ?_⟩
    rw [SameRoom.answer_restore ⟨rfl, rfl, rfl⟩ hm hm]
    exact congrArg Answer.machine (if_pos (Text.exceedsLimit_natCast_eq_true_iff.mpr hn.ge))
  · let m : Machine := ⟨.empty .program 1, .empty .data 1, .empty, ⟨0, 0⟩, 0⟩
    let m' : Machine :=
      ⟨.empty .program 1, { Store.empty .data 1 with sizedByTruth := true }, .empty, ⟨0, 0⟩, 0⟩
    have hcreate : create (.integer 1) (.integer 1) 0 = .ok m := rfl
    have hcreate' : create (.integer 1) (.flag true) 0 = .ok m' := rfl
    refine ⟨m, m', .loadTooLong .data (.integer 0) 2 (.integer 1),
      .loadTooLong .data (.integer 0) 2 (.flag true), ⟨_, _, _, m, [], hcreate, rfl⟩,
      ⟨_, _, _, m', [], hcreate', rfl⟩, ⟨rfl, rfl, rfl⟩, rfl, rfl, ?_⟩
    decide +kernel

end Machine

end Rv32
