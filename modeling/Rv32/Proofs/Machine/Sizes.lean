import Mathlib
import Rv32.Proofs.Machine.Invariant
import Rv32.Proofs.Store.InPlace

/-!
# Sizes as they were given

A store of one word may have been asked for with a truth value as its size, and complaints show the
size as it was given.  Nothing else depends on that.  `unsized` leaves it out of stores, machines
and faults, and machines that agree but for it stay so, whatever is asked of them: they give the
same answers and the same failures, except that a message may show the size of a store in other
terms.
-/

namespace Rv32

/-! ## Faults and stores -/

/-- A fault without the size of the store that it is about. -/
def Fault.unsized : Fault → Fault
  | loadTooLong store base count _ => .loadTooLong store base count .null
  | wordCount store given _ => .wordCount store given .null
  | dataWordCount _ => .dataWordCount .null
  | programWordCount _ => .programWordCount .null
  | f => f

namespace Fault

/-- A fault without a size is reported as the same failure about the same value. -/
theorem report_unsized (f : Fault) :
    f.unsized.report.failure = f.report.failure ∧ f.unsized.report.subject = f.report.subject := by
  cases f <;> exact ⟨rfl, rfl⟩

variable {α β γ δ : Type}

/-- A result in which `g` leaves out the sizes, or a fault without them. -/
def unsize (g : α → β) : Except Fault α → Except Fault β
  | .ok a => .ok (g a)
  | .error f => .error f.unsized

theorem unsize_map (g : α → β) (x : Except Fault α) : unsize id (x.map g) = unsize g x := by
  cases x <;> rfl

/-- Results that agree without sizes are refused together. -/
theorem unsize_eq_cases {x : Except Fault α} {y : Except Fault β} {g : α → β}
    (h : unsize id y = unsize g x) :
    (∃ a, x = .ok a ∧ y = .ok (g a)) ∨
      ∃ e f, x = .error e ∧ y = .error f ∧ f.unsized = e.unsized := by
  cases x with
  | ok a =>
      cases y with
      | ok b => exact Or.inl ⟨a, rfl, congrArg Except.ok (Except.ok.inj h)⟩
      | error f => cases h
  | error e =>
      cases y with
      | ok b => cases h
      | error f => exact Or.inr ⟨e, f, rfl, rfl, Except.error.inj h⟩

/-- What is made of results that agree without sizes agrees without sizes. -/
theorem unsize_bind {x : Except Fault α} {y : Except Fault β} {g : α → β} {h : α → Except Fault γ}
    {k : β → Except Fault δ} {l : γ → δ} (hxy : unsize id y = unsize g x)
    (hkh : ∀ a, unsize id (k (g a)) = unsize l (h a)) :
    unsize id (y >>= k) = unsize l (x >>= h) := by
  rcases unsize_eq_cases hxy with ⟨a, rfl, rfl⟩ | ⟨e, f, rfl, rfl, hsame⟩
  · exact hkh a
  · exact congrArg Except.error hsame

end Fault

namespace Store

/-- A store without the terms in which it was asked for. -/
def unsized (s : Store) : Store := { s with sizedByTruth := false }

variable (s : Store)

theorem write_unsized (address : Datum) (value : Int) :
    s.unsized.write address value = (s.write address value).map unsized := by
  change (do return put s.unsized (← s.slot address) value) = _
  rw [write]
  cases s.slot address <;> rfl

theorem load_unsized (words : List Int) (base : Datum) :
    Fault.unsize id (s.unsized.load words base) = Fault.unsize unsized (s.load words base) := by
  change Fault.unsize id (do
    let start ← s.slot base
    if s.capacity < start + words.length then
      throw (.loadTooLong s.kind base words.length s.unsized.size)
    return { s.unsized with words := fill s.kind.view s.words start words }) = _
  rw [load]
  cases s.slot base with
  | error f => rfl
  | ok start =>
      by_cases hfit : s.capacity < start + words.length
      · simp only [Fault.ok_bind, if_pos hfit]
        rfl
      · simp only [Fault.ok_bind, if_neg hfit]
        rfl

theorem loadMap_unsized (entries : List (Datum × Int)) :
    s.unsized.loadMap entries = (s.loadMap entries).map unsized := by
  have hplace : s.unsized.place = s.place := rfl
  rw [loadMap_eq, loadMap_eq, hplace]
  cases (Datum.table entries).mapM s.place <;> rfl

theorem importState_unsized (state : Datum) :
    Fault.unsize id (s.unsized.importState state) =
      Fault.unsize unsized (s.importState state) := by
  unfold importState
  cases (state.get? "words").bind Datum.items? with
  | none => rfl
  | some items =>
      by_cases hlength : items.length = s.capacity
      · have hlength' : items.length = s.unsized.capacity := hlength
        simp only [if_neg (not_not.mpr hlength), if_neg (not_not.mpr hlength')]
        rfl
      · have hlength' : items.length ≠ s.unsized.capacity := hlength
        simp only [ne_eq, hlength, hlength', not_false_eq_true, if_true]
        rfl

/-- What is asked of a store does not depend on the terms in which it was asked for. -/
theorem serve_unsized (r : Request) :
    Fault.unsize id (s.unsized.serve r) = Fault.unsize (Prod.map id unsized) (s.serve r) := by
  cases r with
  | read address =>
      have hread : Fault.unsize id (s.unsized.read address) = Fault.unsize id (s.read address) :=
        rfl
      exact Fault.unsize_bind hread fun _ => rfl
  | write address value enabled =>
      cases enabled with
      | false => rfl
      | true =>
          have hwrite := Fault.unsize_map unsized (s.write address value)
          rw [← write_unsized] at hwrite
          exact Fault.unsize_bind hwrite fun _ => rfl
  | reset => rfl
  | load words base => exact Fault.unsize_bind (s.load_unsized words base) fun _ => rfl
  | loadMap entries =>
      have hload := Fault.unsize_map unsized (s.loadMap entries)
      rw [← loadMap_unsized] at hload
      exact Fault.unsize_bind hload fun _ => rfl
  | exportState => rfl
  | importState state => exact Fault.unsize_bind (s.importState_unsized state) fun _ => rfl
  | nonzero => rfl
  | dump start count =>
      have hdump : Fault.unsize id (s.unsized.dump start count) =
          Fault.unsize id (s.dump start count) := rfl
      exact Fault.unsize_bind hdump fun _ => rfl

theorem after_unsized (r : Request) : s.unsized.after r = (s.after r).unsized := by
  unfold after
  rcases Fault.unsize_eq_cases (s.serve_unsized r) with ⟨a, hs, hu⟩ | ⟨e, f, hs, hu, -⟩
  · rw [hs, hu]
    rfl
  · rw [hs, hu]

end Store

/-! ## Machines -/

namespace Machine

/-- A machine without the terms in which its stores were asked for. -/
def unsized (m : Machine) : Machine :=
  { m with program := m.program.unsized, data := m.data.unsized }

variable (m : Machine)

theorem access_unsized (i : Instruction) (x : Execution) :
    m.unsized.access i x =
      (m.access i x).map fun a => { a with data := a.data.unsized } := by
  have hread : m.unsized.data.read x.alu.value = m.data.read x.alu.value := rfl
  have hwrite : m.unsized.data.write x.alu.value x.rs2 =
      (m.data.write x.alu.value x.rs2).map Store.unsized :=
    Store.write_unsized m.data x.alu.value x.rs2
  unfold access
  cases i.signals.memRead with
  | true =>
      simp only [if_true, hread]
      cases m.data.read x.alu.value <;> rfl
  | false =>
      cases i.signals.memWrite with
      | false => rfl
      | true =>
          simp only [Bool.false_eq_true, if_false, if_true, hwrite]
          cases m.data.write x.alu.value x.rs2 <;> rfl

/-- A step shows no sizes. -/
theorem step_unsized : m.unsized.step = (m.step.1.unsized, m.step.2) := by
  have hfetch : m.unsized.fetch = m.fetch := rfl
  simp only [step, hfetch]
  cases m.fetch with
  | error e => rfl
  | ok i =>
      have hexecute : m.unsized.execute i = m.execute i := rfl
      simp only [hexecute, access_unsized]
      cases m.access i (m.execute i) with
      | error e => rfl
      | ok a =>
          have hset (data : Store) (written : Option Int) (x : Int) :
              (m.unsized.commit i data written).counter.set x = m.counter.set x := rfl
          have hset' (data : Store) (written : Option Int) (x : Int) :
              (m.commit i data written).counter.set x = m.counter.set x := rfl
          have hcounter : m.unsized.counter = m.counter := rfl
          simp only [Except.map, hset, hset', hcounter]
          cases m.counter.set _ <;> rfl

theorem advance_unsized : m.unsized.advance = (m.advance.1.unsized, m.advance.2) := by
  have hcycles : m.unsized.cycles = m.cycles := rfl
  cases hlimit : Text.exceedsLimit m.cycles with
  | false =>
      rw [advance_eq_step hlimit, ← step_unsized, advance_eq_step]
      exact hlimit
  | true =>
      rw [advance_eq_error hlimit, advance_eq_error]
      exact hlimit

theorem runSteps_unsized (n : Nat) :
    m.unsized.runSteps n = ((m.runSteps n).1.unsized, (m.runSteps n).2) := by
  induction n generalizing m with
  | zero => rfl
  | succ n ih =>
      simp only [runSteps, advance_unsized]
      rcases m.advance with ⟨m', e | t⟩
      · rfl
      · simp only [ih m']
        rcases m'.runSteps n with ⟨m'', e | ts⟩ <;> rfl

theorem loadProgram_unsized (words : List Int) :
    (m.unsized.loadProgram words).1 = (m.loadProgram words).1.unsized ∧
      Fault.unsize id (m.unsized.loadProgram words).2 =
        Fault.unsize id (m.loadProgram words).2 := by
  have hclear : m.unsized.clear = m.clear.unsized := rfl
  have hprogram : m.clear.unsized.program = m.clear.program.unsized := rfl
  simp only [loadProgram, hclear, hprogram]
  rcases Fault.unsize_eq_cases (m.clear.program.load_unsized words (.integer 0)) with
    ⟨a, hs, hu⟩ | ⟨e, f, hs, hu, hsame⟩
  · rw [hs, hu]
    exact ⟨rfl, rfl⟩
  · rw [hs, hu]
    exact ⟨rfl, congrArg Except.error hsame⟩

theorem itemsOf_unsized {n : Nat} {fault fault' : Fault} (d : Datum)
    (h : fault'.unsized = fault.unsized) :
    Fault.unsize id (itemsOf n fault' d) = Fault.unsize id (itemsOf n fault d) := by
  unfold itemsOf
  split
  · split
    · rfl
    · exact congrArg Except.error h
  · exact congrArg Except.error h

theorem importState_unsized (state : Datum) :
    Fault.unsize id (m.unsized.importState state) = Fault.unsize unsized (m.importState state) := by
  cases state with
  | record fields =>
      refine Fault.unsize_bind (g := id) rfl fun pc => ?_
      refine Fault.unsize_bind (g := id) rfl fun cycles => ?_
      refine Fault.unsize_bind (g := id) rfl fun registers => ?_
      refine Fault.unsize_bind (g := id) rfl fun words => ?_
      refine Fault.unsize_bind (g := id) rfl fun registerItems => ?_
      refine Fault.unsize_bind (g := id) (itemsOf_unsized words rfl) fun wordItems => ?_
      refine Fault.unsize_bind (g := id) rfl fun counter => ?_
      refine Fault.unsize_bind (g := id) rfl fun cycles => ?_
      refine Fault.unsize_bind (g := id) rfl fun file => ?_
      refine Fault.unsize_bind (m.data.importState_unsized _) fun data => ?_
      refine Fault.unsize_bind (g := id) rfl fun counter => ?_
      rfl
  | _ => rfl

theorem restored_unsized (state : Datum) :
    Fault.unsize id (m.unsized.restored state) = Fault.unsize unsized (m.restored state) := by
  refine Fault.unsize_bind (g := id) (itemsOf_unsized _ rfl) fun items => ?_
  refine Fault.unsize_bind (m.importState_unsized state) fun m' => ?_
  refine Fault.unsize_bind (m.program.importState_unsized _) fun program => ?_
  rfl

theorem restore_unsized (state : Datum) :
    (m.unsized.restore state).1 = (m.restore state).1.unsized ∧
      Fault.unsize id (m.unsized.restore state).2 = Fault.unsize id (m.restore state).2 := by
  unfold restore
  rcases Fault.unsize_eq_cases (m.restored_unsized state) with
    ⟨m', hs, hu⟩ | ⟨e, f, hs, hu, hsame⟩
  · rw [hs, hu]
    exact ⟨rfl, rfl⟩
  · rw [hs, hu]
    exact ⟨rfl, congrArg Except.error hsame⟩

theorem settle_unsized {x y : Except Fault Machine} (reply : Reply)
    (h : Fault.unsize id y = Fault.unsize unsized x) :
    (m.unsized.settle reply y).1 = (m.settle reply x).1.unsized ∧
      Fault.unsize id (m.unsized.settle reply y).2 = Fault.unsize id (m.settle reply x).2 := by
  rcases Fault.unsize_eq_cases h with ⟨m', rfl, rfl⟩ | ⟨e, f, rfl, rfl, hsame⟩
  · exact ⟨rfl, rfl⟩
  · exact ⟨rfl, congrArg Except.error hsame⟩

/-- What is asked of a machine does not depend on the terms in which its stores were asked for. -/
theorem serve_unsized (r : Request) :
    (m.unsized.serve r).1 = (m.serve r).1.unsized ∧
      Fault.unsize id (m.unsized.serve r).2 = Fault.unsize id (m.serve r).2 := by
  cases r with
  | load words =>
      obtain ⟨hstate, hresult⟩ := m.loadProgram_unsized words
      exact ⟨hstate, Fault.unsize_bind hresult fun _ => rfl⟩
  | step =>
      simp only [serve, advance_unsized]
      trivial
  | steps n =>
      simp only [serve, runSteps_unsized]
      trivial
  | reset => exact ⟨rfl, rfl⟩
  | exportState => exact ⟨rfl, rfl⟩
  | snapshot => exact ⟨rfl, rfl⟩
  | importState state => exact m.settle_unsized .done (m.importState_unsized state)
  | restore state =>
      obtain ⟨hstate, hresult⟩ := m.restore_unsized state
      exact ⟨hstate, Fault.unsize_bind hresult fun _ => rfl⟩
  | writeRegister index value =>
      simp only [serve]
      cases Register.ofIndex index <;> exact ⟨rfl, rfl⟩
  | writeData address value =>
      have hwrite := Fault.unsize_map Store.unsized (m.data.write address value)
      rw [← Store.write_unsized] at hwrite
      exact m.settle_unsized _ (Fault.unsize_bind hwrite fun _ => rfl)
  | writeProgram address value =>
      have hwrite := Fault.unsize_map Store.unsized (m.program.write address value)
      rw [← Store.write_unsized] at hwrite
      exact m.settle_unsized _ (Fault.unsize_bind hwrite fun _ => rfl)
  | setCounter x => exact m.settle_unsized _ (Fault.unsize_bind (g := id) rfl fun _ => rfl)

theorem operate_unsized (op : Operation) : m.unsized.operate op = (m.operate op).unsized := by
  cases op with
  | machine r => exact (m.serve_unsized r).1
  | program r =>
      exact congrArg (fun s => { m.unsized with program := s }) (m.program.after_unsized r)
  | data r =>
      exact congrArg (fun s => { m.unsized with data := s }) (m.data.after_unsized r)

end Machine

end Rv32
