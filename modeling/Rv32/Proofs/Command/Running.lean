import Mathlib
import Rv32.Command.Outcome
import Rv32.Proofs.Machine.Driving
import Rv32.Proofs.Machine.Loading
import Rv32.Proofs.Machine.Refusal

/-!
# Running a source

A source that assembles, with memories that can be built and hold its program and an aligned start,
is loaded into a new machine and driven to its end.  The outcome follows from that end alone: the
status says whether an instruction was refused, and the dumps show the machine that was left.

There is one exception.  The last words on a run name a number of instructions, and where that has
too many digits to be shown the command ends there with an error and without dumps.  `Unsayable`
says when this is the case.
-/

namespace Rv32.Command

/-- The program memory in words. -/
def Settings.programSize (settings : Settings) : Int :=
  settings.programWords.getD Machine.defaultWords

/-- The data memory in words. -/
def Settings.dataSize (settings : Settings) : Int := settings.dataWords.getD Machine.defaultWords

/-- Memories of the given sizes can be built and hold a program, and the start is aligned. -/
structure Settings.Admits (settings : Settings) (p : Assembly.Program) : Prop where
  program : 0 < settings.programSize
  data : 0 < settings.dataSize
  holds : p.machineCode.length ≤ settings.programSize
  start : settings.pc.getD 0 % 4 = 0

/-- The dumps of a machine that are asked for. -/
def Settings.dumps (settings : Settings) (m : Machine) : String :=
  (if settings.regDump then Console.line m.registers.table else "") ++
    (if settings.memDump then Console.line m.memoryTable else "")

/-- A new machine with the given memories and start into which a program has been loaded. -/
def Settings.Loads (settings : Settings) (p : Assembly.Program) (m : Machine) : Prop :=
  ∃ new,
    Machine.create (.integer settings.programSize) (.integer settings.dataSize)
      (settings.pc.getD 0) = .ok new ∧
    new.loadProgram p.machineCode = (m, .ok ())

variable {settings : Settings} {source : List Char} {p : Assembly.Program} {m : Machine}

theorem Settings.Loads.cycles (h : settings.Loads p m) : m.cycles = 0 := by
  obtain ⟨new, -, hload⟩ := h
  have hcycles := new.cycles_loadProgram p.machineCode
  rw [hload] at hcycles
  exact hcycles

theorem Settings.Loads.exists_wellFormed (h : settings.Loads p m) :
    ∃ words size start, m.WellFormed words size start := by
  obtain ⟨new, hcreate, hload⟩ := h
  have hevolves := Machine.Evolves.loadProgram new p.machineCode
  rw [hload] at hevolves
  exact ⟨_, _, _, (Machine.wellFormed_of_create hcreate).of_evolves hevolves⟩

theorem Settings.Admits.exists_loads (h : settings.Admits p) : ∃ m, settings.Loads p m := by
  have hprogram := Store.create_integer .program h.program
  have hdata := Store.create_integer .data h.data
  have hholds := h.holds
  have hfit : p.machineCode.length ≤
      (Store.empty .program settings.programSize.toNat).capacity := by
    rw [Store.capacity_empty]
    omega
  obtain ⟨new, m, hcreate, hload, -⟩ := Machine.create_loadProgram hprogram hdata h.start hfit
  exact ⟨m, new, hcreate, hload⟩

/-- A source that assembles is run once its program is loaded, after what has been shown before. -/
theorem runSource_eq (console : Console) (hp : Assembly.assemble source = .ok p)
    (hm : settings.Loads p m) :
    ∃ shown, runSource console settings source =
      .following shown (runLoaded console settings p m) := by
  obtain ⟨new, hcreate, hload⟩ := hm
  rw [Settings.programSize, Settings.dataSize] at hcreate
  simp only [runSource, withProgram, hp, hcreate, hload]
  simp only [Outcome.following, ← String.append_assoc]
  exact ⟨_, rfl⟩

/-! ## Last words -/

/-- The last words on a run would show a number with too many digits: that of the completed
instructions, or a limit so far below zero that nothing was carried out. -/
def Unsayable (words limit : Int) (k : Nat) (s : Machine) : Prop :=
  10 ^ Text.digitLimit ≤ k ∨ limit ≤ -10 ^ Text.digitLimit ∧ s.counter.value < 4 * words

/-- A limit that can be shown itself leaves nothing unsaid. -/
theorem not_unsayable {words limit : Int} {k : Nat} {s final : Machine} {fault : Option Fault}
    (hlimit : Text.exceedsLimit limit = false)
    (hending : m.Ending words limit k s final fault) : ¬ Unsayable words limit k s := by
  have hle := hending.le_max
  rw [Text.exceedsLimit_eq_false_iff] at hlimit
  have hpow : ((10 ^ Text.digitLimit : Nat) : Int) = 10 ^ Text.digitLimit := by
    push_cast
    rfl
  rintro (hmany | ⟨hlow, -⟩) <;> omega

theorem showing_eq {x : Int} (h : Text.exceedsLimit x = false) (text : String) :
    showing x text = .ok text := by
  rw [showing, h]
  rfl

theorem showing_eq_error {x : Int} (h : Text.exceedsLimit x = true) (text : String) :
    showing x text = .error (.excess .shown) := by
  rw [showing, h]
  rfl

/-- Whether a text can be shown depends on the number in it alone. -/
theorem showing_cases {P : Prop} {x : Int} (text : String)
    (h : Text.exceedsLimit x = true ↔ P) :
    (P ∧ showing x text = .error (.excess .shown)) ∨ (¬ P ∧ ∃ said, showing x text = .ok said) := by
  cases hx : Text.exceedsLimit x with
  | true => exact Or.inl ⟨h.mp hx, showing_eq_error hx text⟩
  | false =>
      refine Or.inr ⟨?_, text, showing_eq hx text⟩
      intro hP
      rw [h.mpr hP] at hx
      cases hx

section Summary

variable {words limit : Int} {k n d : Nat} {start : Int} {s final : Machine} {fault : Option Fault}

/-- The last words on a run are said unless they are unsayable. -/
theorem summary_cases (hending : m.Ending words limit k s final fault) (hzero : m.cycles = 0)
    (hm : m.WellFormed n d start) :
    (Unsayable words limit k s ∧ summary words limit final fault = .error (.excess .shown)) ∨
      (¬ Unsayable words limit k s ∧ ∃ said, summary words limit final fault = .ok said) := by
  have hcycles : s.cycles = k := by
    rw [hending.reaches.cycles, hzero, Nat.zero_add]
  have hfinal : final.cycles = k := by
    rw [hending.cycles, hzero, Nat.zero_add]
  -- The number of completed instructions decides, except where no instruction fits below the limit.
  have hcount (hlimit : ¬ (limit ≤ -10 ^ Text.digitLimit ∧ s.counter.value < 4 * words)) :
      Text.exceedsLimit (final.cycles : Int) = true ↔ Unsayable words limit k s := by
    rw [hfinal, Text.exceedsLimit_natCast_eq_true_iff, Unsayable, or_iff_left hlimit]
  cases hfault : fault with
  | some f =>
      obtain ⟨-, hbelow, hrefused⟩ := (hending.refused f final).mp ⟨hfault, rfl⟩
      have hroom : ¬ (limit ≤ -10 ^ Text.digitLimit ∧ s.counter.value < 4 * words) := by
        rintro ⟨hlow, -⟩
        have hpos : (0 : Int) < 10 ^ Text.digitLimit := Int.pow_pos (by decide)
        omega
      rcases Machine.advance_eq_error_iff.mp hrefused with ⟨hmany, -, rfl⟩ | ⟨hfew, hstep⟩
      · rw [hcycles, Text.exceedsLimit_natCast_eq_true_iff] at hmany
        exact Or.inl ⟨Or.inl hmany, rfl⟩
      · obtain ⟨ts, hrun⟩ := hending.reaches
        have hs := hm.runSteps k
        rw [hrun] at hs
        simp only [summary, if_neg (hs.failure_ne_value hstep)]
        exact showing_cases _ (hcount hroom)
  | none =>
      have hkept := hending.kept hfault
      have hfinished : final.finished words = true ↔ ¬ s.counter.value < 4 * words := by
        rw [Machine.finished, decide_eq_true_eq, hkept]
        omega
      simp only [summary]
      by_cases hcounter : s.counter.value < 4 * words
      · rw [if_neg (fun h => hfinished.mp h hcounter)]
        have hmax := hending.eq_max hfault hcounter
        refine showing_cases _ ?_
        rw [Text.exceedsLimit_eq_true_iff, Unsayable]
        have hpow : ((10 ^ Text.digitLimit : Nat) : Int) = 10 ^ Text.digitLimit := by
          push_cast
          rfl
        rw [and_iff_left hcounter]
        omega
      · rw [if_pos (hfinished.mpr hcounter)]
        exact showing_cases _ (hcount fun h => hcounter h.2)

end Summary

/-! ## The end of a run -/

/-- The outcome of the run of a loaded program follows from how the run ends. -/
theorem exists_ending_runLoaded (console : Console) (hm : settings.Loads p m) :
    ∃ k s final fault shown,
      m.Ending p.machineCode.length settings.steps k s final fault ∧
      ((Unsayable p.machineCode.length settings.steps k s ∧
          runLoaded console settings p m = ⟨1, shown ++ failureText (.excess .shown)⟩) ∨
        (¬ Unsayable p.machineCode.length settings.steps k s ∧
          ∃ said, summary p.machineCode.length settings.steps final fault = .ok said ∧
            runLoaded console settings p m =
              ⟨if fault.isSome then 1 else 0,
                shown ++ said ++ Console.line "------------------------" ++
                  settings.dumps final⟩)) := by
  let d := m.drive p.machineCode.length settings.steps
    (fun seen before after outcome =>
      seen ++ showStep console settings.trace (p.sourceMap []) before after outcome) ""
  obtain ⟨k, s, hending⟩ : ∃ k s,
      m.Ending p.machineCode.length (settings.steps - m.cycles) k s d.machine d.fault :=
    Machine.exists_ending_drive _ _ _ _ m
  rw [hm.cycles, Nat.cast_zero, sub_zero] at hending
  obtain ⟨words, size, start, hwell⟩ := hm.exists_wellFormed
  refine ⟨k, s, d.machine, d.fault, Console.line "\n--- Running Emulator ---" ++ d.seen,
    hending, ?_⟩
  rcases summary_cases hending hm.cycles hwell with ⟨hunsayable, hsummary⟩ |
    ⟨hsayable, said, hsummary⟩
  · refine Or.inl ⟨hunsayable, ?_⟩
    simp only [runLoaded]
    rw [hsummary]
    rfl
  · refine Or.inr ⟨hsayable, said, hsummary, ?_⟩
    simp only [runLoaded]
    rw [hsummary]
    simp only [Outcome.following, Settings.dumps, String.append_assoc]
    rfl

/-- The run of a source stops with the first state in which its program is finished, its limit is
reached, or the next instruction is refused.  The last of these gives the status one, and the dumps
show what the refused instruction has left.  Only where the last words would show a number with too
many digits, the status is one in any case, and there are no dumps. -/
theorem runSource_ending (console : Console) (hp : Assembly.assemble source = .ok p)
    (h : settings.Admits p) :
    ∃ m k s final fault shown,
      settings.Loads p m ∧
      m.Ending p.machineCode.length settings.steps k s final fault ∧
      (∀ j r, m.Reaches j r → r.cycles = j) ∧ final.cycles = k ∧
      (¬ Unsayable p.machineCode.length settings.steps k s →
        (runSource console settings source).status = (if fault.isSome then 1 else 0) ∧
        (runSource console settings source).text =
          shown ++ Console.line "------------------------" ++ settings.dumps final) ∧
      (Unsayable p.machineCode.length settings.steps k s →
        (runSource console settings source).status = 1 ∧
        (runSource console settings source).text = shown ++ failureText (.excess .shown)) := by
  obtain ⟨m, hm⟩ := h.exists_loads
  obtain ⟨before, hbefore⟩ := runSource_eq console hp hm
  obtain ⟨k, s, final, fault, shown, hending, houtcome⟩ := exists_ending_runLoaded console hm
  have hcycles (j : Nat) (r : Machine) (hr : m.Reaches j r) : r.cycles = j := by
    rw [hr.cycles, hm.cycles, Nat.zero_add]
  have hfinal : final.cycles = k := by
    rw [hending.cycles, hm.cycles, Nat.zero_add]
  rcases houtcome with ⟨hunsayable, houtcome⟩ | ⟨hsayable, said, -, houtcome⟩
  · refine ⟨m, k, s, final, fault, before ++ shown, hm, hending, hcycles, hfinal,
      fun hnot => absurd hunsayable hnot, ?_⟩
    intro _
    rw [hbefore, houtcome]
    refine ⟨rfl, ?_⟩
    simp only [Outcome.following, String.append_assoc]
  · refine ⟨m, k, s, final, fault, before ++ (shown ++ said), hm, hending, hcycles, hfinal, ?_,
      fun hunsayable => absurd hunsayable hsayable⟩
    intro _
    rw [hbefore, houtcome]
    refine ⟨rfl, ?_⟩
    simp only [Outcome.following, String.append_assoc]

/-- A jump to an unaligned address is refused within the limit. -/
theorem runSource_ending_refused :
    ∃ p m k s final f,
      Assembly.assemble "addi x2, x0, 6\njalr x1, 0(x2)".toList = .ok p ∧
        Settings.Loads { steps := 2, dataWords := some 1 } p m ∧
        m.Ending 2 2 k s final (some f) ∧ final.cycles = k ∧
        (runSource {} { steps := 2, dataWords := some 1 }
          "addi x2, x0, 6\njalr x1, 0(x2)".toList).status = 1 := by
  have hp : Assembly.assemble "addi x2, x0, 6\njalr x1, 0(x2)".toList =
      .ok (Assembly.layout "addi x2, x0, 6\njalr x1, 0(x2)".toList).program := by
    decide +kernel
  have hlength : (Assembly.layout
      "addi x2, x0, 6\njalr x1, 0(x2)".toList).program.machineCode.length = 2 := by
    decide +kernel
  have hadmits : Settings.Admits { steps := 2, dataWords := some 1 }
      (Assembly.layout "addi x2, x0, 6\njalr x1, 0(x2)".toList).program := by
    refine ⟨by decide, by decide, ?_, by decide⟩
    rw [hlength]
    decide
  have hrefused : (runSource {} { steps := 2, dataWords := some 1 }
      "addi x2, x0, 6\njalr x1, 0(x2)".toList).status = 1 := by
    decide +kernel
  obtain ⟨m, k, s, final, fault, shown, hloads, hending, -, hcycles, hsaid, -⟩ :=
    runSource_ending {} hp hadmits
  rw [hlength] at hending hsaid
  have hsayable : ¬ Unsayable 2 2 k s :=
    not_unsayable (Text.exceedsLimit_of_natAbs_le (by decide)) hending
  obtain ⟨hstatus, -⟩ := hsaid hsayable
  rw [hrefused] at hstatus
  cases fault with
  | none => cases hstatus
  | some f => exact ⟨_, m, k, s, final, f, hp, hloads, hending, hcycles, hrefused⟩

/-- A limit far below zero leaves no room for an instruction, so that none is refused, and still the
status is one. -/
theorem status_of_unsayable_limit :
    ∃ p m, Assembly.assemble "nop".toList = .ok p ∧
      Settings.Admits
        { steps := -10 ^ Text.digitLimit, programWords := some 1, dataWords := some 1 } p ∧
      Settings.Loads
        { steps := -10 ^ Text.digitLimit, programWords := some 1, dataWords := some 1 } p m ∧
      (∀ k s final fault,
        m.Ending p.machineCode.length (-10 ^ Text.digitLimit) k s final fault →
          k = 0 ∧ fault = none) ∧
      (runSource {}
        { steps := -10 ^ Text.digitLimit, programWords := some 1, dataWords := some 1 }
        "nop".toList).status = 1 := by
  have hp : Assembly.assemble "nop".toList = .ok (Assembly.layout "nop".toList).program := by
    decide +kernel
  have hcode : (Assembly.layout "nop".toList).program.machineCode = [19] := by
    decide +kernel
  generalize (Assembly.layout "nop".toList).program = p at hp hcode
  obtain ⟨limit, hlimit⟩ : ∃ limit : Int, limit = -10 ^ Text.digitLimit := ⟨_, rfl⟩
  rw [← hlimit]
  have hnegative : limit < 0 := by
    have hpos : (0 : Int) < 10 ^ Text.digitLimit := Int.pow_pos (by decide)
    omega
  let settings : Settings := { steps := limit, programWords := some 1, dataWords := some 1 }
  let m : Machine := ⟨⟨.program, #[19], false⟩, .empty .data 1, .empty, ⟨0, 0⟩, 0⟩
  have hadmits : settings.Admits p := by
    refine ⟨Int.one_pos, Int.one_pos, ?_, rfl⟩
    rw [hcode]
    exact le_refl (1 : Int)
  have hloads : settings.Loads p m := by
    refine ⟨⟨.empty .program 1, .empty .data 1, .empty, ⟨0, 0⟩, 0⟩, rfl, ?_⟩
    rw [hcode]
    rfl
  refine ⟨p, m, hp, hadmits, hloads, ?_, ?_⟩
  · intro k s final fault hending
    have hle := hending.le_max
    rw [max_eq_right hnegative.le] at hle
    refine ⟨by omega, ?_⟩
    cases hfault : fault with
    | none => rfl
    | some f =>
        obtain ⟨-, hbelow, -⟩ := (hending.refused f final).mp ⟨hfault, rfl⟩
        omega
  · obtain ⟨before, hbefore⟩ := runSource_eq {} hp hloads
    obtain ⟨k, s, final, fault, shown, hending, houtcome⟩ := exists_ending_runLoaded {} hloads
    -- The run stays at its start, where the counter is still on the one word of the program.
    have hunsayable : Unsayable p.machineCode.length limit k s := by
      have hle := hending.le_max
      rw [max_eq_right hnegative.le] at hle
      obtain rfl : k = 0 := by
        omega
      obtain rfl := Machine.reaches_zero.mp hending.reaches
      refine Or.inr ⟨hlimit.le, ?_⟩
      rw [hcode]
      decide
    rcases houtcome with ⟨-, houtcome⟩ | ⟨hsayable, -⟩
    · rw [hbefore, houtcome]
      rfl
    · exact absurd hunsayable hsayable

end Rv32.Command
