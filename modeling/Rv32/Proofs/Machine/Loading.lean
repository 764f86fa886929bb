import Mathlib
import Rv32.Machine.Basic
import Rv32.Proofs.Store.Views

/-!
# New machines and loaded programs

A machine that is built with acceptable sizes and an aligned start is built, and a program that
fits is loaded: its words then stand in the program store from address zero on, in their unsigned
view.
-/

namespace Rv32

namespace Store

/-! ## Creation -/

theorem create_eq_ok {kind : StoreKind} {size : Datum} {s : Store}
    (h : create kind size = .ok s) : s.kind = kind ∧ 0 < s.capacity := by
  unfold create at h
  split at h
  · obtain rfl := Except.ok.inj h
    exact ⟨rfl, by simp [capacity, empty]⟩
  · split at h
    · next n hn =>
        obtain rfl := Except.ok.inj h
        refine ⟨rfl, ?_⟩
        simp only [capacity, empty, Array.size_replicate]
        omega
    · cases h
  · cases h

theorem create_integer (kind : StoreKind) {n : Int} (h : 0 < n) :
    create kind (.integer n) = .ok (empty kind n.toNat) :=
  if_pos h

theorem capacity_reset (s : Store) : s.reset.capacity = s.capacity := by
  simp [reset, capacity]

/-! ## Loading -/

/-- A list of words that fits is loaded at address zero. -/
theorem load_zero {s : Store} {xs : List Int} (hpos : 0 < s.capacity)
    (hfit : xs.length ≤ s.capacity) :
    s.load xs (.integer 0) = .ok { s with words := fill s.kind.view s.words 0 xs } := by
  have hslot : s.slot (.integer 0) = .ok ⟨0, hpos⟩ := slot_eq_ok_iff.mpr rfl
  have hlong : ¬ s.capacity < 0 + xs.length := by omega
  simp only [load, hslot]
  change (if s.capacity < 0 + xs.length then _ else _) = _
  rw [if_neg hlong]
  rfl

end Store

theorem ProgramCounter.create_eq_ok {start : Int} (h : start % 4 = 0) :
    create start = .ok ⟨Word.unsigned start, Word.unsigned start⟩ := by
  have halign : aligned start = .ok (Word.unsigned start) := by
    apply aligned_eq_ok_iff.mpr
    refine ⟨rfl, ?_⟩
    unfold Word.unsigned
    omega
  rw [create, halign]
  rfl

namespace Machine

/-- The words of a program stand in the program store, and the counter is at an aligned address. -/
structure Holds (m : Machine) (code : List Int) : Prop where
  word : ∀ (j : Nat) (w : Int), code[j]? = some w → m.program.words[j]? = some (Word.unsigned w)
  aligned : m.counter.value % 4 = 0
  nonneg : 0 ≤ m.counter.value
  dataKind : m.data.kind = .data

/-- A program that fits is loaded. -/
theorem loadProgram_eq_ok {m : Machine} {code : List Int} (hpos : 0 < m.program.capacity)
    (hfit : code.length ≤ m.program.capacity) :
    m.loadProgram code =
      ({ m.clear with
          program :=
            { m.program.reset with
              words := Store.fill m.program.kind.view m.program.reset.words 0 code } },
        .ok ()) := by
  rw [← Store.capacity_reset] at hpos hfit
  have hload := Store.load_zero hpos hfit
  simp only [loadProgram, clear, reset, hload]
  rfl

/-- Only a program that fits is loaded. -/
theorem fits_of_loadProgram {m m' : Machine} {code : List Int}
    (h : m.loadProgram code = (m', .ok ())) :
    0 < m.program.capacity ∧ code.length ≤ m.program.capacity := by
  have hcapacity : m.clear.program.capacity = m.program.capacity := m.program.capacity_reset
  simp only [loadProgram] at h
  split at h
  · cases h
  · next program hload =>
      obtain ⟨start, hslot, hrest⟩ := Fault.bind_eq_ok hload
      have hpos : 0 < m.clear.program.capacity := start.pos
      by_cases hlong : m.clear.program.capacity < start + code.length
      · rw [if_pos hlong] at hrest
        cases hrest
      · omega

/-- Nothing has been carried out once a program is loaded, or refused. -/
theorem cycles_loadProgram (m : Machine) (code : List Int) :
    (m.loadProgram code).1.cycles = 0 := by
  simp only [loadProgram]
  split <;> rfl

/-- A loaded program is held, wherever the counter returns to. -/
theorem holds_of_loadProgram {m m' : Machine} {code : List Int}
    (h : m.loadProgram code = (m', .ok ())) (hprogram : m.program.kind = .program)
    (hdata : m.data.kind = .data) (haligned : m.counter.initial % 4 = 0)
    (hnonneg : 0 ≤ m.counter.initial) : m'.Holds code := by
  obtain ⟨hpos, hfit⟩ := fits_of_loadProgram h
  rw [loadProgram_eq_ok hpos hfit] at h
  obtain ⟨rfl, -⟩ := Prod.mk.inj h
  refine ⟨?_, haligned, hnonneg, hdata⟩
  intro j w hw
  have hroom : 0 + code.length ≤ m.program.reset.words.size := by
    rw [Nat.zero_add]
    exact hfit.trans_eq m.program.capacity_reset.symm
  have hfound := Store.getElem?_fill m.program.kind.view hroom hw
  rw [Nat.zero_add] at hfound
  rw [hfound, hprogram]
  rfl

/-- Whatever the sizes and the start, a program that fits is loaded into a new machine. -/
theorem create_loadProgram {programWords dataWords : Datum} {program data : Store} {start : Int}
    {code : List Int} (hprogram : Store.create .program programWords = .ok program)
    (hdata : Store.create .data dataWords = .ok data) (hstart : start % 4 = 0)
    (hfit : code.length ≤ program.capacity) :
    ∃ m m', create programWords dataWords start = .ok m ∧ m.loadProgram code = (m', .ok ()) ∧
      m'.Holds code := by
  obtain ⟨hkind, hpos⟩ := Store.create_eq_ok hprogram
  obtain ⟨hdataKind, -⟩ := Store.create_eq_ok hdata
  have hcounter := ProgramCounter.create_eq_ok hstart
  let m : Machine :=
    ⟨program, data, .empty, ⟨Word.unsigned start, Word.unsigned start⟩, 0⟩
  have hcreate : create programWords dataWords start = .ok m := by
    simp only [create, hprogram, hdata, hcounter]
    rfl
  have hload := loadProgram_eq_ok (m := m) hpos hfit
  have haligned : Word.unsigned start % 4 = 0 := by
    unfold Word.unsigned
    omega
  exact ⟨m, _, hcreate, hload,
    holds_of_loadProgram hload hkind hdataKind haligned (Word.unsigned_nonneg start)⟩

end Machine

end Rv32
