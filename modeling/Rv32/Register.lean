import Rv32.Fault
import Rv32.Text.Basic
import Rv32.Text.Uppercase

/-!
# Registers

There are 32 registers.  Each is known by its number after an `x` and by the name that the calling
convention gives it; the frame pointer is a second name of `s0`.  The case of letters does not
matter, and neither do blanks around a name.

The register file keeps the signed view of a word for each register.  Register zero always reads as
zero, and writing it has no effect.
-/

namespace Rv32

/-! ## Names -/

/-- A register number. -/
abbrev Register := Fin 32

namespace Register

/-- The names that the calling convention gives, in order. -/
def conventional : List String :=
  ["zero", "ra", "sp", "gp", "tp", "t0", "t1", "t2", "s0", "s1", "a0", "a1", "a2", "a3", "a4", "a5",
   "a6", "a7", "s2", "s3", "s4", "s5", "s6", "s7", "s8", "s9", "s10", "s11", "t3", "t4", "t5", "t6"]

/-- The name of register `i` by its number. -/
def numeric (i : Int) : String := s!"x{i}"

/-- All registers, in order. -/
def all : List Register := List.finRange 32

/-- The name that the calling convention gives to a register. -/
def convention (r : Register) : String := conventional.getD r.val ""

/-- All names of a register. -/
def names (r : Register) : List String :=
  numeric r.val :: convention r :: (if r = 8 then ["fp"] else [])

/-- The return address register, which calls write by default. -/
def ra : Register := 1

/-- The register of that name. -/
def ofName? (cs : List Char) : Option Register :=
  let key := Text.lowerAscii (Text.trim cs)
  all.find? fun r => r.names.any fun n => n.toList == key

theorem toNat_lt {i : Int} (h : 0 ≤ i ∧ i < 32) : i.toNat < 32 := by
  omega

/-- The register of that index, which must be an integer from 0 to 31. -/
def ofIndex (index : Datum) : Except Fault Register :=
  match index.integer? with
  | none => .error (.noSuchRegister index)
  | some i =>
    if h : 0 ≤ i ∧ i < 32 then .ok ⟨i.toNat, toNat_lt h⟩ else .error (.noSuchRegister index)

end Register

/-! ## The register file -/

/-- The contents of the registers. -/
structure RegisterFile where
  slots : Vector Int 32
  deriving DecidableEq, Repr

namespace RegisterFile

/-- All registers zero. -/
def empty : RegisterFile := ⟨Vector.replicate 32 0⟩

/-- The value of a register. -/
def read (f : RegisterFile) (r : Register) : Int := if r.val = 0 then 0 else f.slots[r]

/-- The file after a register is written. -/
def write (f : RegisterFile) (r : Register) (x : Int) : RegisterFile :=
  if r.val = 0 then f else { f with slots := f.slots.set r (Word.signed x) }

@[simp] theorem read_zero (f : RegisterFile) : f.read 0 = 0 := by
  simp [read]

@[simp] theorem read_empty (r : Register) : empty.read r = 0 := by
  simp [read, empty]

@[simp] theorem write_zero (f : RegisterFile) (x : Int) : f.write 0 x = f := by
  simp [write]

/-- Writing a register changes what that register reads as, and nothing else. -/
theorem read_write (f : RegisterFile) (r s : Register) (x : Int) :
    (f.write r x).read s =
      if s = 0 then 0 else if s = r then Word.signed x else f.read s := by
  by_cases hz : s = 0
  · simp [hz]
  · by_cases hs : s = r
    · subst hs
      simp [read, write, hz]
    · have hne : r.val ≠ s.val := fun h => hs (Fin.ext h.symm)
      by_cases hr : r = 0
      · simp [hr, hz]
      · simp [read, write, hr, hz, hs, hne]

/-- The values of all registers, in order. -/
def toList (f : RegisterFile) : List Int := Register.all.map f.read

/-- The registers other than zero, with their numbers. -/
def nonzero (f : RegisterFile) : List (Int × Int) :=
  f.toList.zipIdx.filterMap fun (x, i) => if x ≠ 0 then some ((i : Int), x) else none

/-- The value of the register of that name. -/
def readByName (f : RegisterFile) (name : List Char) : Except Fault Int :=
  match Register.ofName? name with
  | some r => .ok (f.read r)
  | none => .error (.noSuchRegister (.text name))

/-- The registers, for keeping outside. -/
def exportState (f : RegisterFile) : Datum := .record [("registers".toList, .ofInts f.toList)]

/-- Registers with the given values; whatever is given for register zero, it holds zero. -/
def ofItems? (items : List Datum) : Option RegisterFile :=
  let values := (items.map fun d => Word.signed d.toInt).toArray
  if h : values.size = 32 then some ⟨(⟨values, h⟩ : Vector Int 32).set 0 0⟩ else none

/-- The registers of a kept state, which must hold 32 values. -/
def ofState (state : Datum) : Except Fault RegisterFile :=
  match ((state.get? "registers").bind Datum.items?).bind ofItems? with
  | some f => .ok f
  | none => .error .registerCount

/-- Eight lines of four registers each: number, conventional name and word. -/
def table (f : RegisterFile) : String :=
  let cell (r : Register) : String :=
    String.ofList (List.leftpad 3 ' ' (Register.numeric r.val).toList) ++ " " ++
      String.ofList (List.rightpad 4 ' ' r.convention.toList) ++ " " ++ Word.hex8 (f.read r)
  let line (k : Nat) : String :=
    String.intercalate "  " (((Register.all.drop (4 * k)).take 4).map cell)
  String.intercalate "\n" ((List.range 8).map line)

end RegisterFile

end Rv32
