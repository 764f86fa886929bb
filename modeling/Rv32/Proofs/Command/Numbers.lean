import Mathlib
import Rv32.Command.Arguments
import Rv32.Proofs.Text.Tokens

/-!
# Numbers among the arguments

A decimal number with too many digits is no number on the command line, and a number of few digits
is a small one.  Hence the limit on the instructions of a run, which is read from decimal digits,
can always be shown.
-/

namespace Rv32.Command

/-! ## Decimal digits -/

/-- What counts as a digit in base ten is a decimal digit, of a value below ten. -/
theorem digit?_ten {c : Char} {d : Nat} (h : digit? 10 c = some d) : c.isDigit = true ∧ d < 10 := by
  obtain ⟨hvalue, hsmall⟩ := Option.filter_eq_some_iff.mp h
  rw [decide_eq_true_iff] at hsmall
  refine ⟨?_, hsmall⟩
  -- A letter stands for ten or more.
  by_contra hdigit
  rw [if_neg hdigit] at hvalue
  split at hvalue
  · obtain rfl := Option.some.inj hvalue
    omega
  · split at hvalue
    · obtain rfl := Option.some.inj hvalue
      omega
    · cases hvalue

/-- Each digit that follows makes a number at most ten times as large, and one more. -/
theorem groupsFrom?_lt {high value : Nat} {cs : List Char}
    (h : groupsFrom? 10 high cs = some value) :
    value < (high + 1) * 10 ^ cs.countP (·.isDigit) := by
  have hnext {c : Char} {d : Nat} {high k : Nat} (hc : digit? 10 c = some d)
      (ih : value < (10 * high + d + 1) * 10 ^ k) : value < (high + 1) * 10 ^ (k + 1) := by
    obtain ⟨-, hd⟩ := digit?_ten hc
    calc
      value < (10 * high + d + 1) * 10 ^ k := ih
      _ ≤ ((high + 1) * 10) * 10 ^ k := Nat.mul_le_mul_right _ (by omega)
      _ = (high + 1) * 10 ^ (k + 1) := by rw [Nat.pow_succ']; exact Nat.mul_assoc _ _ _
  fun_induction groupsFrom? 10 high cs with
  | case1 high =>
      obtain rfl := Option.some.inj h
      simp
  | case2 high c cs d hc ih =>
      rw [List.countP_cons_of_neg (by decide), List.countP_cons_of_pos (digit?_ten hc).1]
      exact hnext hc (ih h)
  | case3 => cases h
  | case4 high c cs hplain d hc ih =>
      rw [List.countP_cons_of_pos (digit?_ten hc).1]
      exact hnext hc (ih h)
  | case5 => cases h

theorem groups?_lt {value : Nat} {cs : List Char} (h : groups? 10 cs = some value) :
    value < 10 ^ cs.countP (·.isDigit) := by
  cases cs with
  | nil => cases h
  | cons c cs =>
      rw [groups?] at h
      split at h
      · rename_i d hc
        obtain ⟨hdigit, hd⟩ := digit?_ten hc
        rw [List.countP_cons_of_pos hdigit, Nat.pow_succ']
        exact (groupsFrom?_lt h).trans_le (Nat.mul_le_mul_right _ hd)
      · cases h

theorem decimal?_lt {value : Nat} {cs : List Char} (h : decimal? cs = some value) :
    value < 10 ^ Text.digitLimit := by
  rw [decimal?] at h
  split at h
  · cases h
  · rename_i hfew
    exact (groups?_lt h).trans_le (Nat.pow_le_pow_right (by decide) (not_lt.mp hfew))

/-- A sign leaves the size of a number. -/
theorem natural?_natAbs {base : Base} {x : Int} {cs : List Char} (h : integer? base cs = some x) :
    ∃ rest, natural? base rest = some x.natAbs := by
  rw [integer?] at h
  split at h
  all_goals
    simp only [Option.map_eq_some_iff, Option.bind_eq_bind, Option.bind_eq_some_iff,
      Option.pure_def, Option.some_inj] at h
    obtain ⟨-, ⟨n, hn, rfl⟩, rfl⟩ := h
    exact ⟨_, by simpa using hn⟩

/-- What is read from decimal digits can be shown in them. -/
theorem exceedsLimit_of_integer?_decimal {x : Int} {cs : List Char}
    (h : integer? .decimal cs = some x) : Text.exceedsLimit x = false := by
  obtain ⟨rest, hrest⟩ := natural?_natAbs h
  exact Text.exceedsLimit_eq_false_iff.mpr (decimal?_lt hrest)

/-! ## The options of a run -/

/-- The numbers of a reading have been read as their options say. -/
def Reading.Genuine (r : Reading) : Prop :=
  ∀ f x, (f, x) ∈ r.numbers → ∃ base cs, f.base? = some base ∧ integer? base cs = some x

namespace Reading

variable {r r' : Reading} {f : Flag}

theorem Genuine.of_numbers_eq (h : r.Genuine) (heq : r'.numbers = r.numbers) : r'.Genuine := by
  rw [Genuine, heq]
  exact h

theorem numbers_addOperand (many : Bool) (cs : List Char) :
    (r.addOperand many cs).numbers = r.numbers := by
  rw [addOperand]
  split
  · rfl
  · split <;> rfl
  · rfl

theorem numbers_addMark : r.addMark.numbers = r.numbers := by
  rw [addMark]
  split <;> rfl

theorem numbers_close : r.close.numbers = r.numbers := by
  rw [close]
  split <;> rfl

theorem Genuine.addNumber {base : Base} {cs : List Char} (h : r.Genuine)
    (hbase : f.base? = some base) (hr : r.addNumber f base cs = .ok r') : r'.Genuine := by
  rw [Reading.addNumber] at hr
  split at hr
  · rename_i n hn
    obtain rfl := Except.ok.inj hr
    intro g x hmem
    rcases List.mem_cons.mp hmem with heq | hmem
    · obtain ⟨rfl, rfl⟩ := Prod.mk.inj heq
      exact ⟨base, cs, hbase, hn⟩
    · exact h g x hmem
  · cases hr

theorem Genuine.raise (h : r.Genuine) (hr : r.raise f = .ok r') : r'.Genuine := by
  rw [Reading.raise] at hr
  split at hr
  · cases hr
  · obtain rfl := Except.ok.inj hr
    exact h

end Reading

theorem Stop.bind_eq_ok {α β : Type} {x : Except Stop α} {f : α → Except Stop β} {b : β}
    (h : x >>= f = .ok b) : ∃ a, x = .ok a ∧ f a = .ok b := by
  cases x with
  | error e => cases h
  | ok a => exact ⟨a, rfl, h⟩

/-- Every number that is left by the reader has been read as its option says. -/
theorem genuine_of_read {many : Bool} {r r' : Reading} {ts : List Token} (hr : r.Genuine)
    (h : read many r ts = .ok r') : r'.Genuine := by
  have hclose {r : Reading} (hr : r.Genuine) : r.close.Genuine :=
    hr.of_numbers_eq Reading.numbers_close
  fun_induction read many r ts with
  | case1 => cases h
  | case2 =>
      obtain rfl := Except.ok.inj h
      exact hr
  | case3 r cs ts ih => exact ih (hr.of_numbers_eq (Reading.numbers_addOperand many cs)) h
  | case4 r ts ih => exact ih (hr.of_numbers_eq Reading.numbers_addMark) h
  | case5 r ts ih => exact ih ((hclose hr).of_numbers_eq rfl) h
  | case6 r f cs ts base hbase ih | case8 r f cs ts base hbase ih =>
      obtain ⟨next, hnext, hrest⟩ := Stop.bind_eq_ok h
      exact ih next ((hclose hr).addNumber hbase hnext) hrest
  | case9 r f cs ts hbase ih | case11 r f ts hbare hbase ih =>
      obtain ⟨next, hnext, hrest⟩ := Stop.bind_eq_ok h
      exact ih next ((hclose hr).raise hnext) hrest
  | _ => cases h

/-- The limit on the instructions of a run is read from decimal digits, or is the usual one. -/
theorem exists_steps_of_readCommand {name file : List Char} {args : List (List Char)}
    {settings : Settings} {verbose : Bool}
    (h : readCommand name args = .ok (.run file settings verbose)) :
    ∃ cs, integer? .decimal cs = some settings.steps := by
  rw [readCommand] at h
  split at h
  · obtain ⟨ts, -, h⟩ := Stop.bind_eq_ok h
    obtain ⟨r, -, h⟩ := Stop.bind_eq_ok h
    cases h
  · split at h
    · obtain ⟨ts, -, h⟩ := Stop.bind_eq_ok h
      obtain ⟨r, hread, h⟩ := Stop.bind_eq_ok h
      obtain ⟨-, rfl, -⟩ := Invocation.run.inj (Except.ok.inj h)
      cases hsteps : r.number? .steps with
      | none =>
          have husual : integer? .decimal "1000".toList = some 1000 := by
            decide +kernel
          exact ⟨_, husual⟩
      | some x =>
          have hgenuine : r.Genuine := by
            refine genuine_of_read ?_ hread
            intro f x hmem
            cases hmem
          obtain ⟨before, after, hnumbers, -⟩ := List.lookup_eq_some_iff.mp hsteps
          obtain ⟨base, cs, hbase, hcs⟩ := hgenuine .steps x (by rw [hnumbers]; simp)
          obtain rfl := Option.some.inj hbase
          exact ⟨cs, hcs⟩
    · split at h
      · obtain ⟨ts, -, h⟩ := Stop.bind_eq_ok h
        obtain ⟨r, -, h⟩ := Stop.bind_eq_ok h
        cases h
      · cases h

/-- The limit on the instructions of a run that is asked for has few enough digits to be shown. -/
theorem exceedsLimit_steps_of_parse {args : List (List Char)} {file : List Char}
    {settings : Settings} {verbose : Bool} (h : parse args = .ok (.run file settings verbose)) :
    Text.exceedsLimit settings.steps = false := by
  cases args with
  | nil => cases h
  | cons cs rest =>
      rw [parse] at h
      split at h
      · cases h
      · split at h
        · cases h
        · obtain ⟨text, htext⟩ := exists_steps_of_readCommand h
          exact exceedsLimit_of_integer?_decimal htext
        · cases h
        · cases h
        · cases h
        · split at h <;> cases h

end Rv32.Command
