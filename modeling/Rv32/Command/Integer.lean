import Rv32.Text.Basic

/-!
# Integers on the command line

An integer on the command line may have blanks around it, a sign, a mark for its base, and single
underscores between digits or after the mark.  In a text with any character beyond ASCII the blanks
and decimal digits of all scripts count as well; in an ASCII text the information separators are
not blank.  Where the base is left open, a mark chooses it, and a decimal number must not start
with a zero unless it is zero.  A decimal number must not have too many digits.

Every script that writes numbers in base ten has its ten digits at ten adjacent code points; a
table lists the zeros.
-/

namespace Rv32

namespace Text

/-- The code points of the decimal zeros, in ascending order. -/
def decimalZeros : List Nat := [
  0x30, 0x660, 0x6f0, 0x7c0, 0x966, 0x9e6, 0xa66, 0xae6, 0xb66, 0xbe6, 0xc66, 0xce6, 0xd66, 0xde6,
  0xe50, 0xed0, 0xf20, 0x1040, 0x1090, 0x17e0, 0x1810, 0x1946, 0x19d0, 0x1a80, 0x1a90, 0x1b50,
  0x1bb0, 0x1c40, 0x1c50, 0xa620, 0xa8d0, 0xa900, 0xa9d0, 0xa9f0, 0xaa50, 0xabf0, 0xff10, 0x104a0,
  0x10d30, 0x11066, 0x110f0, 0x11136, 0x111d0, 0x112f0, 0x11450, 0x114d0, 0x11650, 0x116c0,
  0x11730, 0x118e0, 0x11950, 0x11c50, 0x11d50, 0x11da0, 0x16a60, 0x16ac0, 0x16b50, 0x1d7ce,
  0x1d7d8, 0x1d7e2, 0x1d7ec, 0x1d7f6, 0x1e140, 0x1e2f0, 0x1e950, 0x1fbf0]

/-- The value of a decimal digit of any script. -/
def decimalValue? (c : Char) : Option Nat :=
  (decimalZeros.find? fun z => z ≤ c.toNat && c.toNat ≤ z + 9).map (c.toNat - ·)

example : decimalZeros.length = 66 := by decide

example : decimalValue? '7' = some 7 ∧ decimalValue? '\u0663' = some 3 := by decide

end Text

namespace Command

/-- How the base of an integer is chosen. -/
inductive Base where
  | decimal | hexadecimal | marked
  deriving DecidableEq, Repr

/-- Blanks of an ASCII text. -/
def isPlainBlank (c : Char) : Bool := c = ' ' || (9 ≤ c.toNat && c.toNat ≤ 13)

/-- A character as ASCII: other blanks become spaces and other decimal digits ASCII digits.  What
is neither becomes a character that no integer holds. -/
def plainChar (c : Char) : Char :=
  if c.toNat < 127 then c
  else if Text.isBlank c then ' '
  else match Text.decimalValue? c with
    | some d => Char.ofNat ('0'.toNat + d)
    | none => '?'

/-- A text as ASCII. -/
def plainText (cs : List Char) : List Char :=
  if cs.all (·.toNat < 128) then cs else cs.map plainChar

/-- A text without plain blanks at its ends. -/
def trimPlain (cs : List Char) : List Char :=
  ((cs.dropWhile isPlainBlank).reverse.dropWhile isPlainBlank).reverse

/-- The value of a letter or digit in the given base. -/
def digit? (base : Nat) (c : Char) : Option Nat :=
  let value :=
    if c.isDigit then some (c.toNat - '0'.toNat)
    else if 'a' ≤ c && c ≤ 'z' then some (c.toNat - 'a'.toNat + 10)
    else if 'A' ≤ c && c ≤ 'Z' then some (c.toNat - 'A'.toNat + 10)
    else none
  value.filter (· < base)

/-- The value of digits with single underscores between them, after digits of value `high`. -/
def groupsFrom? (base high : Nat) : List Char → Option Nat
  | [] => some high
  | '_' :: c :: cs =>
    match digit? base c with
    | some d => groupsFrom? base (base * high + d) cs
    | none => none
  | c :: cs =>
    match digit? base c with
    | some d => groupsFrom? base (base * high + d) cs
    | none => none

/-- The value of one or more digits with single underscores between them. -/
def groups? (base : Nat) : List Char → Option Nat
  | [] => none
  | c :: cs =>
    match digit? base c with
    | some d => groupsFrom? base d cs
    | none => none

/-- The value of decimal digits with single underscores between them, unless they are too many. -/
def decimal? (cs : List Char) : Option Nat :=
  if Text.digitLimit < cs.countP (·.isDigit) then none else groups? 10 cs

/-- What follows a mark, of which one underscore is part. -/
def afterMark : List Char → List Char
  | '_' :: cs => cs
  | cs => cs

/-- The value of an integer without its sign. -/
def natural? (base : Base) (cs : List Char) : Option Nat :=
  match base, cs with
  | .decimal, _ => decimal? cs
  | .hexadecimal, '0' :: 'x' :: rest | .hexadecimal, '0' :: 'X' :: rest =>
    groups? 16 (afterMark rest)
  | .hexadecimal, _ => groups? 16 cs
  | .marked, '0' :: 'x' :: rest | .marked, '0' :: 'X' :: rest => groups? 16 (afterMark rest)
  | .marked, '0' :: 'o' :: rest | .marked, '0' :: 'O' :: rest => groups? 8 (afterMark rest)
  | .marked, '0' :: 'b' :: rest | .marked, '0' :: 'B' :: rest => groups? 2 (afterMark rest)
  | .marked, '0' :: rest => (decimal? ('0' :: rest)).filter (· = 0)
  | .marked, _ => decimal? cs

/-- The value of an integer. -/
def integer? (base : Base) (cs : List Char) : Option Int :=
  match trimPlain (plainText cs) with
  | '-' :: rest => (natural? base rest).map fun n => -(n : Int)
  | '+' :: rest => (natural? base rest).map fun n => (n : Int)
  | rest => (natural? base rest).map fun n => (n : Int)

example : integer? .hexadecimal " +0X_1_3 ".toList = some 19 := by decide +kernel

example : integer? .marked "010".toList = none ∧ integer? .marked "0_0".toList = some 0 := by
  decide +kernel

end Command

end Rv32
