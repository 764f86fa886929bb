/-!
# Lines, blanks and numbers

A text is cut into lines at its line feeds, so that a text with `n` line feeds has `n + 1` lines,
the last of which may be empty.  Text files may end their lines with a carriage return, a line
feed, or both; reading such a file turns each of the three into one line feed.

The parts of a line are separated by blanks: the control characters that move the cursor, the four
information separators, and every space of Unicode.  A zero-width space and a byte order mark are
not blank.  Trimming removes blanks from both ends of a text and touches nothing else.

Listings and messages show numbers in hexadecimal and binary digits, which are lower case, with
paddings.  Padding never cuts: a number wider than its field keeps all its digits.

A number is read from decimal digits, and shown in them, only up to 4300 digits.  Leading zeros
count when it is read; the sign never counts.  Digits in base two or sixteen are not limited.
-/

namespace Rv32

namespace Text

/-! ## Lines -/

/-- The lines of a text. -/
def lines : List Char → List (List Char)
  | [] => [[]]
  | c :: cs =>
    match lines cs with
    | [] => [[c]]
    | l :: ls => if c = '\n' then [] :: l :: ls else (c :: l) :: ls

theorem lines_ne_nil (cs : List Char) : lines cs ≠ [] := by
  cases cs with
  | nil => simp [lines]
  | cons c cs =>
      simp only [lines]
      split
      · simp
      · split <;> simp

/-- Every ending of a line becomes a line feed. -/
def normalizeNewlines : List Char → List Char
  | '\r' :: '\n' :: cs => '\n' :: normalizeNewlines cs
  | '\r' :: cs => '\n' :: normalizeNewlines cs
  | c :: cs => c :: normalizeNewlines cs
  | [] => []

/-- A text without its carriage returns. -/
def dropReturns (cs : List Char) : List Char := cs.filter (· ≠ '\r')

/-! ## Blanks -/

/-- Blank characters. -/
def isBlank (c : Char) : Bool :=
  let n := c.toNat
  (9 ≤ n && n ≤ 13) || (28 ≤ n && n ≤ 32) || n == 0x85 || n == 0xA0 || n == 0x1680 ||
    (0x2000 ≤ n && n ≤ 0x200A) || n == 0x2028 || n == 0x2029 || n == 0x202F || n == 0x205F ||
    n == 0x3000

/-- A text without the blanks at its start. -/
def trimStart (cs : List Char) : List Char := cs.dropWhile isBlank

/-- A text without the blanks at its end. -/
def trimEnd (cs : List Char) : List Char := (cs.reverse.dropWhile isBlank).reverse

/-- A text without the blanks at its two ends. -/
def trim (cs : List Char) : List Char := trimEnd (trimStart cs)

theorem trimStart_length_le (cs : List Char) : (trimStart cs).length ≤ cs.length :=
  (List.dropWhile_sublist isBlank).length_le

end Text

/-! ## Digits of a number -/

namespace Numeral

/-- The digits of `n` in the given base, padded with zeros to at least `width`. -/
def digits (base width n : Nat) : List Char :=
  List.leftpad width '0' (Nat.toDigits base n)

/-- Hexadecimal digits, at least `width` of them. -/
def hex (width n : Nat) : String :=
  String.ofList (digits 16 width n)

/-- Binary digits, at least `width` of them. -/
def binary (width n : Nat) : String :=
  String.ofList (digits 2 width n)

/-- A signed hexadecimal number with the mark `0x` after its sign, as in `-0x4`, and at least
`width` digits. -/
def marked (width : Nat) (x : Int) : String :=
  (if x < 0 then "-0x" else "0x") ++ hex width x.natAbs

/-- Decimal text of `n` in a field of at least `width` columns, flush right. -/
def column (width n : Nat) : String :=
  String.ofList (List.leftpad width ' ' (Nat.toDigits 10 n))

end Numeral

/-! ## The limit on digits -/

namespace Text

/-- The most decimal digits from which a number is read or in which it is shown. -/
def digitLimit : Nat := 4300

/-- Why a number is not read from its decimal digits, or not shown in them. -/
inductive Excess where
  | read (digits : Nat)
  | shown
  deriving DecidableEq, Repr

/-- The wording of an excess. -/
def Excess.message (e : Excess) : String :=
  let given := match e with
    | read digits => s!": value has {digits} digits"
    | shown => ""
  s!"Exceeds the limit ({digitLimit} digits) for integer string conversion{given}; " ++
    "use sys.set_int_max_str_digits() to increase the limit"

/-- Whether a number has more decimal digits than are shown.  The bound is a number of thousands of
digits itself, which no proof should ever work out. -/
@[irreducible] def exceedsLimit (x : Int) : Bool := Nat.pow 10 digitLimit ≤ x.natAbs

end Text

end Rv32
