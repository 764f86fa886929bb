import Rv32.Text.Basic

/-!
# Source lines

A source line holds any number of labels, each with a colon after it, then an operation with its
operands, then a comment.  Any part may be missing, and blanks may stand around each.  A comment
starts at the first number sign or double slash.  Operands are separated by a comma, by blanks, or
by both; blanks around and inside the parentheses of one operand are dropped first, so that a
register in parentheses stays with the offset before it.

An integer literal has an optional sign and digits in base ten, in base sixteen after `0x`, or in
base two after `0b`.  The case of letters does not matter and leading zeros are allowed, but a
literal with too many digits in base ten is not read.  A name is made of ASCII letters, digits,
points and underscores and does not start with a digit.
-/

namespace Rv32.Assembly

open Rv32.Text (isBlank trim trimStart)

/-! ## The parts of a line -/

/-- Whether a comment starts here. -/
def startsComment : List Char → Bool
  | '#' :: _ => true
  | '/' :: '/' :: _ => true
  | _ => false

/-- What stands before the comment of a line, and the comment. -/
def splitComment : List Char → List Char × List Char
  | [] => ([], [])
  | c :: cs =>
    if startsComment (c :: cs) then ([], c :: cs)
    else ((c :: (splitComment cs).1), (splitComment cs).2)

/-- Characters that a label may hold. -/
def isLabelChar (c : Char) : Bool :=
  !isBlank c && c != ':' && c != ',' && c != '(' && c != ')'

/-- The label at the start of a text, and what follows its colon. -/
def takeLabel? (cs : List Char) : Option (List Char × List Char) :=
  let start := trimStart cs
  let label := start.takeWhile isLabelChar
  match trimStart (start.dropWhile isLabelChar) with
  | ':' :: rest => if label.isEmpty then none else some (label, rest)
  | _ => none

theorem takeLabel?_length_lt {cs label rest : List Char}
    (h : takeLabel? cs = some (label, rest)) : rest.length < cs.length := by
  simp only [takeLabel?] at h
  split at h
  · next r hr =>
    have h1 := Text.trimStart_length_le cs
    have h2 := (List.dropWhile_sublist isLabelChar (l := trimStart cs)).length_le
    have h3 := Text.trimStart_length_le ((trimStart cs).dropWhile isLabelChar)
    rw [hr, List.length_cons] at h3
    split at h
    · simp at h
    · simp only [Option.some.injEq, Prod.mk.injEq] at h
      obtain ⟨-, rfl⟩ := h
      omega
  · simp at h

/-- All labels at the start of a text, and what follows them. -/
def takeLabels (cs : List Char) : List (List Char) × List Char :=
  match h : takeLabel? cs with
  | none => ([], cs)
  | some (label, rest) =>
    have := takeLabel?_length_lt h
    (label :: (takeLabels rest).1, (takeLabels rest).2)
termination_by cs.length

/-- The content of the parentheses that open at the start of a text, after blanks, and what
follows them.  The content holds no parenthesis. -/
def parenthesized? (cs : List Char) : Option (List Char × List Char) :=
  match trimStart cs with
  | '(' :: inner =>
    match inner.dropWhile fun c => c != '(' && c != ')' with
    | ')' :: rest => some (inner.takeWhile fun c => c != '(' && c != ')', rest)
    | _ => none
  | _ => none

theorem parenthesized?_length_lt {cs content rest : List Char}
    (h : parenthesized? cs = some (content, rest)) : rest.length < cs.length := by
  simp only [parenthesized?] at h
  split at h
  · next inner hi =>
    have h1 := Text.trimStart_length_le cs
    rw [hi, List.length_cons] at h1
    split at h
    · next r hr =>
      have h2 := (List.dropWhile_sublist (fun c => c != '(' && c != ')') (l := inner)).length_le
      rw [hr, List.length_cons] at h2
      simp only [Option.some.injEq, Prod.mk.injEq] at h
      obtain ⟨-, rfl⟩ := h
      omega
    · simp at h
  · simp at h

/-- A text without the blanks before and inside its parentheses. -/
def tighten (cs : List Char) : List Char :=
  match h : parenthesized? cs with
  | some (content, rest) =>
    have := parenthesized?_length_lt h
    '(' :: trim content ++ ')' :: tighten rest
  | none =>
    match cs with
    | [] => []
    | c :: rest => c :: tighten rest
termination_by cs.length

/-- What follows the separator at the start of a text. -/
def separator? (cs : List Char) : Option (List Char) :=
  match trimStart cs with
  | ',' :: rest => some (trimStart rest)
  | rest => if rest.length < cs.length then some rest else none

theorem separator?_length_lt {cs rest : List Char} (h : separator? cs = some rest) :
    rest.length < cs.length := by
  simp only [separator?] at h
  split at h
  · next r hr =>
    have h1 := Text.trimStart_length_le cs
    have h2 := Text.trimStart_length_le r
    rw [hr, List.length_cons] at h1
    simp only [Option.some.injEq] at h
    subst h
    omega
  · split at h
    · simp only [Option.some.injEq] at h
      subst h
      assumption
    · simp at h

/-- A text cut at its separators. -/
def pieces (cs : List Char) : List (List Char) :=
  match h : separator? cs with
  | some rest =>
    have := separator?_length_lt h
    [] :: pieces rest
  | none =>
    match cs with
    | [] => [[]]
    | c :: rest =>
      match pieces rest with
      | [] => [[c]]
      | p :: ps => (c :: p) :: ps
termination_by cs.length

/-- The operands in a text. -/
def splitOperands (cs : List Char) : List (List Char) := pieces (tighten (trim cs))

/-- The parts of a source line. -/
structure Line where
  labels : List (List Char)
  operation : List Char
  operandText : List Char
  comment : List Char
  deriving DecidableEq, Repr

namespace Line

/-- The parts of a source line. -/
def parse (source : List Char) : Line :=
  let (code, comment) := splitComment source
  let (labels, rest) := takeLabels code
  let statement := trim rest
  { labels
    operation := statement.takeWhile fun c => !isBlank c
    operandText := trimStart (statement.dropWhile fun c => !isBlank c)
    comment }

/-- The operands of a line. -/
def operands (l : Line) : List (List Char) :=
  if l.operandText.isEmpty then [] else splitOperands l.operandText

end Line

/-! ## Integer literals and names -/

/-- The value of a digit in the given base. -/
def digit? (base : Nat) (c : Char) : Option Nat :=
  let value :=
    if '0' ≤ c && c ≤ '9' then some (c.toNat - '0'.toNat)
    else if 'a' ≤ c && c ≤ 'f' then some (c.toNat - 'a'.toNat + 10)
    else if 'A' ≤ c && c ≤ 'F' then some (c.toNat - 'A'.toNat + 10)
    else none
  value.filter (· < base)

/-- The value of digits, most significant first, after digits of value `high`. -/
def valueFrom? (base high : Nat) : List Char → Option Nat
  | [] => some high
  | c :: cs =>
    match digit? base c with
    | some d => valueFrom? base (base * high + d) cs
    | none => none

/-- The value of one or more digits. -/
def value? (base : Nat) (cs : List Char) : Option Nat :=
  if cs.isEmpty then none else valueFrom? base 0 cs

/-- The value of a literal without its sign. -/
def magnitude? : List Char → Option Nat
  | '0' :: c :: cs =>
    if c = 'x' || c = 'X' then value? 16 cs
    else if c = 'b' || c = 'B' then value? 2 cs
    else value? 10 ('0' :: c :: cs)
  | cs => value? 10 cs

/-- The value of an integer literal, which may have blanks around it. -/
def literal? (cs : List Char) : Option Int :=
  match Text.trim cs with
  | '-' :: rest => (magnitude? rest).map fun n => -(n : Int)
  | '+' :: rest => (magnitude? rest).map fun n => (n : Int)
  | rest => (magnitude? rest).map fun n => (n : Int)

/-- The digits of a literal in base ten, without its sign; none if a mark chooses another base. -/
def decimalDigits (cs : List Char) : List Char :=
  let digits := match Text.trim cs with
    | '-' :: rest => rest
    | '+' :: rest => rest
    | rest => rest
  match digits with
  | '0' :: c :: _ => if c.isDigit then digits else []
  | _ => digits

/-- The value of a text if it is a literal, which must not have too many digits. -/
def readLiteral (cs : List Char) : Except Text.Excess (Option Int) :=
  match literal? cs with
  | none => .ok none
  | some x =>
    let count := (decimalDigits cs).length
    if Text.digitLimit < count then .error (.read count) else .ok (some x)

/-- Characters that a name may start with. -/
def isNameStart (c : Char) : Bool := c.isAlpha || c = '_' || c = '.'

/-- Names of labels. -/
def isName : List Char → Bool
  | [] => false
  | c :: cs => isNameStart c && cs.all fun d => isNameStart d || d.isDigit

end Rv32.Assembly
