import Rv32.Text.Quoted

/-!
# Values from outside

An address, a memory size or a saved machine state may come from outside, where it can be any
value at all.  Such a value is a datum; the operations that accept one check it first and show it
in the complaint if it will not do.  A truth value is accepted wherever a number is, as one or
zero.  A number with a fractional part written out is no integer, whatever its value.
-/

namespace Rv32

/-- A value that nothing has checked yet. -/
inductive Datum where
  | null
  | flag (b : Bool)
  | integer (n : Int)
  /-- The digits of a decimal fraction and how many of them follow the point. -/
  | decimal (digits : Int) (places : Nat)
  | text (cs : List Char)
  | list (items : List Datum)
  | record (fields : List (List Char × Datum))
  deriving Inhabited

namespace Datum

/-- A number as an integer, where it is one. -/
def integer? : Datum → Option Int
  | .integer n => some n
  | .flag b => some (if b then 1 else 0)
  | _ => none

/-- An integer is a datum. -/
instance : Coe Int Datum where
  coe := .integer

/-- The value of a number, and zero for anything else. -/
def toInt (d : Datum) : Int := d.integer?.getD 0

/-- The integer that a number equals, if any; a decimal fraction may be whole. -/
def whole? : Datum → Option Int
  | .decimal digits places =>
    if digits % Nat.pow 10 places = 0 then some (digits / Nat.pow 10 places) else none
  | d => d.integer?

/-- Whether two data are the same key of a table: numbers are compared by their values. -/
def sameKey : Datum → Datum → Bool
  | .null, .null => true
  | .text cs, .text ds => cs == ds
  | .decimal m p, .decimal n q => m * Nat.pow 10 q == n * Nat.pow 10 p
  | d, e =>
    match d.whole?, e.whole? with
    | some m, some n => m == n
    | _, _ => false

/-- A table with a value under a key, which keeps its place if it is there already. -/
def put {α : Type} (key : Datum) (value : α) : List (Datum × α) → List (Datum × α)
  | [] => [(key, value)]
  | (k, v) :: rest =>
    if sameKey k key then (k, value) :: rest else (k, v) :: put key value rest

/-- The table of a list of entries, of which a later one counts more than an earlier one. -/
def table {α : Type} (entries : List (Datum × α)) : List (Datum × α) :=
  entries.foldl (fun t e => put e.1 e.2 t) []

/-- The items of a list. -/
def items? : Datum → Option (List Datum)
  | .list items => some items
  | _ => none

/-- The value under a key of a record. -/
def get? (d : Datum) (key : String) : Option Datum :=
  match d with
  | .record fields => fields.lookup key.toList
  | _ => none

/-- A list of numbers. -/
def ofInts (xs : List Int) : Datum := .list (xs.map .integer)

/-- A decimal fraction with its point and no idle zeros after the first place. -/
def decimalText (digits : Int) (places : Nat) : List Char :=
  let padded := Numeral.digits 10 (places + 1) digits.natAbs
  let whole := padded.take (padded.length - places)
  let part := padded.drop (padded.length - places)
  let kept := (part.reverse.dropWhile (· = '0')).reverse
  (if digits < 0 then ['-'] else []) ++ whole ++ '.' :: (if kept.isEmpty then ['0'] else kept)

mutual

/-- A datum as messages show it when they doubt it: texts stand between quotes. -/
def quoted : Datum → List Char
  | .null => "None".toList
  | .flag true => "True".toList
  | .flag false => "False".toList
  | .integer n => (toString n).toList
  | .decimal digits places => decimalText digits places
  | .text cs => Text.quoted cs
  | .list items => '[' :: quotedItems items ++ [']']
  | .record fields => '\x7b' :: quotedFields fields ++ ['\x7d']

/-- The items of a list, with commas between them. -/
def quotedItems : List Datum → List Char
  | [] => []
  | [d] => quoted d
  | d :: ds => quoted d ++ ", ".toList ++ quotedItems ds

/-- The fields of a record, with commas between them. -/
def quotedFields : List (List Char × Datum) → List Char
  | [] => []
  | [(k, d)] => Text.quoted k ++ ": ".toList ++ quoted d
  | (k, d) :: fs => Text.quoted k ++ ": ".toList ++ quoted d ++ ", ".toList ++ quotedFields fs

end

mutual

/-- Whether a datum holds a number with more decimal digits than are shown. -/
def exceedsLimit : Datum → Bool
  | .integer n => Text.exceedsLimit n
  | .list items => itemsExceedLimit items
  | .record fields => fieldsExceedLimit fields
  | _ => false

/-- Whether one of the items of a list does. -/
def itemsExceedLimit : List Datum → Bool
  | [] => false
  | d :: ds => exceedsLimit d || itemsExceedLimit ds

/-- Whether one of the values of a record does. -/
def fieldsExceedLimit : List (List Char × Datum) → Bool
  | [] => false
  | (_, d) :: fs => exceedsLimit d || fieldsExceedLimit fs

end

@[simp] theorem exceedsLimit_integer (n : Int) : exceedsLimit n = Text.exceedsLimit n := by
  simp [exceedsLimit]

/-- A datum as messages show it plainly: a text stands as it is. -/
def plain : Datum → List Char
  | .text cs => cs
  | d => quoted d

instance : ToString Datum where
  toString d := String.ofList d.plain

end Datum

end Rv32
