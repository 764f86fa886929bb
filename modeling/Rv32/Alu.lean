import Rv32.Word

/-!
# The arithmetic unit

The unit has eleven operations.  Each takes two integers and gives the signed view of its 32-bit
result; comparisons give one or zero.  `AluOp.execute` wraps its operands to signed words first
and reports four flags beside the result.  Overflow and carry describe additions and subtractions
only: overflow follows the rule of signs, the carry of a subtraction is its borrow.
-/

namespace Rv32

/-- The operations of the arithmetic unit. -/
inductive AluOp where
  | add | sub | and | or | xor | sll | srl | sra | slt | sltu | seq
  deriving DecidableEq, Repr

namespace AluOp

/-- All operations. -/
def all : List AluOp := [.add, .sub, .and, .or, .xor, .sll, .srl, .sra, .slt, .sltu, .seq]

/-- The name of an operation. -/
def name : AluOp → String
  | add => "ADD"
  | sub => "SUB"
  | and => "AND"
  | or => "OR"
  | xor => "XOR"
  | sll => "SLL"
  | srl => "SRL"
  | sra => "SRA"
  | slt => "SLT"
  | sltu => "SLTU"
  | seq => "SEQ"

/-- The operation of that name. -/
def ofName? (cs : List Char) : Option AluOp := all.find? fun op => op.name.toList == cs

end AluOp

/-- The number of places by which an operand shifts: its low five bits. -/
def shiftAmount (b : Int) : Nat := (b % 32).toNat

namespace AluOp

/-- The signed view of what an operation makes of two integers, which are not wrapped before. -/
def apply (op : AluOp) (a b : Int) : Int :=
  match op with
  | add => Word.signed (a + b)
  | sub => Word.signed (a - b)
  | and => (BitVec.ofInt 32 a &&& BitVec.ofInt 32 b).toInt
  | or => (BitVec.ofInt 32 a ||| BitVec.ofInt 32 b).toInt
  | xor => (BitVec.ofInt 32 a ^^^ BitVec.ofInt 32 b).toInt
  | sll => Word.signed (a <<< shiftAmount b)
  | srl => Word.signed (Word.unsigned a >>> shiftAmount b)
  | sra => Word.signed (a >>> shiftAmount b)
  | slt => Word.ofBool (a < b)
  | sltu => Word.ofBool (Word.unsigned a < Word.unsigned b)
  | seq => Word.ofBool (a = b)

/-- Whether the signed result `r` of an addition or subtraction has the wrong sign. -/
def overflows (op : AluOp) (a b r : Int) : Bool :=
  match op with
  | add => (decide (a < 0) == decide (b < 0)) && (decide (a < 0) != decide (r < 0))
  | sub => (decide (a < 0) != decide (b < 0)) && (decide (a < 0) != decide (r < 0))
  | _ => false

/-- The carry of an addition and the borrow of a subtraction, on the unsigned views. -/
def carries (op : AluOp) (a b : Int) : Bool :=
  match op with
  | add => Word.unsigned a + Word.unsigned b > 4294967295
  | sub => Word.unsigned a < Word.unsigned b
  | _ => false

end AluOp

/-- What the arithmetic unit reports. -/
structure AluResult where
  value : Int
  zero : Bool
  negative : Bool
  overflow : Bool
  carry : Bool
  deriving DecidableEq, Repr

/-- One operation on the signed views of two operands. -/
def AluOp.execute (op : AluOp) (a b : Int) : AluResult :=
  let a := Word.signed a
  let b := Word.signed b
  let r := op.apply a b
  { value := r
    zero := r = 0
    negative := r < 0
    overflow := op.overflows a b r
    carry := op.carries a b }

namespace AluResult

/-- The flags as four letters, with a dash for each that is down. -/
def flags (r : AluResult) : String :=
  (if r.zero then "Z" else "-") ++ (if r.negative then "N" else "-") ++
    (if r.overflow then "V" else "-") ++ (if r.carry then "C" else "-")

instance : ToString AluResult where
  toString r := s!"result={Word.shown r.value} flags={r.flags}"

end AluResult

end Rv32
