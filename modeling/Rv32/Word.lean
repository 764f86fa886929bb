import Rv32.Text.Basic

/-!
# Words

A word is an integer taken modulo `2 ^ 32`.  It has an unsigned view in `[0, 2 ^ 32)`, kept by
instruction words, program memory and the program counter, and a signed view in
`[-2 ^ 31, 2 ^ 31)`, kept by registers, data memory and the arithmetic unit.  Both views determine
the word, so passing from one to the other loses nothing.

A field of a word is a span of adjacent bits, read as a number.  Bits are counted from the least
significant one, and integers have infinitely many of them, so that reading a field of a negative
number is meaningful.

Instruction words are put together from fields, by one builder for each layout.  The immediate is
cut to the bits that the layout holds; register numbers and opcodes are placed as they are, so that
callers must keep them in range.
-/

namespace Rv32.Word

/-! ## The two views -/

/-- The representative of `x` in `[0, 2 ^ 32)`. -/
def unsigned (x : Int) : Int := x % 4294967296

/-- The representative of `x` modulo `2 ^ bits` in `[-2 ^ (bits - 1), 2 ^ (bits - 1))`. -/
def signExtend (bits : Nat) (x : Int) : Int := x.bmod (Nat.pow 2 bits)

/-- The representative of `x` in `[-2 ^ 31, 2 ^ 31)`. -/
def signed (x : Int) : Int := signExtend 32 x

/-- The word that stands for a truth value. -/
def ofBool (b : Bool) : Int := if b then 1 else 0

/-- The eight hexadecimal digits of a word. -/
def hex8 (x : Int) : String := Numeral.hex 8 (unsigned x).toNat

/-- A word in hexadecimal, with its signed value in parentheses. -/
def shown (x : Int) : String := s!"0x{hex8 x} ({signed x})"

/-- The signed view, by cases on the unsigned one. -/
theorem signed_eq_ite (x : Int) :
    signed x = if x % 4294967296 < 2147483648 then x % 4294967296
      else x % 4294967296 - 4294967296 := by
  simp [signed, signExtend, Int.bmod_def]

theorem unsigned_nonneg (x : Int) : 0 ≤ unsigned x := by
  unfold unsigned
  omega

theorem unsigned_lt (x : Int) : unsigned x < 4294967296 := by
  unfold unsigned
  omega

theorem signed_ge (x : Int) : -2147483648 ≤ signed x := by
  rw [signed_eq_ite]
  split <;> omega

theorem signed_lt (x : Int) : signed x < 2147483648 := by
  rw [signed_eq_ite]
  split <;> omega

@[simp] theorem unsigned_signed (x : Int) : unsigned (signed x) = unsigned x := by
  rw [signed_eq_ite]
  unfold unsigned
  split <;> omega

@[simp] theorem signed_unsigned (x : Int) : signed (unsigned x) = signed x := by
  simp only [signed_eq_ite, unsigned]
  split <;> split <;> omega

@[simp] theorem unsigned_unsigned (x : Int) : unsigned (unsigned x) = unsigned x := by
  unfold unsigned
  omega

@[simp] theorem signed_signed (x : Int) : signed (signed x) = signed x := by
  rw [← signed_unsigned (signed x), unsigned_signed, signed_unsigned]

/-! ## Fields -/

/-- The field of `width` bits whose lowest bit is bit `low`. -/
def field (low width : Nat) (w : Int) : Int := (w >>> low) % Nat.pow 2 width

theorem field_eq (low width : Nat) (w : Int) :
    field low width w = w / Nat.pow 2 low % Nat.pow 2 width := by
  rw [field, Int.shiftRight_eq_div_pow]
  rfl

theorem field_nonneg (low width : Nat) (w : Int) : 0 ≤ field low width w :=
  Int.emod_nonneg _ (Int.natCast_ne_zero.mpr (Nat.ne_of_gt (Nat.two_pow_pos width)))

theorem field_lt (low width : Nat) (w : Int) : field low width w < Nat.pow 2 width :=
  Int.emod_lt_of_pos _ (Int.natCast_pos.mpr (Nat.two_pow_pos width))

theorem toNat_field_lt (low width : Nat) (w : Int) :
    (field low width w).toNat < Nat.pow 2 width := by
  have hnonneg := field_nonneg low width w
  have hlt := field_lt low width w
  omega

/-- The major opcode, bits 6 to 0. -/
def opcode (w : Int) : Int := field 0 7 w

/-- Bits 11 to 7: the destination register. -/
def rdField (w : Int) : Int := field 7 5 w

/-- Bits 14 to 12: the minor opcode. -/
def funct3 (w : Int) : Int := field 12 3 w

/-- Bits 19 to 15: the first source register. -/
def rs1Field (w : Int) : Int := field 15 5 w

/-- Bits 24 to 20: the second source register. -/
def rs2Field (w : Int) : Int := field 20 5 w

/-- Bits 31 to 25: the second minor opcode. -/
def funct7 (w : Int) : Int := field 25 7 w

/-- The integer whose bits are set where a bit of `a` or of `b` is.  The bits that a negative
number lacks are those of its complement. -/
def join : Int → Int → Int
  | .ofNat a, .ofNat b => .ofNat (a ||| b)
  | .ofNat a, .negSucc b => .negSucc (b ^^^ (a &&& b))
  | .negSucc a, .ofNat b => .negSucc (a ^^^ (a &&& b))
  | .negSucc a, .negSucc b => .negSucc (a &&& b)

/-- Fields that do not overlap are joined by adding them. -/
theorem join_eq_add {low : Nat} {a b : Int} (ha : 0 ≤ a) (hb : 0 ≤ b)
    (hlt : b < Nat.pow 2 low) : join (a <<< low) b = a <<< low + b := by
  obtain ⟨m, rfl⟩ := Int.eq_ofNat_of_zero_le ha
  obtain ⟨n, rfl⟩ := Int.eq_ofNat_of_zero_le hb
  have hn : n < 2 ^ low := Int.ofNat_lt.mp hlt
  have h := Nat.shiftLeft_add_eq_or_of_lt hn m
  change Int.ofNat (m <<< low ||| n) = Int.ofNat (m <<< low) + Int.ofNat n
  rw [← h]
  rfl

/-! ## Building instruction words -/

/-- A value moved up to the bit where its field starts. -/
def place (low : Nat) (x : Int) : Int := x <<< low

/-- The join of several fields. -/
def joinAll : List Int → Int
  | [] => 0
  | [x] => x
  | x :: xs => join x (joinAll xs)

/-- A word with three registers. -/
def buildR (opcode funct3 funct7 rd rs1 rs2 : Int) : Int :=
  joinAll [place 25 funct7, place 20 rs2, place 15 rs1, place 12 funct3, place 7 rd, opcode]

/-- A word with a 12-bit immediate. -/
def buildI (opcode funct3 rd rs1 k : Int) : Int :=
  joinAll [place 20 (field 0 12 k), place 15 rs1, place 12 funct3, place 7 rd, opcode]

/-- A word that stores: the 12-bit immediate is split around the registers. -/
def buildS (opcode funct3 rs1 rs2 k : Int) : Int :=
  joinAll [place 25 (field 5 7 k), place 20 rs2, place 15 rs1, place 12 funct3,
    place 7 (field 0 5 k), opcode]

/-- A word that branches by a 13-bit offset. -/
def buildB (opcode funct3 rs1 rs2 k : Int) : Int :=
  joinAll [place 31 (field 12 1 k), place 25 (field 5 6 k), place 20 rs2, place 15 rs1,
    place 12 funct3, place 8 (field 1 4 k), place 7 (field 11 1 k), opcode]

/-- A word with an upper immediate of 20 bits. -/
def buildU (opcode rd k : Int) : Int :=
  joinAll [place 12 (field 0 20 k), place 7 rd, opcode]

/-- A word that jumps by a 21-bit offset. -/
def buildJ (opcode rd k : Int) : Int :=
  joinAll [place 31 (field 20 1 k), place 21 (field 1 10 k), place 20 (field 11 1 k),
    place 12 (field 12 8 k), place 7 rd, opcode]

end Rv32.Word
