import Rv32.Text.Basic

/-!
# Text from bytes

Source files are UTF-8.  A character is a lead byte and up to three tail bytes; the lead byte says
how many tails it owes and restricts the first of them, which keeps out overlong forms, surrogates
and numbers that are too large.  Reading stops at the first byte that fits no character, and the
report covers the part of the broken sequence that did fit.
-/

namespace Rv32.Text.Utf8

/-- What is wrong with a sequence of bytes. -/
inductive Defect where
  | startByte
  | continuationByte
  | endOfData
  deriving DecidableEq, Repr

/-- The wording of a defect. -/
def Defect.reason : Defect → String
  | .startByte => "invalid start byte"
  | .continuationByte => "invalid continuation byte"
  | .endOfData => "unexpected end of data"

/-- Bytes that are no text: where the broken sequence starts, its first byte, how many bytes it
covers, and its defect. -/
structure Malformed where
  position : Nat
  byte : Nat
  count : Nat
  defect : Defect
  deriving DecidableEq, Repr

/-- The wording of a report on malformed bytes. -/
def Malformed.message (m : Malformed) : String :=
  if m.count = 1 then
    s!"'utf-8' codec can't decode byte 0x{Numeral.hex 2 m.byte} in position {m.position}: " ++
      m.defect.reason
  else
    s!"'utf-8' codec can't decode bytes in position {m.position}-{m.position + m.count - 1}: " ++
      m.defect.reason

/-- A character under construction: its lead byte, the tails it still owes, the range of the next
one, the bits read so far and the number of bytes that held them. -/
structure Partial where
  byte : Nat
  owed : Nat
  low : Nat
  high : Nat
  bits : Nat
  count : Nat

/-- What a lead byte of a sequence of several bytes starts. -/
def lead? (b : Nat) : Option Partial :=
  if 0xC2 ≤ b ∧ b ≤ 0xDF then some ⟨b, 1, 0x80, 0xBF, b - 0xC0, 1⟩
  else if b = 0xE0 then some ⟨b, 2, 0xA0, 0xBF, 0, 1⟩
  else if b = 0xED then some ⟨b, 2, 0x80, 0x9F, 0xD, 1⟩
  else if 0xE1 ≤ b ∧ b ≤ 0xEF then some ⟨b, 2, 0x80, 0xBF, b - 0xE0, 1⟩
  else if b = 0xF0 then some ⟨b, 3, 0x90, 0xBF, 0, 1⟩
  else if 0xF1 ≤ b ∧ b ≤ 0xF3 then some ⟨b, 3, 0x80, 0xBF, b - 0xF0, 1⟩
  else if b = 0xF4 then some ⟨b, 3, 0x80, 0x8F, 4, 1⟩
  else none

/-- The characters of the bytes from `position` on, after what is left of a character before. -/
def decodeFrom (position : Nat) (open? : Option Partial) :
    List UInt8 → Except Malformed (List Char)
  | [] =>
    match open? with
    | none => .ok []
    | some p => .error ⟨position - p.count, p.byte, p.count, .endOfData⟩
  | b :: bs =>
    match open? with
    | none =>
      if b.toNat < 0x80 then do
        let cs ← decodeFrom (position + 1) none bs
        return Char.ofNat b.toNat :: cs
      else match lead? b.toNat with
        | none => .error ⟨position, b.toNat, 1, .startByte⟩
        | some p => decodeFrom (position + 1) (some p) bs
    | some p =>
      if p.low ≤ b.toNat ∧ b.toNat ≤ p.high then
        let bits := p.bits * 64 + (b.toNat - 0x80)
        if p.owed = 1 then do
          let cs ← decodeFrom (position + 1) none bs
          return Char.ofNat bits :: cs
        else decodeFrom (position + 1)
          (some ⟨p.byte, p.owed - 1, 0x80, 0xBF, bits, p.count + 1⟩) bs
      else .error ⟨position - p.count, p.byte, p.count, .continuationByte⟩

/-- The text of the bytes. -/
def decode (bytes : List UInt8) : Except Malformed (List Char) :=
  decodeFrom 0 none bytes

example : (decode [0x6E, 0x6F, 0x70, 0xC3]).toOption = none := by decide

end Rv32.Text.Utf8
