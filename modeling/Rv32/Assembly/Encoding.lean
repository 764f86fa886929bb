import Rv32.Assembly.Statement
import Rv32.Instruction.Kind
import Rv32.Register
import Rv32.Word

/-!
# Operands and the words of statements

Checking an operand yields its value, or a problem and no value.  The operands of a statement are
checked independently of each other, from left to right, so that every problem is found; a word
comes out only if every operand has a value.  A number with more digits than are read or shown
stops the assembler.

The word of a statement is built from its table entry and its checked operands.  A jump without a
destination writes the return address register, and an indirect jump to a plain register has
offset zero.
-/

namespace Rv32.Assembly

/-! ## Operands -/

/-- A value that may be missing, with the remarks made on the way to it. -/
structure Checked (α : Type) where
  value : Option α
  remarks : List Remark
  deriving DecidableEq, Repr

namespace Checked

/-- No value, because of a problem. -/
def fail {α : Type} (p : Problem) : Checked α := ⟨none, [.problem p]⟩

/-- No value, because a number has too many digits. -/
def stop {α : Type} (e : Text.Excess) : Checked α := ⟨none, [.stopped e]⟩

/-- No value, because of a problem whose wording shows the number `x`. -/
def failShowing {α : Type} (x : Int) (p : Problem) : Checked α :=
  if Text.exceedsLimit x then stop .shown else fail p

/-- A remark made before a check. -/
def noting {α : Type} (r : Remark) (c : Checked α) : Checked α :=
  { c with remarks := r :: c.remarks }

instance : Applicative Checked where
  pure a := ⟨some a, []⟩
  seq f x := ⟨f.value.bind fun g => (x ()).value.map g, f.remarks ++ (x ()).remarks⟩

@[simp] theorem value_pure {α : Type} (a : α) : (pure a : Checked α).value = some a := rfl

@[simp] theorem remarks_pure {α : Type} (a : α) : (pure a : Checked α).remarks = [] := rfl

@[simp] theorem value_seq {α β : Type} (f : Checked (α → β)) (x : Checked α) :
    (f <*> x).value = f.value.bind fun g => x.value.map g := rfl

@[simp] theorem remarks_seq {α β : Type} (f : Checked (α → β)) (x : Checked α) :
    (f <*> x).remarks = f.remarks ++ x.remarks := rfl

@[simp] theorem value_map {α β : Type} (f : α → β) (x : Checked α) :
    (f <$> x).value = x.value.map f := rfl

@[simp] theorem remarks_map {α β : Type} (f : α → β) (x : Checked α) :
    (f <$> x).remarks = x.remarks := rfl

end Checked

/-- A register. -/
def checkRegister (operand : List Char) : Checked Register :=
  match Register.ofName? operand with
  | some r => pure r
  | none => .fail (.notRegister operand)

/-- A number in the range of its quantity. -/
def checkNumber (what : Quantity) (operand : List Char) : Checked Int :=
  match readLiteral operand with
  | .error e => .stop e
  | .ok none => .fail (.notNumber what operand)
  | .ok (some x) =>
    if x < what.least || what.greatest < x then .failShowing x (.outsideRange what x) else pure x

/-- The offset and the register of an operand such as `8(sp)`, as they are written. -/
def memoryParts? (operand : List Char) : Option (List Char × List Char) :=
  match operand.reverse with
  | ')' :: rest =>
    let name := rest.takeWhile fun c => c != '(' && c != ')'
    match rest.dropWhile fun c => c != '(' && c != ')' with
    | '(' :: offset => if name.isEmpty then none else some (offset.reverse, name.reverse)
    | _ => none
  | _ => none

/-- A register with an offset, which is zero where none is written. -/
def checkMemory (operand : List Char) : Checked (Int × Register) :=
  match memoryParts? operand with
  | none => .fail (.notMemory operand)
  | some (offset, name) =>
    Prod.mk <$> checkNumber .offset (if offset.isEmpty then ['0'] else offset) <*>
      checkRegister name

/-- An offset that a branch or jump can encode. -/
def checkOffset (format : ImmediateFormat) (x : Int) : Checked Int :=
  if x % 2 ≠ 0 then .failShowing x (.oddOffset x)
  else if format.fits x then pure x
  else .failShowing x (.offsetTooFar format x)

/-- The target of a branch or jump at an address: an offset written as a number, or a label whose
distance is the offset. -/
def checkTarget (format : ImmediateFormat) (symbols : List Symbol) (address : Nat)
    (operand : List Char) : Checked Int :=
  match readLiteral operand with
  | .error e => .stop e
  | .ok (some x) => checkOffset format x
  | .ok none =>
    if !isName operand then .fail (.invalidTarget operand)
    else
      match findSymbol? symbols operand with
      | none => .fail (.undefinedLabel operand)
      | some s =>
        let offset := (s.address : Int) - address
        .noting (.resolved operand s.address offset) (checkOffset format offset)

/-! ## Words -/

/-- The third operand of an instruction with an immediate.  A shift amount shares the immediate
with the second minor opcode. -/
def checkImmediate (m : Mnemonic) (operand : List Char) : Checked Int :=
  if m.isShift then
    (fun x => m.entry.funct7.getD 0 * 32 + x) <$> checkNumber .shiftAmount operand
  else checkNumber .immediate operand

/-- The word of an instruction with the right number of operands. -/
def encodeOperands (symbols : List Symbol) (address : Nat) (m : Mnemonic)
    (operands : List (List Char)) : Checked Int :=
  let opcode := m.kind.opcode
  let funct3 := m.entry.funct3.getD 0
  let funct7 := m.entry.funct7.getD 0
  let wordI (rd rs1 : Register) (k : Int) := Word.buildI opcode funct3 rd.val rs1.val k
  match m.kind, operands with
  | .register, [a, b, c] =>
    (fun rd rs1 rs2 : Register => Word.buildR opcode funct3 funct7 rd.val rs1.val rs2.val) <$>
      checkRegister a <*> checkRegister b <*> checkRegister c
  | .immediate, [a, b, c] =>
    wordI <$> checkRegister a <*> checkRegister b <*> checkImmediate m c
  | .load, [a, b] =>
    (fun rd (mem : Int × Register) => wordI rd mem.2 mem.1) <$>
      checkRegister a <*> checkMemory b
  | .store, [a, b] =>
    (fun (rs2 : Register) (mem : Int × Register) =>
      Word.buildS opcode funct3 mem.2.val rs2.val mem.1) <$>
      checkRegister a <*> checkMemory b
  | .branch, [a, b, c] =>
    (fun (rs1 rs2 : Register) k => Word.buildB opcode funct3 rs1.val rs2.val k) <$>
      checkRegister a <*> checkRegister b <*> checkTarget .b symbols address c
  | .lui, [a, b] | .auipc, [a, b] =>
    (fun (rd : Register) k => Word.buildU opcode rd.val k) <$>
      checkRegister a <*> checkNumber .upperImmediate b
  | .jal, [a] =>
    (fun k => Word.buildJ opcode Register.ra.val k) <$> checkTarget .j symbols address a
  | .jal, [a, b] =>
    (fun (rd : Register) k => Word.buildJ opcode rd.val k) <$>
      checkRegister a <*> checkTarget .j symbols address b
  | .jalr, [a] => (fun rs1 => wordI Register.ra rs1 0) <$> checkRegister a
  | .jalr, [a, b] =>
    (fun rd (mem : Int × Register) => wordI rd mem.2 mem.1) <$>
      checkRegister a <*> checkMemory b
  | .jalr, [a, b, c] =>
    wordI <$> checkRegister a <*> checkRegister b <*> checkNumber .immediate c
  | _, _ => .fail (.operandCount m operands.length)

/-- The word of an instruction with any operands. -/
def encode (symbols : List Symbol) (address : Nat) (m : Mnemonic)
    (operands : List (List Char)) : Checked Int :=
  if !(operandCounts m.kind).contains operands.length then
    .fail (.operandCount m operands.length)
  else if operands.any (·.isEmpty) then .fail .emptyOperand
  else encodeOperands symbols address m operands

end Rv32.Assembly
