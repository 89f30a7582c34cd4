import ArmAssembly.Token

/-!
Instructions as they are meant: every field has a type of its own, and only the classes
that may set the flags say whether they do. Conditions are canonical when they come from
reading text.
-/

namespace ArmAssembly

inductive Amount where
  | register (r : Register)
  | literal (n : Int)
  deriving DecidableEq, Repr

inductive Shift where
  | by (code : ShiftCode) (amount : Amount)
  | extend
  deriving DecidableEq, Repr

inductive Operand2 where
  | literal (n : Int)
  | register (r : Register) (shift : Option Shift)
  deriving DecidableEq, Repr

inductive Instruction where
  | move (code : MoveCode) (setsFlags : Bool) (condition : Option Condition) (rd rn : Register)
  | address (condition : Option Condition) (rd : Register) (offset : Int)
  | arithmetic (code : ArithmeticCode) (setsFlags : Bool) (condition : Option Condition)
      (rd rn : Register) (operand : Operand2)
  | shift (code : ShiftCode) (setsFlags : Bool) (condition : Option Condition)
      (rd rm : Register) (amount : Amount)
  | rotateExtend (setsFlags : Bool) (condition : Option Condition) (rd rm : Register)
  | comparison (code : ComparisonCode) (condition : Option Condition) (rn : Register)
      (operand : Operand2)
  | transfer (code : TransferCode) (condition : Option Condition) (rd rn : Register)
      (offset : Option Int)
  | blockTransfer (code : BlockTransferCode) (condition : Option Condition) (rn : Register)
      (registers : List Register)
  | branchLink (condition : Option Condition) (target : Int)
  deriving DecidableEq, Repr

structure Mnemonic (c : OpClass) where
  code : c.Code
  setsFlags : Bool
  condition : Option Condition

abbrev OpClass.Operands : OpClass → Type
  | .move => Register × Register
  | .address => Register × Int
  | .arithmetic => (Register × Register) × Operand2
  | .shift => (Register × Register) × Amount
  | .rotateExtend => Register × Register
  | .comparison => Register × Operand2
  | .transfer => (Register × Register) × Option Int
  | .blockTransfer => Register × List Register
  | .branchLink => Int

namespace Instruction

def build : (c : OpClass) → Mnemonic c → c.Operands → Instruction
  | .move, m, (rd, rn) => move m.code m.setsFlags m.condition rd rn
  | .address, m, (rd, offset) => address m.condition rd offset
  | .arithmetic, m, ((rd, rn), operand) =>
    arithmetic m.code m.setsFlags m.condition rd rn operand
  | .shift, m, ((rd, rm), amount) => shift m.code m.setsFlags m.condition rd rm amount
  | .rotateExtend, m, (rd, rm) => rotateExtend m.setsFlags m.condition rd rm
  | .comparison, m, (rn, operand) => comparison m.code m.condition rn operand
  | .transfer, m, ((rd, rn), offset) => transfer m.code m.condition rd rn offset
  | .blockTransfer, m, (rn, registers) => blockTransfer m.code m.condition rn registers
  | .branchLink, m, target => branchLink m.condition target

def opcode : Instruction → Opcode
  | move code _ _ _ _ => .move code
  | address _ _ _ => .adr
  | arithmetic code _ _ _ _ _ => .arithmetic code
  | shift code _ _ _ _ _ => .shift code
  | rotateExtend _ _ _ _ => .rrx
  | comparison code _ _ _ => .comparison code
  | transfer code _ _ _ _ => .transfer code
  | blockTransfer code _ _ _ => .blockTransfer code
  | branchLink _ _ => .bl

end Instruction
end ArmAssembly
