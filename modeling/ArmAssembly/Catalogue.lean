import ArmAssembly.Condition
import ArmAssembly.Register
import ArmAssembly.Opcode
import ArmAssembly.Text.Quoted

/-!
The named constants of the language, in families that can be listed and searched. A
register is found by its number, every other constant by its name; only an operation has
a class. A search that finds nothing reports the key as it would be written.
-/

namespace ArmAssembly

inductive Constant where
  | condition (c : Condition)
  | register (r : Register)
  | opcode (op : Opcode)
  deriving DecidableEq, Repr

inductive Family where
  | condition
  | register
  | opcodes (c : OpClass)
  deriving DecidableEq, Repr

inductive Key where
  | nothing
  | number (n : Int)
  | text (s : String)
  | constant (c : Constant)
  deriving DecidableEq, Repr

namespace Family

def all : List Family := [condition, register] ++ OpClass.all.map opcodes

def name : Family → String
  | condition => "Cond"
  | register => "Reg"
  | opcodes .move => "MoveOp"
  | opcodes .address => "AdrOp"
  | opcodes .arithmetic => "ArithOp"
  | opcodes .shift => "ShiftOp"
  | opcodes .rotateExtend => "RrxOp"
  | opcodes .comparison => "CompareOp"
  | opcodes .transfer => "MemOp"
  | opcodes .blockTransfer => "MultiMemOp"
  | opcodes .branchLink => "BranchOp"

def members : Family → List Constant
  | condition => Condition.all.map .condition
  | register => Register.all.map .register
  | opcodes c => c.opcodes.map .opcode

end Family

namespace Constant

def family : Constant → Family
  | condition _ => .condition
  | register _ => .register
  | opcode op => .opcodes op.opClass

def name : Constant → String
  | condition c => c.name
  | register r => r.name
  | opcode op => op.name

def key : Constant → Key
  | register r => .number r.number.val
  | c => .text c.name

end Constant

namespace Key

def writtenPlain : Key → String
  | number n => toString n
  | text s => Text.quoted s
  | _ => "None"

def written : Key → String
  | constant c => "<" ++ c.family.name ++ "." ++ c.name ++ ": " ++ c.key.writtenPlain ++ ">"
  | k => k.writtenPlain

end Key

inductive SearchError where
  | notMember (k : Key) (family : Family)
  | noClass (k : Key)
  deriving DecidableEq, Repr

def SearchError.message : SearchError → String
  | notMember k family => k.written ++ " is not a valid " ++ family.name
  | noClass k => "Opcode sin clase: " ++ k.written

def Family.find (family : Family) (k : Key) : Except SearchError Constant :=
  match family.members.find? fun c => c.key == k with
  | some c => .ok c
  | none => .error (.notMember k family)

def Key.opClass : Key → Except SearchError OpClass
  | constant (.opcode op) => .ok op.opClass
  | k => .error (.noClass k)

end ArmAssembly
