import ArmAssembly.Instruction.Field

/-!
The nine shapes of an instruction, one for each class of operations, and the line that
holds one. The first token decides the shape, because the classes are disjoint; without
an operation in front all shapes are tried, so that the failure is that of the last.
-/

namespace ArmAssembly.Shape

open ArmAssembly.Parser

variable {ι : Type} {γ : ι → Type} {α : Type}

def suffix (c : OpClass) : Parser γ Bool :=
  if c.setsFlags then map Option.isSome (maybe Field.flags) else .pure false

def mnemonic (c : OpClass) : Parser γ (Mnemonic c) :=
  map (fun x => ⟨x.1.1, x.1.2, x.2⟩)
    (andThen (andThen (Field.code c) (suffix c)) (maybe Field.condition))

def operands : (c : OpClass) → Parser γ c.Operands
  | .move => andThen Field.operandRegister Field.register
  | .address => andThen Field.operandRegister Field.literal
  | .arithmetic => andThen (andThen Field.operandRegister Field.operandRegister) Field.operand2
  | .shift => andThen (andThen Field.operandRegister Field.operandRegister) Field.amount
  | .rotateExtend => andThen Field.operandRegister Field.register
  | .comparison => andThen Field.operandRegister Field.operand2
  | .transfer =>
    andThen (andThen Field.operandRegister Field.register)
      (maybe (Field.afterComma Field.literal))
  | .blockTransfer =>
    andThen Field.operandRegister (sepBy1 Field.register (maybe Field.comma))
  | .branchLink => Field.literal

def ofClass (c : OpClass) : Parser γ Instruction :=
  map (fun x => Instruction.build c x.1 x.2)
    (relabel (andThen (mnemonic c) (operands c)) ("Instruction Type " ++ toString c.number))

def any : Parser γ Instruction :=
  choice (ofClass .move)
    ([.address, .arithmetic, .shift, .rotateExtend, .comparison, .transfer, .blockTransfer,
      .branchLink].map ofClass)

def route : Option Opcode → Parser γ Instruction
  | some op => ofClass op.opClass
  | none => any

def instruction : Parser γ Instruction :=
  named "Instruction" (bind (maybe (peek Field.opcode)) route)

def endOfLine : Parser γ Token := satisfying (· == .lineBreak) "End of Line"

def wholeLine (p : Parser γ α) : Parser γ α := bind p fun x => yielding x endOfLine

def line : Parser γ Instruction := wholeLine instruction

end ArmAssembly.Shape
