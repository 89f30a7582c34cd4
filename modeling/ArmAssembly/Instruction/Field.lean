import ArmAssembly.Instruction.Basic
import ArmAssembly.Parser.Repeat

/-!
The fields of an instruction, one token each, and the comma that may stand between two
operands or be left out.
-/

namespace ArmAssembly.Field

open ArmAssembly.Parser

variable {ι : Type} {γ : ι → Type} {α : Type}

def register : Parser γ Register := accept Token.register? "Register"

def condition : Parser γ Condition :=
  accept (fun t => t.condition?.map Condition.canonical) "Conditional Code"

def comma : Parser γ Token := satisfying (· == .comma) "Comma"

def flags : Parser γ Bool := yielding true (satisfying (· == .flags) "S Type")

def literal : Parser γ Int := accept Token.literal? "Literal"

def opcode : Parser γ Opcode := accept Token.opcode? "Opcode"

def code (c : OpClass) : Parser γ c.Code :=
  accept (fun t => t.opcode?.bind (Opcode.code? c)) ("Type " ++ toString c.number ++ " Opcode")

def registerComma : Parser γ Register :=
  map Prod.fst (relabel (andThen register comma) "Reg followed by Comma")

def operandRegister : Parser γ Register :=
  relabel (orElse registerComma register) "Reg followed by Comma"

def afterComma (p : Parser γ α) : Parser γ α := keepSecond (maybe comma) p

def amount : Parser γ Amount := orElse (map .register register) (map .literal literal)

def shift : Parser γ Shift :=
  orElse (map (fun x => .by x.1 x.2) (andThen (code .shift) amount))
    (map (fun _ => .extend) (code .rotateExtend))

/-- A shift that does not come to its end is left unread. -/
def operand2 : Parser γ Operand2 :=
  relabel
    (orElse (map .literal literal)
      (map (fun x => .register x.1 x.2) (andThen register (maybe (afterComma shift)))))
    "Operand 2"

end ArmAssembly.Field
