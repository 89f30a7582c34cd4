import ArmAssembly.Instruction.Basic

/-!
How an instruction may be written, stated without reading it, with a clause for each kind of
instruction. The operation comes first, then the flags suffix exactly when the flags are set,
then the condition by any of its names, then the operands. The comma between two operands may
be left out, so one instruction has several spellings.
-/

namespace ArmAssembly
namespace Spelling

def IsSeparator (ts : List Token) : Prop := ts = [] ∨ ts = [.comma]

/-- A register, and behind a separator what satisfies `Rest`. -/
def RegisterThen (r : Register) (Rest : List Token → Prop) (ts : List Token) : Prop :=
  ∃ separator rest, IsSeparator separator ∧ Rest rest ∧ ts = .register r :: (separator ++ rest)

/-- `cs` and `cc` have a second name each, and no instruction holds that one. -/
def IsCondition : Option Condition → List Token → Prop
  | none, ts => ts = []
  | some .cs, ts => ts = [.condition .cs] ∨ ts = [.condition .hs]
  | some .cc, ts => ts = [.condition .cc] ∨ ts = [.condition .lo]
  | some .hs, _ | some .lo, _ => False
  | some c, ts => ts = [.condition c]

def flags (sets : Bool) : List Token := if sets then [.flags] else []

def amount : Amount → List Token
  | .register r => [.register r]
  | .literal n => [.literal n]

def shift : Shift → List Token
  | .by code a => .opcode (.shift code) :: amount a
  | .extend => [.opcode .rrx]

def IsOperand2 : Operand2 → List Token → Prop
  | .literal n => (· = [.literal n])
  | .register r none => (· = [.register r])
  | .register r (some s) => RegisterThen r (· = shift s)

def IsAddress (rn : Register) : Option Int → List Token → Prop
  | none => (· = [.register rn])
  | some offset => RegisterThen rn (· = [.literal offset])

def IsRegisters : List Register → List Token → Prop
  | [] => fun _ => False
  | [r] => (· = [.register r])
  | r :: rs => RegisterThen r (IsRegisters rs)

def Statement (op : Opcode) (suffix : List Token) (condition : Option Condition)
    (Operands : List Token → Prop) (ts : List Token) : Prop :=
  ∃ named operands, IsCondition condition named ∧ Operands operands ∧
    ts = .opcode op :: (suffix ++ (named ++ operands))

end Spelling

open Spelling in
/-- The tokens that write an instruction. -/
def Spelling : Instruction → List Token → Prop
  | .move code setsFlags condition rd rn =>
    Statement (.move code) (flags setsFlags) condition (RegisterThen rd (· = [.register rn]))
  | .address condition rd offset =>
    Statement .adr [] condition (RegisterThen rd (· = [.literal offset]))
  | .arithmetic code setsFlags condition rd rn operand =>
    Statement (.arithmetic code) (flags setsFlags) condition
      (RegisterThen rd (RegisterThen rn (IsOperand2 operand)))
  | .shift code setsFlags condition rd rm a =>
    Statement (.shift code) (flags setsFlags) condition
      (RegisterThen rd (RegisterThen rm (· = amount a)))
  | .rotateExtend setsFlags condition rd rm =>
    Statement .rrx (flags setsFlags) condition (RegisterThen rd (· = [.register rm]))
  | .comparison code condition rn operand =>
    Statement (.comparison code) [] condition (RegisterThen rn (IsOperand2 operand))
  | .transfer code condition rd rn offset =>
    Statement (.transfer code) [] condition (RegisterThen rd (IsAddress rn offset))
  | .blockTransfer code condition rn registers =>
    Statement (.blockTransfer code) [] condition (RegisterThen rn (IsRegisters registers))
  | .branchLink condition target => Statement .bl [] condition (· = [.literal target])

theorem Spelling.starts_with_opcode {i : Instruction} {w : List Token} (spelled : Spelling i w) :
    ∃ rest, w = .opcode i.opcode :: rest := by
  cases i <;>
    · obtain ⟨named, operands, _, _, rfl⟩ := spelled
      exact ⟨_, rfl⟩

end ArmAssembly
