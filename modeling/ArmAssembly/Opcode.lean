/-!
Operation codes and their classes. The nine classes are disjoint: a class fixes which
operands follow the operation, and whether the operation may take the suffix that makes
it set the flags.
-/

namespace ArmAssembly

inductive MoveCode where
  | mov | mvn
  deriving DecidableEq, Repr

inductive ArithmeticCode where
  | add | adc | sub | sbc | rsb | rsc | and | eor | bic | orr
  deriving DecidableEq, Repr

inductive ShiftCode where
  | lsl | lsr | asr | ror
  deriving DecidableEq, Repr

inductive ComparisonCode where
  | cmp | cmn | tst | teq
  deriving DecidableEq, Repr

inductive TransferCode where
  | ldr | str
  deriving DecidableEq, Repr

inductive BlockTransferCode where
  | ldm | stm
  deriving DecidableEq, Repr

inductive Opcode where
  | move (code : MoveCode)
  | adr
  | arithmetic (code : ArithmeticCode)
  | shift (code : ShiftCode)
  | rrx
  | comparison (code : ComparisonCode)
  | transfer (code : TransferCode)
  | blockTransfer (code : BlockTransferCode)
  | bl
  deriving DecidableEq, Repr

inductive OpClass where
  | move | address | arithmetic | shift | rotateExtend | comparison | transfer
  | blockTransfer | branchLink
  deriving DecidableEq, Repr

namespace OpClass

def all : List OpClass :=
  [move, address, arithmetic, shift, rotateExtend, comparison, transfer, blockTransfer, branchLink]

def number : OpClass → Nat
  | move => 1
  | address => 2
  | arithmetic => 3
  | shift => 4
  | rotateExtend => 5
  | comparison => 6
  | transfer => 7
  | blockTransfer => 8
  | branchLink => 9

def ofNumber? (n : Nat) : Option OpClass := all.find? fun c => c.number == n

def setsFlags : OpClass → Bool
  | move | arithmetic | shift | rotateExtend => true
  | address | comparison | transfer | blockTransfer | branchLink => false

abbrev Code : OpClass → Type
  | move => MoveCode
  | address => Unit
  | arithmetic => ArithmeticCode
  | shift => ShiftCode
  | rotateExtend => Unit
  | comparison => ComparisonCode
  | transfer => TransferCode
  | blockTransfer => BlockTransferCode
  | branchLink => Unit

theorem mem_all (c : OpClass) : c ∈ all := by
  cases c <;> decide

end OpClass

namespace Opcode

def ofCode : (c : OpClass) → c.Code → Opcode
  | .move, code => move code
  | .address, _ => adr
  | .arithmetic, code => arithmetic code
  | .shift, code => shift code
  | .rotateExtend, _ => rrx
  | .comparison, code => comparison code
  | .transfer, code => transfer code
  | .blockTransfer, code => blockTransfer code
  | .branchLink, _ => bl

def opClass : Opcode → OpClass
  | move _ => .move
  | adr => .address
  | arithmetic _ => .arithmetic
  | shift _ => .shift
  | rrx => .rotateExtend
  | comparison _ => .comparison
  | transfer _ => .transfer
  | blockTransfer _ => .blockTransfer
  | bl => .branchLink

def code : (op : Opcode) → op.opClass.Code
  | move code => code
  | adr => ()
  | arithmetic code => code
  | shift code => code
  | rrx => ()
  | comparison code => code
  | transfer code => code
  | blockTransfer code => code
  | bl => ()

def code? (c : OpClass) (op : Opcode) : Option c.Code :=
  if same : op.opClass = c then some (same ▸ op.code) else none

def name : Opcode → String
  | move .mov => "MOV" | move .mvn => "MVN"
  | adr => "ADR"
  | arithmetic .add => "ADD" | arithmetic .adc => "ADC" | arithmetic .sub => "SUB"
  | arithmetic .sbc => "SBC" | arithmetic .rsb => "RSB" | arithmetic .rsc => "RSC"
  | arithmetic .and => "AND" | arithmetic .eor => "EOR" | arithmetic .bic => "BIC"
  | arithmetic .orr => "ORR"
  | shift .lsl => "LSL" | shift .lsr => "LSR" | shift .asr => "ASR" | shift .ror => "ROR"
  | rrx => "RRX"
  | comparison .cmp => "CMP" | comparison .cmn => "CMN" | comparison .tst => "TST"
  | comparison .teq => "TEQ"
  | transfer .ldr => "LDR" | transfer .str => "STR"
  | blockTransfer .ldm => "LDM" | blockTransfer .stm => "STM"
  | bl => "BL"

theorem opClass_ofCode (c : OpClass) (code : c.Code) : (ofCode c code).opClass = c := by
  cases c <;> rfl

theorem ofCode_code (op : Opcode) : ofCode op.opClass op.code = op := by
  cases op <;> rfl

theorem code?_ofCode (c : OpClass) (code : c.Code) : (ofCode c code).code? c = some code := by
  cases c <;> rfl

end Opcode

def OpClass.opcodes : OpClass → List Opcode
  | .move => [.move .mov, .move .mvn]
  | .address => [.adr]
  | .arithmetic => [.add, .adc, .sub, .sbc, .rsb, .rsc, .and, .eor, .bic, .orr].map .arithmetic
  | .shift => [.lsl, .lsr, .asr, .ror].map .shift
  | .rotateExtend => [.rrx]
  | .comparison => [.cmp, .cmn, .tst, .teq].map .comparison
  | .transfer => [.transfer .ldr, .transfer .str]
  | .blockTransfer => [.blockTransfer .ldm, .blockTransfer .stm]
  | .branchLink => [.bl]

theorem OpClass.mem_opcodes (op : Opcode) (c : OpClass) : op ∈ c.opcodes ↔ op.opClass = c := by
  cases op with
  | adr | rrx | bl => cases c <;> decide
  | move code => cases code <;> cases c <;> decide
  | arithmetic code => cases code <;> cases c <;> decide
  | shift code => cases code <;> cases c <;> decide
  | comparison code => cases code <;> cases c <;> decide
  | transfer code => cases code <;> cases c <;> decide
  | blockTransfer code => cases code <;> cases c <;> decide

def Opcode.all : List Opcode := OpClass.all.flatMap OpClass.opcodes

end ArmAssembly
