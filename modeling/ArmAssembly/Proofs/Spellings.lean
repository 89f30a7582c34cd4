import ArmAssembly.Instruction.Spelling
import ArmAssembly.Proofs.Wording

/-!
The spellings of instructions, put together from the wordings of their fields in the way
the shapes are put together from parsers. A separator belongs to the register in front of
it or to the field behind it, whichever the shape reads it with; the spellings are the
same.
-/

namespace ArmAssembly

namespace Token

theorem register?_eq_some_iff {t : Token} {r : Register} :
    t.register? = some r ↔ t = .register r := by
  cases t <;> simp [register?]

theorem literal?_eq_some_iff {t : Token} {n : Int} : t.literal? = some n ↔ t = .literal n := by
  cases t <;> simp [literal?]

theorem condition?_eq_some_iff {t : Token} {c : Condition} :
    t.condition? = some c ↔ t = .condition c := by
  cases t <;> simp [condition?]

theorem opcode?_eq_some_iff {t : Token} {op : Opcode} : t.opcode? = some op ↔ t = .opcode op := by
  cases t <;> simp [opcode?]

end Token

theorem Opcode.code?_eq_some_iff {c : OpClass} {op : Opcode} {code : c.Code} :
    op.code? c = some code ↔ op = ofCode c code := by
  constructor
  · intro found
    unfold code? at found
    split at found
    next same =>
      subst same
      simp only [Option.some.injEq] at found
      rw [← found, ofCode_code]
    next => simp at found
  · rintro rfl
    exact code?_ofCode c code

namespace Instruction

def condition : Instruction → Option Condition
  | move _ _ condition _ _ | address condition _ _ | arithmetic _ _ condition _ _ _
  | shift _ _ condition _ _ _ | rotateExtend _ condition _ _ | comparison _ condition _ _
  | transfer _ condition _ _ _ | blockTransfer _ condition _ _ | branchLink condition _ => condition

theorem condition_build (c : OpClass) (m : Mnemonic c) (operands : c.Operands) :
    (build c m operands).condition = m.condition := by
  cases c <;> rfl

theorem exists_build (i : Instruction) :
    ∃ (c : OpClass) (m : Mnemonic c) (x : c.Operands),
      i = build c m x ∧ (m.setsFlags → c.setsFlags) := by
  cases i with
  | move code sets condition rd rn =>
    exact ⟨.move, ⟨code, sets, condition⟩, (rd, rn), rfl, fun _ => rfl⟩
  | address condition rd offset =>
    exact ⟨.address, ⟨(), false, condition⟩, (rd, offset), rfl, nofun⟩
  | arithmetic code sets condition rd rn operand =>
    exact ⟨.arithmetic, ⟨code, sets, condition⟩, ((rd, rn), operand), rfl, fun _ => rfl⟩
  | shift code sets condition rd rm a =>
    exact ⟨.shift, ⟨code, sets, condition⟩, ((rd, rm), a), rfl, fun _ => rfl⟩
  | rotateExtend sets condition rd rm =>
    exact ⟨.rotateExtend, ⟨(), sets, condition⟩, (rd, rm), rfl, fun _ => rfl⟩
  | comparison code condition rn operand =>
    exact ⟨.comparison, ⟨code, false, condition⟩, (rn, operand), rfl, nofun⟩
  | transfer code condition rd rn offset =>
    exact ⟨.transfer, ⟨code, false, condition⟩, ((rd, rn), offset), rfl, nofun⟩
  | blockTransfer code condition rn registers =>
    exact ⟨.blockTransfer, ⟨code, false, condition⟩, (rn, registers), rfl, nofun⟩
  | branchLink condition target =>
    exact ⟨.branchLink, ⟨(), false, condition⟩, target, rfl, nofun⟩

end Instruction

namespace Wording

variable {α : Type}

def comma : Wording Token := exactly .comma

def condition : Wording Condition := token fun t => t.condition?.map Condition.canonical

def code (c : OpClass) : Wording c.Code := token fun t => t.opcode?.bind (Opcode.code? c)

def suffix (c : OpClass) : Wording Bool :=
  fun sets u => (sets → c.setsFlags) ∧ u = Spelling.flags sets

def mnemonic (c : OpClass) : Wording (Mnemonic c) :=
  map (fun x => ⟨x.1.1, x.1.2, x.2⟩) (pair (pair (code c) (suffix c)) (optional condition))

def register : Wording Register := token Token.register?

def literal : Wording Int := token Token.literal?

def operandRegister : Wording Register := map Prod.fst (pair register (optional comma))

def afterComma (S : Wording α) : Wording α := map Prod.snd (pair (optional comma) S)

def amount : Wording Amount := either (map .register register) (map .literal literal)

def shift : Wording Shift :=
  either (map (fun x => .by x.1 x.2) (pair (code .shift) amount))
    (map (fun _ => .extend) (code .rotateExtend))

def operand2 : Wording Operand2 :=
  either (map .literal literal)
    (map (fun x => .register x.1 x.2) (pair register (optional (afterComma shift))))

def registers : Wording (List Register) :=
  map (fun x => x.1 :: x.2) (pair register (Repeated (afterComma register)))

def operands : (c : OpClass) → Wording c.Operands
  | .move => pair operandRegister register
  | .address => pair operandRegister literal
  | .arithmetic => pair (pair operandRegister operandRegister) operand2
  | .shift => pair (pair operandRegister operandRegister) amount
  | .rotateExtend => pair operandRegister register
  | .comparison => pair operandRegister operand2
  | .transfer => pair (pair operandRegister register) (optional (afterComma literal))
  | .blockTransfer => pair operandRegister registers
  | .branchLink => literal

def instruction (c : OpClass) : Wording Instruction :=
  map (fun x => .build c x.1 x.2) (pair (mnemonic c) (operands c))

end Wording

namespace Spelling

theorem register_iff {r : Register} {u : List Token} :
    Wording.register r u ↔ u = [.register r] := by
  simp [Wording.register, Wording.token, Token.register?_eq_some_iff]

theorem literal_iff {n : Int} {u : List Token} :
    Wording.literal n u ↔ u = [.literal n] := by
  simp [Wording.literal, Wording.token, Token.literal?_eq_some_iff]

theorem optional_comma_iff {u : List Token} :
    (∃ x, Wording.optional .comma x u) ↔ IsSeparator u := by
  constructor
  · intro spelled
    obtain ⟨x, word⟩ := spelled
    cases x with
    | none => exact Or.inl word
    | some x =>
      exact Or.inr (Wording.exactly_iff.1 word).2
  · intro spelled
    rcases spelled with rfl | rfl
    · exact ⟨none, rfl⟩
    · exact ⟨some .comma, Wording.exactly_iff.2 ⟨rfl, rfl⟩⟩

theorem operandRegister_iff {r : Register} {u : List Token} :
    Wording.operandRegister r u ↔
      ∃ separator, IsSeparator separator ∧ u = .register r :: separator := by
  constructor
  · intro spelled
    obtain ⟨⟨r', o⟩, rfl, front, separator, word, comma, rfl⟩ := spelled
    obtain rfl := register_iff.1 word
    exact ⟨separator, optional_comma_iff.1 ⟨o, comma⟩, rfl⟩
  · intro spelled
    obtain ⟨separator, valid, rfl⟩ := spelled
    obtain ⟨o, comma⟩ := optional_comma_iff.2 valid
    exact ⟨(r, o), rfl, [.register r], separator, register_iff.2 rfl, comma, rfl⟩

theorem afterComma_iff {α : Type} {S : Wording α} {x : α} {u : List Token} :
    Wording.afterComma S x u ↔
      ∃ separator rest, IsSeparator separator ∧ S x rest ∧ u = separator ++ rest := by
  constructor
  · intro spelled
    obtain ⟨⟨o, y⟩, rfl, separator, rest, comma, word, rfl⟩ := spelled
    exact ⟨separator, rest, optional_comma_iff.1 ⟨o, comma⟩, word, rfl⟩
  · intro spelled
    obtain ⟨separator, rest, valid, word, rfl⟩ := spelled
    obtain ⟨o, comma⟩ := optional_comma_iff.2 valid
    exact ⟨(o, x), rfl, separator, rest, comma, word, rfl⟩

theorem registerThen_iff {r : Register} {Rest : List Token → Prop} {ts : List Token} :
    RegisterThen r Rest ts ↔ ∃ u v, Wording.operandRegister r u ∧ Rest v ∧ ts = u ++ v := by
  constructor
  · intro spelled
    obtain ⟨separator, rest, valid, word, rfl⟩ := spelled
    exact ⟨_, rest, operandRegister_iff.2 ⟨separator, valid, rfl⟩, word, rfl⟩
  · intro spelled
    obtain ⟨u, v, front, word, rfl⟩ := spelled
    obtain ⟨separator, valid, rfl⟩ := operandRegister_iff.1 front
    exact ⟨separator, v, valid, word, rfl⟩

theorem registerThen_iff_afterComma {α : Type} {r : Register} {S : Wording α} {x : α}
    {ts : List Token} :
    RegisterThen r (S x) ts ↔
      ∃ u v, Wording.register r u ∧ Wording.afterComma S x v ∧ ts = u ++ v := by
  constructor
  · intro spelled
    obtain ⟨separator, rest, valid, word, rfl⟩ := spelled
    exact ⟨[.register r], separator ++ rest, register_iff.2 rfl,
      afterComma_iff.2 ⟨separator, rest, valid, word, rfl⟩, rfl⟩
  · intro spelled
    obtain ⟨u, v, front, back, rfl⟩ := spelled
    obtain rfl := register_iff.1 front
    obtain ⟨separator, rest, valid, word, rfl⟩ := afterComma_iff.1 back
    exact ⟨separator, rest, valid, word, rfl⟩

theorem amount_iff {a : Amount} {u : List Token} : Wording.amount a u ↔ u = amount a := by
  cases a <;>
    simp [Wording.amount, Wording.either, Wording.map, register_iff, literal_iff, amount]

theorem code_iff {c : OpClass} {code : c.Code} {u : List Token} :
    Wording.code c code u ↔ u = [.opcode (.ofCode c code)] := by
  simp [Wording.code, Wording.token, Option.bind_eq_some_iff, Token.opcode?_eq_some_iff,
    Opcode.code?_eq_some_iff]

theorem shift_iff {s : Shift} {u : List Token} : Wording.shift s u ↔ u = shift s := by
  cases s <;>
    simp [Wording.shift, Wording.either, Wording.map, Wording.pair, code_iff, amount_iff, shift,
      Opcode.ofCode, and_assoc]

theorem operand2_iff {x : Operand2} {u : List Token} : Wording.operand2 x u ↔ IsOperand2 x u := by
  cases x with
  | literal n => simp [Wording.operand2, Wording.either, Wording.map, literal_iff, IsOperand2]
  | register r s =>
    cases s with
    | none =>
      simp [Wording.operand2, Wording.either, Wording.map, Wording.pair, Wording.optional,
        register_iff, IsOperand2, and_assoc]
    | some s =>
      have shifted : (fun ts => ts = shift s) = Wording.shift s := by
        funext ts
        exact propext shift_iff.symm
      simp [Wording.operand2, Wording.either, Wording.map, Wording.pair, Wording.optional,
        IsOperand2, shifted, registerThen_iff_afterComma, and_assoc]

theorem registers_iff {rs : List Register} {u : List Token} :
    Wording.registers rs u ↔ IsRegisters rs u := by
  induction rs generalizing u with
  | nil => simp [Wording.registers, Wording.map, IsRegisters]
  | cons r rs ih =>
    have unfolded : Wording.registers (r :: rs) u ↔
        ∃ v, Wording.Repeated (.afterComma .register) rs v ∧
          u = .register r :: v := by
      simp [Wording.registers, Wording.map, Wording.pair, register_iff, and_assoc]
    rw [unfolded]
    cases rs with
    | nil =>
      constructor
      · intro spelled
        obtain ⟨v, others, rfl⟩ := spelled
        cases others
        rfl
      · rintro rfl
        exact ⟨[], .nil, rfl⟩
    | cons next rs =>
      constructor
      · intro spelled
        obtain ⟨v, others, rfl⟩ := spelled
        cases others with
        | @cons _ _ a b first others =>
          obtain ⟨separator, word, valid, read, rfl⟩ := afterComma_iff.1 first
          refine ⟨separator, word ++ b, valid, ih.1 ?_, by simp⟩
          exact ⟨(next, rs), rfl, word, b, read, others, rfl⟩
      · intro spelled
        obtain ⟨separator, rest, valid, words, rfl⟩ := spelled
        obtain ⟨⟨next', rs'⟩, same, word, b, read, others, rfl⟩ := ih.2 words
        obtain ⟨rfl, rfl⟩ := List.cons.inj same
        refine ⟨(separator ++ word) ++ b, .cons ?_ others, by simp⟩
        exact afterComma_iff.2 ⟨separator, word, valid, read, rfl⟩

theorem isCondition_some_iff {c : Condition} {u : List Token} :
    IsCondition (some c) u ↔ ∃ named : Condition, named.canonical = c ∧ u = [.condition named] := by
  constructor
  · intro written
    cases c with
    | cs | cc =>
      rcases written with rfl | rfl
      · exact ⟨_, rfl, rfl⟩
      · exact ⟨_, rfl, rfl⟩
    | hs | lo => exact written.elim
    | _ => exact ⟨_, rfl, written⟩
  · intro given
    obtain ⟨named, rfl, rfl⟩ := given
    cases named <;> simp [Condition.canonical, IsCondition]

theorem condition_iff {o : Option Condition} {u : List Token} :
    Wording.optional .condition o u ↔ IsCondition o u := by
  cases o with
  | none => rfl
  | some c =>
    rw [isCondition_some_iff]
    simp only [Wording.optional, Wording.condition, Wording.token, Option.map_eq_some_iff,
      Token.condition?_eq_some_iff]
    constructor
    · intro spelled
      obtain ⟨_, ⟨named, rfl, same⟩, rfl⟩ := spelled
      exact ⟨named, same, rfl⟩
    · intro spelled
      obtain ⟨named, same, rfl⟩ := spelled
      exact ⟨_, ⟨named, rfl, same⟩, rfl⟩

theorem mnemonic_iff {c : OpClass} {m : Mnemonic c} {u : List Token} :
    Wording.mnemonic c m u ↔ (m.setsFlags → c.setsFlags) ∧
      ∃ named, IsCondition m.condition named ∧
        u = .opcode (.ofCode c m.code) :: (flags m.setsFlags ++ named) := by
  obtain ⟨code, sets, condition⟩ := m
  constructor
  · intro spelled
    obtain ⟨⟨⟨code', sets'⟩, condition'⟩, same, _, back, ⟨front, _, first, ⟨allowed, rfl⟩, rfl⟩,
      last, rfl⟩ := spelled
    obtain ⟨rfl, rfl, rfl⟩ := Mnemonic.mk.inj same
    obtain rfl := code_iff.1 first
    exact ⟨allowed, back, condition_iff.1 last, by simp⟩
  · intro spelled
    obtain ⟨allowed, back, last, rfl⟩ := spelled
    refine ⟨((code, sets), condition), rfl, .opcode (.ofCode c code) :: flags sets, back, ?_,
      condition_iff.2 last, rfl⟩
    exact ⟨[.opcode (.ofCode c code)], flags sets, code_iff.2 rfl, ⟨allowed, rfl⟩, rfl⟩

theorem registerThen_congr {r : Register} {Rest Rest' : List Token → Prop}
    (same : ∀ ts, Rest ts ↔ Rest' ts) {u : List Token} :
    RegisterThen r Rest u ↔ RegisterThen r Rest' u := by
  rw [funext fun ts => propext (same ts)]

section Pairs

variable {α : Type} {r r' : Register} {S : Wording α} {x : α} {Rest : List Token → Prop}
  {u : List Token}

theorem pair_iff_registerThen (same : ∀ v, S x v ↔ Rest v) :
    Wording.pair .operandRegister S (r, x) u ↔ RegisterThen r Rest u :=
  registerThen_iff.symm.trans (registerThen_congr same)

theorem pair_iff_registerThen_twice (same : ∀ v, S x v ↔ Rest v) :
    Wording.pair (.pair .operandRegister .operandRegister) S ((r, r'), x) u ↔
      RegisterThen r (RegisterThen r' Rest) u := by
  rw [← registerThen_congr fun _ => registerThen_congr same, registerThen_iff]
  simp only [registerThen_iff]
  constructor
  · intro spelled
    obtain ⟨_, c, ⟨a, b, first, second, rfl⟩, third, rfl⟩ := spelled
    exact ⟨a, b ++ c, first, ⟨b, c, second, third, rfl⟩, by simp⟩
  · intro spelled
    obtain ⟨a, _, first, ⟨b, c, second, third, rfl⟩, rfl⟩ := spelled
    exact ⟨a ++ b, c, ⟨a, b, first, second, rfl⟩, third, by simp⟩

theorem pair_iff_registerThen_after (same : ∀ v, S x v ↔ Rest v) :
    Wording.pair (.pair .operandRegister .register) (.afterComma S) ((r, r'), x) u ↔
      RegisterThen r (RegisterThen r' Rest) u := by
  rw [← registerThen_congr fun _ => registerThen_congr same, registerThen_iff]
  simp only [registerThen_iff_afterComma]
  constructor
  · intro spelled
    obtain ⟨_, c, ⟨a, b, first, second, rfl⟩, third, rfl⟩ := spelled
    exact ⟨a, b ++ c, first, ⟨b, c, second, third, rfl⟩, by simp⟩
  · intro spelled
    obtain ⟨a, _, first, ⟨b, c, second, third, rfl⟩, rfl⟩ := spelled
    exact ⟨a ++ b, c, ⟨a, b, first, second, rfl⟩, third, by simp⟩

end Pairs

theorem address_iff {rd rn : Register} {offset : Option Int} {u : List Token} :
    Wording.operands .transfer ((rd, rn), offset) u ↔ RegisterThen rd (IsAddress rn offset) u := by
  cases offset with
  | none => exact Wording.pair_none_iff.trans (pair_iff_registerThen fun _ => register_iff)
  | some n => exact pair_iff_registerThen_after fun _ => literal_iff

/-- Where no suffix is allowed, none is written. -/
theorem statement_iff {c : OpClass} {m : Mnemonic c} {x : c.Operands} {w : List Token}
    {Operands : List Token → Prop} (operands : ∀ u, Wording.operands c x u ↔ Operands u) :
    Wording.pair (.mnemonic c) (.operands c) (m, x) w ↔ (m.setsFlags → c.setsFlags) ∧
      Statement (.ofCode c m.code) (if c.setsFlags then flags m.setsFlags else []) m.condition
        Operands w := by
  have suffix (allowed : m.setsFlags → c.setsFlags) :
      (if c.setsFlags then flags m.setsFlags else []) = flags m.setsFlags := by
    split
    next => rfl
    next refused => simp [flags, mt allowed refused]
  constructor
  · intro spelled
    obtain ⟨front, back, first, last, rfl⟩ := spelled
    obtain ⟨allowed, named, word, rfl⟩ := mnemonic_iff.1 first
    refine ⟨allowed, named, back, word, (operands _).1 last, ?_⟩
    simp [suffix allowed]
  · intro spelled
    obtain ⟨allowed, named, back, word, last, rfl⟩ := spelled
    refine ⟨_, back, mnemonic_iff.2 ⟨allowed, named, word, rfl⟩, (operands _).2 last, ?_⟩
    simp [suffix allowed]

theorem build_iff {c : OpClass} {m : Mnemonic c} {x : c.Operands} {w : List Token} :
    Wording.pair (.mnemonic c) (.operands c) (m, x) w ↔
      (m.setsFlags → c.setsFlags) ∧ Spelling (.build c m x) w := by
  cases c with
  | move | rotateExtend =>
    exact statement_iff fun _ => pair_iff_registerThen fun _ => register_iff
  | address => exact statement_iff fun _ => pair_iff_registerThen fun _ => literal_iff
  | arithmetic => exact statement_iff fun _ => pair_iff_registerThen_twice fun _ => operand2_iff
  | shift => exact statement_iff fun _ => pair_iff_registerThen_twice fun _ => amount_iff
  | comparison => exact statement_iff fun _ => pair_iff_registerThen fun _ => operand2_iff
  | transfer => exact statement_iff fun _ => address_iff
  | blockTransfer => exact statement_iff fun _ => pair_iff_registerThen fun _ => registers_iff
  | branchLink => exact statement_iff fun _ => literal_iff

theorem instruction_iff {i : Instruction} {w : List Token} :
    Spelling i w ↔ ∃ c, Wording.instruction c i w := by
  constructor
  · intro spelled
    obtain ⟨c, m, x, rfl, allowed⟩ := i.exists_build
    exact ⟨c, (m, x), rfl, build_iff.2 ⟨allowed, spelled⟩⟩
  · intro spelled
    obtain ⟨c, ⟨m, x⟩, rfl, word⟩ := spelled
    exact (build_iff.1 word).2

theorem condition_written {i : Instruction} {w : List Token} (spelled : Spelling i w) :
    ∃ named, IsCondition i.condition named := by
  cases i <;>
    · obtain ⟨named, _, word, _⟩ := spelled
      exact ⟨named, word⟩

theorem condition_canonical {i : Instruction} {w : List Token} (spelled : Spelling i w)
    {c : Condition} (held : i.condition = some c) : c.canonical = c := by
  obtain ⟨named, word⟩ := condition_written spelled
  rw [held] at word
  obtain ⟨name, rfl, _⟩ := isCondition_some_iff.1 word
  exact name.canonical_idempotent

end Spelling
end ArmAssembly
