import ArmAssembly.Instruction.Shape
import ArmAssembly.Proofs.Reading

/-!
Other payloads for the tokens. A renaming gives each kind of token new payloads, keeps an
operation in its class and does not tell the names of one condition apart. Nothing in the
grammar looks further into a payload: a parser run on renamed tokens yields the renamed
value, leaves the renamed rest and refuses under the same label.
-/

namespace ArmAssembly

/-- New payloads for tokens, kind by kind. -/
structure Renaming where
  register : Register → Register
  literal : Int → Int
  unknown : String → String
  opcode : Opcode → Opcode
  condition : Condition → Condition
  opClass_opcode : ∀ op, (opcode op).opClass = op.opClass
  canonical_condition : ∀ c d : Condition, c.canonical = d.canonical →
    (condition c).canonical = (condition d).canonical

namespace Renaming

variable (φ : Renaming)

def token : Token → Token
  | .condition c => .condition (φ.condition c)
  | .register r => .register (φ.register r)
  | .opcode op => .opcode (φ.opcode op)
  | .literal n => .literal (φ.literal n)
  | .unknown text => .unknown (φ.unknown text)
  | .flags => .flags
  | .comma => .comma
  | .lineBreak => .lineBreak
  | .endOfInput => .endOfInput

def code (c : OpClass) (x : c.Code) : c.Code := ((φ.opcode (.ofCode c x)).code? c).getD x

def meaning (c : Condition) : Condition := (φ.condition c).canonical

def amount : Amount → Amount
  | .register r => .register (φ.register r)
  | .literal n => .literal (φ.literal n)

def shift : Shift → Shift
  | .by x a => .by (φ.code .shift x) (φ.amount a)
  | .extend => .extend

def operand2 : Operand2 → Operand2
  | .literal n => .literal (φ.literal n)
  | .register r s => .register (φ.register r) (s.map φ.shift)

def instruction : Instruction → Instruction
  | .move x s c rd rn =>
    .move (φ.code .move x) s (c.map φ.meaning) (φ.register rd) (φ.register rn)
  | .address c rd n => .address (c.map φ.meaning) (φ.register rd) (φ.literal n)
  | .arithmetic x s c rd rn operand =>
    .arithmetic (φ.code .arithmetic x) s (c.map φ.meaning) (φ.register rd) (φ.register rn)
      (φ.operand2 operand)
  | .shift x s c rd rm a =>
    .shift (φ.code .shift x) s (c.map φ.meaning) (φ.register rd) (φ.register rm) (φ.amount a)
  | .rotateExtend s c rd rm =>
    .rotateExtend s (c.map φ.meaning) (φ.register rd) (φ.register rm)
  | .comparison x c rn operand =>
    .comparison (φ.code .comparison x) (c.map φ.meaning) (φ.register rn) (φ.operand2 operand)
  | .transfer x c rd rn n =>
    .transfer (φ.code .transfer x) (c.map φ.meaning) (φ.register rd) (φ.register rn)
      (n.map φ.literal)
  | .blockTransfer x c rn rs =>
    .blockTransfer (φ.code .blockTransfer x) (c.map φ.meaning) (φ.register rn)
      (rs.map φ.register)
  | .branchLink c n => .branchLink (c.map φ.meaning) (φ.literal n)

def mnemonic {c : OpClass} (m : Mnemonic c) : Mnemonic c :=
  ⟨φ.code c m.code, m.setsFlags, m.condition.map φ.meaning⟩

def operands : (c : OpClass) → c.Operands → c.Operands
  | .move | .rotateExtend => Prod.map φ.register φ.register
  | .address => Prod.map φ.register φ.literal
  | .arithmetic => Prod.map (Prod.map φ.register φ.register) φ.operand2
  | .shift => Prod.map (Prod.map φ.register φ.register) φ.amount
  | .comparison => Prod.map φ.register φ.operand2
  | .transfer => Prod.map (Prod.map φ.register φ.register) (Option.map φ.literal)
  | .blockTransfer => Prod.map φ.register (List.map φ.register)
  | .branchLink => φ.literal

theorem instruction_build {c : OpClass} (m : Mnemonic c) (x : c.Operands) :
    φ.instruction (.build c m x) = .build c (φ.mnemonic m) (φ.operands c x) := by
  cases c <;> rfl

theorem ofCode_code (c : OpClass) (x : c.Code) :
    Opcode.ofCode c (φ.code c x) = φ.opcode (.ofCode c x) := by
  obtain ⟨y, renamed⟩ : ∃ y, φ.opcode (.ofCode c x) = .ofCode c y := by
    have same : (φ.opcode (.ofCode c x)).opClass = c := by
      rw [φ.opClass_opcode, Opcode.opClass_ofCode]
    generalize φ.opcode (.ofCode c x) = op at same
    subst same
    exact ⟨op.code, op.ofCode_code.symm⟩
  rw [code, renamed, Opcode.code?_ofCode, Option.getD_some]

theorem code?_opcode (c : OpClass) (op : Opcode) :
    (φ.opcode op).code? c = (op.code? c).map (φ.code c) := by
  by_cases same : op.opClass = c
  · subst same
    have coded := φ.ofCode_code op.opClass op.code
    rw [op.ofCode_code] at coded
    have found := Opcode.code?_ofCode op.opClass op.code
    rw [op.ofCode_code] at found
    rw [found, ← coded, Opcode.code?_ofCode, Option.map_some]
  · have other : (φ.opcode op).opClass ≠ c := by rwa [φ.opClass_opcode]
    simp [Opcode.code?, same, other]

theorem meaning_canonical (c : Condition) : φ.meaning c.canonical = φ.meaning c :=
  φ.canonical_condition _ _ c.canonical_idempotent

end Renaming

def Scan.rename {α : Type} (φ : Renaming) (f : α → α) : Scan α → Scan α
  | .taken x rest => .taken (f x) (rest.map φ.token)
  | .refused label rest => .refused label (rest.map φ.token)

namespace Parser

variable {α β δ : Type} {φ : Renaming} {f : α → α} {g : β → β} {p q : Parser NoCalls α}
  {r : Parser NoCalls β}

/-- Reading renamed tokens comes to the renamed reading, where `f` renames values. -/
def Renames (φ : Renaming) (f : α → α) (p : Parser NoCalls α) : Prop :=
  ∀ ts, p.parse (ts.map φ.token) = (p.parse ts).rename φ f

theorem renames_accept {read : Token → Option α} (label : String)
    (reads : ∀ t, read (φ.token t) = (read t).map f) : Renames φ f (accept read label) := by
  intro ts
  cases ts with
  | nil => rfl
  | cons t ts =>
    simp only [List.map_cons, parse_accept, scanAccept, reads t]
    cases read t <;> rfl

theorem renames_satisfying {t : Token} (label : String)
    (kept : ∀ u, φ.token u = t ↔ u = t) : Renames φ id (satisfying (· == t) label) := by
  refine renames_accept label fun u => ?_
  by_cases same : u = t
  · simp [same, (kept t).2 rfl]
  · have other : φ.token u ≠ t := fun equal => same ((kept u).1 equal)
    simp [same, other]

theorem renames_pure {x : α} (kept : f x = x) : Renames φ f (pure x) := by
  intro ts
  rw [parse_pure, parse_pure, Scan.rename, kept]

theorem renames_map {h : α → β} (values : ∀ x, g (h x) = h (f x)) (renames : Renames φ f p) :
    Renames φ g (map h p) := by
  intro ts
  rw [parse_map, parse_map, renames ts]
  cases p.parse ts with
  | refused label rest => rfl
  | taken x rest => simp only [Scan.rename, values]

theorem renames_relabel (label : String) (renames : Renames φ f p) :
    Renames φ f (relabel p label) := by
  intro ts
  rw [parse_relabel, parse_relabel, renames ts]
  cases p.parse ts <;> rfl

theorem renames_peek (renames : Renames φ f p) : Renames φ f (peek p) := by
  intro ts
  rw [parse_peek, parse_peek, renames ts]
  cases p.parse ts <;> rfl

theorem renames_orElse (first : Renames φ f p) (second : Renames φ f q) :
    Renames φ f (orElse p q) := by
  intro ts
  rw [parse_orElse, parse_orElse, first ts]
  cases p.parse ts with
  | refused label rest => exact second ts
  | taken x rest => rfl

theorem renames_choice {others : List (Parser NoCalls α)} (first : Renames φ f p)
    (further : ∀ q ∈ others, Renames φ f q) : Renames φ f (choice p others) := by
  induction others generalizing p with
  | nil => exact first
  | cons q others ih =>
    obtain ⟨second, rest⟩ := List.forall_mem_cons.1 further
    exact ih (renames_orElse first second) rest

theorem renames_maybe (renames : Renames φ f p) : Renames φ (Option.map f) (maybe p) := by
  intro ts
  rw [parse_maybe, parse_maybe, renames ts]
  cases p.parse ts <;> rfl

theorem renames_andThen (first : Renames φ f p) (second : Renames φ g r) :
    Renames φ (Prod.map f g) (andThen p r) := by
  intro ts
  rw [parse_andThen, parse_andThen, first ts]
  cases p.parse ts with
  | refused label rest => rfl
  | taken x rest =>
    simp only [Scan.rename, second rest]
    cases r.parse rest <;> rfl

theorem renames_many (renames : Renames φ f p) : Renames φ (List.map f) (many p) := by
  intro ts
  induction size : ts.length using Nat.strongRecOn generalizing ts with
  | ind n ih =>
    rw [parse_many, parse_many, renames ts]
    cases p.parse ts with
    | refused label rest => rfl
    | taken x rest =>
      simp only [Scan.rename, List.length_map]
      split
      next less =>
        rw [ih rest.length (by omega) rest rfl]
        cases (many p).parse rest <;> rfl
      next => rfl

theorem renames_sepBy1 (items : Renames φ f p) (separators : Renames φ g r) :
    Renames φ (List.map f) (sepBy1 p r) := by
  intro ts
  have others := renames_many (renames_map (g := f) (h := Prod.snd) (fun _ => rfl)
    (renames_andThen separators items))
  rw [sepBy1, parse_map2, parse_map2, items ts]
  cases p.parse ts with
  | refused label rest => rfl
  | taken x rest =>
    simp only [Scan.rename, keepSecond, others rest]
    cases (many (map Prod.snd (andThen r p))).parse rest <;> rfl

end Parser

namespace Field

open ArmAssembly.Parser

variable {α : Type} (φ : Renaming)

theorem renames_register : Renames φ φ.register Field.register :=
  renames_accept _ fun t => by cases t <;> rfl

theorem renames_literal : Renames φ φ.literal Field.literal :=
  renames_accept _ fun t => by cases t <;> rfl

theorem renames_opcode : Renames φ φ.opcode Field.opcode :=
  renames_accept _ fun t => by cases t <;> rfl

theorem renames_condition : Renames φ φ.meaning Field.condition := by
  refine renames_accept _ fun t => ?_
  cases t with
  | condition c => exact congrArg some (φ.meaning_canonical c).symm
  | _ => rfl

theorem renames_code (c : OpClass) : Renames φ (φ.code c) (Field.code c) := by
  refine renames_accept _ fun t => ?_
  cases t with
  | opcode op => exact φ.code?_opcode c op
  | _ => rfl

theorem renames_comma : Renames φ id Field.comma :=
  renames_satisfying _ fun u => by cases u <;> simp [Renaming.token]

theorem renames_flags : Renames φ id Field.flags :=
  renames_map (fun _ => rfl)
    (renames_satisfying "S Type" fun u => by cases u <;> simp [Renaming.token])

theorem renames_operandRegister : Renames φ φ.register operandRegister := by
  have withComma : Renames φ φ.register registerComma :=
    renames_map (fun _ => rfl)
      (renames_relabel _ (renames_andThen (renames_register φ) (renames_comma φ)))
  exact renames_relabel _ (renames_orElse withComma (renames_register φ))

theorem renames_afterComma {f : α → α} {p : Parser NoCalls α} (renames : Renames φ f p) :
    Renames φ f (afterComma p) :=
  renames_map (fun _ => rfl) (renames_andThen (renames_maybe (renames_comma φ)) renames)

theorem renames_amount : Renames φ φ.amount amount :=
  renames_orElse (renames_map (fun _ => rfl) (renames_register φ))
    (renames_map (fun _ => rfl) (renames_literal φ))

theorem renames_shift : Renames φ φ.shift shift :=
  renames_orElse
    (renames_map (fun _ => rfl) (renames_andThen (renames_code φ .shift) (renames_amount φ)))
    (renames_map (fun _ => rfl) (renames_code φ .rotateExtend))

theorem renames_operand2 : Renames φ φ.operand2 operand2 :=
  renames_relabel _ (renames_orElse (renames_map (fun _ => rfl) (renames_literal φ))
    (renames_map (fun _ => rfl) (renames_andThen (renames_register φ)
      (renames_maybe (renames_afterComma φ (renames_shift φ))))))

end Field

namespace Shape

open ArmAssembly.Parser ArmAssembly.Field

variable (φ : Renaming)

theorem renames_mnemonic (c : OpClass) : Renames φ φ.mnemonic (mnemonic c) := by
  have suffix : Renames φ id (suffix c) := by
    unfold suffix
    split
    · exact renames_map (fun x => by cases x <;> rfl) (renames_maybe (renames_flags φ))
    · exact renames_pure rfl
  exact renames_map (fun _ => rfl) (renames_andThen (renames_andThen (renames_code φ c) suffix)
    (renames_maybe (renames_condition φ)))

theorem renames_operands (c : OpClass) : Renames φ (φ.operands c) (operands c) := by
  have one {β : Type} {g : β → β} {q : Parser NoCalls β} (renames : Renames φ g q) :
      Renames φ (Prod.map φ.register g) (andThen operandRegister q) :=
    renames_andThen (renames_operandRegister φ) renames
  cases c with
  | move | rotateExtend => exact one (renames_register φ)
  | address => exact one (renames_literal φ)
  | arithmetic => exact renames_andThen (one (renames_operandRegister φ)) (renames_operand2 φ)
  | shift => exact renames_andThen (one (renames_operandRegister φ)) (renames_amount φ)
  | comparison => exact one (renames_operand2 φ)
  | transfer =>
    exact renames_andThen (one (renames_register φ))
      (renames_maybe (renames_afterComma φ (renames_literal φ)))
  | blockTransfer =>
    exact one (renames_sepBy1 (renames_register φ) (renames_maybe (renames_comma φ)))
  | branchLink => exact renames_literal φ

theorem renames_ofClass (c : OpClass) : Renames φ φ.instruction (ofClass c) :=
  renames_map (fun x => φ.instruction_build x.1 x.2)
    (renames_relabel _ (renames_andThen (renames_mnemonic φ c) (renames_operands φ c)))

theorem renames_any : Renames φ φ.instruction any := by
  refine renames_choice (renames_ofClass φ .move) fun p tried => ?_
  obtain ⟨c, _, rfl⟩ := List.mem_map.1 tried
  exact renames_ofClass φ c

/-- No payload is treated specially: an instruction of renamed tokens is the renamed
    instruction, and what is no instruction is refused in the same place under the same label. -/
theorem renames_instruction : Renames φ φ.instruction instruction := by
  intro ts
  have found := renames_maybe (renames_peek (renames_opcode φ))
  have routed (ts : List Token) :
      instruction.parse ts = (bind (maybe (peek Field.opcode)) route).parse ts := rfl
  rw [routed, routed, parse_bind, parse_bind, found ts]
  cases (maybe (peek Field.opcode)).parse ts with
  | refused label rest => rfl
  | taken op rest =>
    cases op with
    | none => exact renames_any φ rest
    | some op =>
      simp only [Scan.rename, Option.map_some, route, φ.opClass_opcode]
      exact renames_ofClass φ op.opClass rest

end Shape
end ArmAssembly
