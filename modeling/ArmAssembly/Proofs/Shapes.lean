import ArmAssembly.Instruction.Shape
import ArmAssembly.Proofs.Reading
import ArmAssembly.Proofs.Spellings

/-!
What the fields and the nine shapes read. Each field reads the tokens that write its
value, and each shape reads the spellings of the instructions of its class: the longest
one in front, or it refuses behind the longest beginning of one.
-/

namespace ArmAssembly

namespace Wording

variable {α β : Type}

theorem starts_register {t : Token} (starts : Starts register t) : ∃ r, t = .register r := by
  obtain ⟨r, read⟩ := starts_token starts
  exact ⟨r, Token.register?_eq_some_iff.1 read⟩

theorem starts_literal {t : Token} (starts : Starts literal t) : ∃ n, t = .literal n := by
  obtain ⟨n, read⟩ := starts_token starts
  exact ⟨n, Token.literal?_eq_some_iff.1 read⟩

theorem starts_condition {t : Token} (starts : Starts condition t) : ∃ c, t = .condition c := by
  obtain ⟨c, read⟩ := starts_token starts
  obtain ⟨named, found, _⟩ := Option.map_eq_some_iff.1 read
  exact ⟨named, Token.condition?_eq_some_iff.1 found⟩

theorem starts_code {c : OpClass} {t : Token} (starts : Starts (code c) t) :
    ∃ op, op.opClass = c ∧ t = .opcode op := by
  obtain ⟨x, u, word⟩ := starts
  obtain ⟨rfl, _⟩ := List.cons.inj (Spelling.code_iff.1 word)
  exact ⟨_, Opcode.opClass_ofCode c x, rfl⟩

theorem starts_shift {t : Token} (starts : Starts shift t) : ∃ op, t = .opcode op := by
  rcases starts_either starts with code | code
  · obtain ⟨op, _, same⟩ := starts_code (starts_pair_proper proper_token (starts_map code))
    exact ⟨op, same⟩
  · obtain ⟨op, _, same⟩ := starts_code (starts_map code)
    exact ⟨op, same⟩

theorem proper_shift : ∀ s, ¬ shift s [] :=
  proper_either (proper_map _ (proper_pair_left proper_token)) (proper_map _ proper_token)

theorem proper_afterComma {S : Wording α} (proper : ∀ x, ¬ S x []) : ∀ x, ¬ afterComma S x [] :=
  proper_map _ (proper_pair_right proper)

theorem separated_comma {S : Wording α} (plain : ¬ S.Starts .comma) :
    Separated (optional comma) S := by
  intro t further start
  rcases extends_optional further with inside | first
  · exact not_extends_token inside
  · rw [starts_exactly first] at start
    exact plain start

def StartsOperand (S : Wording α) : Prop :=
  ∀ t, S.Starts t → (∃ r, t = .register r) ∨ ∃ n, t = .literal n

theorem startsOperand_register : StartsOperand register :=
  fun _ starts => Or.inl (starts_register starts)

theorem startsOperand_literal : StartsOperand literal :=
  fun _ starts => Or.inr (starts_literal starts)

theorem startsOperand_map {S : Wording α} (f : α → β) (starts : S.StartsOperand) :
    (map f S).StartsOperand :=
  fun t first => starts t (starts_map first)

theorem startsOperand_either {S T : Wording α} (first : S.StartsOperand)
    (second : T.StartsOperand) : (either S T).StartsOperand := by
  intro t starts
  rcases starts_either starts with left | right
  · exact first t left
  · exact second t right

theorem startsOperand_pair {S : Wording α} {T : Wording β} (starts : S.StartsOperand)
    (proper : ∀ x, ¬ S x []) : (pair S T).StartsOperand :=
  fun t first => starts t (starts_pair_proper proper first)

theorem proper_register : ∀ r, ¬ register r [] := proper_token

theorem proper_operandRegister : ∀ r, ¬ operandRegister r [] :=
  proper_map _ (proper_pair_left proper_register)

theorem startsOperand_operandRegister : StartsOperand operandRegister :=
  startsOperand_map _ (startsOperand_pair startsOperand_register proper_register)

theorem startsOperand_amount : StartsOperand amount :=
  startsOperand_either (startsOperand_map _ startsOperand_register)
    (startsOperand_map _ startsOperand_literal)

theorem startsOperand_operand2 : StartsOperand operand2 :=
  startsOperand_either (startsOperand_map _ startsOperand_literal)
    (startsOperand_map _ (startsOperand_pair startsOperand_register proper_register))

theorem startsOperand_registers : StartsOperand registers :=
  startsOperand_map _ (startsOperand_pair startsOperand_register proper_register)

theorem startsOperand_operands (c : OpClass) : (operands c).StartsOperand := by
  have one {β : Type} (T : Wording β) : (pair operandRegister T).StartsOperand :=
    startsOperand_pair startsOperand_operandRegister proper_operandRegister
  have two {α β : Type} (S : Wording α) (T : Wording β) :
      (pair (pair operandRegister S) T).StartsOperand :=
    startsOperand_pair (one S) (proper_pair_left proper_operandRegister)
  cases c with
  | move | address | rotateExtend | comparison | blockTransfer => exact one _
  | arithmetic | shift | transfer => exact two _ _
  | branchLink => exact startsOperand_literal

theorem extends_operandRegister {t : Token} (further : operandRegister.Extends t) : t = .comma := by
  rcases extends_pair separated_token (extends_map further) with first | second
  · exact absurd first not_extends_token
  · rcases extends_optional second with inside | start
    · exact absurd inside not_extends_token
    · exact starts_exactly start

theorem separated_operandRegister {T : Wording β} (starts : T.StartsOperand) :
    Separated operandRegister T := by
  intro t further start
  obtain rfl := extends_operandRegister further
  rcases starts _ start with ⟨r, same⟩ | ⟨n, same⟩
  · cases same
  · cases same

theorem separated_operandRegisters {T : Wording β} (starts : T.StartsOperand) :
    Separated (pair operandRegister operandRegister) T :=
  fun t further => separated_operandRegister starts t
    (extends_pair_proper (separated_operandRegister startsOperand_operandRegister)
      proper_operandRegister further)

theorem viable_register : Viable register [] := ⟨⟨0⟩, [.register ⟨0⟩], Spelling.register_iff.2 rfl⟩

theorem viable_literal : Viable literal [] := ⟨0, [.literal 0], Spelling.literal_iff.2 rfl⟩

theorem viable_operandRegister : Viable operandRegister [] :=
  ⟨⟨0⟩, [.register ⟨0⟩], Spelling.operandRegister_iff.2 ⟨[], Or.inl rfl, rfl⟩⟩

theorem viable_amount : Viable amount [] := ⟨.literal 0, [.literal 0], Spelling.amount_iff.2 rfl⟩

theorem viable_operand2 : Viable operand2 [] :=
  ⟨.literal 0, [.literal 0], Spelling.operand2_iff.2 rfl⟩

theorem viable_registers : Viable registers [] :=
  ⟨[⟨0⟩], [.register ⟨0⟩], Spelling.registers_iff.2 rfl⟩

theorem viable_suffix {c : OpClass} : Viable (suffix c) [] :=
  ⟨false, [], by simp [suffix, Spelling.flags]⟩

theorem viable_operands (c : OpClass) : Viable (operands c) [] := by
  cases c with
  | move | rotateExtend => exact viable_pair_nil viable_operandRegister viable_register
  | address => exact viable_pair_nil viable_operandRegister viable_literal
  | arithmetic =>
    exact viable_pair_nil (viable_pair_nil viable_operandRegister viable_operandRegister)
      viable_operand2
  | shift =>
    exact viable_pair_nil (viable_pair_nil viable_operandRegister viable_operandRegister)
      viable_amount
  | comparison => exact viable_pair_nil viable_operandRegister viable_operand2
  | transfer =>
    exact viable_pair_nil (viable_pair_nil viable_operandRegister viable_register)
      ⟨none, [], rfl⟩
  | blockTransfer => exact viable_pair_nil viable_operandRegister viable_registers
  | branchLink => exact viable_literal

theorem extends_suffix {c : OpClass} {t : Token} (further : (suffix c).Extends t) : t = .flags := by
  obtain ⟨sets, sets', u, v, ⟨_, rfl⟩, _, longer⟩ := further
  cases sets <;> cases sets' <;> simp [Spelling.flags] at longer
  exact longer.1

theorem extends_coded {c : OpClass} {t : Token} (further : (pair (code c) (suffix c)).Extends t) :
    t = .flags := by
  rcases extends_pair separated_token further with code | suffix
  · exact absurd code not_extends_token
  · exact extends_suffix suffix

theorem separated_coded (c : OpClass) :
    Separated (pair (code c) (suffix c)) (optional condition) := by
  intro t further start
  obtain rfl := extends_coded further
  obtain ⟨named, same⟩ := starts_condition (starts_optional start)
  cases same

/-- A mnemonic goes on with a suffix or a condition, and no operand starts with one. -/
theorem separated_mnemonic (c : OpClass) : Separated (mnemonic c) (operands c) := by
  intro t further start
  have operand := startsOperand_operands c t start
  rcases extends_pair (separated_coded c) (extends_map further) with coded | condition
  · obtain rfl := extends_coded coded
    rcases operand with ⟨r, same⟩ | ⟨n, same⟩ <;> cases same
  · rcases extends_optional condition with inside | first
    · exact not_extends_token inside
    · obtain ⟨named, rfl⟩ := starts_condition first
      rcases operand with ⟨r, same⟩ | ⟨n, same⟩ <;> cases same

end Wording

namespace Parser

variable {α β : Type}

/-- One parser with or without another behind it is the first with the second left to choice:
    the first parser comes to the same both times. -/
theorem sameReading_alone (p : Parser NoCalls α) (q : Parser NoCalls β) (label : String) :
    SameReading (map Prod.fst (andThen p (maybe q)))
      (orElse (map Prod.fst (relabel (andThen p q) label)) p) := by
  intro ts
  rw [parse_orElse, parse_map, parse_map, parse_relabel, parse_andThen, parse_andThen]
  cases first : p.parse ts with
  | refused other rest => rfl
  | taken x rest =>
    simp only [parse_maybe]
    cases q.parse rest <;> rfl

theorem delimits_register : Delimits Field.register .register :=
  delimits_accept (t := .register ⟨0⟩) rfl

theorem delimits_literal : Delimits Field.literal .literal :=
  delimits_accept (t := .literal 0) rfl

theorem delimits_comma : Delimits Field.comma .comma := delimits_satisfying .comma "Comma"

theorem delimits_condition : Delimits Field.condition .condition :=
  delimits_accept (t := .condition .al) rfl

theorem delimits_maybe_comma : Delimits (maybe Field.comma) (Wording.optional .comma) :=
  delimits_maybe delimits_comma Wording.proper_token refusesAtOnce_accept

theorem delimits_operandRegister : Delimits Field.operandRegister Wording.operandRegister := by
  have whole := delimits_map Prod.fst
    (delimits_andThen delimits_register delimits_maybe_comma Wording.separated_token
      ⟨none, [], rfl⟩)
  exact (whole.congr (sameReading_alone _ _ _)).congr (sameReading_relabel _ _)

theorem delimits_code (c : OpClass) : Delimits (Field.code c) (Wording.code c) := by
  have code : c.Code := by
    cases c with
    | move => exact .mov
    | arithmetic => exact .add
    | shift => exact .lsl
    | comparison => exact .cmp
    | transfer => exact .ldr
    | blockTransfer => exact .ldm
    | address | rotateExtend | branchLink => exact ()
  have reads : (Token.opcode (.ofCode c code)).opcode?.bind (Opcode.code? c) = some code := by
    simp [Token.opcode?, Opcode.code?_ofCode]
  exact delimits_accept reads

theorem pinpoints_amount : Pinpoints Field.amount Wording.amount := by
  refine pinpoints_orElse (delimits_map _ delimits_register).toPinpoints
    (refusesAtOnce_map _ refusesAtOnce_accept) (delimits_map _ delimits_literal).toPinpoints
    (Wording.proper_map _ Wording.proper_token) (Wording.proper_map _ Wording.proper_token) ?_
  intro t first second
  obtain ⟨r, rfl⟩ := Wording.starts_register (Wording.starts_map first)
  obtain ⟨n, same⟩ := Wording.starts_literal (Wording.starts_map second)
  cases same

theorem reads_shift : Reads Field.shift Wording.shift := by
  refine reads_orElse
    (reads_map _ (reads_andThen (delimits_code .shift).toReads pinpoints_amount.toReads
      Wording.separated_token))
    (reads_map _ (delimits_code .rotateExtend).toReads)
    (Wording.proper_map _ (Wording.proper_pair_left Wording.proper_token))
    (Wording.proper_map _ Wording.proper_token) ?_
  intro t first second
  have shifts := Wording.starts_pair_proper Wording.proper_token (Wording.starts_map first)
  obtain ⟨op, isShift, rfl⟩ := Wording.starts_code shifts
  obtain ⟨op', isRotation, same⟩ := Wording.starts_code (Wording.starts_map second)
  obtain rfl := Token.opcode.inj same
  rw [isShift] at isRotation
  cases isRotation

theorem reads_afterComma {p : Parser NoCalls α} {S : Wording α} (reads : Reads p S)
    (plain : ¬ S.Starts .comma) : Reads (Field.afterComma p) S.afterComma :=
  reads_map _ (reads_andThen delimits_maybe_comma.toReads reads (Wording.separated_comma plain))

theorem pinpoints_operand2 : Pinpoints Field.operand2 Wording.operand2 := by
  have shifted : Reads (Field.afterComma Field.shift) (.afterComma .shift) := by
    refine reads_afterComma reads_shift ?_
    intro start
    obtain ⟨op, same⟩ := Wording.starts_shift start
    cases same
  have back := pinpoints_maybe shifted (Wording.proper_afterComma Wording.proper_shift)
  have register := pinpoints_andThen delimits_register back Wording.separated_token
    ⟨none, [], rfl⟩
  refine (pinpoints_orElse (delimits_map _ delimits_literal).toPinpoints
    (refusesAtOnce_map _ refusesAtOnce_accept) (pinpoints_map _ register)
    (Wording.proper_map _ Wording.proper_token)
    (Wording.proper_map _ (Wording.proper_pair_left Wording.proper_token)) ?_).congr
    (sameReading_relabel _ _)
  intro t first second
  obtain ⟨n, rfl⟩ := Wording.starts_literal (Wording.starts_map first)
  obtain ⟨r, same⟩ := Wording.starts_register
    (Wording.starts_pair_proper Wording.proper_token (Wording.starts_map second))
  cases same

theorem pinpoints_registers :
    Pinpoints (sepBy1 Field.register (maybe Field.comma)) Wording.registers := by
  have plain : ¬ Wording.register.Starts .comma := by
    intro start
    obtain ⟨r, same⟩ := Wording.starts_register start
    cases same
  have item := reads_afterComma delimits_register.toReads plain
  have whole : ∀ t, ¬ (Wording.afterComma .register).Extends t := fun t further =>
    Wording.not_extends_token (Wording.extends_pair_proper (Wording.separated_comma plain)
      Wording.proper_register (Wording.extends_map further))
  have others := pinpoints_many item (Wording.proper_afterComma Wording.proper_register)
    fun t further => absurd further (whole t)
  exact (pinpoints_map _ (pinpoints_andThen delimits_register others Wording.separated_token
    ⟨[], [], .nil⟩)).congr (sameReading_map2 _ _ _)

theorem delimits_suffix (c : OpClass) : Delimits (Shape.suffix c) (Wording.suffix c) := by
  cases allowed : c.setsFlags with
  | false =>
    have reads : Delimits (pure false) (fun sets u => sets = false ∧ u = []) := delimits_pure false
    simp only [Shape.suffix, allowed]
    refine reads.rewording fun sets u => ?_
    cases sets <;> simp [Wording.suffix, allowed, Spelling.flags]
  | true =>
    have flags : Delimits Field.flags _ := delimits_map _ (delimits_satisfying .flags "S Type")
    have reads := delimits_map Option.isSome (delimits_maybe flags
      (Wording.proper_map _ Wording.proper_token) (refusesAtOnce_map _ refusesAtOnce_accept))
    simp only [Shape.suffix, allowed, ↓reduceIte]
    refine reads.rewording fun sets u => ?_
    cases sets <;>
      simp [Wording.suffix, allowed, Spelling.flags, Wording.map, Wording.optional,
        Wording.exactly_iff, Option.exists]

theorem delimits_mnemonic (c : OpClass) : Delimits (Shape.mnemonic c) (Wording.mnemonic c) := by
  have code := delimits_andThen (delimits_code c) (delimits_suffix c) Wording.separated_token
    Wording.viable_suffix
  have condition := delimits_maybe delimits_condition Wording.proper_token refusesAtOnce_accept
  exact delimits_map _ (delimits_andThen code condition (Wording.separated_coded c)
    ⟨none, [], rfl⟩)

theorem pinpoints_operands (c : OpClass) : Pinpoints (Shape.operands c) (Wording.operands c) := by
  have one {β : Type} {q : Parser NoCalls β} {T : Wording β} (pinpoints : Pinpoints q T)
      (starts : T.StartsOperand) (inhabited : T.Viable []) :
      Pinpoints (andThen Field.operandRegister q) (.pair .operandRegister T) :=
    pinpoints_andThen delimits_operandRegister pinpoints
      (Wording.separated_operandRegister starts) inhabited
  have two {β : Type} {q : Parser NoCalls β} {T : Wording β} (pinpoints : Pinpoints q T)
      (starts : T.StartsOperand) (inhabited : T.Viable []) :
      Pinpoints (andThen (andThen Field.operandRegister Field.operandRegister) q)
        (.pair (.pair .operandRegister .operandRegister) T) :=
    pinpoints_andThen
      (delimits_andThen delimits_operandRegister delimits_operandRegister
        (Wording.separated_operandRegister Wording.startsOperand_operandRegister)
        Wording.viable_operandRegister)
      pinpoints (Wording.separated_operandRegisters starts) inhabited
  have register := one delimits_register.toPinpoints Wording.startsOperand_register
    Wording.viable_register
  cases c with
  | move | rotateExtend => exact register
  | address =>
    exact one delimits_literal.toPinpoints Wording.startsOperand_literal Wording.viable_literal
  | arithmetic =>
    exact two pinpoints_operand2 Wording.startsOperand_operand2 Wording.viable_operand2
  | shift => exact two pinpoints_amount Wording.startsOperand_amount Wording.viable_amount
  | comparison =>
    exact one pinpoints_operand2 Wording.startsOperand_operand2 Wording.viable_operand2
  | transfer =>
    have plain : ¬ Wording.literal.Starts .comma := by
      intro start
      obtain ⟨n, same⟩ := Wording.starts_literal start
      cases same
    have offset := pinpoints_maybe (reads_afterComma delimits_literal.toReads plain)
      (Wording.proper_afterComma Wording.proper_token)
    have front := delimits_andThen delimits_operandRegister delimits_register
      (Wording.separated_operandRegister Wording.startsOperand_register) Wording.viable_register
    refine pinpoints_andThen front offset ?_ ⟨none, [], rfl⟩
    exact fun t further => absurd (Wording.extends_pair_proper
      (Wording.separated_operandRegister Wording.startsOperand_register) Wording.proper_register
      further) Wording.not_extends_token
  | blockTransfer =>
    exact one pinpoints_registers Wording.startsOperand_registers Wording.viable_registers
  | branchLink => exact delimits_literal.toPinpoints

theorem pinpoints_ofClass (c : OpClass) : Pinpoints (Shape.ofClass c) (Wording.instruction c) := by
  have parts := pinpoints_andThen (delimits_mnemonic c) (pinpoints_operands c)
    (Wording.separated_mnemonic c) (Wording.viable_operands c)
  exact pinpoints_map _ (parts.congr (sameReading_relabel _ _))

end Parser
end ArmAssembly
