import ArmAssembly.Proofs.Inline
import ArmAssembly.Proofs.Shapes

/-!
What is read as an instruction. The first token decides which shape is tried, and each
spelling starts with an operation of its own class; so the parser that tries the shapes
reads all spellings, whatever their class, and its refusals name the class of the first
token. Without an operation in front every shape refuses, and the last one gives its name.
-/

namespace ArmAssembly

theorem Wording.starts_instruction {c : OpClass} {t : Token} (starts : Starts (instruction c) t) :
    ∃ op, op.opClass = c ∧ t = .opcode op :=
  starts_code (starts_pair_proper proper_token (starts_pair_proper
    (proper_pair_left proper_token) (starts_map (starts_pair_proper
      (proper_map _ (proper_pair_left (proper_pair_left proper_token))) (starts_map starts)))))

theorem Spelling.iff_of_opcode {op : Opcode} {i : Instruction} {rest : List Token} :
    Spelling i (.opcode op :: rest) ↔ Wording.instruction op.opClass i (.opcode op :: rest) := by
  rw [instruction_iff]
  constructor
  · intro given
    obtain ⟨c, word⟩ := given
    obtain ⟨op', rfl, same⟩ := Wording.starts_instruction ⟨i, rest, word⟩
    obtain rfl := Token.opcode.inj same
    exact word
  · exact fun word => ⟨_, word⟩

theorem Spelling.viable_nil : Wording.Viable Spelling [] :=
  ⟨.branchLink none 0, [.opcode .bl, .literal 0], [], [.literal 0], rfl, rfl, rfl⟩

theorem Spelling.starts {t : Token} (starts : Wording.Starts Spelling t) :
    ∃ op, t = .opcode op := by
  obtain ⟨i, u, spelled⟩ := starts
  obtain ⟨rest, same⟩ := spelled.starts_with_opcode
  exact ⟨_, (List.cons.inj same).1⟩

namespace Shape

open ArmAssembly.Parser

theorem label_of_refused {c : OpClass} {ts rest : List Token} {label : String}
    (refused : (ofClass c).parse ts = .refused label rest) :
    label = "Instruction Type " ++ toString c.number := by
  have inner := (parse_map_refused _).1 refused
  rw [parse_relabel] at inner
  split at inner
  · cases inner
  · exact (Scan.refused.inj inner).1.symm

theorem parse_ofClass_of_no_opcode (c : OpClass) {ts : List Token}
    (bare : ∀ op rest, ts ≠ .opcode op :: rest) :
    (ofClass c).parse ts = .refused ("Instruction Type " ++ toString c.number) ts := by
  have shape := pinpoints_ofClass c
  have foreign {t : Token} {m u : List Token} (cut : ts = t :: u) :
      ¬ (Wording.instruction c).Viable (t :: m) := by
    intro given
    obtain ⟨i, more, word⟩ := given
    obtain ⟨op, _, rfl⟩ := Wording.starts_instruction ⟨i, m ++ more, word⟩
    exact bare op u cut
  cases reply : (ofClass c).parse ts with
  | taken i rest =>
    obtain ⟨u, cut, word⟩ := shape.sound reply
    cases u with
    | nil =>
      obtain ⟨rest, same⟩ := (Spelling.instruction_iff.2 ⟨c, word⟩).starts_with_opcode
      cases same
    | cons t u => exact absurd (Wording.viable_of_word word) (foreign cut)
  | refused label rest =>
    obtain rfl := label_of_refused reply
    obtain ⟨u, cut⟩ := parse_suffix reply
    rw [cut] at reply
    have viable := (shape.refused reply).1
    cases u with
    | nil => rw [cut, List.nil_append, Scan.rest]
    | cons t u => exact absurd viable (foreign cut)

theorem parse_any_of_no_opcode {ts : List Token} (bare : ∀ op rest, ts ≠ .opcode op :: rest) :
    any.parse ts = .refused "Instruction Type 9" ts := by
  simp only [any, choice, List.map, List.foldl, parse_orElse, parse_ofClass_of_no_opcode _ bare]
  rfl

theorem parse_instruction_of_opcode (op : Opcode) (rest : List Token) :
    instruction.parse (.opcode op :: rest) = (ofClass op.opClass).parse (.opcode op :: rest) := rfl

theorem parse_instruction_of_no_opcode {ts : List Token}
    (bare : ∀ op rest, ts ≠ .opcode op :: rest) :
    instruction.parse ts = .refused "Instruction Type 9" ts := by
  have unfound : (maybe (peek Field.opcode)).parse ts = .taken none ts := by
    rw [parse_maybe, parse_peek, Field.opcode, parse_accept]
    cases ts with
    | nil => rfl
    | cons t ts =>
      cases found : t.opcode? with
      | none => simp [scanAccept, found]
      | some op => exact absurd rfl (Token.opcode?_eq_some_iff.1 found ▸ bare op ts)
  have routed : instruction.parse ts = (bind (maybe (peek Field.opcode)) route).parse ts := rfl
  rw [routed, parse_bind, unfound]
  exact parse_any_of_no_opcode bare

theorem label_of_opcode {op : Opcode} {ts rest : List Token} {label : String}
    (refused : instruction.parse (.opcode op :: ts) = .refused label rest) :
    label = "Instruction Type " ++ toString op.opClass.number := by
  rw [parse_instruction_of_opcode] at refused
  exact label_of_refused refused

theorem reads_instruction : Reads instruction Spelling where
  sound := by
    intro ts i rest took
    by_cases operation : ∃ op more, ts = .opcode op :: more
    · obtain ⟨op, more, rfl⟩ := operation
      rw [parse_instruction_of_opcode] at took
      obtain ⟨u, cut, word⟩ := (pinpoints_ofClass op.opClass).sound took
      exact ⟨u, cut, Spelling.instruction_iff.2 ⟨_, word⟩⟩
    · rw [parse_instruction_of_no_opcode fun op more same => operation ⟨op, more, same⟩] at took
      cases took
  complete := by
    intro i u v spelled
    obtain ⟨more, rfl⟩ := spelled.starts_with_opcode
    rw [List.cons_append, parse_instruction_of_opcode]
    exact (pinpoints_ofClass _).complete v (Spelling.iff_of_opcode.1 spelled)

/-- An instruction is read as far as it is spelled, and a refusal stands behind the longest
    beginning of a spelling. -/
theorem pinpoints_instruction : Pinpoints instruction Spelling where
  toReads := reads_instruction
  refused := by
    intro u label rest refused
    by_cases operation : ∃ op more, u ++ rest = .opcode op :: more
    · obtain ⟨op, more, cut⟩ := operation
      rw [cut, parse_instruction_of_opcode, ← cut] at refused
      obtain ⟨⟨i, after, word⟩, stops⟩ := (pinpoints_ofClass op.opClass).refused refused
      refine ⟨⟨i, after, Spelling.instruction_iff.2 ⟨_, word⟩⟩, ?_⟩
      rintro t behind rfl ⟨j, after, spelled⟩
      refine stops t behind rfl ⟨j, after, ?_⟩
      -- the beginning that goes on starts with the same operation
      obtain ⟨front, same⟩ : ∃ front, u ++ [t] = .opcode op :: front := by
        cases u with
        | nil => exact ⟨[], by rw [(List.cons.inj cut).1]; rfl⟩
        | cons a u => exact ⟨u ++ [t], by rw [(List.cons.inj cut).1]; rfl⟩
      rw [same] at spelled ⊢
      exact Spelling.iff_of_opcode.1 spelled
    · rw [parse_instruction_of_no_opcode fun op more same => operation ⟨op, more, same⟩] at refused
      obtain rfl : u = [] := by simpa using (Scan.refused.inj refused).2
      refine ⟨Spelling.viable_nil, ?_⟩
      rintro t behind rfl ⟨i, after, spelled⟩
      obtain ⟨op, rfl⟩ := Spelling.starts ⟨i, after, spelled⟩
      exact operation ⟨op, behind, rfl⟩

end Shape
end ArmAssembly
