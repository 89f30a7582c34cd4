import ArmAssembly.Proofs.InstructionReading
import ArmAssembly.Proofs.OrderedChoice

/-!
The operation in front makes an ordered choice of shapes needless. A shape takes nothing that
does not start with an operation of its own class; so at most one class can succeed at a cursor,
and looking at the operation first comes to the same instructions as trying the shapes one after
another, in whatever order.
-/

namespace ArmAssembly

def Cursor.opcode? (c : Cursor) : Option Opcode := c.next?.bind fun read => read.1.opcode?

theorem Cursor.opcode?_eq_some_iff {c : Cursor} {op : Opcode} :
    c.opcode? = some op ↔ ∃ rest, c.ahead = .opcode op :: rest := by
  constructor
  · intro found
    obtain ⟨⟨t, d⟩, step, operation⟩ := Option.bind_eq_some_iff.1 found
    obtain rfl := Token.opcode?_eq_some_iff.1 operation
    exact ⟨_, ahead_of_next step⟩
  · intro given
    obtain ⟨rest, front⟩ := given
    rw [opcode?, (next?_of_ahead_cons front).1]
    rfl

namespace Shape

open ArmAssembly.Parser

theorem opcode?_of_success {k : OpClass} {c rest : Cursor} {i : Instruction}
    (succeeds : (ofClass k).run c = .success i rest) :
    ∃ op, c.opcode? = some op ∧ op.opClass = k := by
  rw [run_eq_parse] at succeeds
  cases reply : (ofClass k).parse c.ahead with
  | refused label last => simp [reply, Scan.outcomeFrom] at succeeds
  | taken j last =>
    obtain ⟨u, cut, word⟩ := (pinpoints_ofClass k).sound reply
    obtain ⟨more, rfl⟩ := (Spelling.instruction_iff.2 ⟨k, word⟩).starts_with_opcode
    obtain ⟨op, same, front⟩ := Wording.starts_instruction ⟨j, more, word⟩
    rw [front] at cut
    exact ⟨op, Cursor.opcode?_eq_some_iff.2 ⟨more ++ last, cut⟩, same⟩

theorem run_instruction_of_opcode {c : Cursor} {op : Opcode} (front : c.opcode? = some op) :
    instruction.run c = (ofClass op.opClass).run c := by
  obtain ⟨rest, cut⟩ := Cursor.opcode?_eq_some_iff.1 front
  rw [run_eq_parse, run_eq_parse, cut, parse_instruction_of_opcode]

theorem run_instruction_of_no_opcode {c : Cursor} (bare : c.opcode? = none) :
    instruction.run c = any.run c ∧
      ∃ f, any.run c = .failure f ∧ f.label = "Instruction Type 9" := by
  have other (op : Opcode) (rest : List Token) : c.ahead ≠ .opcode op :: rest := by
    intro cut
    rw [Cursor.opcode?_eq_some_iff.2 ⟨rest, cut⟩] at bare
    cases bare
  rw [run_eq_parse, run_eq_parse, parse_instruction_of_no_opcode other,
    parse_any_of_no_opcode other]
  exact ⟨rfl, _, rfl, rfl⟩

theorem run_choice_success_iff (k : OpClass) (ks : List OpClass) (c : Cursor) (i : Instruction)
    (rest : Cursor) :
    (choice (ofClass k) (ks.map ofClass)).run c = .success i rest ↔
      ∃ op, c.opcode? = some op ∧ op.opClass ∈ k :: ks ∧
        (ofClass op.opClass).run c = .success i rest := by
  rw [← exec_eq_ok_iff (ε := Empty) (fun e => e.elim), exec_choice_eq_iff (by simp),
    ← List.map_cons]
  simp only [Tried, exec_eq_ok_iff]
  constructor
  · intro given
    obtain ⟨q, ⟨before, after, cut, _⟩, succeeds⟩ := given
    have member : q ∈ (k :: ks).map ofClass := by simp [cut]
    obtain ⟨l, tried, rfl⟩ := List.mem_map.1 member
    obtain ⟨op, front, rfl⟩ := opcode?_of_success succeeds
    exact ⟨op, front, tried, succeeds⟩
  · intro given
    obtain ⟨op, front, tried, succeeds⟩ := given
    -- no shape of another class takes anything, so those tried in front of this one fail
    obtain ⟨before, after, cut, first⟩ := List.eq_append_cons_of_mem tried
    refine ⟨ofClass op.opClass, ⟨before.map ofClass, after.map ofClass, by simp [cut], ?_⟩,
      succeeds⟩
    intro q member
    obtain ⟨l, earlier, rfl⟩ := List.mem_map.1 member
    cases outcome : (ofClass l).run c with
    | failure f => exact ⟨f, rfl⟩
    | success j last =>
      obtain ⟨op', front', rfl⟩ := opcode?_of_success outcome
      obtain rfl := Option.some.inj (front.symm.trans front')
      exact absurd earlier first

/-- Deciding by the operation in front comes to the same instructions as trying the shapes one
    after another, in whatever order and however often each is tried. The two differ in
    their failures: one is that of the shape decided for, the other that of the last shape. -/
theorem routing_agrees_with_choice (k : OpClass) (ks : List OpClass) (c : Cursor) :
    (∀ i rest, (choice (ofClass k) (ks.map ofClass)).run c = .success i rest ↔
        ∃ op, c.opcode? = some op ∧ op.opClass ∈ k :: ks ∧
          (ofClass op.opClass).run c = .success i rest) ∧
      (∀ f, (choice (ofClass k) (ks.map ofClass)).run c = .failure f →
        (ofClass ((k :: ks).getLast (List.cons_ne_nil k ks))).run c = .failure f) ∧
      (∀ op, c.opcode? = some op → instruction.run c = (ofClass op.opClass).run c) ∧
      (c.opcode? = none → instruction.run c = any.run c ∧
        ∃ f, any.run c = .failure f ∧ f.label = "Instruction Type 9") ∧
      ((∀ l, l ∈ k :: ks) → ∀ i rest,
        instruction.run c = .success i rest ↔
          (choice (ofClass k) (ks.map ofClass)).run c = .success i rest) := by
  refine ⟨run_choice_success_iff k ks c, ?_, fun op => run_instruction_of_opcode,
    run_instruction_of_no_opcode, ?_⟩
  · intro f fails
    rw [← exec_eq_ok_iff (ε := Empty) (fun e => e.elim), exec_choice_failure_iff] at fails
    have last := (exec_eq_ok_iff _ _ _ _).1 fails.2
    simpa only [← List.map_cons, List.getLast_map] using last
  · intro complete i rest
    rw [run_choice_success_iff]
    cases front : c.opcode? with
    | none =>
      obtain ⟨same, f, fails, _⟩ := run_instruction_of_no_opcode front
      simp [same, fails]
    | some op => simp [run_instruction_of_opcode front, complete]

/-- `mov r0 r1`, with the shapes tried from the last to the first after two of them -/
theorem routing_agrees_backwards :
    (∀ l : OpClass, l ∈ .branchLink :: .shift :: OpClass.all.reverse) ∧
      (choice (ofClass .branchLink) ((OpClass.shift :: OpClass.all.reverse).map ofClass)).run
          ⟨[[.opcode (.move .mov), .register ⟨0⟩, .register ⟨1⟩]], .start⟩ =
        .success (.move .mov false none ⟨0⟩ ⟨1⟩)
          ⟨[[.opcode (.move .mov), .register ⟨0⟩, .register ⟨1⟩]], ⟨0, 3⟩⟩ := by
  have complete : ∀ l : OpClass, l ∈ .branchLink :: .shift :: OpClass.all.reverse := by
    intro l
    cases l <;> decide
  exact ⟨complete, ((routing_agrees_with_choice _ _ _).2.2.2.2 complete _ _).1 rfl⟩

end Shape
end ArmAssembly
