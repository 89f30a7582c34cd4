import ArmAssembly.Proofs.LineReading

/-!
What is said of a line that fails. It is the line itself, one of its tokens or its end, and
one of ten rules: a shape, or the end of the line. Every diagnostic of a listing is made of
such a failure.
-/

namespace ArmAssembly

namespace Shape

def IsRule (label : String) : Prop :=
  label = "End of Line" ∨ ∃ c : OpClass, label = "Instruction Type " ++ toString c.number

theorem isRule_of_refused {ts rest : List Token} {label : String}
    (refused : instruction.parse ts = .refused label rest) : IsRule label := by
  by_cases operation : ∃ op more, ts = .opcode op :: more
  · obtain ⟨op, more, rfl⟩ := operation
    exact Or.inr ⟨op.opClass, label_of_opcode refused⟩
  · rw [parse_instruction_of_no_opcode fun op more same => operation ⟨op, more, same⟩] at refused
    exact Or.inr ⟨.branchLink, (Scan.refused.inj refused).1.symm⟩

end Shape

theorem readLine_failure_cases {lines : List Line} {n : Nat} {row : Line} {f : Failure}
    (here : lines[n]? = some row) (fails : readLine lines n = .failure f) :
    ∃ label k, Shape.IsRule label ∧ f = row.failureAt n label k := by
  rw [readLine_eq here] at fails
  split at fails
  next => cases fails
  next => exact ⟨_, _, Or.inl rfl, (Outcome.failure.inj fails).symm⟩
  next label rest refused =>
    exact ⟨label, _, Shape.isRule_of_refused refused, (Outcome.failure.inj fails).symm⟩

theorem Listing.mem_diagnostics {file : Option String} {tokens : List Token} {d : Diagnostic}
    (member : d ∈ (ofTokens file tokens).diagnostics) :
    ∃ n row f, (Line.split tokens)[n]? = some row ∧ readLine (Line.split tokens) n = .failure f ∧
      d = .ofFailure file f := by
  obtain ⟨f, failed, rfl⟩ := List.mem_map.1 member
  obtain ⟨outcome, read, failure⟩ := List.mem_filterMap.1 failed
  obtain ⟨⟨row, n⟩, numbered, rfl⟩ := List.mem_map.1 read
  have here := List.mem_zipIdx_iff_getElem?.1 (List.mem_filter.1 numbered).1
  cases outcome : readLine (Line.split tokens) n with
  | success i rest => simp [outcome, Outcome.failure?] at failure
  | failure g =>
    obtain rfl : g = f := by simpa [outcome, Outcome.failure?] using failure
    exact ⟨n, row, g, here, outcome, rfl⟩

end ArmAssembly
