import ArmAssembly.Proofs.Accounts
import ArmAssembly.Proofs.Discipline

/-!
A text read in one go. Repeating the parser of a line lets the cursor flow from line to line,
where a listing starts anew at each; the two agree as far as every line holds an
instruction, because a line that does takes its own tokens and one break. An empty line or
one that fails ends the repetition, and what was read of it is given back.
-/

namespace ArmAssembly

namespace Parser

variable {α : Type}

theorem run_many (p : Parser NoCalls α) (c : Cursor) :
    (many p).run c =
      match p.run c with
      | .failure _ => .success [] c
      | .success x rest =>
        if rest = c then .success [x] c
        else
          match (many p).run rest with
          | .success xs last => .success (x :: xs) last
          | .failure f => .failure f := by
  have rounds := (follows_parse p).runMany_eq c
  have whole (c : Cursor) :
      runMany (p.exec (ε := Empty) fun e => e.elim) c = .ok ((many p).run c) :=
    exec_eq_run _ (many p) c
  rw [whole, exec_eq_run] at rounds
  cases first : p.run c with
  | failure f => simpa [first] using rounds
  | success x rest =>
    simp only [first, whole] at rounds
    split at rounds
    next stays => simpa [stays] using rounds
    next moves =>
      simp only [moves, ↓reduceIte]
      cases tail : (many p).run rest <;> simpa [tail] using rounds

theorem run_many_failure {p : Parser NoCalls α} {c : Cursor} {f : Failure}
    (fails : p.run c = .failure f) : (many p).run c = .success [] c := by
  rw [run_many, fails]

theorem run_many_success {p : Parser NoCalls α} {c rest last : Cursor} {x : α} {xs : List α}
    (succeeds : p.run c = .success x rest) (moves : rest ≠ c)
    (further : (many p).run rest = .success xs last) :
    (many p).run c = .success (x :: xs) last := by
  rw [run_many, succeeds]
  simp only [if_neg moves, further]

end Parser

theorem Line.after_of_unbroken {row : Line} (unbroken : .lineBreak ∉ row) (n : Nat) :
    row.after n = ⟨n + 1, 0⟩ := by
  rw [after, if_pos (beforeBreak_of_unbroken unbroken)]

theorem readLine_rest {text : List Line} {n : Nat} {row : Line} {i : Instruction} {rest : Cursor}
    (here : text[n]? = some row) (succeeds : readLine text n = .success i rest) :
    rest = ⟨text, row.after n⟩ := by
  rw [readLine_eq here] at succeeds
  split at succeeds
  next => exact (Outcome.success.inj succeeds).2.symm
  next => cases succeeds
  next => cases succeeds

theorem readLine_of_length_le {text : List Line} {n : Nat} (below : text.length ≤ n) :
    ∃ f, readLine text n = .failure f := by
  have nothing : Cursor.ahead ⟨text, ⟨n, 0⟩⟩ = [] := by
    rw [Cursor.ahead, List.drop_eq_nil_of_le below]
  rw [readLine, Parser.run_eq_parse, nothing]
  exact ⟨_, rfl⟩

theorem readLine_of_empty {text : List Line} {n : Nat} (here : text[n]? = some []) :
    ∃ f, readLine text n = .failure f := by
  rw [readLine_eq here]
  exact ⟨_, rfl⟩

namespace Listing

open ArmAssembly.Parser

def holdsInstruction (text : List Line) (entry : Line × Nat) : Bool :=
  !entry.1.isEmpty && (readLine text entry.2).value?.isSome

/-- How many lines in front hold an instruction, up to the first that is empty or fails. -/
def leadingLines (text : List Line) : Nat :=
  (text.zipIdx.takeWhile (holdsInstruction text)).length

/-- A repetition that starts at a line takes the instructions from there on, up to a line that
    holds none. -/
theorem run_many_line {text : List Line} (unbroken : ∀ row ∈ text, .lineBreak ∉ row) (n : Nat)
    (below : List Line) (remaining : text.drop n = below) {k : Nat}
    (leading : ((below.zipIdx n).takeWhile (holdsInstruction text)).length = k) :
    (many Shape.line).run ⟨text, ⟨n, 0⟩⟩ =
      .success (((outcomesFrom text n below).filterMap Outcome.value?).take k)
        ⟨text, ⟨n + k, 0⟩⟩ := by
  induction below generalizing n k with
  | nil =>
    obtain rfl : 0 = k := leading
    obtain ⟨f, fails⟩ := readLine_of_length_le (List.drop_eq_nil_iff.1 remaining)
    exact run_many_failure fails
  | cons row below ih =>
    have here : text[n]? = some row := by
      rw [← List.head?_drop, remaining, List.head?_cons]
    rw [List.zipIdx_cons, List.takeWhile_cons] at leading
    cases outcome : readLine text n with
    | failure f =>
      obtain rfl : 0 = k := by simpa [holdsInstruction, outcome, Outcome.value?] using leading
      rw [run_many_failure outcome, List.take_zero, Nat.add_zero]
    | success i after =>
      have written : row ≠ [] := by
        rintro rfl
        obtain ⟨f, fails⟩ := readLine_of_empty here
        cases outcome.symm.trans fails
      obtain rfl : after = ⟨text, ⟨n + 1, 0⟩⟩ := by
        rw [readLine_rest here outcome,
          Line.after_of_unbroken (unbroken row (List.mem_of_getElem? here))]
      have holds : holdsInstruction text (row, n) = true := by
        simp [holdsInstruction, outcome, Outcome.value?, written]
      rw [if_pos holds, List.length_cons] at leading
      obtain rfl := leading
      have further := ih (n + 1) (by rw [← List.tail_drop, remaining, List.tail_cons]) rfl
      have moves : (⟨text, ⟨n + 1, 0⟩⟩ : Cursor) ≠ ⟨text, ⟨n, 0⟩⟩ := by simp
      rw [run_many_success outcome moves further, outcomesFrom_written text n below written,
        outcome, Nat.add_right_comm, Nat.add_assoc]
      rfl

theorem leadingLines_of_correct {file : Option String} {tokens : List Token}
    (written : ∀ row ∈ Line.split tokens, row ≠ [])
    (correct : (ofTokens file tokens).diagnostics = []) :
    leadingLines (Line.split tokens) = (Line.split tokens).length := by
  have succeeds : ∀ o ∈ readLines (Line.split tokens), o.failure? = none := by
    have none := List.map_eq_nil_iff.1 correct
    simpa [List.filterMap_eq_nil_iff] using none
  have all : (Line.split tokens).zipIdx.takeWhile (holdsInstruction (Line.split tokens)) =
      (Line.split tokens).zipIdx := by
    rw [List.takeWhile_eq_self_iff]
    intro entry member
    have filled : entry.1 ≠ [] := written _ (List.fst_mem_of_mem_zipIdx member)
    have read := succeeds (readLine (Line.split tokens) entry.2) (by
      refine List.mem_map.2 ⟨entry, List.mem_filter.2 ⟨member, ?_⟩, rfl⟩
      simpa using filled)
    cases outcome : readLine (Line.split tokens) entry.2 with
    | failure f => simp [outcome, Outcome.failure?] at read
    | success i rest => simp [holdsInstruction, outcome, Outcome.value?, filled]
  rw [leadingLines, all, List.length_zipIdx]

/-- Repeating the parser of a line comes to the instructions of the leading lines of the listing
    and stands at the start of the line behind them; if every line holds an instruction, these
    are all instructions of the listing. -/
theorem many_line_agrees (file : Option String) (tokens : List Token) :
    (many Shape.line).run (Cursor.ofTokens tokens) =
        .success ((ofTokens file tokens).instructions.take (leadingLines (Line.split tokens)))
          ⟨Line.split tokens, ⟨leadingLines (Line.split tokens), 0⟩⟩ ∧
      ((∀ row ∈ Line.split tokens, row ≠ []) → (ofTokens file tokens).diagnostics = [] →
        (many Shape.line).run (Cursor.ofTokens tokens) =
          .success (ofTokens file tokens).instructions
            ⟨Line.split tokens, ⟨(Line.split tokens).length, 0⟩⟩) := by
  have flows : (many Shape.line).run (Cursor.ofTokens tokens) =
      .success ((ofTokens file tokens).instructions.take (leadingLines (Line.split tokens)))
        ⟨Line.split tokens, ⟨leadingLines (Line.split tokens), 0⟩⟩ := by
    have whole := run_many_line Line.not_break_of_mem_split 0 (Line.split tokens) rfl rfl
    rwa [Nat.zero_add] at whole
  refine ⟨flows, fun written correct => ?_⟩
  have few : (ofTokens file tokens).instructions.length ≤ (Line.split tokens).length := by
    have counted :=
      (accounts_ofOutcomes file Line.not_break_of_mem_split 0 (Line.split tokens) rfl).count
    have filled := List.length_filter_le (!·.isEmpty) (Line.split tokens)
    exact Nat.le_trans (Nat.le_of_add_right_le (Nat.le_of_eq counted)) filled
  rw [flows, leadingLines_of_correct written correct, List.take_of_length_le few]

/-- `bl #1` and `bl #-2`, once in two lines and once with an empty line between them -/
theorem many_line_agrees_branches :
    (∀ row ∈ Line.split [.opcode .bl, .literal 1, .lineBreak, .opcode .bl, .literal (-2)],
        row ≠ []) ∧
      (ofTokens none
        [.opcode .bl, .literal 1, .lineBreak, .opcode .bl, .literal (-2)]).diagnostics = [] ∧
      (many Shape.line).run
          (Cursor.ofTokens [.opcode .bl, .literal 1, .lineBreak, .opcode .bl, .literal (-2)]) =
        .success [.branchLink none 1, .branchLink none (-2)]
          ⟨[[.opcode .bl, .literal 1], [.opcode .bl, .literal (-2)]], ⟨2, 0⟩⟩ ∧
      (many Shape.line).run (Cursor.ofTokens
          [.opcode .bl, .literal 1, .lineBreak, .lineBreak, .opcode .bl, .literal (-2)]) =
        .success [.branchLink none 1]
          ⟨[[.opcode .bl, .literal 1], [], [.opcode .bl, .literal (-2)]], ⟨1, 0⟩⟩ := by
  have written : ∀ row ∈
      Line.split [.opcode .bl, .literal 1, .lineBreak, .opcode .bl, .literal (-2)], row ≠ [] := by
    decide
  exact ⟨written, rfl, (many_line_agrees none _).2 written rfl, (many_line_agrees none _).1⟩

end Listing
end ArmAssembly
