import ArmAssembly.Parser.Cells
import ArmAssembly.Proofs.Answers
import ArmAssembly.Proofs.LineReading
import ArmAssembly.Proofs.Lines

/-!
Every line is accounted for. `Accounts` goes through the lines of a text in order: an empty
line leaves nothing, and any other leaves one instruction or one diagnostic. What a
diagnostic tells of is a place in its own line, because no failure is made outside the line
that was read, however the shapes had gone back and forth before it.
-/

namespace ArmAssembly

theorem Line.beforeBreak_of_unbroken {row : Line} (unbroken : .lineBreak ∉ row) :
    row.beforeBreak = row := by
  rw [beforeBreak, List.takeWhile_eq_self_iff]
  intro t member
  have other : t ≠ .lineBreak := fun ends => unbroken (ends ▸ member)
  simpa using other

theorem readLine_failure_inside {lines : List Line} {n : Nat} {row : Line} {f : Failure}
    (here : lines[n]? = some row) (fails : readLine lines n = .failure f) :
    f.pos.line = n ∧ f.PointsInto row.beforeBreak := by
  rw [readLine_eq here] at fails
  have at_place (label : String) (rest : List Token) :
      (row.failureAt n label (row.beforeBreak.length - rest.length)).pos.line = n ∧
        (row.failureAt n label (row.beforeBreak.length - rest.length)).PointsInto
          row.beforeBreak :=
    ⟨rfl, Line.pointsInto_failureAt (Nat.sub_le _ _) n label⟩
  split at fails
  next => cases fails
  next rest _ _ => exact Outcome.failure.inj fails ▸ at_place "End of Line" rest
  next label rest _ => exact Outcome.failure.inj fails ▸ at_place label rest

/-- An error in the line with index `n` that tells of one of its tokens or of its end. -/
structure Diagnostic.PointsInto (d : Diagnostic) (file : Option String) (n : Nat) (row : Line) :
    Prop where
  severity : d.severity = "error"
  file : d.file = file
  line : d.line = some ((n : Int) + 1)
  column : ∃ column : Nat, d.column = some (column : Int) ∧
    1 ≤ column ∧ column ≤ row.length + 1 ∧
    (d.message = "No more input" ↔ column = row.length + 1) ∧
    ∀ t, row[column - 1]? = some t → d.message = "Unexpected '" ++ t.text ++ "'"

theorem Reason.unexpected_ne_noMoreInput (text : String) :
    "Unexpected '" ++ text ++ "'" ≠ "No more input" := by
  intro same
  have first := congrArg (fun message : String => message.toList.head?) same
  simp at first

theorem Diagnostic.pointsInto_ofFailure {f : Failure} {row : Line} (file : Option String)
    (inside : f.PointsInto row) : (ofFailure file f).PointsInto file f.pos.line row where
  severity := rfl
  file := rfl
  line := rfl
  column := by
    have bound := inside.inside
    refine ⟨f.pos.token + 1, rfl, by omega, by omega, ?_, inside.message_before⟩
    constructor
    · intro ended
      by_contra before
      have within : f.pos.token < row.length := by omega
      have message := inside.message_before _ (List.getElem?_eq_getElem within)
      exact Reason.unexpected_ne_noMoreInput _ (message.symm.trans ended)
    · intro atEnd
      exact inside.message_at_end (by omega)

namespace Listing

/-- What the lines of a text from the one with index `n` on come to, one line after another:
    nothing for an empty line, and for any other either the instruction it is read as or a
    diagnostic of its own failure. -/
inductive Accounts (file : Option String) (text : List Line) :
    Nat → List Line → List Instruction → List Diagnostic → Prop where
  | done (n : Nat) : Accounts file text n [] [] []
  | blank {n : Nat} {below : List Line} {is : List Instruction} {ds : List Diagnostic}
      (rest : Accounts file text (n + 1) below is ds) : Accounts file text n ([] :: below) is ds
  | instruction {n : Nat} {row : Line} {below : List Line} {i : Instruction} {after : Cursor}
      {is : List Instruction} {ds : List Diagnostic} (written : row ≠ [])
      (taken : readLine text n = .success i after)
      (rest : Accounts file text (n + 1) below is ds) :
      Accounts file text n (row :: below) (i :: is) ds
  | diagnostic {n : Nat} {row : Line} {below : List Line} {f : Failure}
      {is : List Instruction} {ds : List Diagnostic} (written : row ≠ [])
      (refused : readLine text n = .failure f)
      (told : (Diagnostic.ofFailure file f).PointsInto file n row)
      (rest : Accounts file text (n + 1) below is ds) :
      Accounts file text n (row :: below) is (Diagnostic.ofFailure file f :: ds)

variable {file : Option String} {text below : List Line} {n : Nat} {is : List Instruction}
  {ds : List Diagnostic}

theorem Accounts.line_of_mem (accounts : Accounts file text n below is ds) {d : Diagnostic}
    (member : d ∈ ds) : ∃ m, n ≤ m ∧ d.line = some ((m : Int) + 1) := by
  induction accounts with
  | done n => cases member
  | blank rest ih | instruction written taken rest ih =>
    obtain ⟨m, further, line⟩ := ih member
    exact ⟨m, by omega, line⟩
  | diagnostic written refused told rest ih =>
    rcases List.mem_cons.1 member with rfl | later
    · exact ⟨_, Nat.le_refl _, told.line⟩
    · obtain ⟨m, further, line⟩ := ih later
      exact ⟨m, by omega, line⟩

theorem Accounts.lines_increase (accounts : Accounts file text n below is ds) :
    ds.Pairwise fun d e => ∃ k m : Int, d.line = some k ∧ e.line = some m ∧ k < m := by
  induction accounts with
  | done n => exact .nil
  | blank rest ih | instruction written taken rest ih => exact ih
  | diagnostic written refused told rest ih =>
    refine .cons ?_ ih
    intro e member
    obtain ⟨m, further, line⟩ := rest.line_of_mem member
    exact ⟨_, _, told.line, line, by omega⟩

theorem Accounts.count (accounts : Accounts file text n below is ds) :
    is.length + ds.length = (below.filter (!·.isEmpty)).length := by
  induction accounts with
  | done n => rfl
  | blank rest ih => exact ih
  | instruction written taken rest ih =>
    rw [List.filter_cons_of_pos (by simpa using written), List.length_cons, List.length_cons]
    omega
  | diagnostic written refused told rest ih =>
    rw [List.filter_cons_of_pos (by simpa using written), List.length_cons, List.length_cons]
    omega

def outcomesFrom (text : List Line) (n : Nat) (below : List Line) : List (Outcome Instruction) :=
  ((below.zipIdx n).filter fun entry => !entry.1.isEmpty).map fun entry => readLine text entry.2

theorem outcomesFrom_blank (text : List Line) (n : Nat) (below : List Line) :
    outcomesFrom text n ([] :: below) = outcomesFrom text (n + 1) below := rfl

theorem outcomesFrom_written (text : List Line) (n : Nat) {row : Line} (below : List Line)
    (written : row ≠ []) :
    outcomesFrom text n (row :: below) = readLine text n :: outcomesFrom text (n + 1) below := by
  simp [outcomesFrom, List.zipIdx_cons, written]

theorem accounts_ofOutcomes (file : Option String) {text : List Line}
    (unbroken : ∀ row ∈ text, .lineBreak ∉ row) (n : Nat) (below : List Line)
    (remaining : text.drop n = below) :
    Accounts file text n below (ofOutcomes file (outcomesFrom text n below)).instructions
      (ofOutcomes file (outcomesFrom text n below)).diagnostics := by
  induction below generalizing n with
  | nil => exact .done n
  | cons row below ih =>
    have here : text[n]? = some row := by
      rw [← List.head?_drop, remaining, List.head?_cons]
    have rest := ih (n + 1) (by rw [← List.tail_drop, remaining, List.tail_cons])
    by_cases written : row = []
    · subst written
      rw [outcomesFrom_blank]
      exact .blank rest
    · rw [outcomesFrom_written text n below written]
      cases outcome : readLine text n with
      | success i after => exact .instruction written outcome rest
      | failure f =>
        obtain ⟨rfl, inside⟩ := readLine_failure_inside here outcome
        rw [Line.beforeBreak_of_unbroken (unbroken row (List.mem_of_getElem? here))] at inside
        exact .diagnostic written outcome (Diagnostic.pointsInto_ofFailure file inside) rest

/-- No line is left out and none is told twice. Reading a line runs into no fault, each line that
    is not empty has its one result, and the diagnostics stand in the order of their lines. -/
theorem ofTokens_accounts (file : Option String) (tokens : List Token) :
    (∀ (callee : (e : Empty) → Cursor → Reply CellFault (Parser.NoCalls e)) (n : Nat),
        Shape.line.exec callee ⟨Line.split tokens, ⟨n, 0⟩⟩ =
          .ok (readLine (Line.split tokens) n)) ∧
      Accounts file (Line.split tokens) 0 (Line.split tokens)
        (ofTokens file tokens).instructions (ofTokens file tokens).diagnostics ∧
      (ofTokens file tokens).instructions.length + (ofTokens file tokens).diagnostics.length =
        ((Line.split tokens).filter (!·.isEmpty)).length ∧
      (ofTokens file tokens).diagnostics.Pairwise fun d e =>
        ∃ k m : Int, d.line = some k ∧ e.line = some m ∧ k < m := by
  have accounts : Accounts file (Line.split tokens) 0 (Line.split tokens)
      (ofTokens file tokens).instructions (ofTokens file tokens).diagnostics :=
    accounts_ofOutcomes file Line.not_break_of_mem_split 0 _ rfl
  exact ⟨fun callee n => Parser.exec_eq_run callee Shape.line _, accounts, accounts.count,
    accounts.lines_increase⟩

end Listing
end ArmAssembly
