import ArmAssembly.Proofs.Ahead

/-!
What every parser does with the cursor. A success leaves it some tokens further on, and
a failure tells of one place that was reached: position, line and reason belong together,
however the parser is built and however its calls are nested. Repetition therefore ends
exactly when the cursor has not moved.
-/

namespace ArmAssembly

def Position.AtOrBefore (p q : Position) : Prop :=
  p.line < q.line ∨ p.line = q.line ∧ p.token ≤ q.token

namespace Cursor

theorem lines_advance (c : Cursor) : c.advance.lines = c.lines := by
  unfold advance next?
  split
  next => rfl
  next step =>
    split at step
    · cases step
    · split at step <;> (obtain ⟨_, rfl⟩ := Prod.mk.inj (Option.some.inj step); rfl)

theorem pos_advance (c : Cursor) : c.pos.AtOrBefore c.advance.pos := by
  unfold advance next?
  split
  next => exact Or.inr ⟨rfl, Nat.le_refl _⟩
  next step =>
    split at step
    · cases step
    · split at step
      · obtain ⟨_, rfl⟩ := Prod.mk.inj (Option.some.inj step)
        exact Or.inr ⟨rfl, Nat.le_succ _⟩
      · obtain ⟨_, rfl⟩ := Prod.mk.inj (Option.some.inj step)
        exact Or.inl (Nat.lt_succ_self _)

theorem lines_advance_iterate (k : Nat) (c : Cursor) : (advance^[k] c).lines = c.lines := by
  induction k with
  | zero => rfl
  | succ k ih => rw [Function.iterate_succ_apply', lines_advance, ih]

theorem pos_advance_iterate (k : Nat) (c : Cursor) : c.pos.AtOrBefore (advance^[k] c).pos := by
  induction k with
  | zero => exact Or.inr ⟨rfl, Nat.le_refl _⟩
  | succ k ih =>
    have step := pos_advance (advance^[k] c)
    rw [Function.iterate_succ_apply']
    unfold Position.AtOrBefore at *
    omega

def complaint (c : Cursor) : String :=
  match c.next? with
  | none => "No more input"
  | some (.lineBreak, _) => "No more input"
  | some (t, _) => "Unexpected '" ++ t.text ++ "'"

theorem message_refusal (c : Cursor) : c.refusal.message = c.complaint := by
  unfold refusal complaint
  cases c.next? with
  | none => rfl
  | some read =>
    obtain ⟨t, d⟩ := read
    cases t <;> rfl

theorem advance_iterate_shrinks_iff (k : Nat) (c : Cursor) :
    (advance^[k] c).ahead.length < c.ahead.length ↔ advance^[k] c ≠ c := by
  constructor
  · intro less same
    rw [same] at less
    exact Nat.lt_irrefl _ less
  · intro moved
    by_contra stays
    rw [ahead_advance_iterate, List.length_drop] at stays
    cases k with
    | zero => exact moved rfl
    | succ k =>
      have stuck : c.next? = none := by
        rw [next?_eq_none_iff, ← List.length_eq_zero_iff]
        omega
      have fixed : advance c = c := by simp [advance, stuck]
      exact moved (Function.iterate_fixed fixed _)

end Cursor

variable {α : Type}

/-- What an outcome may say of a run that started at the cursor. -/
def Outcome.Disciplined (c : Cursor) : Outcome α → Prop
  | .success _ rest =>
    (∃ k, rest = Cursor.advance^[k] c) ∧ rest.lines = c.lines ∧ c.pos.AtOrBefore rest.pos
  | .failure f =>
    ∃ k, f.line = (Cursor.advance^[k] c).currentLine ∧ f.pos = (Cursor.advance^[k] c).pos ∧
      f.reason.message = (Cursor.advance^[k] c).complaint

theorem Scan.disciplined_outcomeFrom (s : Scan α) (c : Cursor) :
    (s.outcomeFrom c).Disciplined c := by
  cases s with
  | taken x rest =>
    exact ⟨⟨_, rfl⟩, Cursor.lines_advance_iterate _ c, Cursor.pos_advance_iterate _ c⟩
  | refused label rest => exact ⟨_, rfl, rfl, Cursor.message_refusal _⟩

namespace Parser

variable {ε : Type} {run : Cursor → Reply ε α} {scan : List Token → Except ε (Scan α)}

theorem Follows.disciplined (follows : Follows run scan) {c : Cursor} {o : Outcome α}
    (returns : run c = .ok o) : o.Disciplined c := by
  rw [follows.agrees] at returns
  cases reply : scan c.ahead with
  | error e => simp [reply, Except.map] at returns
  | ok s =>
    simp only [reply, Except.map, Except.ok.injEq] at returns
    exact returns ▸ s.disciplined_outcomeFrom c

theorem Follows.shrinks (follows : Follows run scan) {c rest : Cursor} {x : α}
    (succeeds : run c = .ok (.success x rest)) (moves : rest ≠ c) :
    rest.ahead.length < c.ahead.length := by
  obtain ⟨⟨k, rfl⟩, _⟩ := follows.disciplined succeeds
  exact (Cursor.advance_iterate_shrinks_iff k c).2 moves

theorem Follows.runMany_eq (follows : Follows run scan) (c : Cursor) :
    runMany run c =
      match run c with
      | .error e => .error e
      | .ok (.failure _) => .ok (.success [] c)
      | .ok (.success x rest) =>
        if rest = c then .ok (.success [x] c)
        else
          match runMany run rest with
          | .ok (.success xs last) => .ok (.success (x :: xs) last)
          | reply => reply := by
  rw [runMany]
  cases reply : run c with
  | error e => rfl
  | ok o =>
    cases o with
    | failure f => rfl
    | success x rest =>
      obtain ⟨⟨k, rfl⟩, _⟩ := follows.disciplined reply
      simp only [Cursor.advance_iterate_shrinks_iff]
      by_cases stays : Cursor.advance^[k] c = c
      · simp [stays]
      · rw [if_neg stays, if_pos stays]
        cases runMany run (Cursor.advance^[k] c) with
        | error e => rfl
        | ok later => cases later <;> rfl

theorem run_disciplined (p : Parser NoCalls α) (c : Cursor) : (p.run c).Disciplined c := by
  rw [run_eq_parse]
  exact (p.parse c.ahead).disciplined_outcomeFrom c

end Parser

theorem Cells.run_disciplined {γ : Nat → Type} (cells : Cells γ) (p : Parser γ α) (c : Cursor)
    (o : Outcome α) (returns : cells.run p c = .ok o) : o.Disciplined c :=
  (cells.exec_follows_scan (cells.depthAt c) p).disciplined returns

/-- Every parser keeps to the cursor, whatever the cells hold that it calls and however deep
    the calls go: `Cells.run` is the case of the depth that is always enough. -/
theorem Cells.exec_disciplined {γ : Nat → Type} (cells : Cells γ) (depth : Nat) (p : Parser γ α)
    (c : Cursor) (o : Outcome α) (returns : p.exec (cells.delegate depth) c = .ok o) :
    o.Disciplined c :=
  (cells.exec_follows_scan depth p).disciplined returns

def Cells.commas : Cells fun _ => Token where
  created := 1
  filled := [⟨0, .orElse (.keepSecond (.token .comma) (.call "commas" 0)) (.token .flags)⟩]

theorem Cells.commas_disciplined :
    (Parser.call "commas" 0).exec (commas.delegate 3) ⟨[[.comma, .comma, .flags]], .start⟩ =
        .ok (.success .flags ⟨[[.comma, .comma, .flags]], ⟨0, 3⟩⟩) ∧
      (Outcome.success Token.flags ⟨[[.comma, .comma, .flags]], ⟨0, 3⟩⟩).Disciplined
        ⟨[[.comma, .comma, .flags]], .start⟩ :=
  ⟨rfl, exec_disciplined commas 3 (.call "commas" 0) _ _ rfl⟩

end ArmAssembly
