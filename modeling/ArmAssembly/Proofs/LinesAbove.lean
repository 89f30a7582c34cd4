import ArmAssembly.Proofs.CellRuns
import ArmAssembly.Proofs.ListingAppend

/-!
Lines put in front of a text. Only what is ahead of a cursor is ever read, and a line above it
is not ahead. So lines put in front decide nothing: a run comes to the same value or to the
same failure, and every line number in it counts the new lines too.
-/

namespace ArmAssembly

namespace Cursor

/-- The cursor at the same token, with more lines in front of the text. -/
def under (above : List Line) (c : Cursor) : Cursor where
  lines := above ++ c.lines
  pos := ⟨c.pos.line + above.length, c.pos.token⟩

variable (above : List Line) (c : Cursor)

theorem getElem?_under (k : Nat) : (above ++ c.lines)[k + above.length]? = c.lines[k]? := by
  rw [List.getElem?_append_right (Nat.le_add_left _ _), Nat.add_sub_cancel]

theorem currentLine_under : (c.under above).currentLine = c.currentLine := by
  simp only [currentLine, under, getElem?_under]

theorem next?_under :
    (c.under above).next? = c.next?.map fun step => (step.1, step.2.under above) := by
  simp only [next?, under, getElem?_under]
  cases c.lines[c.pos.line]? with
  | none => rfl
  | some row =>
    simp only
    cases row[c.pos.token]? with
    | some t => rfl
    | none => simp [Position.nextLine, Nat.add_right_comm]

theorem ahead_under : (c.under above).ahead = c.ahead := by
  have below : (above ++ c.lines).drop (c.pos.line + above.length) = c.lines.drop c.pos.line := by
    rw [Nat.add_comm, List.drop_length_add_append]
  simp only [ahead, under, below]

theorem refusal_under : (c.under above).refusal = c.refusal := by
  rw [refusal, refusal, next?_under]
  cases c.next? <;> rfl

theorem advance_under : (c.under above).advance = c.advance.under above := by
  rw [advance, advance, next?_under]
  cases c.next? <;> rfl

theorem downTo_under (rest : List Token) :
    (c.under above).downTo rest = (c.downTo rest).under above := by
  have steps : Function.Semiconj (under above) advance advance := fun d =>
    (advance_under above d).symm
  rw [downTo, downTo, ahead_under, steps.iterate_right]

end Cursor

variable {α : Type}

def Outcome.under (above : List Line) : Outcome α → Outcome α
  | success x rest => success x (rest.under above)
  | failure f => failure (f.lower above.length)

theorem Scan.outcomeFrom_under (s : Scan α) (above : List Line) (c : Cursor) :
    s.outcomeFrom (c.under above) = (s.outcomeFrom c).under above := by
  cases s with
  | taken x rest => simp only [outcomeFrom, Outcome.under, Cursor.downTo_under]
  | refused label rest =>
    simp only [outcomeFrom, Outcome.under, Cursor.downTo_under, Cursor.refusal_under,
      Failure.atCursor, Cursor.currentLine_under]
    rfl

theorem Parser.Follows.under {ε : Type} {run : Cursor → Reply ε α}
    {scan : List Token → Except ε (Scan α)} (follows : Follows run scan) (above : List Line)
    (c : Cursor) : run (c.under above) = (run c).map (Outcome.under above) := by
  rw [follows.agrees, follows.agrees, Cursor.ahead_under]
  cases scan c.ahead with
  | error e => rfl
  | ok s => simp only [Except.map, s.outcomeFrom_under]

namespace Cells

variable {γ : Nat → Type} (cells : Cells γ)

theorem exec_under (depth : Nat) (p : Parser γ α) (above : List Line) (c : Cursor) :
    p.exec (cells.delegate depth) (c.under above) =
      (p.exec (cells.delegate depth) c).map (Outcome.under above) :=
  (cells.exec_follows_scan depth p).under above c

theorem depthAt_under (above : List Line) (c : Cursor) :
    cells.depthAt (c.under above) = cells.depthAt c := by
  rw [depthAt, depthAt, Cursor.ahead_under]

/-- Where in a file a text stands makes no difference to what is read in it, whatever is called
    and however deep: also an empty cell or an endless recursion is come to in both places or
    in neither. -/
theorem run_under (p : Parser γ α) (above lines : List Line) (l t : Nat) :
    cells.run p ⟨above ++ lines, ⟨l + above.length, t⟩⟩ =
        (cells.run p ⟨lines, ⟨l, t⟩⟩).map (Outcome.under above) ∧
      ∀ depth, p.exec (cells.delegate depth) ⟨above ++ lines, ⟨l + above.length, t⟩⟩ =
        (p.exec (cells.delegate depth) ⟨lines, ⟨l, t⟩⟩).map (Outcome.under above) := by
  have moved (depth : Nat) := cells.exec_under depth p above ⟨lines, ⟨l, t⟩⟩
  have run := moved (cells.depthAt ⟨lines, ⟨l, t⟩⟩)
  rw [← cells.depthAt_under above, exec_depthAt, cells.depthAt_under above, exec_depthAt] at run
  exact ⟨run, moved⟩

end Cells
end ArmAssembly
