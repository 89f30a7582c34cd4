import ArmAssembly.Line

/-!
Reading tokens line by line. A cursor is a position in fixed lines; after the last token
of a line it reads one line break and goes on to the next line, and after the last line
it reads nothing. `ahead` lists what is still to be read, and every reading is described
by it: `next?` takes its head, `readAll` returns all of it.
-/

namespace ArmAssembly

/-- Line and token, both counted from zero. -/
structure Position where
  line : Nat
  token : Nat
  deriving DecidableEq, Repr

namespace Position

def start : Position := ⟨0, 0⟩

def nextToken (p : Position) : Position := ⟨p.line, p.token + 1⟩

def nextLine (p : Position) : Position := ⟨p.line + 1, 0⟩

end Position

structure Cursor where
  lines : List Line
  pos : Position := .start
  deriving DecidableEq, Repr

namespace Cursor

def ofTokens (tokens : List Token) : Cursor := { lines := Line.split tokens }

/-- The line at the cursor; below the last line there is only the end of the input. -/
def currentLine (c : Cursor) : Line := c.lines[c.pos.line]?.getD [.endOfInput]

def next? (c : Cursor) : Option (Token × Cursor) :=
  match c.lines[c.pos.line]? with
  | none => none
  | some current =>
    match current[c.pos.token]? with
    | some t => some (t, { c with pos := c.pos.nextToken })
    | none => some (.lineBreak, { c with pos := c.pos.nextLine })

/-- All that is still to be read: the rest of the line, then the lines below, each with
    its line break. -/
def ahead (c : Cursor) : List Token :=
  match c.lines.drop c.pos.line with
  | [] => []
  | line :: below => line.drop c.pos.token ++ .lineBreak :: below.flatMap (· ++ [.lineBreak])

theorem ahead_of_no_next {c : Cursor} (stuck : c.next? = none) : c.ahead = [] := by
  unfold next? at stuck
  split at stuck
  next missing =>
    rw [ahead, List.drop_eq_nil_of_le (List.getElem?_eq_none_iff.1 missing)]
  next =>
    split at stuck <;> simp at stuck

theorem ahead_of_next {c d : Cursor} {t : Token} (step : c.next? = some (t, d)) :
    c.ahead = t :: d.ahead := by
  unfold next? at step
  split at step
  next => simp at step
  next current found =>
    obtain ⟨inside, here⟩ := List.getElem?_eq_some_iff.1 found
    have tail := List.drop_eq_getElem_cons inside
    rw [here] at tail
    split at step
    next u at_token =>
      obtain ⟨rfl, rfl⟩ := by simpa using step
      obtain ⟨within, there⟩ := List.getElem?_eq_some_iff.1 at_token
      have rest := List.drop_eq_getElem_cons within
      rw [there] at rest
      simp only [ahead, tail, rest, Position.nextToken, List.cons_append]
    next past =>
      obtain ⟨rfl, rfl⟩ := by simpa using step
      have nothing : current.drop c.pos.token = [] :=
        List.drop_eq_nil_of_le (List.getElem?_eq_none_iff.1 past)
      simp only [ahead, tail, nothing, Position.nextLine, List.nil_append]
      cases c.lines.drop (c.pos.line + 1) with
      | nil => simp
      | cons first below => simp

theorem ahead_shrinks {c d : Cursor} {t : Token} (step : c.next? = some (t, d)) :
    d.ahead.length < c.ahead.length := by
  simp [ahead_of_next step]

def readAll (c : Cursor) : List Token :=
  match _step : c.next? with
  | none => []
  | some (t, d) => t :: d.readAll
termination_by c.ahead.length
decreasing_by exact ahead_shrinks ‹_›

theorem readAll_eq_ahead (c : Cursor) : c.readAll = c.ahead := by
  fun_induction readAll c with
  | case1 c stuck => exact (ahead_of_no_next stuck).symm
  | case2 c t d step ih => rw [ih, ahead_of_next step]

def read : Nat → Cursor → List Token
  | 0, _ => []
  | n + 1, c =>
    match c.next? with
    | none => []
    | some (t, d) => t :: read n d

theorem read_eq_take (n : Nat) (c : Cursor) : c.read n = c.ahead.take n := by
  induction n generalizing c with
  | zero => rfl
  | succ n ih =>
    unfold read
    split
    next stuck => simp [ahead_of_no_next stuck]
    next t d step => simp [ahead_of_next step, ih]

end Cursor
end ArmAssembly
