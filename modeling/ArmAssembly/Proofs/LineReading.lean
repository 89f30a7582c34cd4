import ArmAssembly.Listing
import ArmAssembly.Proofs.InstructionReading
import Mathlib.Data.List.TakeWhile
import Mathlib.Order.Bounds.Basic

/-!
Reading one line of many. A line counts as far as its first break, and what is read there
depends on nothing else: neither on the lines around it nor on its number, which only
moves the position. A line is taken exactly when it spells an instruction; any other is
refused at the token where it stops being the beginning of a spelling, or behind the
longest spelling in front.
-/

namespace ArmAssembly

namespace Line

def beforeBreak (line : Line) : Line := line.takeWhile (· ≠ .lineBreak)

def after (line : Line) (n : Nat) : Position :=
  if line.beforeBreak = line then ⟨n + 1, 0⟩ else ⟨n, line.beforeBreak.length + 1⟩

/-- The failure to go on behind the first `k` tokens of the line with number `n`. -/
def failureAt (row : Line) (n : Nat) (label : String) (k : Nat) : Failure where
  label := label
  reason := (row[k]?.map Reason.ofToken).getD .noMoreInput
  line := row
  pos := ⟨n, k⟩

theorem beforeBreak_cons_of_ne {t : Token} (line : Line) (inside : t ≠ .lineBreak) :
    beforeBreak (t :: line) = t :: line.beforeBreak := by
  simp [beforeBreak, inside]

theorem not_break_of_mem_beforeBreak {line : Line} {t : Token} (member : t ∈ line.beforeBreak) :
    t ≠ .lineBreak := by
  simpa using List.mem_takeWhile_imp member

theorem beforeBreak_cases (line : Line) :
    line.beforeBreak = line ∨ ∃ more, line = line.beforeBreak ++ .lineBreak :: more := by
  induction line with
  | nil => exact Or.inl rfl
  | cons t line ih =>
    by_cases ends : t = .lineBreak
    · subst ends
      exact Or.inr ⟨line, rfl⟩
    · rw [beforeBreak_cons_of_ne line ends]
      rcases ih with whole | ⟨more, cut⟩
      · exact Or.inl (by rw [whole])
      · exact Or.inr ⟨more, by rw [List.cons_append, ← cut]⟩

theorem length_beforeBreak_le (line : Line) : line.beforeBreak.length ≤ line.length :=
  (List.takeWhile_prefix _).length_le

theorem getElem?_beforeBreak {row : Line} {k : Nat} (inside : k < row.beforeBreak.length) :
    row[k]? = row.beforeBreak[k]? := by
  rcases beforeBreak_cases row with whole | ⟨more, cut⟩
  · rw [whole]
  · calc
      row[k]? = (row.beforeBreak ++ .lineBreak :: more)[k]? := by rw [← cut]
      _ = row.beforeBreak[k]? := List.getElem?_append_left inside

theorem getElem?_length_beforeBreak (row : Line) :
    row[row.beforeBreak.length]? = if row.beforeBreak = row then none else some .lineBreak := by
  split
  next whole => rw [whole]; simp
  next partly =>
    obtain ⟨more, cut⟩ := (beforeBreak_cases row).resolve_left partly
    calc
      row[row.beforeBreak.length]? =
          (row.beforeBreak ++ .lineBreak :: more)[row.beforeBreak.length]? := by rw [← cut]
      _ = some .lineBreak := by simp

end Line

namespace Cursor

variable {lines : List Line} {n k : Nat} {line row : Line}

theorem next?_of_line (here : lines[n]? = some row) :
    next? ⟨lines, ⟨n, k⟩⟩ =
      match row[k]? with
      | some t => some (t, ⟨lines, ⟨n, k + 1⟩⟩)
      | none => some (.lineBreak, ⟨lines, ⟨n + 1, 0⟩⟩) := by
  cases found : row[k]? <;>
    simp [next?, here, found, Position.nextToken, Position.nextLine]

theorem advance_within (here : lines[n]? = some line) (inside : k < line.length) :
    advance ⟨lines, ⟨n, k⟩⟩ = ⟨lines, ⟨n, k + 1⟩⟩ := by
  simp [advance, next?_of_line here, List.getElem?_eq_getElem inside]

theorem advance_iterate_within (here : lines[n]? = some line) (inside : k ≤ line.length) :
    advance^[k] ⟨lines, ⟨n, 0⟩⟩ = ⟨lines, ⟨n, k⟩⟩ := by
  induction k with
  | zero => rfl
  | succ k ih =>
    rw [Function.iterate_succ_apply', ih (by omega)]
    exact advance_within here (by omega)

theorem advance_beforeBreak (here : lines[n]? = some line) :
    advance ⟨lines, ⟨n, line.beforeBreak.length⟩⟩ = ⟨lines, line.after n⟩ := by
  simp only [advance, next?_of_line here, Line.getElem?_length_beforeBreak, Line.after]
  by_cases whole : line.beforeBreak = line
  · simp [whole]
  · simp [whole]

theorem ahead_of_line (here : lines[n]? = some line) :
    ∃ below, ahead ⟨lines, ⟨n, 0⟩⟩ = line.beforeBreak ++ .lineBreak :: below := by
  obtain ⟨inside, found⟩ := List.getElem?_eq_some_iff.1 here
  obtain ⟨others, whole⟩ : ∃ others, ahead ⟨lines, ⟨n, 0⟩⟩ = line ++ .lineBreak :: others := by
    simp only [ahead, List.drop_eq_getElem_cons inside, found, List.drop_zero]
    exact ⟨_, rfl⟩
  rcases line.beforeBreak_cases with unbroken | ⟨more, cut⟩
  · exact ⟨others, by rw [whole, unbroken]⟩
  · refine ⟨more ++ .lineBreak :: others, ?_⟩
    calc
      ahead ⟨lines, ⟨n, 0⟩⟩ = line ++ .lineBreak :: others := whole
      _ = line.beforeBreak ++ .lineBreak :: more ++ .lineBreak :: others := by rw [← cut]
      _ = line.beforeBreak ++ .lineBreak :: (more ++ .lineBreak :: others) := by simp

theorem downTo_within (here : lines[n]? = some line) {below : List Token}
    (cut : ahead ⟨lines, ⟨n, 0⟩⟩ = line.beforeBreak ++ .lineBreak :: below) {rest : List Token}
    (shorter : rest.length ≤ line.beforeBreak.length) :
    downTo ⟨lines, ⟨n, 0⟩⟩ (rest ++ .lineBreak :: below) =
      ⟨lines, ⟨n, line.beforeBreak.length - rest.length⟩⟩ := by
  have inside := line.length_beforeBreak_le
  have steps : (line.beforeBreak ++ .lineBreak :: below).length
      - (rest ++ .lineBreak :: below).length = line.beforeBreak.length - rest.length := by
    simp only [List.length_append, List.length_cons]
    omega
  rw [downTo, cut, steps]
  exact advance_iterate_within here (by omega)

theorem downTo_past (here : lines[n]? = some line) {below : List Token}
    (cut : ahead ⟨lines, ⟨n, 0⟩⟩ = line.beforeBreak ++ .lineBreak :: below) :
    downTo ⟨lines, ⟨n, 0⟩⟩ below = ⟨lines, line.after n⟩ := by
  have steps : (line.beforeBreak ++ .lineBreak :: below).length - below.length =
      line.beforeBreak.length + 1 := by
    simp only [List.length_append, List.length_cons]
    omega
  rw [downTo, cut, steps, Function.iterate_succ_apply',
    advance_iterate_within here line.length_beforeBreak_le]
  exact advance_beforeBreak here

theorem atCursor_within (here : lines[n]? = some row) (label : String) :
    Failure.atCursor label (refusal ⟨lines, ⟨n, k⟩⟩) ⟨lines, ⟨n, k⟩⟩ =
      row.failureAt n label k := by
  have reason : refusal ⟨lines, ⟨n, k⟩⟩ = (row[k]?.map Reason.ofToken).getD .noMoreInput := by
    rw [refusal, next?_of_line here]
    cases row[k]? <;> rfl
  simp only [Failure.atCursor, Line.failureAt, reason, currentLine, here, Option.getD_some]

end Cursor

namespace Shape

open ArmAssembly.Parser

theorem parse_line_append_break {w : List Token} (unbroken : ∀ t ∈ w, t ≠ .lineBreak)
    (below : List Token) :
    line.parse (w ++ .lineBreak :: below) =
      match instruction.parse w with
      | .taken i [] => .taken i below
      | .taken _ rest => .refused "End of Line" (rest ++ .lineBreak :: below)
      | .refused label rest => .refused label (rest ++ .lineBreak :: below) := by
  rw [line, wholeLine, parse_bind, parse_append_break inline_instruction]
  cases first : instruction.parse w with
  | refused label rest => rfl
  | taken i rest =>
    cases rest with
    | nil => rfl
    | cons t rest =>
      obtain ⟨u, cut⟩ := parse_suffix first
      have other : t ≠ .lineBreak := unbroken t (by simp [cut, Scan.rest])
      simp [Scan.append, yielding, parse_map, endOfLine, Parser.satisfying, parse_accept,
        scanAccept, other]

end Shape

/-- What is read in a line depends on the line alone. -/
theorem readLine_eq {lines : List Line} {n : Nat} {line : Line} (here : lines[n]? = some line) :
    readLine lines n =
      match Shape.instruction.parse line.beforeBreak with
      | .taken i [] => .success i ⟨lines, line.after n⟩
      | .taken _ rest =>
        .failure (line.failureAt n "End of Line" (line.beforeBreak.length - rest.length))
      | .refused label rest =>
        .failure (line.failureAt n label (line.beforeBreak.length - rest.length)) := by
  obtain ⟨below, cut⟩ := Cursor.ahead_of_line here
  have unbroken : ∀ t ∈ line.beforeBreak, t ≠ .lineBreak :=
    fun _ => Line.not_break_of_mem_beforeBreak
  rw [readLine, Parser.run_eq_parse, cut, Shape.parse_line_append_break unbroken]
  have behind := (Parser.parse_behind Shape.instruction line.beforeBreak).length_le
  cases first : Shape.instruction.parse line.beforeBreak with
  | refused label rest =>
    rw [first, Scan.rest] at behind
    simp only [Scan.outcomeFrom, Cursor.downTo_within here cut behind,
      Cursor.atCursor_within here]
  | taken i rest =>
    rw [first, Scan.rest] at behind
    cases rest with
    | nil => simp only [Scan.outcomeFrom, Cursor.downTo_past here cut]
    | cons t rest =>
      simp only [Scan.outcomeFrom, Cursor.downTo_within here cut behind,
        Cursor.atCursor_within here]

section Verdict

variable {lines : List Line} {n : Nat}

/-- A line is taken as an instruction exactly when it spells it, and reading goes on behind
    its break. -/
theorem readLine_success_iff (inside : n < lines.length) (i : Instruction) (rest : Cursor) :
    (readLine lines n = .success i rest ↔
      Spelling i lines[n].beforeBreak ∧
        rest = ⟨lines, if lines[n].beforeBreak = lines[n] then ⟨n + 1, 0⟩
          else ⟨n, lines[n].beforeBreak.length + 1⟩⟩) ∧
      (Spelling i lines[n].beforeBreak →
        i.condition ≠ some .hs ∧ i.condition ≠ some .lo) := by
  constructor
  · rw [readLine_eq (List.getElem?_eq_getElem inside)]
    constructor
    · intro succeeds
      split at succeeds
      next j took =>
        obtain ⟨rfl, rfl⟩ := Outcome.success.inj succeeds
        obtain ⟨u, whole, spelled⟩ := Shape.reads_instruction.sound took
        rw [List.append_nil] at whole
        exact ⟨whole ▸ spelled, rfl⟩
      next => cases succeeds
      next => cases succeeds
    · intro spells
      obtain ⟨spelled, rfl⟩ := spells
      rw [Shape.reads_instruction.parse_word spelled]
      rfl
  · intro spelled
    constructor
    · intro held
      have same := Spelling.condition_canonical spelled held
      cases same
    · intro held
      have same := Spelling.condition_canonical spelled held
      cases same

/-- `blhs #4`, with a break of its own and a comma behind it -/
theorem readLine_branch_in_second_line :
    (1 < [[], [Token.opcode .bl, .condition .hs, .literal 4, .lineBreak, .comma]].length) ∧
      readLine [[], [.opcode .bl, .condition .hs, .literal 4, .lineBreak, .comma]] 1 =
        .success (.branchLink (some .cs) 4)
          ⟨[[], [.opcode .bl, .condition .hs, .literal 4, .lineBreak, .comma]], ⟨1, 4⟩⟩ := by
  refine ⟨by decide, (readLine_success_iff (by decide) _ _).1.2 ⟨?_, rfl⟩⟩
  exact ⟨[.condition .hs], [.literal 4], Or.inr rfl, rfl, rfl⟩

/-- A failure at one of the tokens `w` or at their end, with that for its reason. -/
structure Failure.PointsInto (f : Failure) (w : List Token) : Prop where
  inside : f.pos.token ≤ w.length
  message_at_end : f.pos.token = w.length → f.reason.message = "No more input"
  message_before : ∀ t, w[f.pos.token]? = some t →
    f.reason.message = "Unexpected '" ++ t.text ++ "'"

/-- A failure that shows where the tokens `w` stop being an instruction: the class of the
    operation in front and the longest beginning of a spelling, or the longest spelling if
    there is one. -/
structure Failure.Explains (f : Failure) (w : List Token) : Prop extends f.PointsInto w where
  without_operation : (∀ op rest, w ≠ .opcode op :: rest) →
    f.label = "Instruction Type 9" ∧ f.pos.token = 0
  left_over : ∀ op rest, w = .opcode op :: rest → (Wording.lengthsInFront Spelling w).Nonempty →
    f.label = "End of Line" ∧ IsGreatest (Wording.lengthsInFront Spelling w) f.pos.token
  incomplete : ∀ op rest, w = .opcode op :: rest → ¬ (Wording.lengthsInFront Spelling w).Nonempty →
    f.label = "Instruction Type " ++ toString op.opClass.number ∧
      IsGreatest (Wording.beginningsInFront Spelling w) f.pos.token

theorem Line.pointsInto_failureAt {line : Line} {k : Nat} (inside : k ≤ line.beforeBreak.length)
    (n : Nat) (label : String) : (line.failureAt n label k).PointsInto line.beforeBreak where
  inside := inside
  message_at_end := by
    intro atEnd
    replace atEnd : k = line.beforeBreak.length := atEnd
    rw [atEnd, failureAt, getElem?_length_beforeBreak]
    split <;> rfl
  message_before := by
    intro t found
    replace found : line.beforeBreak[k]? = some t := found
    obtain ⟨before, here⟩ := List.getElem?_eq_some_iff.1 found
    have proper : t ≠ .lineBreak := not_break_of_mem_beforeBreak (here ▸ List.getElem_mem before)
    simp only [failureAt, getElem?_beforeBreak before, found]
    cases t <;> first | rfl | exact absurd rfl proper

theorem Line.explains_leftOver {line : Line} {i : Instruction} {rest : List Token}
    (took : Shape.instruction.parse line.beforeBreak = .taken i rest) (n : Nat) :
    (line.failureAt n "End of Line" (line.beforeBreak.length - rest.length)).Explains
      line.beforeBreak where
  toPointsInto := pointsInto_failureAt (Nat.sub_le _ _) n _
  without_operation := by
    intro bare
    rw [Shape.parse_instruction_of_no_opcode bare] at took
    cases took
  left_over := fun _ _ _ _ => ⟨rfl, Shape.reads_instruction.takes_longest took⟩
  incomplete := fun _ _ _ unspelled =>
    absurd ⟨_, (Shape.reads_instruction.takes_longest took).1⟩ unspelled

theorem Line.explains_refused {line : Line} {label : String} {rest : List Token}
    (refused : Shape.instruction.parse line.beforeBreak = .refused label rest) (n : Nat) :
    (line.failureAt n label (line.beforeBreak.length - rest.length)).Explains
      line.beforeBreak where
  toPointsInto := pointsInto_failureAt (Nat.sub_le _ _) n _
  without_operation := by
    intro bare
    rw [Shape.parse_instruction_of_no_opcode bare] at refused
    obtain ⟨rfl, rfl⟩ := Scan.refused.inj refused
    exact ⟨rfl, Nat.sub_self _⟩
  left_over := by
    intro op behind starts front
    obtain ⟨j, _, i, spelled⟩ := front
    rw [← List.take_append_drop j line.beforeBreak] at refused
    exact absurd refused (Shape.reads_instruction.not_refused spelled _ _)
  incomplete := by
    intro op behind starts unspelled
    have longest := Shape.pinpoints_instruction.refuses_behind_longest refused
    rw [starts] at refused
    exact ⟨Shape.label_of_opcode refused, longest⟩

/-- A line that spells nothing fails where it stops being an instruction. -/
theorem readLine_failure (inside : n < lines.length)
    (unspelled : ∀ i, ¬ Spelling i lines[n].beforeBreak) :
    ∃ f, readLine lines n = .failure f ∧ f.line = lines[n] ∧ f.pos.line = n ∧
      f.Explains lines[n].beforeBreak := by
  rw [readLine_eq (List.getElem?_eq_getElem inside)]
  generalize lines[n] = line at *
  cases reply : Shape.instruction.parse line.beforeBreak with
  | refused label rest => exact ⟨_, rfl, rfl, rfl, Line.explains_refused reply n⟩
  | taken i rest =>
    cases rest with
    | cons t rest => exact ⟨_, rfl, rfl, rfl, Line.explains_leftOver reply n⟩
    | nil =>
      obtain ⟨u, whole, spelled⟩ := Shape.reads_instruction.sound reply
      rw [List.append_nil] at whole
      exact absurd (whole ▸ spelled) (unspelled i)

/-- `mov r0, ,` could still have gone on in front of its second comma. -/
theorem readLine_second_comma :
    (0 < [[Token.opcode (.move .mov), .register ⟨0⟩, .comma, .comma]].length) ∧
      (∀ i, ¬ Spelling i [.opcode (.move .mov), .register ⟨0⟩, .comma, .comma]) ∧
      ∃ f, readLine [[.opcode (.move .mov), .register ⟨0⟩, .comma, .comma]] 0 = .failure f ∧
        f.label = "Instruction Type 1" ∧
        IsGreatest (Wording.beginningsInFront Spelling
          [.opcode (.move .mov), .register ⟨0⟩, .comma, .comma]) f.pos.token := by
  have refused : Shape.instruction.parse [.opcode (.move .mov), .register ⟨0⟩, .comma, .comma] =
      .refused "Instruction Type 1" [.comma] := rfl
  have none : ¬ (Wording.lengthsInFront Spelling
      [.opcode (.move .mov), .register ⟨0⟩, .comma, .comma]).Nonempty := by
    intro front
    obtain ⟨j, _, i, spelled⟩ := front
    rw [← List.take_append_drop j [Token.opcode _, _, _, _]] at refused
    exact Shape.reads_instruction.not_refused spelled _ _ refused
  have unspelled : ∀ i, ¬ Spelling i [.opcode (.move .mov), .register ⟨0⟩, .comma, .comma] :=
    fun i spelled => none ⟨4, by decide, i, spelled⟩
  have inside : 0 < [[Token.opcode (.move .mov), .register ⟨0⟩, .comma, .comma]].length := by decide
  obtain ⟨f, fails, _, _, explains⟩ := readLine_failure inside unspelled
  obtain ⟨label, longest⟩ := explains.incomplete _ _ rfl none
  exact ⟨inside, unspelled, f, fails, label, longest⟩

end Verdict

end ArmAssembly
