import ArmAssembly.Proofs.Ahead

/-!
Lines and the stream that is read from them. A break ends what stands in front of it, so a
text in two parts has the lines of the one and then those of the other. Reading gives every
line back with a break behind it: what was split is read again, but for a mark for the end
of the input and for the break the last line may have lacked; and lines that were read are
split again as they were.
-/

namespace ArmAssembly

namespace Line

theorem withoutEnd_append_end (ts : List Token) : withoutEnd (ts ++ [.endOfInput]) = ts := by
  simp [withoutEnd]

theorem withoutEnd_of_not_end {ts : List Token} (other : ts.getLast? ≠ some .endOfInput) :
    withoutEnd ts = ts := if_neg other

theorem withoutEnd_append_break (a b : List Token) :
    withoutEnd (a ++ .lineBreak :: b) = a ++ .lineBreak :: withoutEnd b := by
  cases b with
  | nil => simp [withoutEnd]
  | cons t b =>
    have last : (a ++ .lineBreak :: t :: b).getLast? = (t :: b).getLast? := by
      simp [List.getLast?_append, List.getLast?_cons]
    have front : (a ++ .lineBreak :: t :: b).dropLast = a ++ .lineBreak :: (t :: b).dropLast := by
      simp
    rw [withoutEnd, withoutEnd, last, front]
    split <;> rfl

theorem ofTerminated_cons_of_ne {t : Token} (inside : t ≠ .lineBreak) (rest : List Token) :
    ofTerminated (t :: rest) =
      match ofTerminated rest with
      | [] => [[t]]
      | line :: lines => (t :: line) :: lines := by
  cases t <;> first | rfl | exact absurd rfl inside

theorem length_ofTerminated_append_break (a : List Token) :
    (ofTerminated (a ++ [.lineBreak])).length = a.count .lineBreak + 1 := by
  induction a with
  | nil => rfl
  | cons t a ih =>
    by_cases ends : t = .lineBreak
    · subst ends
      simp [ofTerminated, ih]
    · rw [List.cons_append, ofTerminated_cons_of_ne ends, List.count_cons_of_ne ends]
      cases lines : ofTerminated (a ++ [.lineBreak]) with
      | nil => simp [lines] at ih
      | cons line below => simpa [lines] using ih

theorem ofTerminated_append_break (a b : List Token) :
    ofTerminated (a ++ .lineBreak :: b) = ofTerminated (a ++ [.lineBreak]) ++ ofTerminated b := by
  induction a with
  | nil => rfl
  | cons t a ih =>
    by_cases ends : t = .lineBreak
    · subst ends
      simp [ofTerminated, ih]
    · have some_line := length_ofTerminated_append_break a
      simp only [List.cons_append, ofTerminated_cons_of_ne ends, ih]
      cases lines : ofTerminated (a ++ [.lineBreak]) with
      | nil => simp [lines] at some_line
      | cons line below => rfl

theorem split_append_break (a b : List Token) :
    split (a ++ .lineBreak :: b) = split (a ++ [.lineBreak]) ++ split b := by
  simp only [split, withoutEnd_append_break]
  exact ofTerminated_append_break a (withoutEnd b)

theorem length_split_append_break (a : List Token) :
    (split (a ++ [.lineBreak])).length = a.count .lineBreak + 1 := by
  rw [split, withoutEnd_append_break]
  exact length_ofTerminated_append_break a

def join (lines : List Line) : List Token := lines.flatMap (· ++ [.lineBreak])

/-- The tokens with a break behind them, if they do not end in one and there are any. -/
def ended (ts : List Token) : List Token :=
  if ts = [] ∨ ts.getLast? = some .lineBreak then ts else ts ++ [.lineBreak]

theorem ended_cons (t : Token) {ts : List Token} (more : ts ≠ []) :
    ended (t :: ts) = t :: ended ts := by
  obtain ⟨u, us, rfl⟩ := List.exists_cons_of_ne_nil more
  simp only [ended, List.getLast?_cons_cons, reduceCtorEq, false_or]
  split <;> rfl

theorem ended_ne_nil {ts : List Token} (more : ts ≠ []) : ended ts ≠ [] := by
  unfold ended
  split <;> simp [more]

theorem join_ofTerminated (ts : List Token) : join (ofTerminated ts) = ended ts := by
  induction ts with
  | nil => rfl
  | cons t ts ih =>
    by_cases last : ts = []
    · subst last
      by_cases ends : t = .lineBreak
      · subst ends
        rfl
      · simp [ofTerminated_cons_of_ne ends, ofTerminated, join, ended, ends]
    · rw [ended_cons t last, ← ih]
      by_cases ends : t = .lineBreak
      · subst ends
        rfl
      · rw [ofTerminated_cons_of_ne ends]
        cases lines : ofTerminated ts with
        | nil =>
          rw [lines] at ih
          exact absurd ih.symm (ended_ne_nil last)
        | cons line below => rfl

theorem ofTerminated_line {line : Line} (unbroken : .lineBreak ∉ line) :
    ofTerminated (line ++ [.lineBreak]) = [line] := by
  induction line with
  | nil => rfl
  | cons t line ih =>
    have inside : t ≠ .lineBreak := fun ends => unbroken (ends ▸ List.mem_cons_self)
    rw [List.cons_append, ofTerminated_cons_of_ne inside,
      ih fun later => unbroken (List.mem_cons_of_mem t later)]

theorem ofTerminated_join {lines : List Line} (unbroken : ∀ line ∈ lines, .lineBreak ∉ line) :
    ofTerminated (join lines) = lines := by
  induction lines with
  | nil => rfl
  | cons line below ih =>
    have first : join (line :: below) = line ++ .lineBreak :: join below := by simp [join]
    obtain ⟨here, further⟩ := List.forall_mem_cons.1 unbroken
    rw [first, ofTerminated_append_break, ofTerminated_line here, ih further]
    rfl

/-- A break stands last, so there is no mark for the end of the input to drop. -/
theorem withoutEnd_join (lines : List Line) : withoutEnd (join lines) = join lines := by
  rcases List.eq_nil_or_concat lines with rfl | ⟨above, line, rfl⟩
  · rfl
  · have last : join (above ++ [line]) = (join above ++ line) ++ .lineBreak :: [] := by simp [join]
    rw [List.concat_eq_append, last, withoutEnd_append_break]
    rfl

theorem not_break_of_mem_ofTerminated {ts : List Token} :
    ∀ line ∈ ofTerminated ts, .lineBreak ∉ line := by
  induction ts with
  | nil => simp [ofTerminated]
  | cons t ts ih =>
    by_cases ends : t = .lineBreak
    · subst ends
      simpa [ofTerminated] using ih
    · rw [ofTerminated_cons_of_ne ends]
      cases lines : ofTerminated ts with
      | nil => simpa using Ne.symm ends
      | cons line below =>
        rw [lines] at ih
        obtain ⟨here, further⟩ := List.forall_mem_cons.1 ih
        exact List.forall_mem_cons.2 ⟨by simp [Ne.symm ends, here], further⟩

theorem not_break_of_mem_split {ts : List Token} : ∀ line ∈ split ts, .lineBreak ∉ line :=
  not_break_of_mem_ofTerminated

end Line

namespace Cursor

theorem ahead_start (lines : List Line) : ahead ⟨lines, .start⟩ = Line.join lines := by
  cases lines with
  | nil => rfl
  | cons line below => simp [ahead, Position.start, Line.join]

theorem ahead_of_row {c : Cursor} {row : Line} (here : c.lines[c.pos.line]? = some row) :
    c.ahead = row.drop c.pos.token ++ .lineBreak :: Line.join (c.lines.drop (c.pos.line + 1)) := by
  obtain ⟨inside, found⟩ := List.getElem?_eq_some_iff.1 here
  simp only [ahead, List.drop_eq_getElem_cons inside, found, Line.join]

theorem next?_eq_head?_ahead (c : Cursor) : c.next?.map Prod.fst = c.ahead.head? := by
  cases step : c.next? with
  | none => simp [ahead_of_no_next step]
  | some read => simp [ahead_of_next step]

/-- Reading from the cursor again and again gives exactly these tokens and then nothing any more;
    the cursor stays where it is then. -/
structure Yields (c : Cursor) (ts : List Token) : Prop where
  in_order : ∀ k, (advance^[k] c).next?.map Prod.fst = ts[k]?
  stays : ∀ k, advance^[ts.length + k] c = advance^[ts.length] c

theorem yields_ahead (c : Cursor) : c.Yields c.ahead where
  in_order := by
    intro k
    rw [next?_eq_head?_ahead, ahead_advance_iterate, List.head?_drop]
  stays := by
    intro k
    have stuck : (advance^[c.ahead.length] c).next? = none := by
      rw [next?_eq_none_iff, ahead_advance_iterate, List.drop_length]
    rw [Nat.add_comm, Function.iterate_add_apply]
    exact Function.iterate_fixed (by simp [advance, stuck]) k

theorem readAll_ofTokens (ts : List Token) :
    (ofTokens ts).readAll = Line.ended (Line.withoutEnd ts) := by
  rw [readAll_eq_ahead, ofTokens, ahead_start, Line.split, Line.join_ofTerminated]

/-- Reading what was split gives the tokens again, less one mark for the end of the input in last
    place, and splitting what was read gives the lines again; and from any place what is read
    is the rest of the line, a break, and then the lines below with a break behind each. -/
theorem reading_inverts_splitting :
    (∀ ts, (ofTokens (ts ++ [.endOfInput])).readAll = Line.ended ts) ∧
      (∀ ts, ts.getLast? ≠ some .endOfInput → (ofTokens ts).readAll = Line.ended ts) ∧
      (∀ lines, (∀ line ∈ lines, Token.lineBreak ∉ line) →
        Line.split (readAll ⟨lines, .start⟩) = lines) ∧
      (∀ (c : Cursor) (row : Line), c.lines[c.pos.line]? = some row →
        c.Yields (row.drop c.pos.token ++ .lineBreak ::
          (c.lines.drop (c.pos.line + 1)).flatMap (· ++ [.lineBreak]))) ∧
      (∀ c : Cursor, c.lines.length ≤ c.pos.line → c.Yields []) := by
  refine ⟨?_, ?_, ?_, ?_, ?_⟩
  · intro ts
    rw [readAll_ofTokens, Line.withoutEnd_append_end]
  · intro ts other
    rw [readAll_ofTokens, Line.withoutEnd_of_not_end other]
  · intro lines unbroken
    rw [readAll_eq_ahead, ahead_start, Line.split, Line.withoutEnd_join,
      Line.ofTerminated_join unbroken]
  · intro c row here
    have whole := yields_ahead c
    rwa [ahead_of_row here] at whole
  · intro c below
    have nothing : c.ahead = [] := by rw [ahead, List.drop_eq_nil_of_le below]
    rw [← nothing]
    exact yields_ahead c

theorem reading_inverts_splitting_blank :
    (ofTokens [.comma, .endOfInput, .endOfInput]).readAll = [.comma, .endOfInput, .lineBreak] ∧
      ([Token.endOfInput, .comma, .lineBreak].getLast? ≠ some .endOfInput ∧
        (ofTokens [.endOfInput, .comma, .lineBreak]).readAll = [.endOfInput, .comma, .lineBreak]) ∧
      (∀ line ∈ [[Token.comma, .endOfInput], [], [.flags]], Token.lineBreak ∉ line) ∧
      Line.split (readAll ⟨[[.comma, .endOfInput], [], [.flags]], .start⟩) =
        [[.comma, .endOfInput], [], [.flags]] ∧
      Yields ⟨[[.comma, .endOfInput], [], [.flags]], ⟨0, 1⟩⟩
        [.endOfInput, .lineBreak, .lineBreak, .flags, .lineBreak] ∧
      Yields ⟨[[.comma, .endOfInput], [], [.flags]], ⟨3, 0⟩⟩ [] := by
  obtain ⟨marked, unmarked, split, further, done⟩ := reading_inverts_splitting
  exact ⟨marked [.comma, .endOfInput], ⟨by decide, unmarked _ (by decide)⟩, by decide,
    split _ (by decide), further ⟨_, ⟨0, 1⟩⟩ [.comma, .endOfInput] rfl,
    done ⟨_, ⟨3, 0⟩⟩ (by decide)⟩

end Cursor
end ArmAssembly
