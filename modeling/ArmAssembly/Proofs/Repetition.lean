import ArmAssembly.Proofs.GuardedRecursion

/-!
Repetition ends. Its loop goes on until the parser fails or leaves the cursor where it was, and
nothing else stops it; but a parser moves the cursor one way only, along the tokens ahead, so
there is a round for each of them at the most and one more in which it stops. Hence whatever is
repeated, and however repetitions stand in one another, a parser that calls no cell answers.
-/

namespace ArmAssembly
namespace Parser

variable {ι : Type} {γ : ι → Type} {ε α : Type}

/-- The loop of a repetition, with the values so far. The budget is how many times the parser may
    be run: `none` if that does not bring the loop to its end. -/
def loopWithin (run : Cursor → Reply ε α) : Nat → List α → Cursor → Option (Reply ε (List α))
  | 0, _, _ => none
  | budget + 1, values, c =>
    match run c with
    | .error e => some (.error e)
    | .ok (.failure _) => some (.ok (.success values c))
    | .ok (.success x rest) =>
      if rest = c then some (.ok (.success (values ++ [x]) c))
      else loopWithin run budget (values ++ [x]) rest

def CallFree : {α : Type} → Parser γ α → Prop
  | _, accept _ _ => True
  | _, pure _ => True
  | _, bind p next => p.CallFree ∧ ∀ x, (next x).CallFree
  | _, orElse p q => p.CallFree ∧ q.CallFree
  | _, peek p => p.CallFree
  | _, many p => p.CallFree
  | _, relabel p _ => p.CallFree
  | _, call _ _ => False

end Parser

namespace Cells

open ArmAssembly.Parser

variable {γ : Nat → Type} {α β : Type} {cells : Cells γ}

def AnswersEverywhere (cells : Cells γ) (p : Parser γ α) : Prop := ∀ c, ∃ o, cells.run p c = .ok o

/-- A budget of one more than there are tokens ahead is enough for the loop, and what it comes to
    is what the repetition comes to. -/
theorem loopWithin_of_answers {p : Parser γ α} (answers : cells.AnswersEverywhere p)
    (budget : Nat) (values : List α) (c : Cursor) (enough : c.ahead.length < budget) :
    ∃ xs last,
      loopWithin (cells.run p) budget values c = some (.ok (.success (values ++ xs) last)) ∧
      cells.run (.many p) c = .ok (.success xs last) ∧ xs.length ≤ budget := by
  induction budget generalizing values c with
  | zero => omega
  | succ budget ih =>
    rw [loopWithin, run_many]
    obtain ⟨o, reply⟩ := answers c
    cases o with
    | failure f => exact ⟨[], c, by simp [reply], by simp [reply], Nat.zero_le _⟩
    | success x rest =>
      by_cases stays : rest = c
      · exact ⟨[x], c, by simp [reply, stays], by simp [reply, stays], by simp⟩
      · -- the round has taken something away from what is ahead, as it has from the budget
        have less := shrinks_of_success reply stays
        obtain ⟨xs, last, loop, whole, bound⟩ := ih (values ++ [x]) rest (by omega)
        refine ⟨x :: xs, last, ?_, ?_, Nat.succ_le_succ bound⟩
        · simp only [reply, if_neg stays, loop, List.append_assoc, List.cons_append,
            List.nil_append]
        · simp only [reply, if_neg stays, whole]

theorem answers_many {p : Parser γ α} (answers : cells.AnswersEverywhere p) :
    cells.AnswersEverywhere (.many p) := by
  intro c
  obtain ⟨xs, last, _, whole, _⟩ := loopWithin_of_answers answers _ [] c (Nat.lt_succ_self _)
  exact ⟨_, whole⟩

theorem answers_bind {p : Parser γ α} {next : α → Parser γ β}
    (first : cells.AnswersEverywhere p) (second : ∀ x, cells.AnswersEverywhere (next x)) :
    cells.AnswersEverywhere (.bind p next) := by
  intro c
  obtain ⟨o, reply⟩ := first c
  rw [run_bind, reply]
  cases o with
  | failure f => exact ⟨_, rfl⟩
  | success x rest => exact second x rest

theorem answers_orElse {p q : Parser γ α} (first : cells.AnswersEverywhere p)
    (second : cells.AnswersEverywhere q) : cells.AnswersEverywhere (.orElse p q) := by
  intro c
  obtain ⟨o, reply⟩ := first c
  rw [run_orElse, reply]
  cases o with
  | failure f => exact second c
  | success x rest => exact ⟨_, rfl⟩

theorem answers_peek {p : Parser γ α} (answers : cells.AnswersEverywhere p) :
    cells.AnswersEverywhere (.peek p) := by
  intro c
  obtain ⟨o, reply⟩ := answers c
  rw [run_peek, reply]
  cases o <;> exact ⟨_, rfl⟩

theorem answers_relabel {p : Parser γ α} (answers : cells.AnswersEverywhere p) (label : String) :
    cells.AnswersEverywhere (.relabel p label) := by
  intro c
  obtain ⟨o, reply⟩ := answers c
  rw [run_relabel, reply]
  cases o <;> exact ⟨_, rfl⟩

theorem answers_of_callFree {p : Parser γ α} (free : p.CallFree) : cells.AnswersEverywhere p := by
  induction p with
  | accept read label => exact fun c => ⟨_, rfl⟩
  | pure x => exact fun c => ⟨_, rfl⟩
  | bind p next ihp ihnext => exact answers_bind (ihp free.1) fun x => ihnext x (free.2 x)
  | orElse p q ihp ihq => exact answers_orElse (ihp free.1) (ihq free.2)
  | peek p ih => exact answers_peek (ih free)
  | many p ih => exact answers_many (ih free)
  | relabel p label ih => exact answers_relabel (ih free) label
  | call label i => exact free.elim

/-- Repetition succeeds, after no more runs of the parser than there are tokens ahead and one; and
    a parser that calls no cell answers everywhere. -/
theorem repetition_ends (cells : Cells γ) :
    (∀ {α : Type} (p : Parser γ α), cells.AnswersEverywhere p → ∀ c, ∃ xs last,
      loopWithin (cells.run p) (c.readAll.length + 1) [] c = some (.ok (.success xs last)) ∧
        cells.run (.many p) c = .ok (.success xs last) ∧ xs.length ≤ c.readAll.length + 1) ∧
      ∀ {α : Type} (p : Parser γ α), p.CallFree → cells.AnswersEverywhere p := by
  constructor
  · intro α p answers c
    rw [Cursor.readAll_eq_ahead]
    exact loopWithin_of_answers answers _ [] c (Nat.lt_succ_self _)
  · intro α p free
    exact answers_of_callFree free

theorem answers_commas : commas.AnswersEverywhere (.call "commas" 0) := by
  intro c
  rw [run_call_of_held (F := commasThenFlags) rfl]
  exact guarded_commasThenFlags.answers rfl c

def commaRuns : Parser (fun _ : Nat => Token) (List (List (Option Token))) :=
  many (many (maybe (token .comma)))

theorem repetition_ends_commas :
    commas.AnswersEverywhere (maybe (.call "commas" 0)) ∧
      loopWithin (commas.run (maybe (.call "commas" 0))) 6 []
          ⟨[[.comma, .flags, .flags, .comma]], .start⟩ =
        some (.ok (.success [some .flags, some .flags, none]
          ⟨[[.comma, .flags, .flags, .comma]], ⟨0, 3⟩⟩)) ∧
      commas.run (.many (maybe (.call "commas" 0)))
          ⟨[[.comma, .flags, .flags, .comma]], .start⟩ =
        .ok (.success [some .flags, some .flags, none]
          ⟨[[.comma, .flags, .flags, .comma]], ⟨0, 3⟩⟩) ∧
      commaRuns.CallFree ∧ commas.AnswersEverywhere commaRuns := by
  have answers : commas.AnswersEverywhere (maybe (.call "commas" 0)) :=
    answers_orElse (answers_bind answers_commas fun _ c => ⟨_, rfl⟩) fun c => ⟨_, rfl⟩
  have free : commaRuns.CallFree := ⟨⟨trivial, fun _ => trivial⟩, trivial⟩
  obtain ⟨xs, last, loop, whole, _⟩ := (repetition_ends commas).1 _ answers
    ⟨[[.comma, .flags, .flags, .comma]], .start⟩
  have rounds : loopWithin (commas.run (maybe (.call "commas" 0))) 6 []
      ⟨[[.comma, .flags, .flags, .comma]], .start⟩ =
        some (.ok (.success [some .flags, some .flags, none]
          ⟨[[.comma, .flags, .flags, .comma]], ⟨0, 3⟩⟩)) := by decide
  have length : Cursor.readAll ⟨[[.comma, .flags, .flags, .comma]], .start⟩ =
      [.comma, .flags, .flags, .comma, .lineBreak] := Cursor.readAll_eq_ahead _
  rw [length] at loop
  obtain ⟨rfl, rfl⟩ := by simpa using rounds.symm.trans loop
  exact ⟨answers, rounds, whole, free, (repetition_ends commas).2 _ free⟩

end Cells
end ArmAssembly
