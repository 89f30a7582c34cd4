import ArmAssembly.Proofs.CellRuns

/-!
Sessions with cells: any operations in any order. An operation either fills a cell that was
empty or leaves all cells as they were, so what one state holds every later state holds.
That is all a run can see of the time that has passed: an outcome that was given once is
given ever after, and only a fault can be cured by filling a cell.
-/

namespace ArmAssembly
namespace Cells

inductive Operation (γ : Nat → Type) : Type 1 where
  | create
  | set (i : Nat) (p : Parser γ (γ i))
  | isSet (i : Nat)
  | read (i : Nat)
  | run {α : Type} (p : Parser γ α) (c : Cursor)

inductive Answer (γ : Nat → Type) : Type 1 where
  | created (i : Nat)
  | filled
  | isSet (held : Bool)
  | parser {i : Nat} (p : Parser γ (γ i))
  | outcome {α : Type} (o : Outcome α)

variable {γ : Nat → Type}

def perform (cells : Cells γ) : Operation γ → Except CellFault (Answer γ) × Cells γ
  | .create => (.ok (.created cells.fresh), cells.create)
  | .set i p =>
    match cells.set i p with
    | .ok after => (.ok .filled, after)
    | .error e => (.error e, cells)
  | .isSet i => (.ok (.isSet (cells.isSet i)), cells)
  | .read i =>
    match cells.get i with
    | .ok p => (.ok (.parser p), cells)
    | .error e => (.error e, cells)
  | .run p c =>
    match cells.run p c with
    | .ok o => (.ok (.outcome o), cells)
    | .error e => (.error e, cells)

def after (cells : Cells γ) (session : List (Operation γ)) : Cells γ :=
  session.foldl (fun cells operation => (cells.perform operation).2) cells

variable {cells : Cells γ}

theorem isSet_iff {i : Nat} : cells.isSet i ↔ ∃ p, cells.get? i = some p := by
  rw [isSet, Option.isSome_iff_exists]

theorem get_eq_ok_iff {i : Nat} {p : Parser γ (γ i)} :
    cells.get i = .ok p ↔ cells.get? i = some p := by
  unfold get
  cases cells.get? i <;> simp

theorem set_of_empty {i : Nat} (free : ¬ cells.isSet i) (p : Parser γ (γ i)) :
    cells.set i p = .ok { cells with filled := ⟨i, p⟩ :: cells.filled } := by
  simp [set, free]

theorem get?_set_of_ne {after : Cells γ} {i j : Nat} {p : Parser γ (γ i)}
    (done : cells.set i p = .ok after) (other : j ≠ i) : after.get? j = cells.get? j := by
  unfold set at done
  split at done
  · simp at done
  · obtain rfl := by simpa using done
    simp [get?, find?, other.symm]

theorem perform_set_of_isSet {i : Nat} (held : cells.isSet i) (p : Parser γ (γ i)) :
    cells.perform (.set i p) = (.error (.alreadySet i), cells) := by
  simp [perform, set, held]

theorem perform_set_of_empty {i : Nat} (free : ¬ cells.isSet i) (p : Parser γ (γ i)) :
    ∃ after, cells.set i p = .ok after ∧ cells.perform (.set i p) = (.ok .filled, after) := by
  have done := set_of_empty free p
  exact ⟨_, done, by simp only [perform, done]⟩

theorem perform_eq_or_set (cells : Cells γ) (operation : Operation γ) :
    (∀ i, (cells.perform operation).2.get? i = cells.get? i) ∨
      ∃ i p, operation = .set i p ∧ ¬ cells.isSet i := by
  cases operation with
  | create => exact Or.inl fun _ => rfl
  | set i p =>
    by_cases held : cells.isSet i
    · rw [perform_set_of_isSet held]
      exact Or.inl fun _ => rfl
    · exact Or.inr ⟨i, p, rfl, held⟩
  | isSet i => exact Or.inl fun _ => rfl
  | read i =>
    simp only [perform]
    cases cells.get i <;> exact Or.inl fun _ => rfl
  | run p c =>
    simp only [perform]
    cases cells.run p c <;> exact Or.inl fun _ => rfl

theorem keptIn_perform (cells : Cells γ) (operation : Operation γ) :
    cells.KeptIn (cells.perform operation).2 := by
  intro j q held
  rcases cells.perform_eq_or_set operation with same | ⟨i, p, rfl, free⟩
  · rw [same, held]
  · obtain ⟨after, done, performed⟩ := perform_set_of_empty free p
    rw [performed, get?_set_of_isSet done (isSet_iff.2 ⟨q, held⟩), held]

theorem keptIn_after (cells : Cells γ) (session : List (Operation γ)) :
    cells.KeptIn (cells.after session) := by
  induction session generalizing cells with
  | nil => exact fun _ _ held => held
  | cons operation session ih =>
    intro i p held
    exact ih (cells.perform operation).2 i p (cells.keptIn_perform operation i p held)

/-- How the cells at one time and at a later time belong together. -/
structure WriteOnce (now later : Cells γ) : Prop where
  holds : ∀ i p, now.get i = .ok p → later.get i = .ok p
  refuses : ∀ i p, now.isSet i → now.perform (.set i p) = (.error (.alreadySet i), now)
  fills : ∀ i p, ¬ now.isSet i → ∃ filled,
    now.perform (.set i p) = (.ok .filled, filled) ∧ filled.get i = .ok p
  changes : ∀ operation i, (now.perform operation).2.get? i ≠ now.get? i →
    ∃ p, operation = .set i p ∧ now.get? i = none
  answers : ∀ {α : Type} (p : Parser γ α) c o, now.run p c = .ok o → later.run p c = .ok o
  faults : ∀ {α : Type} (p : Parser γ α) c i,
    now.run p c = .error (.unset i) ↔ now.Reaches p c i ∧ now.get? i = none
  no_second_filling : ∀ {α : Type} (p : Parser γ α) c i, now.run p c ≠ .error (.alreadySet i)

/-- Whatever is done with the cells, in whatever order, they are written once. -/
theorem writeOnce_after (now : Cells γ) (session : List (Operation γ)) :
    WriteOnce now (now.after session) where
  holds := by
    intro i p held
    rw [get_eq_ok_iff] at held ⊢
    exact now.keptIn_after session i p held
  refuses := fun i p held => perform_set_of_isSet held p
  fills := by
    intro i p free
    obtain ⟨filled, done, performed⟩ := perform_set_of_empty free p
    exact ⟨filled, performed, get_eq_ok_iff.2 (get?_set_self done)⟩
  changes := by
    intro operation i differs
    rcases now.perform_eq_or_set operation with same | ⟨j, p, rfl, free⟩
    · exact absurd (same i) differs
    · obtain ⟨filled, done, performed⟩ := perform_set_of_empty free p
      rw [performed] at differs
      by_cases other : i = j
      · subst other
        exact ⟨p, rfl, by simpa [isSet] using free⟩
      · exact absurd (get?_set_of_ne done other) differs
  answers := fun p c o reply => run_ok_of_kept (now.keptIn_after session) reply
  faults := by
    intro α p c i
    constructor
    · exact explained_of_run
    · exact fun reached => now.run_of_reaches reached.1 reached.2
  no_second_filling := fun p c i faulty => explained_of_run faulty

def halfFilled : Cells fun _ => Token := after {} [.create, .create, .set 0 (.token .comma)]

theorem writeOnce_halfFilled :
    halfFilled.run (.orElse (.call "first" 0) (.call "second" 1)) ⟨[[.comma]], .start⟩ =
        .ok (.success .comma ⟨[[.comma]], ⟨0, 1⟩⟩) ∧
      (halfFilled.after [.set 1 (.token .flags)]).run
          (.orElse (.call "first" 0) (.call "second" 1)) ⟨[[.comma]], .start⟩ =
        .ok (.success .comma ⟨[[.comma]], ⟨0, 1⟩⟩) ∧
      halfFilled.run (.orElse (.call "first" 0) (.call "second" 1)) ⟨[[.flags]], .start⟩ =
        .error (.unset 1) := by
  have once := writeOnce_after halfFilled [.set 1 (.token .flags)]
  refine ⟨rfl, once.answers _ _ _ rfl, (once.faults _ _ 1).2 ⟨?_, rfl⟩⟩
  exact .alternative (f := ⟨",", .unexpected .flags, [.flags], .start⟩) rfl (.called "second" 1 _)

end Cells
end ArmAssembly
