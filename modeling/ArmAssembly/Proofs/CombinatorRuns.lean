import ArmAssembly.Parser.Repeat
import ArmAssembly.Proofs.CellRuns

/-!
Combinators built from others, run with cells. The functions that are carried along and applied
on the way to a value leave no trace: a run of the combination is a run of its parts, each going
on where the one before it has left the cursor. Only a pair leaves a trace, in the labels of its
failures.
-/

namespace ArmAssembly

namespace Reply

variable {ε α β δ : Type}

@[elab_as_elim]
theorem cases {motive : Reply ε α → Prop} (r : Reply ε α)
    (success : ∀ x rest, motive (.ok (.success x rest)))
    (failure : ∀ f, motive (.ok (.failure f))) (fault : ∀ e, motive (.error e)) : motive r := by
  match r with
  | .ok (.success x rest) => exact success x rest
  | .ok (.failure f) => exact failure f
  | .error e => exact fault e

/-- Another run from where a success has left the cursor; without a success there is none. -/
def goOn (r : Reply ε α) (next : α → Cursor → Reply ε β) : Reply ε β :=
  match r with
  | .ok (.success x rest) => next x rest
  | .ok (.failure f) => .ok (.failure f)
  | .error e => .error e

def relabel (r : Reply ε α) (label : String) : Reply ε α :=
  match r with
  | .ok (.failure f) => .ok (.failure (f.relabel label))
  | reply => reply

section Cases

variable (next : α → Cursor → Reply ε β) (x : α) (rest : Cursor) (f : Failure) (e : ε)
  (label : String)

@[simp] theorem goOn_success : goOn (.ok (.success x rest)) next = next x rest := rfl

@[simp] theorem goOn_failure : goOn (.ok (.failure f)) next = .ok (.failure f) := rfl

@[simp] theorem goOn_fault : goOn (.error e) next = .error e := rfl

@[simp] theorem relabel_success :
    relabel (.ok (.success x rest) : Reply ε α) label = .ok (.success x rest) := rfl

@[simp] theorem relabel_failure :
    relabel (.ok (.failure f) : Reply ε α) label = .ok (.failure (f.relabel label)) := rfl

@[simp] theorem relabel_fault : relabel (.error e : Reply ε α) label = .error e := rfl

end Cases

theorem goOn_goOn (r : Reply ε α) (next : α → Cursor → Reply ε β)
    (further : β → Cursor → Reply ε δ) :
    (r.goOn next).goOn further = r.goOn fun x rest => (next x rest).goOn further := by
  cases r using Reply.cases <;> rfl

theorem relabel_goOn (r : Reply ε α) (f : α → β) (label : String) :
    (r.relabel label).goOn (fun x rest => .ok (.success (f x) rest)) =
      (r.goOn fun x rest => .ok (.success (f x) rest)).relabel label := by
  cases r using Reply.cases <;> rfl

theorem goOn_pure (r : Reply ε α) : (r.goOn fun x rest => .ok (.success x rest)) = r := by
  cases r using Reply.cases <;> rfl

theorem goOn_eq_success_iff {r : Reply ε α} {next : α → Cursor → Reply ε β} {y : β}
    {last : Cursor} : r.goOn next = .ok (.success y last) ↔
      ∃ x rest, r = .ok (.success x rest) ∧ next x rest = .ok (.success y last) := by
  cases r using Reply.cases <;> simp

end Reply

theorem Parser.exec_relabel {ι : Type} {γ : ι → Type} {ε α : Type}
    (callee : (i : ι) → Cursor → Reply ε (γ i)) (p : Parser γ α) (label : String) (c : Cursor) :
    (Parser.relabel p label).exec callee c = Reply.relabel (p.exec callee c) label := by
  rw [exec]
  cases p.exec callee c using Reply.cases <;> rfl

namespace Cells

open ArmAssembly.Parser

variable {γ : Nat → Type} {α β δ : Type} (cells : Cells γ)

theorem run_bind_goOn (p : Parser γ α) (next : α → Parser γ β) (c : Cursor) :
    cells.run (.bind p next) c = (cells.run p c).goOn fun x rest => cells.run (next x) rest := by
  rw [run_bind]
  cases cells.run p c using Reply.cases <;> rfl

theorem run_relabel_eq (p : Parser γ α) (label : String) (c : Cursor) :
    cells.run (.relabel p label) c = (cells.run p c).relabel label :=
  exec_relabel (cells.delegate (cells.depthAt c)) p label c

theorem run_map (f : α → β) (p : Parser γ α) (c : Cursor) :
    cells.run (map f p) c = (cells.run p c).goOn fun x rest => .ok (.success (f x) rest) :=
  cells.run_bind_goOn p (fun x => pure (f x)) c

theorem run_apply_pure (f : α → β) (p : Parser γ α) (c : Cursor) :
    cells.run (apply (pure f) p) c = cells.run (map f p) c :=
  cells.run_bind (pure f) (fun f => map f p) c

theorem run_map2 (f : α → β → δ) (p : Parser γ α) (q : Parser γ β) (c : Cursor) :
    cells.run (map2 f p q) c = (cells.run p c).goOn fun x rest =>
      (cells.run q rest).goOn fun y last => .ok (.success (f x y) last) := by
  have second (x : α) (rest : Cursor) := cells.run_map (f x) q rest
  simp only [map] at second
  rw [map2, apply, run_bind_goOn, run_apply_pure, run_map, Reply.goOn_goOn]
  simp only [Reply.goOn_success, second]

theorem run_andThen (p : Parser γ α) (q : Parser γ β) (c : Cursor) :
    cells.run (andThen p q) c =
      ((cells.run p c).goOn fun x rest =>
        (cells.run q rest).goOn fun y last => .ok (.success (x, y) last)).relabel
          (p.label ++ " andThen " ++ q.label) := by
  have second (x : α) (rest : Cursor) := cells.run_map (fun y => (x, y)) q rest
  simp only [map] at second
  rw [andThen, run_relabel_eq, run_bind_goOn]
  simp only [second]

theorem run_keepSecond (p : Parser γ α) (q : Parser γ β) (c : Cursor) :
    cells.run (keepSecond p q) c =
      ((cells.run p c).goOn fun _ rest => cells.run q rest).relabel
        (p.label ++ " andThen " ++ q.label) := by
  rw [keepSecond, run_map, run_andThen, Reply.relabel_goOn, Reply.goOn_goOn]
  simp only [Reply.goOn_goOn, Reply.goOn_success, Reply.goOn_pure]

theorem run_maybe (p : Parser γ α) (c : Cursor) :
    cells.run (maybe p) c =
      match cells.run p c with
      | .ok (.success x rest) => .ok (.success (some x) rest)
      | .ok (.failure _) => .ok (.success none c)
      | .error e => .error e := by
  rw [maybe, run_orElse, run_map]
  cases cells.run p c using Reply.cases <;> rfl

section Reaching

variable {cells} {c : Cursor} {j : Nat}

theorem not_reaches_pure (x : α) : ¬ cells.Reaches (.pure x) c j := nofun

theorem reaches_bind_iff {p : Parser γ α} {next : α → Parser γ β} :
    cells.Reaches (.bind p next) c j ↔ cells.Reaches p c j ∨
      ∃ x rest, cells.run p c = .ok (.success x rest) ∧ cells.Reaches (next x) rest j := by
  constructor
  · intro reaches
    cases reaches with
    | first inner => exact Or.inl inner
    | second succeeds inner => exact Or.inr ⟨_, _, succeeds, inner⟩
  · rintro (inner | ⟨x, rest, succeeds, inner⟩)
    · exact .first inner
    · exact .second succeeds inner

theorem reaches_relabel_iff {p : Parser γ α} {label : String} :
    cells.Reaches (.relabel p label) c j ↔ cells.Reaches p c j := by
  constructor
  · intro reaches
    cases reaches with
    | relabelled inner => exact inner
  · exact .relabelled

theorem reaches_map_iff {f : α → β} {p : Parser γ α} :
    cells.Reaches (map f p) c j ↔ cells.Reaches p c j := by
  simp only [map, reaches_bind_iff, not_reaches_pure, and_false, exists_false, or_false]

theorem reaches_andThen_iff {p : Parser γ α} {q : Parser γ β} :
    cells.Reaches (andThen p q) c j ↔ cells.Reaches p c j ∨
      ∃ x rest, cells.run p c = .ok (.success x rest) ∧ cells.Reaches q rest j := by
  simp only [andThen, reaches_relabel_iff, reaches_bind_iff, not_reaches_pure, and_false,
    exists_false, or_false]

theorem reaches_apply_pure_iff {f : α → β} {p : Parser γ α} :
    cells.Reaches (apply (pure f) p) c j ↔ cells.Reaches p c j := by
  rw [apply, reaches_bind_iff]
  constructor
  · rintro (nothing | ⟨g, rest, given, inner⟩)
    · exact absurd nothing (not_reaches_pure f)
    · obtain ⟨rfl, rfl⟩ := Outcome.success.inj (Except.ok.inj given)
      exact reaches_map_iff.1 inner
  · intro inner
    exact Or.inr ⟨f, c, rfl, reaches_map_iff.2 inner⟩

theorem reaches_map2_iff {f : α → β → δ} {p : Parser γ α} {q : Parser γ β} :
    cells.Reaches (map2 f p q) c j ↔ cells.Reaches p c j ∨
      ∃ x rest, cells.run p c = .ok (.success x rest) ∧ cells.Reaches q rest j := by
  rw [map2, apply, reaches_bind_iff, reaches_apply_pure_iff, run_apply_pure, run_map]
  apply or_congr_right
  constructor
  · rintro ⟨g, rest, succeeds, inner⟩
    obtain ⟨x, last, first, same⟩ := Reply.goOn_eq_success_iff.1 succeeds
    obtain ⟨rfl, rfl⟩ := Outcome.success.inj (Except.ok.inj same)
    exact ⟨x, last, first, reaches_map_iff.1 inner⟩
  · rintro ⟨x, rest, first, inner⟩
    exact ⟨f x, rest, by rw [first, Reply.goOn_success], reaches_map_iff.2 inner⟩

end Reaching

end Cells
end ArmAssembly
