import ArmAssembly.Proofs.CombinatorRuns

/-!
Sequences, in whatever way they are written. A list of parsers can be run by a sequence or by
pairs of pairs in any nesting; in all of them the parsers have their turns one after another,
each where the one before it has left the cursor, and the first that does not succeed is the last
to have one. The values stand in the same order. Only the labels of failures tell the ways apart:
pairs put their own on, and it is the same for every nesting, while a sequence leaves them alone.
-/

namespace ArmAssembly

inductive Nested.{u} (A : Type u) : Type u where
  | one (a : A)
  | pair (left right : Nested A)

namespace Nested

open ArmAssembly.Parser

def members.{u} {A : Type u} : Nested A → List A
  | one a => [a]
  | pair left right => left.members ++ right.members

variable {γ : Nat → Type} {α : Type}

abbrev Value : Nested (Parser γ α) → Type
  | one _ => α
  | pair left right => left.Value × right.Value

def parser : (t : Nested (Parser γ α)) → Parser γ t.Value
  | one p => p
  | pair left right => andThen left.parser right.parser

def flatten : (t : Nested (Parser γ α)) → t.Value → List α
  | one _, x => [x]
  | pair left right, (x, y) => left.flatten x ++ right.flatten y

def joinedLabel (t : Nested (Parser γ α)) : String :=
  " andThen ".intercalate (t.members.map label)

/-- A failure as it leaves the outermost pair. A single parser leaves it as it is. -/
def sign : Nested (Parser γ α) → Failure → Failure
  | one _, f => f
  | pair left right, f => f.relabel (pair left right).joinedLabel

theorem members_ne_nil (t : Nested (Parser γ α)) : t.members ≠ [] := by
  induction t with
  | one p => simp [members]
  | pair left right first second => simp [members, first]

theorem label_eq_joinedLabel (t : Nested (Parser γ α)) : t.parser.label = t.joinedLabel := by
  induction t with
  | one p => exact String.intercalate_singleton.symm
  | pair left right first second =>
    have front : left.members.map label ≠ [] := by simpa using left.members_ne_nil
    have back : right.members.map label ≠ [] := by simpa using right.members_ne_nil
    rw [joinedLabel, members, List.map_append, String.intercalate_append_of_ne_nil front back]
    exact congrArg₂ (fun l r => l ++ " andThen " ++ r) first second

theorem relabel_sign (t : Nested (Parser γ α)) (f : Failure) (label : String) :
    (t.sign f).relabel label = f.relabel label := by
  cases t <;> rfl

end Nested

namespace Reply

variable {ε α β : Type} {r : Reply ε α} {stop : Except ε Failure}

def ending? : Reply ε α → Option (Except ε Failure)
  | .ok (.success _ _) => none
  | .ok (.failure f) => some (.ok f)
  | .error e => some (.error e)

theorem ending?_eq_ok_iff {f : Failure} : r.ending? = some (.ok f) ↔ r = .ok (.failure f) := by
  cases r using Reply.cases <;> simp [ending?]

theorem ending?_eq_error_iff {e : ε} : r.ending? = some (.error e) ↔ r = .error e := by
  cases r using Reply.cases <;> simp [ending?]

theorem ending?_goOn (ends : r.ending? = some stop) (next : α → Cursor → Reply ε β) :
    (r.goOn next).ending? = some stop := by
  cases r using Reply.cases with
  | success x rest => cases ends
  | failure f => exact ends
  | fault e => exact ends

theorem ending?_goOn_value (r : Reply ε α) (f : α → β) :
    (r.goOn fun x rest => .ok (.success (f x) rest)).ending? = r.ending? := by
  cases r using Reply.cases <;> rfl

end Reply

namespace Cells

open ArmAssembly.Parser

variable {γ : Nat → Type} {α β δ : Type} {cells : Cells γ}

section Turns

inductive Succeed (cells : Cells γ) :
    List (Parser γ α) → Cursor → List α → Cursor → Prop where
  | none (c : Cursor) : Succeed cells [] c [] c
  | next {p : Parser γ α} {ps : List (Parser γ α)} {c rest last : Cursor} {x : α} {xs : List α}
      (first : cells.run p c = .ok (.success x rest)) (further : Succeed cells ps rest xs last) :
      Succeed cells (p :: ps) c (x :: xs) last

/-- All parsers before this one succeed, and that leaves the cursor here. -/
inductive Turn (cells : Cells γ) :
    List (Parser γ α) → Cursor → Parser γ α → Cursor → Prop where
  | first (p : Parser γ α) (ps : List (Parser γ α)) (c : Cursor) : Turn cells (p :: ps) c p c
  | later {p q : Parser γ α} {ps : List (Parser γ α)} {c rest d : Cursor} {x : α}
      (first : cells.run p c = .ok (.success x rest)) (turn : Turn cells ps rest q d) :
      Turn cells (p :: ps) c q d

variable {p : Parser γ α} {ps qs : List (Parser γ α)} {c d last : Cursor} {q : Parser γ α}

theorem turn_cons_iff : cells.Turn (p :: ps) c q d ↔
    q = p ∧ d = c ∨ ∃ x rest, cells.run p c = .ok (.success x rest) ∧ cells.Turn ps rest q d := by
  constructor
  · intro turn
    cases turn with
    | first => exact Or.inl ⟨rfl, rfl⟩
    | later first turn => exact Or.inr ⟨_, _, first, turn⟩
  · rintro (⟨rfl, rfl⟩ | ⟨x, rest, first, turn⟩)
    · exact .first q ps d
    · exact .later first turn

theorem turn_append_iff : cells.Turn (ps ++ qs) c q d ↔
    cells.Turn ps c q d ∨ ∃ xs rest, cells.Succeed ps c xs rest ∧ cells.Turn qs rest q d := by
  induction ps generalizing c with
  | nil =>
    constructor
    · exact fun turn => Or.inr ⟨[], c, .none c, turn⟩
    · rintro (turn | ⟨xs, rest, succeed, turn⟩)
      · cases turn
      · cases succeed
        exact turn
  | cons p ps ih =>
    rw [List.cons_append, turn_cons_iff, turn_cons_iff]
    constructor
    · rintro (here | ⟨x, rest, first, turn⟩)
      · exact Or.inl (Or.inl here)
      · rcases ih.1 turn with turn | ⟨xs, last, succeed, turn⟩
        · exact Or.inl (Or.inr ⟨x, rest, first, turn⟩)
        · exact Or.inr ⟨x :: xs, last, .next first succeed, turn⟩
    · rintro ((here | ⟨x, rest, first, turn⟩) | ⟨xs, last, succeed, turn⟩)
      · exact Or.inl here
      · exact Or.inr ⟨x, rest, first, ih.2 (Or.inl turn)⟩
      · cases succeed with
        | next first further =>
          exact Or.inr ⟨_, _, first, ih.2 (Or.inr ⟨_, _, further, turn⟩)⟩

end Turns

section Lists

variable (cells) in
theorem run_inOrder_cons (p : Parser γ α) (ps : List (Parser γ α)) (c : Cursor) :
    cells.run (inOrder (p :: ps)) c = (cells.run p c).goOn fun x rest =>
      (cells.run (inOrder ps) rest).goOn fun xs last => .ok (.success (x :: xs) last) :=
  cells.run_map2 (· :: ·) p (inOrder ps) c

variable (cells) in
theorem run_inOrder_append (ps qs : List (Parser γ α)) (c : Cursor) :
    cells.run (inOrder (ps ++ qs)) c = (cells.run (inOrder ps) c).goOn fun xs rest =>
      (cells.run (inOrder qs) rest).goOn fun ys last => .ok (.success (xs ++ ys) last) := by
  induction ps generalizing c with
  | nil => exact (Reply.goOn_pure _).symm
  | cons p ps ih =>
    rw [List.cons_append, run_inOrder_cons, run_inOrder_cons]
    simp only [ih, Reply.goOn_goOn, Reply.goOn_success, List.cons_append]

variable {ps : List (Parser γ α)} {c last : Cursor} {xs : List α}
  {stop : Except CellFault Failure}

theorem Succeed.run_inOrder (succeed : cells.Succeed ps c xs last) :
    cells.run (inOrder ps) c = .ok (.success xs last) := by
  induction succeed with
  | none c => rfl
  | next first further ih => simp only [run_inOrder_cons, first, ih, Reply.goOn_success]

theorem Turn.ending?_inOrder {p : Parser γ α} {d : Cursor} (turn : cells.Turn ps c p d)
    (ends : (cells.run p d).ending? = some stop) :
    (cells.run (inOrder ps) c).ending? = some stop := by
  induction turn with
  | first p ps c =>
    rw [run_inOrder_cons]
    exact Reply.ending?_goOn ends _
  | later first turn ih =>
    rw [run_inOrder_cons, first, Reply.goOn_success, Reply.ending?_goOn_value]
    exact ih ends

theorem succeed_or_turn (cells : Cells γ) (ps : List (Parser γ α)) (c : Cursor) :
    (∃ xs last, cells.Succeed ps c xs last) ∨
      ∃ p d stop, cells.Turn ps c p d ∧ (cells.run p d).ending? = some stop := by
  induction ps generalizing c with
  | nil => exact Or.inl ⟨[], c, .none c⟩
  | cons p ps ih =>
    cases first : cells.run p c using Reply.cases with
    | success x rest =>
      rcases ih rest with ⟨xs, last, further⟩ | ⟨q, d, stop, turn, ends⟩
      · exact Or.inl ⟨x :: xs, last, .next first further⟩
      · exact Or.inr ⟨q, d, stop, .later first turn, ends⟩
    | failure f => exact Or.inr ⟨p, c, .ok f, .first p ps c, by rw [first]; rfl⟩
    | fault e => exact Or.inr ⟨p, c, .error e, .first p ps c, by rw [first]; rfl⟩

theorem run_inOrder_success_iff :
    cells.run (inOrder ps) c = .ok (.success xs last) ↔ cells.Succeed ps c xs last := by
  constructor
  · intro succeeds
    rcases cells.succeed_or_turn ps c with ⟨ys, behind, succeed⟩ | ⟨p, d, stop, turn, ends⟩
    · have same := succeed.run_inOrder.symm.trans succeeds
      obtain ⟨rfl, rfl⟩ := Outcome.success.inj (Except.ok.inj same)
      exact succeed
    · have stops := turn.ending?_inOrder ends
      simp [succeeds, Reply.ending?] at stops
  · exact Succeed.run_inOrder

theorem ending?_inOrder_iff : (cells.run (inOrder ps) c).ending? = some stop ↔
    ∃ p d, cells.Turn ps c p d ∧ (cells.run p d).ending? = some stop := by
  constructor
  · intro ends
    rcases cells.succeed_or_turn ps c with ⟨ys, behind, succeed⟩ | ⟨p, d, stop', turn, there⟩
    · simp [succeed.run_inOrder, Reply.ending?] at ends
    · have same := (turn.ending?_inOrder there).symm.trans ends
      exact ⟨p, d, turn, there.trans same⟩
  · rintro ⟨p, d, turn, ends⟩
    exact turn.ending?_inOrder ends

end Lists

section Pairs

/-- Nested pairs and a sequence of the same parsers come to the same, but for the pairs in the
    value and the label of a failure. -/
inductive SameInOrder (t : Nested (Parser γ α)) :
    Reply CellFault t.Value → Reply CellFault (List α) → Prop where
  | success (v : t.Value) (rest : Cursor) :
      SameInOrder t (.ok (.success v rest)) (.ok (.success (t.flatten v) rest))
  | failure (f : Failure) : SameInOrder t (.ok (.failure (t.sign f))) (.ok (.failure f))
  | fault (e : CellFault) : SameInOrder t (.error e) (.error e)

variable (cells) in
theorem run_nested_sameInOrder (t : Nested (Parser γ α)) (c : Cursor) :
    SameInOrder t (cells.run t.parser c) (cells.run (inOrder t.members) c) := by
  induction t generalizing c with
  | one p =>
    rw [Nested.members, run_inOrder_cons, Nested.parser]
    cases cells.run p c using Reply.cases with
    | success x rest => exact .success (t := .one p) x rest
    | failure f => exact .failure (t := .one p) f
    | fault e => exact .fault e
  | pair left right first second =>
    have label : left.parser.label ++ " andThen " ++ right.parser.label =
        (Nested.pair left right).joinedLabel := (Nested.pair left right).label_eq_joinedLabel
    rw [Nested.members, run_inOrder_append, Nested.parser, run_andThen, label]
    have here := first c
    generalize cells.run left.parser c = r at here
    generalize cells.run (inOrder left.members) c = r' at here
    -- the label of the whole pair replaces whatever label a pair further in has put on
    cases here with
    | fault e => exact .fault e
    | failure f =>
      simp only [Reply.goOn_failure, Reply.relabel_failure, Nested.relabel_sign]
      exact .failure (t := .pair left right) f
    | success v rest =>
      have there := second rest
      simp only [Reply.goOn_success]
      generalize cells.run right.parser rest = r at there
      generalize cells.run (inOrder right.members) rest = r' at there
      cases there with
      | fault e => exact .fault e
      | failure f =>
        simp only [Reply.goOn_failure, Reply.relabel_failure, Nested.relabel_sign]
        exact .failure (t := .pair left right) f
      | success w last => exact .success (t := .pair left right) (v, w) last

variable {t : Nested (Parser γ α)} {c : Cursor} {j : Nat}

theorem run_nested_success_iff {xs : List α} {last : Cursor} :
    (∃ v, t.flatten v = xs ∧ cells.run t.parser c = .ok (.success v last)) ↔
      cells.run (inOrder t.members) c = .ok (.success xs last) := by
  have same := cells.run_nested_sameInOrder t c
  generalize cells.run t.parser c = r at same
  generalize cells.run (inOrder t.members) c = r' at same
  cases same with
  | fault e => simp
  | failure f => simp
  | success v rest => simp

theorem reaches_inOrder_iff {ps : List (Parser γ α)} :
    cells.Reaches (inOrder ps) c j ↔ ∃ p d, cells.Turn ps c p d ∧ cells.Reaches p d j := by
  induction ps generalizing c with
  | nil =>
    constructor
    · exact fun nothing => absurd nothing (not_reaches_pure _)
    · rintro ⟨p, d, turn, _⟩
      cases turn
  | cons p ps ih =>
    rw [inOrder, reaches_map2_iff]
    constructor
    · rintro (inner | ⟨x, rest, first, inner⟩)
      · exact ⟨p, c, .first p ps c, inner⟩
      · obtain ⟨q, d, turn, there⟩ := ih.1 inner
        exact ⟨q, d, .later first turn, there⟩
    · rintro ⟨q, d, turn, inner⟩
      rcases turn_cons_iff.1 turn with ⟨rfl, rfl⟩ | ⟨x, rest, first, turn⟩
      · exact Or.inl inner
      · exact Or.inr ⟨x, rest, first, ih.2 ⟨q, d, turn, inner⟩⟩

theorem reaches_nested_iff :
    cells.Reaches t.parser c j ↔ ∃ p d, cells.Turn t.members c p d ∧ cells.Reaches p d j := by
  induction t generalizing c with
  | one p =>
    constructor
    · exact fun inner => ⟨p, c, .first p [] c, inner⟩
    · rintro ⟨q, d, turn, inner⟩
      rcases turn_cons_iff.1 turn with ⟨rfl, rfl⟩ | ⟨x, rest, _, nothing⟩
      · exact inner
      · cases nothing
  | pair left right first second =>
    rw [Nested.parser, reaches_andThen_iff, first, Nested.members]
    constructor
    · rintro (⟨p, d, turn, inner⟩ | ⟨v, rest, succeeds, inner⟩)
      · exact ⟨p, d, turn_append_iff.2 (Or.inl turn), inner⟩
      · obtain ⟨p, d, turn, there⟩ := second.1 inner
        have succeed := run_inOrder_success_iff.1 (run_nested_success_iff.1 ⟨v, rfl, succeeds⟩)
        exact ⟨p, d, turn_append_iff.2 (Or.inr ⟨_, rest, succeed, turn⟩), there⟩
    · rintro ⟨p, d, turn, inner⟩
      rcases turn_append_iff.1 turn with turn | ⟨xs, rest, succeed, turn⟩
      · exact Or.inl ⟨p, d, turn, inner⟩
      · obtain ⟨v, _, succeeds⟩ :=
          run_nested_success_iff.2 (run_inOrder_success_iff.2 succeed)
        exact Or.inr ⟨v, rest, succeeds, second.2 ⟨p, d, turn, inner⟩⟩

end Pairs

/-- What parsers in nested pairs, and the same parsers in a sequence, come to from a cursor. -/
structure RunsInTurn (cells : Cells γ) (t : Nested (Parser γ α)) (c : Cursor) : Prop where
  same : SameInOrder t (cells.run t.parser c) (cells.run (inOrder t.members) c)
  label : t.parser.label = t.joinedLabel
  succeeds : ∀ xs last, cells.run (inOrder t.members) c = .ok (.success xs last) ↔
    cells.Succeed t.members c xs last
  fails : ∀ f, cells.run (inOrder t.members) c = .ok (.failure f) ↔
    ∃ p d, cells.Turn t.members c p d ∧ cells.run p d = .ok (.failure f)
  faults : ∀ e, cells.run (inOrder t.members) c = .error e ↔
    ∃ p d, cells.Turn t.members c p d ∧ cells.run p d = .error e
  reaches : ∀ j, cells.Reaches (inOrder t.members) c j ↔
    ∃ p d, cells.Turn t.members c p d ∧ cells.Reaches p d j
  reaches_nested : ∀ j, cells.Reaches t.parser c j ↔
    ∃ p d, cells.Turn t.members c p d ∧ cells.Reaches p d j

end Cells
end ArmAssembly
