import ArmAssembly.Proofs.CombinatorRuns

/-!
Ordered choice. The alternatives are tried one after another at the same cursor. The first that
does not fail decides, by a success or by a fault; if all fail, the last one does. That is
associative, so it makes no difference how the alternatives are nested or put in groups. A choice
that has succeeded is not made again: what is read behind it cannot bring a later alternative to
its turn.
-/

namespace ArmAssembly

namespace Reply

variable {ε α : Type}

def otherwise (r other : Reply ε α) : Reply ε α :=
  match r with
  | .ok (.failure _) => other
  | reply => reply

section Cases

variable (other : Reply ε α) (x : α) (rest : Cursor) (f : Failure) (e : ε)

@[simp] theorem otherwise_success :
    otherwise (.ok (.success x rest)) other = .ok (.success x rest) := rfl

@[simp] theorem otherwise_failure : otherwise (.ok (.failure f)) other = other := rfl

@[simp] theorem otherwise_fault : otherwise (.error e) other = .error e := rfl

end Cases

theorem otherwise_assoc (r s t : Reply ε α) :
    (r.otherwise s).otherwise t = r.otherwise (s.otherwise t) := by
  cases r using Reply.cases <;> rfl

instance : Std.Associative (@otherwise ε α) := ⟨otherwise_assoc⟩

theorem otherwise_eq_failure_iff {r s : Reply ε α} {f : Failure} :
    r.otherwise s = .ok (.failure f) ↔ (∃ g, r = .ok (.failure g)) ∧ s = .ok (.failure f) := by
  cases r using Reply.cases <;> simp

end Reply

/-- The alternative has its turn: all in front of it fail. -/
def Tried.{u} {ε α : Type} {A : Type u} (run : A → Reply ε α) (alternatives : List A) (a : A) :
    Prop :=
  ∃ before after, alternatives = before ++ a :: after ∧
    ∀ b ∈ before, ∃ f, run b = .ok (.failure f)

section Turns

universe u

variable {ε α : Type} {A : Type u} {run : A → Reply ε α} {a b : A} {others : List A}

theorem not_tried_nil : ¬ Tried run [] a := by
  rintro ⟨before, after, cut, _⟩
  simp at cut

theorem tried_cons_iff : Tried run (a :: others) b ↔
    b = a ∨ (∃ f, run a = .ok (.failure f)) ∧ Tried run others b := by
  constructor
  · rintro ⟨before, after, cut, failed⟩
    cases before with
    | nil => exact Or.inl (List.cons.inj cut).1.symm
    | cons first before =>
      obtain ⟨rfl, further⟩ := List.cons.inj cut
      obtain ⟨here, failed⟩ := List.forall_mem_cons.1 failed
      exact Or.inr ⟨here, before, after, further, failed⟩
  · rintro (rfl | ⟨here, before, after, cut, failed⟩)
    · exact ⟨[], others, rfl, by simp⟩
    · refine ⟨a :: before, after, by rw [cut, List.cons_append], ?_⟩
      exact List.forall_mem_cons.2 ⟨here, failed⟩

theorem exists_tried_cons_iff {P : A → Prop} : (∃ b, Tried run (a :: others) b ∧ P b) ↔
    P a ∨ (∃ f, run a = .ok (.failure f)) ∧ ∃ b, Tried run others b ∧ P b := by
  simp only [tried_cons_iff, or_and_right, exists_or, exists_eq_left, and_assoc,
    exists_and_left]

theorem exists_tried_singleton_iff {P : A → Prop} : (∃ b, Tried run [a] b ∧ P b) ↔ P a := by
  simp only [exists_tried_cons_iff, not_tried_nil, false_and, exists_false, and_false, or_false]

end Turns

namespace Parser

variable {ι : Type} {γ : ι → Type} {ε α : Type} {callee : (i : ι) → Cursor → Reply ε (γ i)}

theorem label_choice (p : Parser γ α) (others : List (Parser γ α)) :
    (choice p others).label = p.label := by
  induction others generalizing p with
  | nil => rfl
  | cons q others ih => exact ih (orElse p q)

theorem exec_orElse (p q : Parser γ α) (c : Cursor) :
    (orElse p q).exec callee c = (p.exec callee c).otherwise (q.exec callee c) := by
  rw [exec]
  cases p.exec callee c using Reply.cases <;> rfl

theorem exec_choice (p : Parser γ α) (others : List (Parser γ α)) (c : Cursor) :
    (choice p others).exec callee c =
      (others.map fun q => q.exec callee c).foldl Reply.otherwise (p.exec callee c) := by
  rw [List.foldl_map]
  exact (List.foldl_hom (fun q : Parser γ α => q.exec callee c)
    fun p q => (exec_orElse p q c).symm).symm

theorem exec_choice_append (p : Parser γ α) (ps : List (Parser γ α)) (q : Parser γ α)
    (qs : List (Parser γ α)) (c : Cursor) :
    (choice p (ps ++ q :: qs)).exec callee c =
      ((choice p ps).exec callee c).otherwise ((choice q qs).exec callee c) := by
  simp only [exec_choice, List.map_append, List.map_cons, List.foldl_append,
    List.foldl_cons, List.foldl_assoc]

theorem exec_choice_cons (p q : Parser γ α) (others : List (Parser γ α)) (c : Cursor) :
    (choice p (q :: others)).exec callee c =
      (p.exec callee c).otherwise ((choice q others).exec callee c) :=
  exec_choice_append p [] q others c

theorem exec_choice_eq_iff {r : Reply ε α} (settled : ∀ f, r ≠ .ok (.failure f))
    (p : Parser γ α) (others : List (Parser γ α)) (c : Cursor) :
    (choice p others).exec callee c = r ↔
      ∃ q, Tried (fun q => q.exec callee c) (p :: others) q ∧ q.exec callee c = r := by
  induction others generalizing p with
  | nil =>
    exact (exists_tried_singleton_iff (P := fun q : Parser γ α => q.exec callee c = r)).symm
  | cons q others ih =>
    rw [exec_choice_cons, exists_tried_cons_iff, ← ih q]
    cases p.exec callee c using Reply.cases with
    | success x rest => simp
    | failure f => simp [(settled f).symm]
    | fault e => simp

theorem exec_choice_failure_iff (p : Parser γ α) (others : List (Parser γ α)) (c : Cursor)
    (f : Failure) :
    (choice p others).exec callee c = .ok (.failure f) ↔
      (∀ q ∈ p :: others, ∃ g, q.exec callee c = .ok (.failure g)) ∧
        ((p :: others).getLast (List.cons_ne_nil p others)).exec callee c = .ok (.failure f) := by
  induction others generalizing p with
  | nil =>
    constructor
    · intro fails
      exact ⟨by simpa using ⟨f, fails⟩, fails⟩
    · exact fun given => given.2
  | cons q others ih =>
    have last : (p :: q :: others).getLast (List.cons_ne_nil _ _) =
        (q :: others).getLast (List.cons_ne_nil _ _) := List.getLast_cons _
    rw [exec_choice_cons, Reply.otherwise_eq_failure_iff, ih q, last,
      List.forall_mem_cons (a := p), and_assoc]

section Groups

def choiceInGroups (groups : List (List (Parser γ α))) : Except ChoiceError (Parser γ α) :=
  groups.mapM choiceOf >>= choiceOf

theorem exists_choices {group : List (Parser γ α)} {groups : List (List (Parser γ α))}
    (filled : [] ∉ group :: groups) {p : Parser γ α} {others : List (Parser γ α)}
    (all : (group :: groups).flatten = p :: others) :
    ∃ q qs, (group :: groups).mapM choiceOf = .ok (q :: qs) ∧ q.label = p.label ∧
      ∀ c, (choice q qs).exec callee c = (choice p others).exec callee c := by
  induction groups generalizing group p others with
  | nil =>
    obtain rfl : group = p :: others := by simpa using all
    exact ⟨choice p others, [], rfl, label_choice p others, fun c => rfl⟩
  | cons next groups ih =>
    obtain ⟨here, behind⟩ := List.ne_and_not_mem_of_not_mem_cons filled
    obtain ⟨there, _⟩ := List.ne_and_not_mem_of_not_mem_cons behind
    obtain ⟨r, rs, rfl⟩ := List.exists_cons_of_ne_nil here.symm
    obtain ⟨s, ss, rfl⟩ := List.exists_cons_of_ne_nil there.symm
    obtain ⟨rfl, rfl⟩ := List.cons.inj all
    obtain ⟨q, qs, built, _, same⟩ := ih behind (p := s) rfl
    refine ⟨choice r rs, q :: qs, ?_, label_choice r rs, fun c => ?_⟩
    · rw [List.mapM_cons, built]
      rfl
    · rw [exec_choice_cons, same]
      exact (exec_choice_append r rs s _ c).symm

end Groups

end Parser

namespace Cells

open ArmAssembly.Parser

variable {γ : Nat → Type} {α : Type} {cells : Cells γ}

section Reaching

variable {c : Cursor} {j : Nat}

theorem reaches_orElse_iff {p q : Parser γ α} : cells.Reaches (.orElse p q) c j ↔
    cells.Reaches p c j ∨ (∃ f, cells.run p c = .ok (.failure f)) ∧ cells.Reaches q c j := by
  constructor
  · intro reaches
    cases reaches with
    | preferred inner => exact Or.inl inner
    | alternative fails inner => exact Or.inr ⟨⟨_, fails⟩, inner⟩
  · rintro (inner | ⟨⟨f, fails⟩, inner⟩)
    · exact .preferred inner
    · exact .alternative fails inner

theorem reaches_choice_iff {p : Parser γ α} {others : List (Parser γ α)} :
    cells.Reaches (choice p others) c j ↔
      ∃ q, Tried (cells.run · c) (p :: others) q ∧ cells.Reaches q c j := by
  induction others generalizing p with
  | nil => exact (exists_tried_singleton_iff (P := fun q : Parser γ α => cells.Reaches q c j)).symm
  | cons q others ih =>
    -- the choice is built from the front: its first two alternatives are one in the rest of it
    have both : (∃ f, cells.run (.orElse p q) c = .ok (.failure f)) ↔
        (∃ f, cells.run p c = .ok (.failure f)) ∧ ∃ f, cells.run q c = .ok (.failure f) := by
      simp only [run, exec_orElse, Reply.otherwise_eq_failure_iff, exists_and_left]
    have nested : cells.Reaches (choice p (q :: others)) c j ↔
        ∃ r, Tried (cells.run · c) (.orElse p q :: others) r ∧ cells.Reaches r c j := ih
    rw [nested, exists_tried_cons_iff, exists_tried_cons_iff, exists_tried_cons_iff,
      reaches_orElse_iff, both, or_assoc, and_assoc, and_or_left]

end Reaching

/-- A choice comes to what the alternative at its turn comes to, also when it is made in consecutive
    groups; and whatever is read behind it, no alternative has another turn. -/
structure CommitsInOrder (cells : Cells γ) (p : Parser γ α) (others : List (Parser γ α))
    (c : Cursor) : Prop where
  label : (choice p others).label = p.label
  succeeds : ∀ x rest, cells.run (choice p others) c = .ok (.success x rest) ↔
    ∃ q, Tried (cells.run · c) (p :: others) q ∧ cells.run q c = .ok (.success x rest)
  fails : ∀ f, cells.run (choice p others) c = .ok (.failure f) ↔
    (∀ q ∈ p :: others, ∃ g, cells.run q c = .ok (.failure g)) ∧
      cells.run ((p :: others).getLast (List.cons_ne_nil p others)) c = .ok (.failure f)
  faults : ∀ e, cells.run (choice p others) c = .error e ↔
    ∃ q, Tried (cells.run · c) (p :: others) q ∧ cells.run q c = .error e
  reaches : ∀ j, cells.Reaches (choice p others) c j ↔
    ∃ q, Tried (cells.run · c) (p :: others) q ∧ cells.Reaches q c j
  in_groups : ∀ groups : List (List (Parser γ α)), [] ∉ groups → groups.flatten = p :: others →
    ∃ q, choiceInGroups groups = .ok q ∧ q.label = p.label ∧
      cells.run q c = cells.run (choice p others) c
  goes_on : ∀ {β : Type} (next : α → Parser γ β) q x rest,
    Tried (cells.run · c) (p :: others) q → cells.run q c = .ok (.success x rest) →
      cells.run (.bind (choice p others) next) c = cells.run (.bind q next) c ∧
        ∀ j, cells.Reaches (.bind (choice p others) next) c j ↔
          cells.Reaches (choice p others) c j ∨ cells.Reaches (next x) rest j

/-- A choice commits to its first alternative that succeeds, and fails like its last one. -/
theorem choice_commits_in_order (cells : Cells γ) (p : Parser γ α) (others : List (Parser γ α))
    (c : Cursor) : CommitsInOrder cells p others c := by
  have succeeds (x : α) (rest : Cursor) :
      cells.run (choice p others) c = .ok (.success x rest) ↔
        ∃ q, Tried (cells.run · c) (p :: others) q ∧ cells.run q c = .ok (.success x rest) :=
    exec_choice_eq_iff (by simp) p others c
  constructor
  case label => exact label_choice p others
  case succeeds => exact succeeds
  case fails => exact exec_choice_failure_iff p others c
  case faults => exact fun e => exec_choice_eq_iff (by simp) p others c
  case reaches => exact fun j => reaches_choice_iff
  case in_groups =>
    intro groups filled all
    cases groups with
    | nil => cases all
    | cons group groups =>
      obtain ⟨q, qs, built, label, same⟩ := exists_choices filled all
      refine ⟨choice q qs, ?_, (label_choice q qs).trans label, same c⟩
      rw [choiceInGroups, built]
      rfl
  case goes_on =>
    intro β next q x rest turn success
    have chosen := (succeeds x rest).2 ⟨q, turn, success⟩
    constructor
    · rw [run_bind_goOn, run_bind_goOn, chosen, success]
    · intro j
      simp [reaches_bind_iff, chosen]

def registerBehind (first wanted : Register) : Parser (fun _ : Nat => Token) Token :=
  keepSecond (token (.register first)) (token (.register wanted))

/-- `r0 r2`, with `r0 r1` tried first and a cell that nothing fills last. The text ends where a
    comma is wanted, and still the cell is not come to. -/
theorem choice_commits_in_order_unset :
    CommitsInOrder ⟨1, []⟩ (registerBehind ⟨0⟩ ⟨1⟩) [registerBehind ⟨0⟩ ⟨2⟩, .call "later" 0]
        ⟨[[.register ⟨0⟩, .register ⟨2⟩]], .start⟩ ∧
      run ⟨1, []⟩ (choice (registerBehind ⟨0⟩ ⟨1⟩) [registerBehind ⟨0⟩ ⟨2⟩, .call "later" 0])
          ⟨[[.register ⟨0⟩, .register ⟨2⟩]], .start⟩ =
        .ok (.success (.register ⟨2⟩) ⟨[[.register ⟨0⟩, .register ⟨2⟩]], ⟨0, 2⟩⟩) ∧
      run ⟨1, []⟩
          (.bind (choice (registerBehind ⟨0⟩ ⟨1⟩) [registerBehind ⟨0⟩ ⟨2⟩, .call "later" 0])
            fun _ => token .comma)
          ⟨[[.register ⟨0⟩, .register ⟨2⟩]], .start⟩ =
        .ok (.failure
          ⟨Token.comma.text, .noMoreInput, [.register ⟨0⟩, .register ⟨2⟩], ⟨0, 2⟩⟩) := by
  have commits := choice_commits_in_order ⟨1, []⟩ (registerBehind ⟨0⟩ ⟨1⟩)
    [registerBehind ⟨0⟩ ⟨2⟩, .call "later" 0] ⟨[[.register ⟨0⟩, .register ⟨2⟩]], .start⟩
  have turn : Tried (run ⟨1, []⟩ · ⟨[[.register ⟨0⟩, .register ⟨2⟩]], .start⟩)
      [registerBehind ⟨0⟩ ⟨1⟩, registerBehind ⟨0⟩ ⟨2⟩, .call "later" 0]
      (registerBehind ⟨0⟩ ⟨2⟩) :=
    ⟨[registerBehind ⟨0⟩ ⟨1⟩], [.call "later" 0], rfl, by simpa using ⟨_, rfl⟩⟩
  refine ⟨commits, (commits.succeeds _ _).2 ⟨_, turn, rfl⟩, ?_⟩
  rw [(commits.goes_on (fun _ => token .comma) _ _ _ turn rfl).1]
  rfl

end Cells
end ArmAssembly
