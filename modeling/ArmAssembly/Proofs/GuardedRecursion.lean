import ArmAssembly.Proofs.DirectCalls
import ArmAssembly.Proofs.Labels

/-!
Recursion through a cell. A construction builds a parser around a given one with the
combinators, and the cell holds the construction applied to a call of the cell itself. The
recursion is guarded if that comes back to the cell only with less ahead. Then it answers
everywhere, it goes no deeper than the text is long, and the construction has one meaning: any
other parser that runs like the construction around itself comes to the same. Labels are the
exception, for the combinators put the label of the given parser into those of their failures.
-/

namespace ArmAssembly
namespace Cells

open ArmAssembly.Parser

variable {γ : Nat → Type} {α β : Type} {cells : Cells γ} {i : Nat}

/-- Ways to build a parser around a given one, which stands in any places and any number of
    times. Nothing else is seen of it than its label, and that goes into labels only. -/
inductive Construction (i : Nat) : {α : Type} → (Parser γ (γ i) → Parser γ α) → Prop where
  | given : Construction i fun x => x
  | accept {α : Type} (read : Token → Option α) (label : String → String) :
      Construction i fun x => .accept read (label x.label)
  | pure {α : Type} (value : α) : Construction i fun _ => .pure value
  | bind {α β : Type} {F : Parser γ (γ i) → Parser γ α} {G : α → Parser γ (γ i) → Parser γ β}
      (first : Construction i F) (second : ∀ value, Construction i (G value)) :
      Construction i fun x => .bind (F x) fun value => G value x
  | orElse {α : Type} {F G : Parser γ (γ i) → Parser γ α} (first : Construction i F)
      (second : Construction i G) : Construction i fun x => .orElse (F x) (G x)
  | peek {α : Type} {F : Parser γ (γ i) → Parser γ α} (inner : Construction i F) :
      Construction i fun x => .peek (F x)
  | many {α : Type} {F : Parser γ (γ i) → Parser γ α} (inner : Construction i F) :
      Construction i fun x => .many (F x)
  | relabel {α : Type} {F : Parser γ (γ i) → Parser γ α} (label : String → String)
      (inner : Construction i F) : Construction i fun x => .relabel (F x) (label x.label)
  | call (label : String → String) (j : Nat) : Construction i fun x => .call (label x.label) j

namespace Construction

variable {F : Parser γ (γ i) → Parser γ α} {G : Parser γ (γ i) → Parser γ β}

theorem fixed (p : Parser γ α) : Construction i fun _ => p := by
  induction p with
  | accept read label => exact .accept read fun _ => label
  | pure value => exact .pure value
  | bind p next first second => exact .bind first second
  | orElse p q first second => exact .orElse first second
  | peek p inner => exact .peek inner
  | many p inner => exact .many inner
  | relabel p label inner => exact .relabel (fun _ => label) inner
  | call label j => exact .call (fun _ => label) j

theorem label_eq (construction : Construction i F) :
    ∃ label : String → String, ∀ x, (F x).label = label x.label := by
  induction construction with
  | given => exact ⟨id, fun x => rfl⟩
  | accept read label => exact ⟨label, fun x => rfl⟩
  | pure value => exact ⟨fun _ => "Success", fun x => rfl⟩
  | bind first second ih _ => exact ih
  | orElse first second ih _ => exact ih
  | peek inner ih => exact ih
  | many inner ih =>
    obtain ⟨label, same⟩ := ih
    exact ⟨fun given => "many " ++ label given, fun x => congrArg ("many " ++ ·) (same x)⟩
  | relabel label inner ih => exact ⟨label, fun x => rfl⟩
  | call label j => exact ⟨label, fun x => rfl⟩

theorem map (f : α → β) (construction : Construction i F) :
    Construction i fun x => (F x).map f :=
  .bind construction fun value => .pure (f value)

theorem andThen (first : Construction i F) (second : Construction i G) :
    Construction i fun x => (F x).andThen (G x) := by
  obtain ⟨label, left⟩ := first.label_eq
  obtain ⟨label', right⟩ := second.label_eq
  have pair : Construction i fun x => .bind (F x) fun a => .bind (G x) fun b => .pure (a, b) :=
    .bind first fun a => .bind second fun b => .pure (a, b)
  simpa only [Parser.andThen, left, right] using
    pair.relabel fun given => label given ++ " andThen " ++ label' given

theorem keepSecond (first : Construction i F) (second : Construction i G) :
    Construction i fun x => (F x).keepSecond (G x) :=
  (first.andThen second).map Prod.snd

end Construction

/-- The same replies, except that a failure may go by another label where the two sides are not
    held to be strictly the same. -/
inductive Matches (strict : Prop) {α : Type} : Reply CellFault α → Reply CellFault α → Prop where
  | same (r : Reply CellFault α) : Matches strict r r
  | relabelled (loose : ¬ strict) (f : Failure) (label : String) :
      Matches strict (.ok (.failure f)) (.ok (.failure (f.relabel label)))

section Matching

variable {strict : Prop} {F : Parser γ (γ i) → Parser γ α} {p q : Parser γ (γ i)}

theorem Matches.eq {r r' : Reply CellFault α} (matched : Matches strict r r') (holds : strict) :
    r' = r := by
  cases matched with
  | same => rfl
  | relabelled loose => exact absurd holds loose

theorem Matches.sameButLabel {o : Outcome α} {r : Reply CellFault α}
    (matched : Matches strict (.ok o) r) : SameButLabel Eq (.ok o) r := by
  cases matched with
  | relabelled loose f label => exact .failure f label
  | same =>
    cases o with
    | success x rest => exact .success x rest
    | failure f => exact .failure f f.label

theorem run_accept_relabel (read : Token → Option α) (label label' : String) (c : Cursor) :
    cells.run (.relabel (.accept read label) label') c = cells.run (.accept read label') c :=
  exec_relabel_accept (cells.delegate (cells.depthAt c)) read label label' c

theorem matches_relabel {p p' : Parser γ α} {c : Cursor} {label label' : String}
    (labels : strict → label' = label) (matched : Matches strict (cells.run p c) (cells.run p' c)) :
    Matches strict (cells.run (.relabel p label) c) (cells.run (.relabel p' label') c) := by
  rw [run_relabel, run_relabel]
  by_cases holds : strict
  · rw [matched.eq holds, labels holds]
    exact .same _
  · generalize cells.run p c = r at matched
    generalize cells.run p' c = r' at matched
    cases matched with
    | relabelled _ f other => exact .relabelled holds (f.relabel label) label'
    | same =>
      cases r with
      | error e => exact .same _
      | ok o =>
        cases o with
        | success x rest => exact .same _
        | failure f => exact .relabelled holds (f.relabel label) label'

theorem matches_accept (read : Token → Option α) {label label' : String}
    (labels : strict → label' = label) (c : Cursor) :
    Matches strict (cells.run (.accept read label) c) (cells.run (.accept read label') c) := by
  rw [← run_accept_relabel read label label, ← run_accept_relabel read label label']
  exact matches_relabel labels (.same _)

theorem matches_peek {p p' : Parser γ α} {c : Cursor}
    (matched : Matches strict (cells.run p c) (cells.run p' c)) :
    Matches strict (cells.run (.peek p) c) (cells.run (.peek p') c) := by
  rw [run_peek, run_peek]
  generalize cells.run p c = r at matched
  generalize cells.run p' c = r' at matched
  cases matched with
  | same => exact .same _
  | relabelled loose f label => exact .relabelled loose f label

theorem matches_bind {p p' : Parser γ α} {next next' : α → Parser γ β} {c : Cursor}
    (first : Matches strict (cells.run p c) (cells.run p' c))
    (second : ∀ x rest, cells.run p c = .ok (.success x rest) →
      Matches strict (cells.run (next x) rest) (cells.run (next' x) rest)) :
    Matches strict (cells.run (.bind p next) c) (cells.run (.bind p' next') c) := by
  rw [run_bind, run_bind]
  generalize cells.run p c = r at first second
  generalize cells.run p' c = r' at first
  cases first with
  | relabelled loose f label => exact .relabelled loose f label
  | same =>
    cases r with
    | error e => exact .same _
    | ok o =>
      cases o with
      | failure f => exact .same _
      | success x rest => exact second x rest rfl

theorem matches_orElse {p p' q q' : Parser γ α} {c : Cursor}
    (first : Matches strict (cells.run p c) (cells.run p' c))
    (second : ∀ f, cells.run p c = .ok (.failure f) →
      Matches strict (cells.run q c) (cells.run q' c)) :
    Matches strict (cells.run (.orElse p q) c) (cells.run (.orElse p' q') c) := by
  rw [run_orElse, run_orElse]
  generalize cells.run p c = r at first second
  generalize cells.run p' c = r' at first
  cases first with
  | relabelled loose f label => exact second f rfl
  | same =>
    cases r with
    | error e => exact .same _
    | ok o =>
      cases o with
      | success x rest => exact .same _
      | failure f => exact second f rfl

theorem matches_many {p p' : Parser γ α} {c : Cursor}
    (round : Matches strict (cells.run p c) (cells.run p' c))
    (again : ∀ x rest, cells.run p c = .ok (.success x rest) → rest ≠ c →
      Matches strict (cells.run (.many p) rest) (cells.run (.many p') rest)) :
    Matches strict (cells.run (.many p) c) (cells.run (.many p') c) := by
  rw [cells.run_many p, cells.run_many p']
  generalize cells.run p c = r at round again
  generalize cells.run p' c = r' at round
  cases round with
  | relabelled loose f label => exact .same _
  | same =>
    cases r with
    | error e => exact .same _
    | ok o =>
      cases o with
      | failure f => exact .same _
      | success x rest =>
        by_cases stays : rest = c
        · simp only [if_pos stays]
          exact .same _
        · simp only [if_neg stays]
          have onward := again x rest rfl stays
          generalize cells.run (.many p) rest = tail at onward
          generalize cells.run (.many p') rest = tail' at onward
          cases onward with
          | same => exact .same _
          | relabelled loose f label => exact .relabelled loose f label

/-- If what the construction calls of the cell matches, so does all of it. The given parser is
    a call of the cell on one side and any other parser on the other. -/
theorem matches_of_construction (construction : Construction i F) {label : String}
    (labels : strict → q.label = label) (c : Cursor)
    (calls : ∀ d, cells.Calls (F (.call label i)) c i d →
      Matches strict (cells.run (.call label i) d) (cells.run q d)) :
    Matches strict (cells.run (F (.call label i)) c) (cells.run (F q) c) := by
  induction construction generalizing c with
  | given => exact calls c (.called label i c)
  | pure value => exact .same _
  | call own j => exact .same _
  | accept read own => exact matches_accept read (fun holds => congrArg own (labels holds)) c
  | relabel own _ inner =>
    exact matches_relabel (fun holds => congrArg own (labels holds))
      (inner c fun d called => calls d (.relabelled called))
  | peek _ inner => exact matches_peek (inner c fun d called => calls d (.peeked called))
  | bind _ _ first second =>
    exact matches_bind (first c fun d called => calls d (.first called)) fun x rest reply =>
      second x rest fun d called => calls d (.second reply called)
  | orElse _ _ first second =>
    exact matches_orElse (first c fun d called => calls d (.preferred called)) fun f reply =>
      second c fun d called => calls d (.alternative reply called)
  | many _ inner =>
    induction size : c.ahead.length using Nat.strongRecOn generalizing c with
    | ind n ih =>
      exact matches_many (inner c fun d called => calls d (.round called))
        fun x rest reply moves => ih _ (size ▸ shrinks_of_success reply moves) rest
          (fun d called => calls d (.again reply moves called)) rfl

end Matching

/-- The recursion through the cell comes back to it only with less left to read, and the other
    cells it comes to are filled and delegations to them end. -/
structure Guarded (cells : Cells γ) (label : String) (i : Nat)
    (F : Parser γ (γ i) → Parser γ (γ i)) : Prop where
  shrinks : ∀ s d, cells.Calls (F (.call label i)) s i d → d.readAll.length < s.readAll.length
  others_set : ∀ s j, cells.Reaches (F (.call label i)) s j → j ≠ i → cells.isSet j
  others_end : ∀ s j d q, cells.Calls (F (.call label i)) s j d → j ≠ i →
    cells.get? j = some q → cells.run q d ≠ .error .endless

/-- A call of the cell answers everywhere and runs like the construction around it, and but for
    labels nothing else does. -/
structure OneMeaning (cells : Cells γ) (label : String) (i : Nat)
    (F : Parser γ (γ i) → Parser γ (γ i)) : Prop where
  answers : ∀ s, ∃ o, cells.run (.call label i) s = .ok o
  nests : ∀ s stack, List.IsChain cells.Delegates ((i, s) :: stack) →
    ((i, s) :: stack).countP (fun a => a.1 = i) ≤ s.readAll.length + 1
  equation : ∀ s, cells.run (.call label i) s = cells.run (F (.call label i)) s
  unique : ∀ q : Parser γ (γ i), q.label = label →
    (∀ s, cells.run q s = cells.run (F q) s) → ∀ s, cells.run q s = cells.run (.call label i) s
  unique_but_label : ∀ q : Parser γ (γ i), (∀ s, cells.run q s = cells.run (F q) s) →
    ∀ s, SameButLabel Eq (cells.run (.call label i) s) (cells.run q s)

section Recursion

variable {label : String} {F : Parser γ (γ i) → Parser γ (γ i)}

theorem run_call_of_held (held : cells.get? i = some (F (.call label i))) (s : Cursor) :
    cells.run (.call label i) s = cells.run (F (.call label i)) s := by
  rw [run_call, held]

theorem Guarded.shorter (guarded : Guarded cells label i F) {s d : Cursor}
    (calls : cells.Calls (F (.call label i)) s i d) : d.ahead.length < s.ahead.length := by
  have less := guarded.shrinks s d calls
  rwa [Cursor.readAll_eq_ahead, Cursor.readAll_eq_ahead] at less

theorem Guarded.ends (guarded : Guarded cells label i F)
    (held : cells.get? i = some (F (.call label i))) (s : Cursor) :
    cells.run (F (.call label i)) s ≠ .error .endless := by
  induction size : s.ahead.length using Nat.strongRecOn generalizing s with
  | ind n ih =>
    apply ends_of_calls
    intro j d q calls filled
    by_cases own : j = i
    · subst own
      obtain rfl : F (.call label j) = q := Option.some.inj (held.symm.trans filled)
      exact ih _ (size ▸ guarded.shorter calls) d rfl
    · exact guarded.others_end s j d q calls own filled

theorem Guarded.answers (guarded : Guarded cells label i F)
    (held : cells.get? i = some (F (.call label i))) (s : Cursor) :
    ∃ o, cells.run (F (.call label i)) s = .ok o := by
  cases reply : cells.run (F (.call label i)) s with
  | ok o => exact ⟨o, rfl⟩
  | error e =>
    have explained := explained_of_run reply
    cases e with
    | endless => exact absurd reply (guarded.ends held s)
    | alreadySet j => exact explained.elim
    | unset j =>
      obtain ⟨reaches, free⟩ := explained
      by_cases own : j = i
      · subst own
        simp [held] at free
      · have filled := guarded.others_set s j reaches own
        simp [isSet, free] at filled

theorem Guarded.matches_solution (guarded : Guarded cells label i F)
    (held : cells.get? i = some (F (.call label i))) (construction : Construction i F)
    {strict : Prop} {q : Parser γ (γ i)} (labels : strict → q.label = label)
    (solution : ∀ s, cells.run q s = cells.run (F q) s) (s : Cursor) :
    Matches strict (cells.run (.call label i) s) (cells.run q s) := by
  induction size : s.ahead.length using Nat.strongRecOn generalizing s with
  | ind n ih =>
    -- each side is the construction around itself, and what that calls of it has less ahead
    rw [run_call_of_held held, solution]
    apply matches_of_construction construction labels
    intro d calls
    exact ih _ (size ▸ guarded.shorter calls) d rfl

theorem Guarded.of_alone (held : cells.get? i = some (F (.call label i)))
    (alone : ∀ s j d, cells.Calls (F (.call label i)) s j d →
      j = i ∧ d.ahead.length < s.ahead.length) : Guarded cells label i F := by
  have own (c : Cursor) (b : Nat × Cursor) (delegates : cells.Delegates (i, c) b) :
      b.1 = i := by
    obtain ⟨q, filled, calls⟩ := delegates
    obtain rfl : F (.call label i) = q := Option.some.inj (held.symm.trans filled)
    exact (alone c b.1 b.2 calls).1
  constructor
  case shrinks =>
    intro s d calls
    rw [Cursor.readAll_eq_ahead, Cursor.readAll_eq_ahead]
    exact (alone s i d calls).2
  case others_set =>
    intro s j reaches other
    obtain ⟨first, last, calls, further, rfl⟩ := leadsTo_of_reaches reaches
    exact absurd (delegations_stay own further (alone s _ _ calls).1) other
  case others_end =>
    intro s j d q calls other
    exact absurd (alone s j d calls).1 other

end Recursion

section Separated

variable {δ : Type} {cells : Cells fun _ => δ} {label : String} {c d : Cursor} {j : Nat}

theorem calls_after_token {t : Token}
    (calls : cells.Calls (.keepSecond (.token t) (.call label i)) c j d) :
    j = i ∧ d.ahead.length < c.ahead.length := by
  simp only [Parser.keepSecond, Parser.andThen, Parser.map, Parser.token, Parser.satisfying,
    calls_bind_iff, calls_relabel_iff, calls_call_iff, not_calls_accept, not_calls_pure,
    and_false, or_false, false_or, exists_false] at calls
  obtain ⟨x, rest, succeeds, rfl, rfl⟩ := calls
  exact ⟨rfl, shrinks_of_accept succeeds⟩

end Separated

def commasThenFlags (x : Parser (fun _ : Nat => Token) Token) :
    Parser (fun _ : Nat => Token) Token :=
  .orElse (.keepSecond (.token .comma) x) (.token .flags)

theorem guarded_commasThenFlags : Guarded commas "commas" 0 commasThenFlags := by
  apply Guarded.of_alone
  · rfl
  · intro s j d calls
    rcases calls_orElse_iff.1 calls with first | ⟨f, fails, second⟩
    · exact calls_after_token first
    · exact absurd second (not_calls_accept _ _)

/-- Guarded recursion answers everywhere and has one meaning, from the moment the cell is
    filled. -/
theorem guarded_recursion {label : String} {F : Parser γ (γ i) → Parser γ (γ i)}
    {before now later : Cells γ} (construction : Construction i F)
    (filled : before.set i (F (.call label i)) = .ok now) (kept : now.KeptIn later)
    (guarded : Guarded later label i F) : OneMeaning later label i F := by
  have held : later.get? i = some (F (.call label i)) := kept i _ (get?_set_self filled)
  have answers (s : Cursor) : ∃ o, later.run (.call label i) s = .ok o := by
    rw [run_call_of_held held]
    exact guarded.answers held s
  constructor
  case answers => exact answers
  case equation => exact run_call_of_held held
  case nests =>
    intro s stack chain
    rw [Cursor.readAll_eq_ahead]
    exact countP_le_of_isChain (answers s) chain
  case unique =>
    intro q same solution s
    exact (guarded.matches_solution held construction (fun _ => same) solution s).eq trivial
  case unique_but_label =>
    intro q solution s
    obtain ⟨o, reply⟩ := answers s
    have matched := guarded.matches_solution held construction False.elim solution s
    rw [reply] at matched ⊢
    exact matched.sameButLabel

theorem guarded_recursion_commas :
    Construction 0 commasThenFlags ∧
      Cells.set { created := 1 } 0 (commasThenFlags (.call "commas" 0)) = .ok commas ∧
      commas.KeptIn commas ∧ Guarded commas "commas" 0 commasThenFlags ∧
      OneMeaning commas "commas" 0 commasThenFlags := by
  have construction : Construction (γ := fun _ => Token) 0 commasThenFlags :=
    .orElse (.keepSecond (.fixed _) .given) (.fixed _)
  have filled : Cells.set { created := 1 } 0 (commasThenFlags (.call "commas" 0)) = .ok commas :=
    rfl
  have kept : commas.KeptIn commas := fun _ _ held => held
  exact ⟨construction, filled, kept, guarded_commasThenFlags,
    guarded_recursion construction filled kept guarded_commasThenFlags⟩

def commasTwice : Cells fun _ => Token where
  created := 2
  filled := [⟨0, .keepSecond (.token .comma) (.call "A" 0)⟩,
    ⟨1, .keepSecond (.token .comma) (.call "B" 1)⟩]

/-- Both are what the construction makes of them, and a failure still tells them apart. -/
theorem commasTwice_differ :
    Construction (γ := fun _ => Token) 0 (.keepSecond (.token .comma)) ∧
      Cells.set { commasTwice with filled := commasTwice.filled.tail } 0
        (.keepSecond (.token .comma) (.call "A" 0)) = .ok commasTwice ∧
      Guarded commasTwice "A" 0 (.keepSecond (.token .comma)) ∧
      Guarded commasTwice "B" 1 (.keepSecond (.token .comma)) ∧
      (∀ s, commasTwice.run (.call "A" 0) s =
        commasTwice.run (.keepSecond (.token .comma) (.call "A" 0)) s) ∧
      (∀ s, commasTwice.run (.call "B" 1) s =
        commasTwice.run (.keepSecond (.token .comma) (.call "B" 1)) s) ∧
      commasTwice.run (.call "A" 0) ⟨[[.comma]], .start⟩ ≠
        commasTwice.run (.call "B" 1) ⟨[[.comma]], .start⟩ := by
  refine ⟨.keepSecond (.fixed _) .given, rfl, ?_, ?_, ?_, ?_, by decide⟩
  · exact Guarded.of_alone rfl fun s j d => calls_after_token
  · exact Guarded.of_alone rfl fun s j d => calls_after_token
  · exact run_call_of_held rfl
  · exact run_call_of_held rfl

end Cells
end ArmAssembly
