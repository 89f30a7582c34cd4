import ArmAssembly.Proofs.CellRuns
import Mathlib.Data.List.Nodup
import Mathlib.Logic.Relation

/-!
The calls a run makes itself. What another cell does when it is called is its own affair, so
a run ends if the calls it makes itself do, and nested delegations are chains of such calls.
A run that answers has no delegation within itself at the same cursor: within a delegation
of a cell there is another one of it only further on, and so at most one for each token
ahead and one more at the end of the input.
-/

namespace ArmAssembly
namespace Cells

open ArmAssembly.Parser

variable {γ : Nat → Type} {α β : Type}

/-- Running the parser from the cursor itself calls the cell at another cursor. -/
inductive Calls (cells : Cells γ) : {α : Type} → Parser γ α → Cursor → Nat → Cursor → Prop where
  | called (label : String) (j : Nat) (c : Cursor) : Calls cells (.call label j) c j c
  | first {α β : Type} {p : Parser γ α} {next : α → Parser γ β} {c d : Cursor} {j : Nat}
      (inner : Calls cells p c j d) : Calls cells (.bind p next) c j d
  | second {α β : Type} {p : Parser γ α} {next : α → Parser γ β} {c rest d : Cursor} {x : α}
      {j : Nat} (succeeds : cells.run p c = .ok (.success x rest))
      (inner : Calls cells (next x) rest j d) : Calls cells (.bind p next) c j d
  | preferred {α : Type} {p q : Parser γ α} {c d : Cursor} {j : Nat}
      (inner : Calls cells p c j d) : Calls cells (.orElse p q) c j d
  | alternative {α : Type} {p q : Parser γ α} {c d : Cursor} {f : Failure} {j : Nat}
      (fails : cells.run p c = .ok (.failure f)) (inner : Calls cells q c j d) :
      Calls cells (.orElse p q) c j d
  | peeked {α : Type} {p : Parser γ α} {c d : Cursor} {j : Nat} (inner : Calls cells p c j d) :
      Calls cells (.peek p) c j d
  | relabelled {α : Type} {p : Parser γ α} {label : String} {c d : Cursor} {j : Nat}
      (inner : Calls cells p c j d) : Calls cells (.relabel p label) c j d
  | round {α : Type} {p : Parser γ α} {c d : Cursor} {j : Nat} (inner : Calls cells p c j d) :
      Calls cells (.many p) c j d
  | again {α : Type} {p : Parser γ α} {c rest d : Cursor} {x : α} {j : Nat}
      (succeeds : cells.run p c = .ok (.success x rest)) (moves : rest ≠ c)
      (inner : Calls cells (.many p) rest j d) : Calls cells (.many p) c j d

variable {cells : Cells γ}

section Inversion

variable {c d : Cursor} {j : Nat}

theorem not_calls_accept (read : Token → Option α) (label : String) :
    ¬ cells.Calls (.accept read label) c j d := nofun

theorem not_calls_pure (x : α) : ¬ cells.Calls (.pure x) c j d := nofun

theorem calls_bind_iff {p : Parser γ α} {next : α → Parser γ β} :
    cells.Calls (.bind p next) c j d ↔ cells.Calls p c j d ∨
      ∃ x rest, cells.run p c = .ok (.success x rest) ∧ cells.Calls (next x) rest j d := by
  constructor
  · intro calls
    cases calls with
    | first inner => exact Or.inl inner
    | second succeeds inner => exact Or.inr ⟨_, _, succeeds, inner⟩
  · rintro (inner | ⟨x, rest, succeeds, inner⟩)
    · exact .first inner
    · exact .second succeeds inner

theorem calls_orElse_iff {p q : Parser γ α} :
    cells.Calls (.orElse p q) c j d ↔ cells.Calls p c j d ∨
      ∃ f, cells.run p c = .ok (.failure f) ∧ cells.Calls q c j d := by
  constructor
  · intro calls
    cases calls with
    | preferred inner => exact Or.inl inner
    | alternative fails inner => exact Or.inr ⟨_, fails, inner⟩
  · rintro (inner | ⟨f, fails, inner⟩)
    · exact .preferred inner
    · exact .alternative fails inner

theorem calls_relabel_iff {p : Parser γ α} {label : String} :
    cells.Calls (.relabel p label) c j d ↔ cells.Calls p c j d := by
  constructor
  · intro calls
    cases calls with
    | relabelled inner => exact inner
  · exact .relabelled

theorem calls_call_iff {δ : Type} {cells : Cells fun _ => δ} {label : String} {i : Nat} :
    cells.Calls (.call label i) c j d ↔ j = i ∧ d = c := by
  constructor
  · intro calls
    cases calls
    exact ⟨rfl, rfl⟩
  · rintro ⟨rfl, rfl⟩
    exact .called label j d

end Inversion

theorem advances_of_success {p : Parser γ α} {c rest : Cursor} {x : α}
    (succeeds : cells.run p c = .ok (.success x rest)) : ∃ k, rest = Cursor.advance^[k] c :=
  (cells.run_disciplined p c _ succeeds).1

theorem shrinks_of_success {p : Parser γ α} {c rest : Cursor} {x : α}
    (succeeds : cells.run p c = .ok (.success x rest)) (moves : rest ≠ c) :
    rest.ahead.length < c.ahead.length :=
  (cells.exec_follows_scan (cells.depthAt c) p).shrinks succeeds moves

theorem shrinks_of_accept {read : Token → Option α} {label : String} {x : α} {c rest : Cursor}
    (succeeds : cells.run (.accept read label) c = .ok (.success x rest)) :
    rest.ahead.length < c.ahead.length := by
  rw [run, exec, Except.ok.injEq] at succeeds
  unfold runAccept at succeeds
  cases step : c.next? with
  | none => simp [step] at succeeds
  | some taken =>
    obtain ⟨t, after⟩ := taken
    simp only [step] at succeeds
    split at succeeds
    · obtain ⟨_, rfl⟩ := Outcome.success.inj succeeds
      exact Cursor.ahead_shrinks step
    · cases succeeds

theorem Calls.advances {p : Parser γ α} {c d : Cursor} {j : Nat} (calls : cells.Calls p c j d) :
    ∃ k, d = Cursor.advance^[k] c := by
  induction calls with
  | called label j c => exact ⟨0, rfl⟩
  | first inner ih => exact ih
  | preferred inner ih => exact ih
  | alternative fails inner ih => exact ih
  | peeked inner ih => exact ih
  | relabelled inner ih => exact ih
  | round inner ih => exact ih
  | second succeeds inner ih =>
    obtain ⟨k, rfl⟩ := advances_of_success succeeds
    obtain ⟨m, rfl⟩ := ih
    exact ⟨m + k, (Function.iterate_add_apply _ m k _).symm⟩
  | again succeeds moves inner ih =>
    obtain ⟨k, rfl⟩ := advances_of_success succeeds
    obtain ⟨m, rfl⟩ := ih
    exact ⟨m + k, (Function.iterate_add_apply _ m k _).symm⟩

/-- A run ends if what it delegates to ends. -/
theorem ends_of_calls (p : Parser γ α) (c : Cursor)
    (ends : ∀ j d q, cells.Calls p c j d → cells.get? j = some q →
      cells.run q d ≠ .error .endless) :
    cells.run p c ≠ .error .endless := by
  induction p generalizing c with
  | accept read label => simp [run, exec]
  | pure x => simp [run, exec]
  | call label j =>
    rw [run_call]
    cases held : cells.get? j with
    | none => simp
    | some q => exact ends j c q (.called label j c) held
  | bind p next ihp ihnext =>
    have first := ihp c fun j d q calls => ends j d q (.first calls)
    rw [run_bind]
    cases reply : cells.run p c with
    | error e => simpa [reply] using first
    | ok o =>
      cases o with
      | failure f => simp
      | success x rest => exact ihnext x rest fun j d q calls => ends j d q (.second reply calls)
  | orElse p q ihp ihq =>
    have first := ihp c fun j d q calls => ends j d q (.preferred calls)
    rw [run_orElse]
    cases reply : cells.run p c with
    | error e => simpa [reply] using first
    | ok o =>
      cases o with
      | success x rest => simp
      | failure f => exact ihq c fun j d q calls => ends j d q (.alternative reply calls)
  | peek p ih =>
    have inner := ih c fun j d q calls => ends j d q (.peeked calls)
    rw [run_peek]
    cases reply : cells.run p c with
    | error e => simpa [reply] using inner
    | ok o => cases o <;> simp
  | relabel p label ih =>
    have inner := ih c fun j d q calls => ends j d q (.relabelled calls)
    rw [run_relabel]
    cases reply : cells.run p c with
    | error e => simpa [reply] using inner
    | ok o => cases o <;> simp
  | many p ih =>
    induction size : c.ahead.length using Nat.strongRecOn generalizing c with
    | ind n again =>
      have round := ih c fun j d q calls => ends j d q (.round calls)
      rw [run_many]
      cases reply : cells.run p c with
      | error e => simpa [reply] using round
      | ok o =>
        cases o with
        | failure f => simp
        | success x rest =>
          by_cases stays : rest = c
          · simp [stays]
          · have tail := again _ (size ▸ shrinks_of_success reply stays) rest
              (fun j d q calls => ends j d q (.again reply stays calls)) rfl
            simp only [if_neg stays]
            cases later : cells.run (.many p) rest with
            | error e => simpa [later] using tail
            | ok o => cases o <;> simp

theorem exec_eq_run_or_endless (p : Parser γ α) (c : Cursor) (depth : Nat) :
    p.exec (cells.delegate depth) c = cells.run p c ∨
      p.exec (cells.delegate depth) c = .error .endless := by
  by_cases endless : p.exec (cells.delegate depth) c = .error .endless
  · exact Or.inr endless
  · exact Or.inl (cells.run_eq_of_answers p c depth endless).symm

/-- A fault of a call that is made is not lost on the way out. -/
theorem Calls.faults {p : Parser γ α} {c d : Cursor} {j depth : Nat} {e : CellFault}
    (calls : cells.Calls p c j d) (faulty : cells.delegate depth j d = .error e) :
    ∃ e', p.exec (cells.delegate depth) c = .error e' := by
  induction calls with
  | called label j c => exact ⟨e, faulty⟩
  | first inner ih | preferred inner ih | peeked inner ih | relabelled inner ih =>
    obtain ⟨e', ih⟩ := ih faulty
    exact ⟨e', by rw [exec, ih]⟩
  | round inner ih =>
    obtain ⟨e', ih⟩ := ih faulty
    exact ⟨e', by rw [exec, runMany, ih]⟩
  | @second α β p next c rest d x j succeeds inner ih =>
    obtain ⟨e', ih⟩ := ih faulty
    rcases exec_eq_run_or_endless p c depth with same | endless
    · exact ⟨e', by rw [exec, same, succeeds]; exact ih⟩
    · exact ⟨.endless, by rw [exec, endless]⟩
  | @alternative α p q c d f j fails inner ih =>
    obtain ⟨e', ih⟩ := ih faulty
    rcases exec_eq_run_or_endless p c depth with same | endless
    · exact ⟨e', by rw [exec, same, fails]; exact ih⟩
    · exact ⟨.endless, by rw [exec, endless]⟩
  | @again α p c rest d x j succeeds moves inner ih =>
    obtain ⟨e', ih⟩ := ih faulty
    rcases exec_eq_run_or_endless p c depth with same | endless
    · have less := shrinks_of_success succeeds moves
      rw [exec] at ih
      exact ⟨e', by rw [exec, runMany, same, succeeds]; simp only [if_pos less, ih]⟩
    · exact ⟨.endless, by rw [exec, runMany, endless]⟩

section Nesting

/-- What the first cell holds, run from the first cursor, itself calls the second cell at the
    second cursor. -/
def Delegates (cells : Cells γ) (a b : Nat × Cursor) : Prop :=
  ∃ q, cells.get? a.1 = some q ∧ cells.Calls q a.2 b.1 b.2

def AnswersWithin (cells : Cells γ) (depth : Nat) (a : Nat × Cursor) : Prop :=
  ∃ o, cells.delegate depth a.1 a.2 = .ok o

variable {a b : Nat × Cursor} {depth : Nat}

theorem Delegates.answersWithin (delegates : cells.Delegates a b)
    (answers : cells.AnswersWithin depth a) : ∃ less < depth, cells.AnswersWithin less b := by
  obtain ⟨q, held, calls⟩ := delegates
  obtain ⟨o, reply⟩ := answers
  cases depth with
  | zero => simp [delegate, held] at reply
  | succ depth =>
    have body : q.exec (cells.delegate depth) a.2 = .ok o := by
      simpa [delegate, held] using reply
    refine ⟨depth, Nat.lt_succ_self depth, ?_⟩
    cases inner : cells.delegate depth b.1 b.2 with
    | ok o' => exact ⟨o', inner⟩
    | error e =>
      obtain ⟨e', faulty⟩ := calls.faults inner
      simp [faulty] at body

open Relation

theorem answersWithin_of_transGen (nested : TransGen cells.Delegates a b)
    (answers : cells.AnswersWithin depth a) : ∃ less < depth, cells.AnswersWithin less b := by
  induction nested with
  | single delegates => exact delegates.answersWithin answers
  | tail _ delegates ih =>
    obtain ⟨less, below, further⟩ := ih
    obtain ⟨least, lower, last⟩ := delegates.answersWithin further
    exact ⟨least, by omega, last⟩

theorem not_transGen_self (answers : cells.AnswersWithin depth a) :
    ¬ TransGen cells.Delegates a a := by
  intro loop
  induction depth using Nat.strongRecOn with
  | ind depth ih =>
    obtain ⟨less, below, again⟩ := answersWithin_of_transGen loop answers
    exact ih less below again

theorem advances_of_transGen (nested : TransGen cells.Delegates a b) :
    ∃ k, b.2 = Cursor.advance^[k] a.2 := by
  induction nested with
  | single delegates => exact delegates.choose_spec.2.advances
  | tail _ delegates ih =>
    obtain ⟨k, here⟩ := ih
    obtain ⟨m, there⟩ := delegates.choose_spec.2.advances
    exact ⟨m + k, by rw [there, here, Function.iterate_add_apply]⟩

theorem shrinks_of_transGen (answers : cells.AnswersWithin depth a)
    (nested : TransGen cells.Delegates a b) (same : b.1 = a.1) :
    b.2.ahead.length < a.2.ahead.length := by
  obtain ⟨k, advances⟩ := advances_of_transGen nested
  rw [advances, Cursor.advance_iterate_shrinks_iff, ← advances]
  intro stays
  have loop : b = a := Prod.ext same stays
  rw [loop] at nested
  exact not_transGen_self answers nested

theorem ahead_length_le_of_transGen (nested : TransGen cells.Delegates a b) :
    b.2.ahead.length ≤ a.2.ahead.length := by
  obtain ⟨k, advances⟩ := advances_of_transGen nested
  rw [advances, Cursor.ahead_advance_iterate, List.length_drop]
  omega

theorem countP_le_of_isChain {i : Nat} {c : Cursor} {stack : List (Nat × Cursor)}
    (answers : cells.AnswersWithin depth (i, c))
    (chain : List.IsChain cells.Delegates ((i, c) :: stack)) :
    ((i, c) :: stack).countP (fun a => a.1 = i) ≤ c.ahead.length + 1 := by
  have nested : ((i, c) :: stack).Pairwise (TransGen cells.Delegates) :=
    (chain.imp fun _ _ => TransGen.single).pairwise
  have inside : ∀ a ∈ (i, c) :: stack, a = (i, c) ∨ TransGen cells.Delegates (i, c) a := by
    intro a member
    exact (List.mem_cons.1 member).imp_right fun later => List.rel_of_pairwise_cons nested later
  have answering : ∀ a ∈ (i, c) :: stack, ∃ less, cells.AnswersWithin less a := by
    intro a member
    rcases inside a member with rfl | further
    · exact ⟨depth, answers⟩
    · obtain ⟨less, _, last⟩ := answersWithin_of_transGen further answers
      exact ⟨less, last⟩
  -- what is ahead of the calls of the cell: ever less, and never more than at the start
  let lengths := (((i, c) :: stack).filter fun a => a.1 = i).map fun a => a.2.ahead.length
  have distinct : lengths.Nodup := by
    refine List.pairwise_map.2 (nested.filter _ |>.imp_of_mem ?_)
    intro a b first second further
    simp only [List.mem_filter, decide_eq_true_eq] at first second
    obtain ⟨less, reply⟩ := answering a first.1
    have shrinks := shrinks_of_transGen reply further (second.2.trans first.2.symm)
    omega
  have bounded : lengths ⊆ List.range (c.ahead.length + 1) := by
    intro n member
    obtain ⟨a, kept, rfl⟩ := List.mem_map.1 member
    rw [List.mem_range, Nat.lt_succ_iff]
    rcases inside a (List.mem_of_mem_filter kept) with rfl | further
    · exact Nat.le_refl _
    · exact ahead_length_le_of_transGen further
  calc
    ((i, c) :: stack).countP (fun a => a.1 = i) = lengths.length := by
      rw [List.length_map, List.countP_eq_length_filter]
    _ ≤ (List.range (c.ahead.length + 1)).length := distinct.length_le_of_subset bounded
    _ = c.ahead.length + 1 := List.length_range

def LeadsTo (cells : Cells γ) (p : Parser γ α) (c : Cursor) (j : Nat) : Prop :=
  ∃ first last, cells.Calls p c first.1 first.2 ∧ ReflTransGen cells.Delegates first last ∧
    last.1 = j

theorem LeadsTo.mono {p : Parser γ α} {q : Parser γ β} {c d : Cursor} {j : Nat}
    (leads : cells.LeadsTo p c j) (calls : ∀ k e, cells.Calls p c k e → cells.Calls q d k e) :
    cells.LeadsTo q d j := by
  obtain ⟨first, last, own, further⟩ := leads
  exact ⟨first, last, calls _ _ own, further⟩

theorem leadsTo_of_reaches {p : Parser γ α} {c : Cursor} {j : Nat}
    (reaches : cells.Reaches p c j) : cells.LeadsTo p c j := by
  induction reaches with
  | called label i c => exact ⟨(i, c), (i, c), .called label i c, .refl, rfl⟩
  | @delegated label i j p c held inner ih =>
    obtain ⟨first, last, own, further, rfl⟩ := ih
    exact ⟨(i, c), last, .called label i c, .head ⟨p, held, own⟩ further, rfl⟩
  | first inner ih => exact ih.mono fun k e => .first
  | second succeeds inner ih => exact ih.mono fun k e => .second succeeds
  | preferred inner ih => exact ih.mono fun k e => .preferred
  | alternative fails inner ih => exact ih.mono fun k e => .alternative fails
  | peeked inner ih => exact ih.mono fun k e => .peeked
  | relabelled inner ih => exact ih.mono fun k e => .relabelled
  | round inner ih => exact ih.mono fun k e => .round
  | again succeeds moves inner ih => exact ih.mono fun k e => .again succeeds moves

theorem delegations_stay {i : Nat} (own : ∀ c b, cells.Delegates (i, c) b → b.1 = i)
    (further : ReflTransGen cells.Delegates a b) (start : a.1 = i) : b.1 = i := by
  induction further with
  | refl => exact start
  | @tail b c _ delegates ih =>
    obtain ⟨j, d⟩ := b
    obtain rfl : j = i := ih
    exact own d c delegates

end Nesting

end Cells
end ArmAssembly
