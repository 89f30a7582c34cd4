import ArmAssembly.Instruction.Field
import ArmAssembly.Proofs.CombinatorRuns
import ArmAssembly.Proofs.Repetition
import Mathlib.Data.List.OfFn

/-!
What a repetition takes. From a cursor there is just one chain of successes that goes on as long
as it can, and a repetition yields the values along it and stands at its end; a success that
leaves the cursor where it was is the last of the chain. A list with separators is its first item
and the chain of a separator and an item behind that, so it ends behind an item.
-/

namespace ArmAssembly

/-- A chain of successes that goes on as long as it can: to a failure, or to a success that leaves
    the cursor where it was. -/
structure Chain {ε α : Type} (run : Cursor → Reply ε α) (c : Cursor) where
  length : Nat
  cursor : Fin (length + 1) → Cursor
  value : Fin length → α
  starts : cursor 0 = c
  succeeds : ∀ i : Fin length,
    run (cursor i.castSucc) = .ok (.success (value i) (cursor i.succ))
  moves : ∀ i : Fin length, i + 1 < length → cursor i.succ ≠ cursor i.castSucc
  stops : (∃ f, run (cursor (.last length)) = .ok (.failure f)) ∨
    ∃ i : Fin length, i + 1 = length ∧ cursor i.succ = cursor i.castSucc

namespace Chain

variable {ε α : Type} {run run' : Cursor → Reply ε α} {c rest : Cursor} {x : α}

def values (chain : Chain run c) : List α := List.ofFn chain.value

def last (chain : Chain run c) : Cursor := chain.cursor (.last chain.length)

def refused {f : Failure} (fails : run c = .ok (.failure f)) : Chain run c where
  length := 0
  cursor := fun _ => c
  value := Fin.elim0
  starts := rfl
  succeeds := fun i => i.elim0
  moves := fun i => i.elim0
  stops := Or.inl ⟨f, fails⟩

def stayed (succeeds : run c = .ok (.success x c)) : Chain run c where
  length := 1
  cursor := fun _ => c
  value := fun _ => x
  starts := rfl
  succeeds := fun _ => succeeds
  moves := fun i further => by omega
  stops := Or.inr ⟨0, rfl, rfl⟩

def cons (succeeds : run c = .ok (.success x rest)) (moves : rest ≠ c) (chain : Chain run rest) :
    Chain run c where
  length := chain.length + 1
  cursor := Fin.cons c chain.cursor
  value := Fin.cons x chain.value
  starts := rfl
  succeeds := by
    refine Fin.cases ?_ fun i => ?_
    · simpa [chain.starts] using succeeds
    · simpa [← Fin.succ_castSucc] using chain.succeeds i
  moves := by
    refine Fin.cases ?_ fun i => ?_
    · intro _
      simpa [chain.starts] using moves
    · intro further
      simpa [← Fin.succ_castSucc] using chain.moves i (by simpa using further)
  stops := by
    rcases chain.stops with fails | ⟨i, final, stays⟩
    · exact Or.inl (by simpa [← Fin.succ_last] using fails)
    · exact Or.inr ⟨i.succ, by simpa using final, by simpa [← Fin.succ_castSucc] using stays⟩

theorem values_cons (succeeds : run c = .ok (.success x rest)) (moves : rest ≠ c)
    (chain : Chain run rest) : (chain.cons succeeds moves).values = x :: chain.values := by
  simp [values, cons, List.ofFn_succ]

theorem last_cons (succeeds : run c = .ok (.success x rest)) (moves : rest ≠ c)
    (chain : Chain run rest) : (chain.cons succeeds moves).last = chain.last := by
  simp [last, cons, ← Fin.succ_last]

theorem cursor_eq (a b : Chain run c) (i : Nat) (left : i < a.length + 1)
    (right : i < b.length + 1) : a.cursor ⟨i, left⟩ = b.cursor ⟨i, right⟩ := by
  induction i with
  | zero => exact a.starts.trans b.starts.symm
  | succ i ih =>
    have here := ih (by omega) (by omega)
    have first := a.succeeds ⟨i, by omega⟩
    have second := b.succeeds ⟨i, by omega⟩
    simp only [Fin.castSucc_mk, Fin.succ_mk] at first second
    rw [here, second] at first
    exact (Outcome.success.inj (Except.ok.inj first)).2.symm

/-- Neither goes further than the other, because each stops where it has to. -/
theorem length_le (a b : Chain run c) : b.length ≤ a.length := by
  by_contra further
  -- the longer chain goes on from where the shorter one has stopped
  rcases a.stops with ⟨f, fails⟩ | ⟨i, final, stays⟩
  · have goes := b.succeeds ⟨a.length, by omega⟩
    have here := cursor_eq a b a.length (by omega) (by omega)
    simp only [Fin.castSucc_mk] at goes
    rw [← here] at goes
    simp [Fin.last, goes] at fails
  · have goes := b.moves ⟨i, by omega⟩ (by simp only; omega)
    have here := cursor_eq a b i (by omega) (by omega)
    have there := cursor_eq a b (i + 1) (by omega) (by omega)
    simp only [Fin.castSucc_mk, Fin.succ_mk] at goes
    rw [← here, ← there] at goes
    exact goes stays

instance subsingleton : Subsingleton (Chain run c) where
  allEq a b := by
    have same : a.length = b.length := Nat.le_antisymm (length_le b a) (length_le a b)
    have cursors := cursor_eq a b
    obtain ⟨n, cursor, value, starts, succeeds, moves, stops⟩ := a
    obtain ⟨m, cursor', value', starts', succeeds', moves', stops'⟩ := b
    obtain rfl : n = m := same
    obtain rfl : cursor = cursor' := funext fun i => cursors i i.isLt i.isLt
    obtain rfl : value = value' := by
      funext i
      have first := (succeeds i).symm.trans (succeeds' i)
      exact (Outcome.success.inj (Except.ok.inj first)).1
    rfl

/-- From the cursor there is one chain and no other, along these values and to this place. -/
def OnlyChain {ε α : Type} (run : Cursor → Reply ε α) (c : Cursor) (values : List α)
    (last : Cursor) : Prop :=
  ∃ chain : Chain run c, (∀ other, other = chain) ∧ chain.values = values ∧ chain.last = last

end Chain

namespace Cells

open ArmAssembly.Parser

variable {γ : Nat → Type} {α β : Type} {cells : Cells γ}

theorem exists_chain {p : Parser γ α} (answers : cells.AnswersEverywhere p) (c : Cursor) :
    ∃ chain : Chain (cells.run p) c,
      cells.run (.many p) c = .ok (.success chain.values chain.last) := by
  induction size : c.ahead.length using Nat.strongRecOn generalizing c with
  | ind n ih =>
    rw [run_many]
    obtain ⟨o, reply⟩ := answers c
    cases o with
    | failure f => exact ⟨.refused reply, by rw [reply]; rfl⟩
    | success x rest =>
      by_cases stays : rest = c
      · subst stays
        exact ⟨.stayed reply, by simp only [reply]; rfl⟩
      · obtain ⟨chain, further⟩ := ih _ (size ▸ shrinks_of_success reply stays) rest rfl
        refine ⟨chain.cons reply stays, ?_⟩
        simp only [reply, if_neg stays, further, Chain.values_cons, Chain.last_cons]

theorem run_many_onlyChain {p : Parser γ α} (answers : cells.AnswersEverywhere p) (c : Cursor) :
    ∃ values last, cells.run (.many p) c = .ok (.success values last) ∧
      Chain.OnlyChain (cells.run p) c values last := by
  obtain ⟨chain, whole⟩ := exists_chain answers c
  exact ⟨_, _, whole, chain, fun other => Subsingleton.elim other chain, rfl, rfl⟩

theorem matches_many_of_rounds {strict : Prop} {p p' : Parser γ α}
    (rounds : ∀ c, Matches strict (cells.run p c) (cells.run p' c)) (c : Cursor) :
    Matches strict (cells.run (.many p) c) (cells.run (.many p') c) := by
  induction size : c.ahead.length using Nat.strongRecOn generalizing c with
  | ind n ih =>
    apply matches_many (rounds c)
    intro x rest reply moves
    exact ih _ (size ▸ shrinks_of_success reply moves) rest rfl

theorem run_many_of_rounds {p p' : Parser γ α} (answers : cells.AnswersEverywhere p)
    (rounds : ∀ c, Matches False (cells.run p c) (cells.run p' c)) (c : Cursor) :
    cells.run (.many p') c = cells.run (.many p) c := by
  obtain ⟨xs, last, whole, _⟩ := run_many_onlyChain answers c
  have same := matches_many_of_rounds rounds c
  rw [whole] at same ⊢
  generalize cells.run (.many p') c = r at same
  cases same with
  | same => rfl

theorem matches_relabelled (r : Reply CellFault α) (label : String) :
    Matches False r (r.relabel label) := by
  cases r using Reply.cases with
  | success x rest => exact .same _
  | failure f => exact .relabelled id f label
  | fault e => exact .same _

theorem matches_keepSecond (separator : Parser γ β) (p : Parser γ α) (c : Cursor) :
    Matches False (cells.run (.bind separator fun _ => p) c)
      (cells.run (keepSecond separator p) c) := by
  rw [run_bind_goOn, run_keepSecond]
  exact matches_relabelled _ _

theorem run_many_keepSecond {separator : Parser γ β} {p : Parser γ α}
    (separators : cells.AnswersEverywhere separator) (items : cells.AnswersEverywhere p)
    (c : Cursor) :
    cells.run (.many (keepSecond separator p)) c =
      cells.run (.many (.bind separator fun _ => p)) c :=
  run_many_of_rounds (answers_bind separators fun _ => items) (matches_keepSecond separator p) c

/-- A repetition takes the one chain there is, and a list takes an item and then the one chain of
    separators with items; a separator without text leaves a plain repetition. -/
structure TakesMaximalRuns (cells : Cells γ) (p : Parser γ α) (separator : Parser γ β) : Prop where
  many : ∀ c, ∃ values last, cells.run (.many p) c = .ok (.success values last) ∧
    Chain.OnlyChain (cells.run p) c values last
  fails : ∀ c f, cells.run (sepBy1 p separator) c = .ok (.failure f) ↔
    cells.run p c = .ok (.failure f)
  list : ∀ c x rest, cells.run p c = .ok (.success x rest) → ∃ values last,
    cells.run (sepBy1 p separator) c = .ok (.success (x :: values) last) ∧
      Chain.OnlyChain (cells.run (.bind separator fun _ => p)) rest values last
  many1 : ∀ {δ : Type} (y : δ) c, cells.run (many1 p) c = cells.run (sepBy1 p (.pure y)) c

/-- Repetition takes the maximal run and gives back what it has not used. -/
theorem repetition_takes_maximal_run {p : Parser γ α} {separator : Parser γ β}
    (items : cells.AnswersEverywhere p) (separators : cells.AnswersEverywhere separator) :
    TakesMaximalRuns cells p separator := by
  have list (c : Cursor) (x : α) (rest : Cursor) (first : cells.run p c = .ok (.success x rest)) :
      ∃ values last, cells.run (sepBy1 p separator) c = .ok (.success (x :: values) last) ∧
        Chain.OnlyChain (cells.run (.bind separator fun _ => p)) rest values last := by
    obtain ⟨values, last, further, only⟩ :=
      run_many_onlyChain (answers_bind separators fun _ => items) rest
    refine ⟨values, last, ?_, only⟩
    rw [sepBy1, run_map2, first]
    simp only [Reply.goOn_success, run_many_keepSecond separators items, further]
  constructor
  case many => exact run_many_onlyChain items
  case list => exact list
  case fails =>
    intro c f
    constructor
    · intro fails
      obtain ⟨o, reply⟩ := items c
      cases o with
      | success x rest =>
        obtain ⟨values, last, whole, _⟩ := list c x rest reply
        cases whole.symm.trans fails
      | failure g =>
        rw [sepBy1, run_map2, reply] at fails
        obtain rfl : g = f := by simpa using fails
        exact reply
    · intro fails
      rw [sepBy1, run_map2, fails, Reply.goOn_failure]
  case many1 =>
    intro δ y c
    have rounds (c : Cursor) :
        Matches False (cells.run p c) (cells.run (keepSecond (.pure y) p) c) :=
      matches_keepSecond (.pure y) p c
    rw [Parser.many1, sepBy1, run_map2, run_map2]
    simp only [run_many_of_rounds items rounds]

def suffixList : Line :=
  [.comma, .flags, .register ⟨1⟩, .comma, .flags, .register ⟨1⟩, .comma, .comma]

theorem repetition_takes_maximal_run_commas :
    commas.AnswersEverywhere (.call "commas" 0) ∧ commas.AnswersEverywhere Field.register ∧
      TakesMaximalRuns commas (.call "commas" 0) Field.register ∧
      commas.run (sepBy1 (.call "commas" 0) Field.register) ⟨[suffixList], .start⟩ =
        .ok (.success [.flags, .flags] ⟨[suffixList], ⟨0, 5⟩⟩) := by
  have registers : commas.AnswersEverywhere Field.register := fun c => ⟨_, rfl⟩
  have takes := repetition_takes_maximal_run answers_commas registers
  refine ⟨answers_commas, registers, takes, ?_⟩
  obtain ⟨values, last, whole, chain, only, rfl, rfl⟩ :=
    takes.list ⟨[suffixList], .start⟩ .flags ⟨[suffixList], ⟨0, 2⟩⟩ rfl
  let second : Chain (commas.run (.bind Field.register fun _ => .call "commas" 0))
      ⟨[suffixList], ⟨0, 5⟩⟩ := .refused (f := ⟨"S", .unexpected .comma, suffixList, ⟨0, 6⟩⟩) rfl
  rw [whole, ← only (second.cons (x := .flags) rfl (by decide))]
  rfl

end Cells

end ArmAssembly
