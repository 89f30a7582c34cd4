import ArmAssembly.Proofs.Labels
import ArmAssembly.Proofs.MaximalChains

/-!
A list by recursion and by repetition. The cell of the recursion holds an item and, behind a
separator, the list again; repetition takes an item and then separators and items as long as it
can. The two agree if a separator and an item together always move the cursor. An item alone need
not: what grows less from one item to the next is what is ahead behind it.
-/

namespace ArmAssembly
namespace Cells

open ArmAssembly.Parser

variable {γ : Nat → Type} {α β : Type} {cells : Cells γ}

def listAround (p : Parser γ α) (separator : Parser γ β) (list : Parser γ (List α)) :
    Parser γ (List α) :=
  map2 (fun head tail => head :: tail.getD []) p (maybe (keepSecond separator list))

section Recursion

variable {p : Parser γ α} {separator : Parser γ β} {list : Parser γ (List α)} {i : Nat}

theorem tails_agree (call : list.IsCall i) (held : cells.Holds i (listAround p separator list))
    (items : cells.AnswersEverywhere p) (separators : cells.AnswersEverywhere separator)
    (progress : ∀ c x rest,
      cells.run (.bind separator fun _ => p) c = .ok (.success x rest) → rest ≠ c)
    (c : Cursor) :
    ∃ tail last, cells.run (maybe (keepSecond separator list)) c = .ok (.success tail last) ∧
      cells.run (.many (.bind separator fun _ => p)) c = .ok (.success (tail.getD []) last) := by
  induction size : c.ahead.length using Nat.strongRecOn generalizing c with
  | ind n ih =>
    rw [run_maybe, run_keepSecond, run_many, run_bind]
    obtain ⟨o, separated⟩ := separators c
    cases o with
    | failure f => exact ⟨none, c, by simp [separated], by simp [separated]⟩
    | success y behind =>
      obtain ⟨o, item⟩ := items behind
      -- the cell begins with the item that a round of the repetition ends with
      have again := run_of_isCall call held behind
      rw [listAround, run_map2, item] at again
      cases o with
      | failure f =>
        exact ⟨none, c, by simp [separated, again], by simp [separated, item]⟩
      | success x rest =>
        have both : cells.run (.bind separator fun _ => p) c = .ok (.success x rest) := by
          rw [run_bind, separated]
          exact item
        have moves := progress c x rest both
        obtain ⟨tail, last, recursion, repetition⟩ :=
          ih _ (size ▸ shrinks_of_success both moves) rest rfl
        exact ⟨some (x :: tail.getD []), last, by simp [separated, again, recursion],
          by simp [separated, item, moves, repetition]⟩

/-- The list by recursion comes to an outcome everywhere, and the list by repetition to the
    same. -/
theorem list_grammar_agrees (call : list.IsCall i)
    (held : cells.Holds i (listAround p separator list)) (items : cells.AnswersEverywhere p)
    (separators : cells.AnswersEverywhere separator)
    (progress : ∀ c x rest,
      cells.run (.bind separator fun _ => p) c = .ok (.success x rest) → rest ≠ c)
    (c : Cursor) :
    ∃ o, cells.run list c = .ok o ∧ cells.run (sepBy1 p separator) c = .ok o := by
  rw [run_of_isCall call held, listAround, sepBy1, run_map2, run_map2]
  obtain ⟨o, item⟩ := items c
  rw [item]
  cases o with
  | failure f => exact ⟨_, rfl, rfl⟩
  | success x rest =>
    obtain ⟨tail, last, recursion, repetition⟩ :=
      tails_agree call held items separators progress rest
    refine ⟨.success (x :: tail.getD []) last, ?_, ?_⟩
    · rw [Reply.goOn_success, recursion, Reply.goOn_success]
    · rw [Reply.goOn_success, run_many_keepSecond separators items, repetition,
        Reply.goOn_success]

end Recursion

theorem moves_of_accept (separator : Parser γ β) (read : Token → Option α) (label : String)
    (c : Cursor) (x : α) (rest : Cursor)
    (both : cells.run (.bind separator fun _ => .accept read label) c = .ok (.success x rest)) :
    rest ≠ c := by
  rintro rfl
  rw [run_bind] at both
  cases first : cells.run separator rest with
  | error e => simp [first] at both
  | ok o =>
    cases o with
    | failure f => simp [first] at both
    | success y behind =>
      simp only [first] at both
      have less := shrinks_of_accept both
      by_cases stays : behind = rest
      · rw [stays] at less
        exact Nat.lt_irrefl _ less
      · have shrinks := shrinks_of_success first stays
        omega

def registerList : Cells fun _ => List Register where
  created := 1
  filled := [⟨0, listAround Field.register (maybe Field.comma) (.call "registers" 0)⟩]

theorem list_grammar_agrees_registers :
    (Parser.call (γ := fun _ => List Register) "registers" 0).IsCall 0 ∧
      registerList.Holds 0
        (listAround Field.register (maybe Field.comma) (.call "registers" 0)) ∧
      registerList.AnswersEverywhere Field.register ∧
      registerList.AnswersEverywhere (maybe Field.comma) ∧
      (∀ c x rest, registerList.run (.bind (maybe Field.comma) fun _ => Field.register) c =
        .ok (.success x rest) → rest ≠ c) ∧
      registerList.run (sepBy1 Field.register (maybe Field.comma))
          ⟨[[.register ⟨0⟩, .register ⟨1⟩, .comma, .register ⟨2⟩, .comma]], .start⟩ =
        .ok (.success [⟨0⟩, ⟨1⟩, ⟨2⟩]
          ⟨[[.register ⟨0⟩, .register ⟨1⟩, .comma, .register ⟨2⟩, .comma]], ⟨0, 4⟩⟩) := by
  have call := IsCall.call (γ := fun _ => List Register) (i := 0) "registers"
  have held : registerList.Holds 0
      (listAround Field.register (maybe Field.comma) (.call "registers" 0)) := .filled rfl
  have items : registerList.AnswersEverywhere Field.register := fun c => ⟨_, rfl⟩
  have separators : registerList.AnswersEverywhere (maybe Field.comma) :=
    answers_of_callFree ⟨⟨trivial, fun _ => trivial⟩, trivial⟩
  have moves (c : Cursor) (x : Register) (rest : Cursor) :
      registerList.run (.bind (maybe Field.comma) fun _ => Field.register) c =
        .ok (.success x rest) → rest ≠ c :=
    moves_of_accept (maybe Field.comma) Token.register? "Register" c x rest
  obtain ⟨o, recursion, repetition⟩ := list_grammar_agrees call held items separators moves
    ⟨[[.register ⟨0⟩, .register ⟨1⟩, .comma, .register ⟨2⟩, .comma]], .start⟩
  refine ⟨call, held, items, separators, moves, repetition.trans (recursion.symm.trans ?_)⟩
  rfl

/-- Where a separator and an item may leave the cursor where it is, repetition stops and the
    recursion does not. -/
example :
    Cells.run (γ := fun _ => List Unit)
      ⟨1, [⟨0, listAround (.pure ()) (.pure ()) (.call "units" 0)⟩]⟩ (.call "units" 0)
      ⟨[], .start⟩ = .error .endless := rfl

end Cells
end ArmAssembly
