import ArmAssembly.Parser.Basic

/-!
What an answer depends on. A run that answers has only made calls that answer; so calls that
answer at least as often, with the same outcomes, leave it as it is, even where the other
calls end in faults of another kind. In particular a parser that calls no other comes to
one outcome, whatever faults there are.
-/

namespace ArmAssembly.Parser

variable {ι : Type} {γ : ι → Type} {ε ε' α : Type}

theorem runMany_ok_of_run {run : Cursor → Reply ε α} {run' : Cursor → Reply ε' α}
    (answers : ∀ c o, run c = .ok o → run' c = .ok o) (c : Cursor) (o : Outcome (List α))
    (reply : runMany run c = .ok o) : runMany run' c = .ok o := by
  induction size : c.ahead.length using Nat.strongRecOn generalizing c o with
  | ind n ih =>
    rw [runMany] at reply ⊢
    cases first : run c with
    | error e => simp [first] at reply
    | ok r =>
      rw [answers c r first]
      cases r with
      | failure f => simpa [first] using reply
      | success x rest =>
        simp only [first] at reply ⊢
        -- whether there is another round depends on the cursor alone, so both runs go on or stop
        split at reply
        next less =>
          rw [if_pos less]
          cases tail : runMany run rest with
          | error e => simp [tail] at reply
          | ok later =>
            rw [ih rest.ahead.length (by omega) rest later tail rfl]
            cases later <;> simpa [tail] using reply
        next stays =>
          rw [if_neg stays]
          simpa using reply

theorem exec_ok_of_calls {callee : (i : ι) → Cursor → Reply ε (γ i)}
    {callee' : (i : ι) → Cursor → Reply ε' (γ i)}
    (answers : ∀ i c o, callee i c = .ok o → callee' i c = .ok o) (p : Parser γ α) (c : Cursor)
    (o : Outcome α) (reply : p.exec callee c = .ok o) : p.exec callee' c = .ok o := by
  induction p generalizing c with
  | accept read label => simpa [exec] using reply
  | pure x => simpa [exec] using reply
  | bind p next ihp ihnext =>
    rw [exec] at reply ⊢
    cases first : p.exec callee c with
    | error e => simp [first] at reply
    | ok r =>
      rw [ihp c r first]
      cases r with
      | success x rest => exact ihnext x rest o (by simpa [first] using reply)
      | failure f => simpa [first] using reply
  | orElse p q ihp ihq =>
    rw [exec] at reply ⊢
    cases first : p.exec callee c with
    | error e => simp [first] at reply
    | ok r =>
      rw [ihp c r first]
      cases r with
      | success x rest => simpa [first] using reply
      | failure f => exact ihq c o (by simpa [first] using reply)
  | peek p ih =>
    rw [exec] at reply ⊢
    cases inner : p.exec callee c with
    | error e => simp [inner] at reply
    | ok r =>
      rw [ih c r inner]
      cases r <;> simpa [inner] using reply
  | many p ih => exact runMany_ok_of_run ih c o reply
  | relabel p label ih =>
    rw [exec] at reply ⊢
    cases inner : p.exec callee c with
    | error e => simp [inner] at reply
    | ok r =>
      rw [ih c r inner]
      cases r <;> simpa [inner] using reply
  | call label i => exact answers i c o reply

theorem exec_eq_run (callee : (e : Empty) → Cursor → Reply ε (NoCalls e)) (p : Parser NoCalls α)
    (c : Cursor) : p.exec callee c = .ok (p.run c) := by
  have answers : p.exec (ε := Empty) (fun e => e.elim) c = .ok (p.run c) := by
    unfold run
    cases p.exec (ε := Empty) (fun e => e.elim) c with
    | ok o => rfl
    | error e => exact e.elim
  exact exec_ok_of_calls (fun e => e.elim) p c _ answers

theorem exec_eq_ok_iff (callee : (e : Empty) → Cursor → Reply ε (NoCalls e))
    (p : Parser NoCalls α) (c : Cursor) (o : Outcome α) :
    p.exec callee c = .ok o ↔ p.run c = o := by
  rw [exec_eq_run, Except.ok.injEq]

end ArmAssembly.Parser
