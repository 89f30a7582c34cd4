import ArmAssembly.Proofs.Answers
import ArmAssembly.Proofs.Delegation
import ArmAssembly.Proofs.Discipline

/-!
Running with cells, without depths. The equations say of a run what the source text of a
parser says, as if delegation went on without a limit: a call is a run of what its cell
holds. A run that answers goes on answering the same when more cells are filled. A run that
does not answer either goes on for ever or has come to a call of an empty cell, and such a
call is never lost on the way out.
-/

namespace ArmAssembly
namespace Cells

open ArmAssembly.Parser

variable {γ : Nat → Type} {α β : Type} (cells : Cells γ)

theorem depthAt_le_of_success {p : Parser γ α} {c rest : Cursor} {x : α}
    (succeeds : cells.run p c = .ok (.success x rest)) : cells.depthAt rest ≤ cells.depthAt c := by
  obtain ⟨⟨k, rfl⟩, _⟩ := cells.run_disciplined p c _ succeeds
  have shorter : (Cursor.advance^[k] c).ahead.length ≤ c.ahead.length := by
    rw [Cursor.ahead_advance_iterate, List.length_drop]
    omega
  exact Nat.mul_le_mul_left _ (Nat.succ_le_succ shorter)

theorem exec_depthAt (p : Parser γ α) (c : Cursor) :
    p.exec (cells.delegate (cells.depthAt c)) c = cells.run p c := rfl

theorem run_bind (p : Parser γ α) (next : α → Parser γ β) (c : Cursor) :
    cells.run (.bind p next) c =
      match cells.run p c with
      | .ok (.success x rest) => cells.run (next x) rest
      | .ok (.failure f) => .ok (.failure f)
      | .error e => .error e := by
  rw [run, exec, exec_depthAt]
  cases reply : cells.run p c with
  | error e => rfl
  | ok o =>
    cases o with
    | failure f => rfl
    | success x rest => exact cells.exec_of_depthAt_le (next x) (cells.depthAt_le_of_success reply)

theorem run_orElse (p q : Parser γ α) (c : Cursor) :
    cells.run (.orElse p q) c =
      match cells.run p c with
      | .ok (.failure _) => cells.run q c
      | reply => reply := by
  rw [run, exec, exec_depthAt]
  cases cells.run p c with
  | error e => rfl
  | ok o => cases o <;> rfl

theorem run_peek (p : Parser γ α) (c : Cursor) :
    cells.run (.peek p) c =
      match cells.run p c with
      | .ok (.success x _) => .ok (.success x c)
      | reply => reply := by
  rw [run, exec, exec_depthAt]
  cases cells.run p c with
  | error e => rfl
  | ok o => cases o <;> rfl

theorem run_relabel (p : Parser γ α) (label : String) (c : Cursor) :
    cells.run (.relabel p label) c =
      match cells.run p c with
      | .ok (.failure f) => .ok (.failure (f.relabel label))
      | reply => reply := by
  rw [run, exec, exec_depthAt]
  cases cells.run p c with
  | error e => rfl
  | ok o => cases o <;> rfl

theorem run_many (p : Parser γ α) (c : Cursor) :
    cells.run (.many p) c =
      match cells.run p c with
      | .error e => .error e
      | .ok (.failure _) => .ok (.success [] c)
      | .ok (.success x rest) =>
        if rest = c then .ok (.success [x] c)
        else
          match cells.run (.many p) rest with
          | .ok (.success xs last) => .ok (.success (x :: xs) last)
          | reply => reply := by
  rw [run, exec, (cells.exec_follows_scan (cells.depthAt c) p).runMany_eq, exec_depthAt]
  cases reply : cells.run p c with
  | error e => rfl
  | ok o =>
    cases o with
    | failure f => rfl
    | success x rest =>
      have tail := cells.exec_of_depthAt_le (.many p) (cells.depthAt_le_of_success reply)
      rw [exec] at tail
      simp only [tail]
      split
      · rfl
      · cases cells.run (.many p) rest with
        | error e => rfl
        | ok later => cases later <;> rfl

theorem run_call (label : String) (i : Nat) (c : Cursor) :
    cells.run (.call label i) c =
      match cells.get? i with
      | none => .error (.unset i)
      | some p => cells.run p c := by
  cases held : cells.get? i with
  | none =>
    rw [run, exec]
    cases cells.depthAt c <;> simp [delegate, held]
  | some p =>
    -- delegation leaves the parser of the cell one level less, and one level does not matter
    have unfolded (depth : Nat) : (Parser.call label i).exec (cells.delegate (depth + 1)) c =
        p.exec (cells.delegate depth) c := by
      simp [exec, delegate, held]
    simp only
    by_cases endless : cells.run p c = .error .endless
    · rw [endless, run_endless_iff]
      intro depth
      cases depth with
      | zero => simp [exec, delegate, held]
      | succ depth => rw [unfolded, (cells.run_endless_iff p c).1 endless]
    · have deeper := unfolded (cells.depthAt c)
      rw [cells.exec_of_depthAt_le p (Nat.le_refl _)] at deeper
      rw [cells.run_eq_of_answers _ c (cells.depthAt c + 1) (by rwa [deeper]), deeper]

section Kept

def KeptIn (cells later : Cells γ) : Prop :=
  ∀ i p, cells.get? i = some p → later.get? i = some p

variable {cells} {later : Cells γ}

theorem delegate_ok_of_kept (kept : cells.KeptIn later) (depth i : Nat) (c : Cursor)
    (o : Outcome (γ i)) (reply : cells.delegate depth i c = .ok o) :
    later.delegate depth i c = .ok o := by
  induction depth generalizing i c with
  | zero => cases held : cells.get? i <;> simp [delegate, held] at reply
  | succ depth ih =>
    cases held : cells.get? i with
    | none => simp [delegate, held] at reply
    | some p =>
      have inner : p.exec (cells.delegate depth) c = .ok o := by simpa [delegate, held] using reply
      simpa [delegate, kept i p held] using exec_ok_of_calls ih p c o inner

theorem run_ok_of_kept (kept : cells.KeptIn later) {p : Parser γ α} {c : Cursor} {o : Outcome α}
    (reply : cells.run p c = .ok o) : later.run p c = .ok o := by
  have same : p.exec (later.delegate (cells.depthAt c)) c = .ok o :=
    exec_ok_of_calls (delegate_ok_of_kept kept (cells.depthAt c)) p c o reply
  rw [later.run_eq_of_answers p c (cells.depthAt c) (by simp [same]), same]

end Kept

/-- Running the parser from the cursor comes to a call of the cell. What has to be run before
    that is run as it would be alone. -/
inductive Reaches (cells : Cells γ) : {α : Type} → Parser γ α → Cursor → Nat → Prop where
  | called (label : String) (i : Nat) (c : Cursor) : Reaches cells (.call label i) c i
  | delegated {label : String} {i j : Nat} {p : Parser γ (γ i)} {c : Cursor}
      (held : cells.get? i = some p) (inner : Reaches cells p c j) :
      Reaches cells (.call label i) c j
  | first {α β : Type} {p : Parser γ α} {next : α → Parser γ β} {c : Cursor} {j : Nat}
      (inner : Reaches cells p c j) : Reaches cells (.bind p next) c j
  | second {α β : Type} {p : Parser γ α} {next : α → Parser γ β} {c rest : Cursor} {x : α}
      {j : Nat} (succeeds : cells.run p c = .ok (.success x rest))
      (inner : Reaches cells (next x) rest j) : Reaches cells (.bind p next) c j
  | preferred {α : Type} {p q : Parser γ α} {c : Cursor} {j : Nat} (inner : Reaches cells p c j) :
      Reaches cells (.orElse p q) c j
  | alternative {α : Type} {p q : Parser γ α} {c : Cursor} {f : Failure} {j : Nat}
      (fails : cells.run p c = .ok (.failure f)) (inner : Reaches cells q c j) :
      Reaches cells (.orElse p q) c j
  | peeked {α : Type} {p : Parser γ α} {c : Cursor} {j : Nat} (inner : Reaches cells p c j) :
      Reaches cells (.peek p) c j
  | relabelled {α : Type} {p : Parser γ α} {label : String} {c : Cursor} {j : Nat}
      (inner : Reaches cells p c j) : Reaches cells (.relabel p label) c j
  | round {α : Type} {p : Parser γ α} {c : Cursor} {j : Nat} (inner : Reaches cells p c j) :
      Reaches cells (.many p) c j
  | again {α : Type} {p : Parser γ α} {c rest : Cursor} {x : α} {j : Nat}
      (succeeds : cells.run p c = .ok (.success x rest)) (moves : rest ≠ c)
      (inner : Reaches cells (.many p) rest j) : Reaches cells (.many p) c j

theorem run_of_reaches {p : Parser γ α} {c : Cursor} {i : Nat} (reaches : cells.Reaches p c i)
    (free : cells.get? i = none) : cells.run p c = .error (.unset i) := by
  induction reaches with
  | called label i c => rw [run_call, free]
  | delegated held inner ih => rw [run_call, held]; exact ih free
  | first inner ih => rw [run_bind, ih free]
  | second succeeds inner ih => rw [run_bind, succeeds]; exact ih free
  | preferred inner ih => rw [run_orElse, ih free]
  | alternative fails inner ih => rw [run_orElse, fails]; exact ih free
  | peeked inner ih => rw [run_peek, ih free]
  | relabelled inner ih => rw [run_relabel, ih free]
  | round inner ih => rw [run_many, ih free]
  | again succeeds moves inner ih =>
    rw [run_many, succeeds]
    simp only [if_neg moves, ih free]

/-- A fault that ends a run is explained if it is that of an empty cell the run has come to, or
    if the run would go on for ever. -/
def Explained (cells : Cells γ) (p : Parser γ α) (c : Cursor) : CellFault → Prop
  | .unset i => cells.Reaches p c i ∧ cells.get? i = none
  | .alreadySet _ => False
  | .endless => True

variable {cells}

theorem Explained.mono {p : Parser γ α} {q : Parser γ β} {c d : Cursor} {e : CellFault}
    (explained : cells.Explained p c e) (further : ∀ i, cells.Reaches p c i → cells.Reaches q d i) :
    cells.Explained q d e := by
  cases e with
  | unset i => exact ⟨further i explained.1, explained.2⟩
  | alreadySet i => exact explained
  | endless => trivial

theorem run_of_exec {depth : Nat} {p : Parser γ α} {c : Cursor} {o : Outcome α}
    (reply : p.exec (cells.delegate depth) c = .ok o) : cells.run p c = .ok o := by
  rw [cells.run_eq_of_answers p c depth (by simp [reply]), reply]

theorem explained_of_calls {depth : Nat}
    (calls : ∀ label i c e, cells.delegate depth i c = .error e →
      cells.Explained (.call label i) c e)
    (p : Parser γ α) (c : Cursor) (e : CellFault)
    (faulty : p.exec (cells.delegate depth) c = .error e) : cells.Explained p c e := by
  induction p generalizing c with
  | accept read label => simp [exec] at faulty
  | pure x => simp [exec] at faulty
  | bind p next ihp ihnext =>
    rw [exec] at faulty
    cases first : p.exec (cells.delegate depth) c with
    | error e' =>
      obtain rfl : e' = e := by simpa [first] using faulty
      exact (ihp c first).mono fun i => .first
    | ok o =>
      cases o with
      | failure f => simp [first] at faulty
      | success x rest =>
        have onward := ihnext x rest (by simpa [first] using faulty)
        exact onward.mono fun i => .second (run_of_exec first)
  | orElse p q ihp ihq =>
    rw [exec] at faulty
    cases first : p.exec (cells.delegate depth) c with
    | error e' =>
      obtain rfl : e' = e := by simpa [first] using faulty
      exact (ihp c first).mono fun i => .preferred
    | ok o =>
      cases o with
      | success x rest => simp [first] at faulty
      | failure f =>
        have onward := ihq c (by simpa [first] using faulty)
        exact onward.mono fun i => .alternative (run_of_exec first)
  | peek p ih =>
    rw [exec] at faulty
    cases inner : p.exec (cells.delegate depth) c with
    | error e' =>
      obtain rfl : e' = e := by simpa [inner] using faulty
      exact (ih c inner).mono fun i => .peeked
    | ok o => cases o <;> simp [inner] at faulty
  | relabel p label ih =>
    rw [exec] at faulty
    cases inner : p.exec (cells.delegate depth) c with
    | error e' =>
      obtain rfl : e' = e := by simpa [inner] using faulty
      exact (ih c inner).mono fun i => .relabelled
    | ok o => cases o <;> simp [inner] at faulty
  | call label i => exact calls label i c e faulty
  | many p ih =>
    rw [exec] at faulty
    induction size : c.ahead.length using Nat.strongRecOn generalizing c with
    | ind n again =>
      rw [runMany] at faulty
      cases first : p.exec (cells.delegate depth) c with
      | error e' =>
        obtain rfl : e' = e := by simpa [first] using faulty
        exact (ih c first).mono fun i => .round
      | ok o =>
        cases o with
        | failure f => simp [first] at faulty
        | success x rest =>
          simp only [first] at faulty
          split at faulty
          next less =>
            -- less is ahead, so the round has moved the cursor
            have moves : rest ≠ c := by
              rintro rfl
              exact Nat.lt_irrefl _ less
            cases tail : runMany (p.exec (cells.delegate depth)) rest with
            | error e' =>
              obtain rfl : e' = e := by simpa [tail] using faulty
              have onward := again rest.ahead.length (by omega) rest tail rfl
              exact onward.mono fun i => .again (run_of_exec first) moves
            | ok o => cases o <;> simp [tail] at faulty
          next => cases faulty

theorem explained_of_delegate (depth : Nat) (label : String) (i : Nat) (c : Cursor) (e : CellFault)
    (faulty : cells.delegate depth i c = .error e) : cells.Explained (.call label i) c e := by
  induction depth generalizing label i c e with
  | zero =>
    cases held : cells.get? i with
    | none =>
      obtain rfl : .unset i = e := by simpa [delegate, held] using faulty
      exact ⟨.called label i c, held⟩
    | some p =>
      obtain rfl : .endless = e := by simpa [delegate, held] using faulty
      trivial
  | succ depth ih =>
    cases held : cells.get? i with
    | none =>
      obtain rfl : .unset i = e := by simpa [delegate, held] using faulty
      exact ⟨.called label i c, held⟩
    | some p =>
      have inner := explained_of_calls ih p c e (by simpa [delegate, held] using faulty)
      exact inner.mono fun j => .delegated held

/-- A run that does not answer has come to an empty cell or goes on for ever. -/
theorem explained_of_run {p : Parser γ α} {c : Cursor} {e : CellFault}
    (faulty : cells.run p c = .error e) : cells.Explained p c e :=
  explained_of_calls (explained_of_delegate (cells.depthAt c)) p c e faulty

end Cells
end ArmAssembly
