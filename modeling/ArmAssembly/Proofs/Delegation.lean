import ArmAssembly.Proofs.Ahead
import Mathlib.Data.Finset.Prod
import Mathlib.Data.Finset.Card

/-!
How deep delegations have to go. A run sees no more of its calls than what they come to on
the tokens that are left. More depth changes no answer, and as soon as one level of depth
brings no new answers, no later level does. There are only so many cells and so many
places in the text, so `Cells.run` comes to whatever some depth comes to.
-/

namespace ArmAssembly
namespace Parser

variable {ι : Type} {γ : ι → Type} {ε : Type} {α : Type}
  {callee callee' : (i : ι) → List Token → Except ε (Scan (γ i))} {fault : ε}

theorem scan_behind (behind : ∀ i ts s, callee i ts = .ok s → s.rest <:+ ts) (p : Parser γ α)
    (ts : List Token) (s : Scan α) (reply : p.scan callee ts = .ok s) : s.rest <:+ ts := by
  have calls (i : ι) :
      Follows (fun c => (callee i c.ahead).map (Scan.outcomeFrom c)) (callee i) :=
    ⟨fun _ => rfl, behind i⟩
  exact (exec_follows_scan calls p).behind ts s reply

/-- Calls that agree wherever the first ones do not run into the fault make no difference to
    a scan that does not run into it. -/
theorem scan_eq_of_calls (behind : ∀ i ts s, callee i ts = .ok s → s.rest <:+ ts)
    (p : Parser γ α) (ts : List Token)
    (same : ∀ i rest, rest <:+ ts → callee i rest ≠ .error fault → callee' i rest = callee i rest)
    (answers : p.scan callee ts ≠ .error fault) : p.scan callee' ts = p.scan callee ts := by
  induction p generalizing ts with
  | accept read label => rfl
  | pure x => rfl
  | bind p next ihp ihnext =>
    have first : p.scan callee ts ≠ .error fault := by
      intro faulty
      simp [scan, faulty] at answers
    rw [scan, scan, ihp ts same first]
    cases reply : p.scan callee ts with
    | error e => rfl
    | ok s =>
      cases s with
      | refused label rest => rfl
      | taken x rest =>
        have shorter : rest <:+ ts := scan_behind behind p ts _ reply
        have onward : (next x).scan callee rest ≠ .error fault := by
          intro faulty
          simp [scan, reply, faulty] at answers
        exact ihnext x rest (fun i last further => same i last (further.trans shorter)) onward
  | orElse p q ihp ihq =>
    have first : p.scan callee ts ≠ .error fault := by
      intro faulty
      simp [scan, faulty] at answers
    rw [scan, scan, ihp ts same first]
    cases reply : p.scan callee ts with
    | error e => rfl
    | ok s =>
      cases s with
      | taken x rest => rfl
      | refused label rest =>
        have second : q.scan callee ts ≠ .error fault := by
          intro faulty
          simp [scan, reply, faulty] at answers
        exact ihq ts same second
  | peek p ih =>
    have inner : p.scan callee ts ≠ .error fault := by
      intro faulty
      simp [scan, faulty] at answers
    rw [scan, scan, ih ts same inner]
  | relabel p label ih =>
    have inner : p.scan callee ts ≠ .error fault := by
      intro faulty
      simp [scan, faulty] at answers
    rw [scan, scan, ih ts same inner]
  | call label i => exact same i ts List.suffix_rfl answers
  | many p ih =>
    rw [scan] at answers ⊢
    rw [scan]
    induction size : ts.length using Nat.strongRecOn generalizing ts with
    | ind n again =>
      have first : p.scan callee ts ≠ .error fault := by
        intro faulty
        rw [scanMany, faulty] at answers
        exact answers rfl
      rw [scanMany] at answers ⊢
      rw [scanMany, ih ts same first]
      cases reply : p.scan callee ts with
      | error e => rfl
      | ok s =>
        cases s with
        | refused label rest => rfl
        | taken x rest =>
          have shorter : rest <:+ ts := scan_behind behind p ts _ reply
          simp only [reply] at answers ⊢
          split
          next less =>
            rw [if_pos less] at answers
            have onward : scanMany (p.scan callee) rest ≠ .error fault := by
              intro faulty
              rw [faulty] at answers
              exact answers rfl
            rw [again rest.length (by omega) rest
              (fun i last further => same i last (further.trans shorter)) onward rfl]
          next => rfl

end Parser

namespace Cells

variable {γ : Nat → Type} {α : Type} (cells : Cells γ)

theorem scanCall_behind (depth i : Nat) (ts : List Token) (s : Scan (γ i))
    (reply : cells.scanCall depth i ts = .ok s) : s.rest <:+ ts :=
  (cells.delegate_follows_scanCall depth i).behind ts s reply

theorem scanCall_of_empty {i : Nat} (free : cells.get? i = none) (depth : Nat) (ts : List Token) :
    cells.scanCall depth i ts = .error (.unset i) := by
  cases depth <;> simp [scanCall, free]

theorem scanCall_succ_of_held {i : Nat} {p : Parser γ (γ i)} (held : cells.get? i = some p)
    (depth : Nat) (ts : List Token) :
    cells.scanCall (depth + 1) i ts = p.scan (cells.scanCall depth) ts := by
  simp [scanCall, held]

theorem scanCall_succ_of_answers (depth i : Nat) (ts : List Token)
    (answers : cells.scanCall depth i ts ≠ .error .endless) :
    cells.scanCall (depth + 1) i ts = cells.scanCall depth i ts := by
  induction depth generalizing i ts with
  | zero =>
    cases held : cells.get? i with
    | none => rw [scanCall_of_empty cells held, scanCall_of_empty cells held]
    | some p => simp [scanCall, held] at answers
  | succ depth ih =>
    cases held : cells.get? i with
    | none => rw [scanCall_of_empty cells held, scanCall_of_empty cells held]
    | some p =>
      rw [scanCall_succ_of_held cells held] at answers ⊢
      rw [scanCall_succ_of_held cells held]
      exact Parser.scan_eq_of_calls (cells.scanCall_behind depth) p ts
        (fun j rest _ inner => ih j rest inner) answers

theorem scanCall_add_of_answers (depth k i : Nat) (ts : List Token)
    (answers : cells.scanCall depth i ts ≠ .error .endless) :
    cells.scanCall (depth + k) i ts = cells.scanCall depth i ts := by
  induction k with
  | zero => rfl
  | succ k ih =>
    have further := cells.scanCall_succ_of_answers (depth + k) i ts (by rwa [ih])
    rw [← Nat.add_assoc, further, ih]

/-- The next level brings no new answers on these tokens and what is left of them. -/
def Settled (depth : Nat) (ts : List Token) : Prop :=
  ∀ i rest, rest <:+ ts → cells.scanCall (depth + 1) i rest = cells.scanCall depth i rest

theorem settled_succ {depth : Nat} {ts : List Token} (settled : cells.Settled depth ts) :
    cells.Settled (depth + 1) ts := by
  intro i rest behind
  cases held : cells.get? i with
  | none => rw [scanCall_of_empty cells held, scanCall_of_empty cells held]
  | some p =>
    rw [scanCall_succ_of_held cells held, scanCall_succ_of_held cells held]
    by_cases answers : p.scan (cells.scanCall depth) rest = .error .endless
    · -- an answer one level further would be an answer here already
      by_contra differs
      rw [answers] at differs
      have back := Parser.scan_eq_of_calls (cells.scanCall_behind (depth + 1)) p rest
        (fun j last further _ => (settled j last (further.trans behind)).symm) differs
      rw [answers] at back
      exact differs back.symm
    · exact Parser.scan_eq_of_calls (cells.scanCall_behind depth) p rest
        (fun j last further _ => settled j last (further.trans behind)) answers

theorem scanCall_add_of_settled {depth : Nat} {ts : List Token}
    (settled : cells.Settled depth ts) (k i : Nat) {rest : List Token} (behind : rest <:+ ts) :
    cells.scanCall (depth + k) i rest = cells.scanCall depth i rest := by
  have always (k : Nat) : cells.Settled (depth + k) ts := by
    induction k with
    | zero => exact settled
    | succ k ih => exact cells.settled_succ ih
  induction k with
  | zero => rfl
  | succ k ih => rw [← Nat.add_assoc, always k i rest behind, ih]

open Classical in
noncomputable def answered (depth : Nat) (ts : List Token) : Finset (Nat × Nat) :=
  ((cells.filled.map Sigma.fst).toFinset ×ˢ Finset.range (ts.length + 1)).filter fun place =>
    cells.scanCall depth place.1 (ts.drop place.2) ≠ .error .endless

theorem card_answered_le (depth : Nat) (ts : List Token) :
    (cells.answered depth ts).card ≤ cells.filled.length * (ts.length + 1) := by
  calc
    (cells.answered depth ts).card ≤
        ((cells.filled.map Sigma.fst).toFinset ×ˢ Finset.range (ts.length + 1)).card := by
      classical
      exact Finset.card_filter_le _ _
    _ = (cells.filled.map Sigma.fst).toFinset.card * (ts.length + 1) := by
      rw [Finset.card_product, Finset.card_range]
    _ ≤ cells.filled.length * (ts.length + 1) := by
      have distinct := (cells.filled.map Sigma.fst).toFinset_card_le
      rw [List.length_map] at distinct
      exact Nat.mul_le_mul_right _ distinct

theorem mem_keys_of_find? {i : Nat} {p : Parser γ (γ i)}
    {entries : List ((i : Nat) × Parser γ (γ i))} (found : find? i entries = some p) :
    i ∈ entries.map Sigma.fst := by
  induction entries with
  | nil => simp [find?] at found
  | cons entry rest ih =>
    by_cases same : entry.1 = i
    · simp [same]
    · have later : find? i rest = some p := by
        obtain ⟨j, q⟩ := entry
        simpa [find?, same] using found
      exact List.mem_cons_of_mem _ (ih later)

/-- A level that is not settled is followed by one with more answers. -/
theorem card_answered_lt {depth : Nat} {ts : List Token} (unsettled : ¬ cells.Settled depth ts) :
    (cells.answered depth ts).card < (cells.answered (depth + 1) ts).card := by
  have grows : cells.answered depth ts ⊆ cells.answered (depth + 1) ts := by
    intro place member
    simp only [answered, Finset.mem_filter] at member ⊢
    rw [cells.scanCall_succ_of_answers _ _ _ member.2]
    exact member
  obtain ⟨i, rest, behind, differs⟩ : ∃ i rest, rest <:+ ts ∧
      cells.scanCall (depth + 1) i rest ≠ cells.scanCall depth i rest := by
    simpa [Settled] using unsettled
  have before : cells.scanCall depth i rest = .error .endless := by
    by_contra answers
    exact differs (cells.scanCall_succ_of_answers depth i rest answers)
  obtain ⟨p, held⟩ : ∃ p, cells.get? i = some p := by
    cases held : cells.get? i with
    | none => simp [scanCall_of_empty cells held] at before
    | some p => exact ⟨p, rfl⟩
  obtain ⟨front, rfl⟩ := behind
  have place : (front ++ rest).drop front.length = rest := by simp
  refine Finset.card_lt_card (Finset.ssubset_iff_of_subset grows |>.2 ⟨(i, front.length), ?_, ?_⟩)
  · simp only [answered, Finset.mem_filter, Finset.mem_product, List.mem_toFinset,
      Finset.mem_range, place]
    rw [before] at differs
    exact ⟨⟨mem_keys_of_find? held, by rw [List.length_append]; omega⟩, differs⟩
  · simp [answered, place, before]

theorem exists_settled (ts : List Token) :
    ∃ depth, depth ≤ cells.filled.length * (ts.length + 1) ∧ cells.Settled depth ts := by
  by_contra never
  have rising (depth : Nat) : depth ≤ cells.filled.length * (ts.length + 1) + 1 →
      depth ≤ (cells.answered depth ts).card := by
    induction depth with
    | zero => intro _; exact Nat.zero_le _
    | succ depth ih =>
      intro bound
      have unsettled : ¬ cells.Settled depth ts := fun settled => never ⟨depth, by omega, settled⟩
      have more := cells.card_answered_lt unsettled
      have enough := ih (by omega)
      omega
  have many := rising _ (Nat.le_refl _)
  have few := cells.card_answered_le (cells.filled.length * (ts.length + 1) + 1) ts
  omega

theorem scanCall_of_answers (depth i : Nat) {ts rest : List Token} (behind : rest <:+ ts)
    (answers : cells.scanCall depth i rest ≠ .error .endless) :
    cells.scanCall (cells.filled.length * (ts.length + 1)) i rest =
      cells.scanCall depth i rest := by
  obtain ⟨level, bound, settled⟩ := cells.exists_settled ts
  obtain ⟨k, enough⟩ := Nat.exists_eq_add_of_le bound
  rw [enough, cells.scanCall_add_of_settled settled k i behind]
  rcases Nat.le_total depth level with below | above
  · obtain ⟨j, rfl⟩ := Nat.exists_eq_add_of_le below
    exact cells.scanCall_add_of_answers depth j i rest answers
  · obtain ⟨j, rfl⟩ := Nat.exists_eq_add_of_le above
    exact (cells.scanCall_add_of_settled settled j i behind).symm

theorem exec_eq_of_scanCall (p : Parser γ α) (c : Cursor) {depth level : Nat}
    (same : ∀ i rest, rest <:+ c.ahead → cells.scanCall depth i rest ≠ .error .endless →
      cells.scanCall level i rest = cells.scanCall depth i rest)
    (answers : p.exec (cells.delegate depth) c ≠ .error .endless) :
    p.exec (cells.delegate level) c = p.exec (cells.delegate depth) c := by
  have follows (depth : Nat) := (cells.exec_follows_scan depth p).agrees c
  have inner : p.scan (cells.scanCall depth) c.ahead ≠ .error .endless := by
    intro faulty
    rw [follows depth, faulty] at answers
    exact answers rfl
  rw [follows, follows, Parser.scan_eq_of_calls (cells.scanCall_behind depth) p c.ahead same inner]

theorem run_eq_of_answers (p : Parser γ α) (c : Cursor) (depth : Nat)
    (answers : p.exec (cells.delegate depth) c ≠ .error .endless) :
    cells.run p c = p.exec (cells.delegate depth) c :=
  cells.exec_eq_of_scanCall p c
    (fun i _ behind further => cells.scanCall_of_answers depth i behind further) answers

theorem exec_add_of_answers (p : Parser γ α) (c : Cursor) (depth k : Nat)
    (answers : p.exec (cells.delegate depth) c ≠ .error .endless) :
    p.exec (cells.delegate (depth + k)) c = p.exec (cells.delegate depth) c :=
  cells.exec_eq_of_scanCall p c
    (fun i rest _ further => cells.scanCall_add_of_answers depth k i rest further) answers

/-- The second fault is told exactly where no depth would do. -/
theorem run_endless_iff (p : Parser γ α) (c : Cursor) :
    cells.run p c = .error .endless ↔
      ∀ depth, p.exec (cells.delegate depth) c = .error .endless := by
  constructor
  · intro faulty depth
    by_contra answers
    rw [cells.run_eq_of_answers p c depth answers] at faulty
    exact answers faulty
  · intro never
    exact never (cells.depthAt c)

theorem exec_of_depthAt_le (p : Parser γ α) {c : Cursor} {depth : Nat}
    (deep : cells.depthAt c ≤ depth) : p.exec (cells.delegate depth) c = cells.run p c := by
  obtain ⟨k, rfl⟩ := Nat.exists_eq_add_of_le deep
  by_cases endless : cells.run p c = .error .endless
  · rw [endless, (cells.run_endless_iff p c).1 endless]
  · exact cells.exec_add_of_answers p c _ k endless

end Cells
end ArmAssembly
