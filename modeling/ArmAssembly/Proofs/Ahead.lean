import ArmAssembly.Parser.Cells
import Mathlib.Logic.Function.Iterate

/-!
Running a parser, told by what is ahead of the cursor alone. `scan` runs a parser on a
list of tokens and gives back the tokens that are left; the cursor only keeps count.
The main statement is `exec_follows_scan`: a parser run from a cursor comes to what it comes
to on the tokens ahead, and stands where that many of them have been read.
-/

namespace ArmAssembly
namespace Cursor

def advance (c : Cursor) : Cursor :=
  match c.next? with
  | none => c
  | some (_, d) => d

def refusal (c : Cursor) : Reason :=
  match c.next? with
  | none => .noMoreInput
  | some (t, _) => .ofToken t

/-- Where the cursor stands once only `rest` is ahead of it. -/
def downTo (c : Cursor) (rest : List Token) : Cursor :=
  advance^[c.ahead.length - rest.length] c

theorem next?_eq_none_iff (c : Cursor) : c.next? = none ↔ c.ahead = [] := by
  constructor
  · exact ahead_of_no_next
  · intro empty
    cases step : c.next? with
    | none => rfl
    | some read => simp [ahead_of_next step] at empty

theorem next?_of_ahead_cons {c : Cursor} {t : Token} {rest : List Token}
    (before : c.ahead = t :: rest) : c.next? = some (t, c.advance) ∧ c.advance.ahead = rest := by
  cases step : c.next? with
  | none => simp [ahead_of_no_next step] at before
  | some read =>
    obtain ⟨u, d⟩ := read
    have same := before.symm.trans (ahead_of_next step)
    simp only [List.cons.injEq] at same
    simp [advance, step, same.1, same.2]

theorem refusal_of_ahead_nil {c : Cursor} (empty : c.ahead = []) : c.refusal = .noMoreInput := by
  simp [refusal, (next?_eq_none_iff c).2 empty]

theorem refusal_of_ahead_cons {c : Cursor} {t : Token} {rest : List Token}
    (before : c.ahead = t :: rest) : c.refusal = .ofToken t := by
  simp [refusal, (next?_of_ahead_cons before).1]

theorem ahead_advance (c : Cursor) : c.advance.ahead = c.ahead.tail := by
  cases before : c.ahead with
  | nil => simp [advance, (next?_eq_none_iff c).2 before, before]
  | cons t rest => exact (next?_of_ahead_cons before).2

theorem ahead_advance_iterate (k : Nat) (c : Cursor) : (advance^[k] c).ahead = c.ahead.drop k := by
  induction k generalizing c with
  | zero => rfl
  | succ k ih => simp [Function.iterate_succ_apply, ih, ahead_advance]

theorem ahead_downTo {c : Cursor} {rest : List Token} (behind : rest <:+ c.ahead) :
    (c.downTo rest).ahead = rest := by
  obtain ⟨taken, split⟩ := behind
  simp [downTo, ahead_advance_iterate, ← split]

theorem downTo_ahead (c : Cursor) : c.downTo c.ahead = c := by
  simp [downTo]

theorem downTo_tail {c : Cursor} {t : Token} {rest : List Token} (before : c.ahead = t :: rest) :
    c.downTo rest = c.advance := by
  simp [downTo, before]

theorem downTo_downTo {c : Cursor} {rest last : List Token} (behind : rest <:+ c.ahead)
    (further : last <:+ rest) : (c.downTo rest).downTo last = c.downTo last := by
  have first := behind.length_le
  have second := further.length_le
  rw [downTo, ahead_downTo behind, downTo, ← Function.iterate_add_apply, downTo]
  congr 1
  omega

end Cursor

/-- What reading a list of tokens comes to, with the tokens that are left. -/
inductive Scan (α : Type) where
  | taken (value : α) (rest : List Token)
  | refused (label : String) (rest : List Token)

namespace Scan

variable {α : Type}

def rest : Scan α → List Token
  | taken _ rest => rest
  | refused _ rest => rest

def relabel (s : Scan α) (label : String) : Scan α :=
  match s with
  | taken x rest => taken x rest
  | refused _ rest => refused label rest

def outcomeFrom (c : Cursor) : Scan α → Outcome α
  | taken x rest => .success x (c.downTo rest)
  | refused label rest => .failure (.atCursor label (c.downTo rest).refusal (c.downTo rest))

theorem outcomeFrom_downTo {c : Cursor} {ahead : List Token} {s : Scan α}
    (behind : ahead <:+ c.ahead) (further : s.rest <:+ ahead) :
    s.outcomeFrom (c.downTo ahead) = s.outcomeFrom c := by
  have same := Cursor.downTo_downTo behind further
  cases s with
  | taken x last =>
    simp only [rest] at same
    simp only [outcomeFrom, same]
  | refused label last =>
    simp only [rest] at same
    simp only [outcomeFrom, same]

end Scan

namespace Parser

variable {ι : Type} {γ : ι → Type} {ε : Type} {α β : Type}

def scanAccept (read : Token → Option α) (label : String) : List Token → Scan α
  | [] => .refused label []
  | t :: rest =>
    match read t with
    | some x => .taken x rest
    | none => .refused label (t :: rest)

def scanMany (scan : List Token → Except ε (Scan α)) (ts : List Token) :
    Except ε (Scan (List α)) :=
  match scan ts with
  | .error e => .error e
  | .ok (.refused _ _) => .ok (.taken [] ts)
  | .ok (.taken x rest) =>
    if rest.length < ts.length then
      match scanMany scan rest with
      | .ok (.taken xs last) => .ok (.taken (x :: xs) last)
      | reply => reply
    else
      .ok (.taken [x] rest)
termination_by ts.length

def scan (callee : (i : ι) → List Token → Except ε (Scan (γ i))) :
    {α : Type} → Parser γ α → List Token → Except ε (Scan α)
  | _, accept read label, ts => .ok (scanAccept read label ts)
  | _, pure x, ts => .ok (.taken x ts)
  | _, bind p next, ts =>
    match scan callee p ts with
    | .ok (.taken x rest) => scan callee (next x) rest
    | .ok (.refused label rest) => .ok (.refused label rest)
    | .error e => .error e
  | _, orElse p q, ts =>
    match scan callee p ts with
    | .ok (.refused _ _) => scan callee q ts
    | reply => reply
  | _, peek p, ts =>
    match scan callee p ts with
    | .ok (.taken x _) => .ok (.taken x ts)
    | reply => reply
  | _, many p, ts => scanMany (scan callee p) ts
  | _, relabel p label, ts =>
    match scan callee p ts with
    | .ok (.refused _ rest) => .ok (.refused label rest)
    | reply => reply
  | _, call _ i, ts => callee i ts

/-- A run from a cursor follows a scan of the tokens ahead, and the scan only drops tokens
    from the front. -/
structure Follows (run : Cursor → Reply ε α) (scan : List Token → Except ε (Scan α)) : Prop where
  agrees : ∀ c, run c = (scan c.ahead).map (Scan.outcomeFrom c)
  behind : ∀ ts s, scan ts = .ok s → s.rest <:+ ts

theorem runAccept_eq_scanAccept (read : Token → Option α) (label : String) (c : Cursor) :
    runAccept read label c = (scanAccept read label c.ahead).outcomeFrom c := by
  cases before : c.ahead with
  | nil =>
    have stay : c.downTo [] = c := by rw [← before, Cursor.downTo_ahead]
    simp [runAccept, (Cursor.next?_eq_none_iff c).2 before, scanAccept, Scan.outcomeFrom, stay,
      Cursor.refusal_of_ahead_nil before]
  | cons t rest =>
    have stay : c.downTo (t :: rest) = c := by rw [← before, Cursor.downTo_ahead]
    have step := (Cursor.next?_of_ahead_cons before).1
    cases taken : read t with
    | some x =>
      simp [runAccept, step, scanAccept, taken, Scan.outcomeFrom, Cursor.downTo_tail before]
    | none =>
      simp [runAccept, step, scanAccept, taken, Scan.outcomeFrom, stay,
        Cursor.refusal_of_ahead_cons before]

theorem scanAccept_behind (read : Token → Option α) (label : String) (ts : List Token) :
    (scanAccept read label ts).rest <:+ ts := by
  cases ts with
  | nil => simp [scanAccept, Scan.rest]
  | cons t rest => cases taken : read t <;> simp [scanAccept, taken, Scan.rest]

theorem Follows.agrees_downTo {run : Cursor → Reply ε α}
    {scan : List Token → Except ε (Scan α)} (follows : Follows run scan) {c : Cursor}
    {rest : List Token} (behind : rest <:+ c.ahead) :
    run (c.downTo rest) = (scan rest).map (Scan.outcomeFrom c) := by
  rw [follows.agrees, Cursor.ahead_downTo behind]
  cases reply : scan rest with
  | error e => rfl
  | ok s => simp [Except.map, Scan.outcomeFrom_downTo behind (follows.behind rest s reply)]

theorem scanMany_behind {scan : List Token → Except ε (Scan α)}
    (behind : ∀ ts s, scan ts = .ok s → s.rest <:+ ts) (ts : List Token) (s : Scan (List α))
    (reply : scanMany scan ts = .ok s) : s.rest <:+ ts := by
  induction size : ts.length using Nat.strongRecOn generalizing ts s with
  | ind n ih =>
    rw [scanMany] at reply
    cases first : scan ts with
    | error e => simp [first] at reply
    | ok r =>
      cases r with
      | refused label rest =>
        simp only [first, Except.ok.injEq] at reply
        simp [← reply, Scan.rest]
      | taken x rest =>
        have shorter : rest <:+ ts := behind _ _ first
        simp only [first] at reply
        split at reply
        next less =>
          have onward := ih rest.length (by omega) rest
          cases tail : scanMany scan rest with
          | error e => simp [tail] at reply
          | ok later =>
            have further := (onward later tail rfl).trans shorter
            cases later with
            | taken xs last =>
              simp only [tail, Except.ok.injEq] at reply
              simpa [← reply, Scan.rest] using further
            | refused label last =>
              simp only [tail, Except.ok.injEq] at reply
              simpa [← reply, Scan.rest] using further
        next =>
          simp only [Except.ok.injEq] at reply
          simpa [← reply, Scan.rest] using shorter

theorem follows_many {run : Cursor → Reply ε α} {scan : List Token → Except ε (Scan α)}
    (follows : Follows run scan) : Follows (runMany run) (scanMany scan) := by
  refine ⟨?_, scanMany_behind follows.behind⟩
  intro c
  induction size : c.ahead.length using Nat.strongRecOn generalizing c with
  | ind n ih =>
    rw [runMany, scanMany, follows.agrees]
    cases first : scan c.ahead with
    | error e => rfl
    | ok s =>
      cases s with
      | refused label rest => simp [Except.map, Scan.outcomeFrom, Cursor.downTo_ahead]
      | taken x rest =>
        have shorter : rest <:+ c.ahead := follows.behind _ _ first
        have left := Cursor.ahead_downTo shorter
        simp only [Except.map, Scan.outcomeFrom, left]
        split
        next less =>
          have onward := ih rest.length (by omega) (c.downTo rest) (by rw [left])
          rw [left] at onward
          rw [onward]
          cases tail : scanMany scan rest with
          | error e => rfl
          | ok later =>
            have further := scanMany_behind follows.behind _ _ tail
            have same := Scan.outcomeFrom_downTo shorter further
            cases later <;> simp_all [Except.map, Scan.outcomeFrom]
        next => rfl

section Running

variable {callee : (i : ι) → Cursor → Reply ε (γ i)}
  {heard : (i : ι) → List Token → Except ε (Scan (γ i))}

theorem follows_accept (read : Token → Option α) (label : String) :
    Follows ((accept read label).exec callee) ((accept read label).scan heard) := by
  constructor
  · intro c
    simp [exec, scan, Except.map, runAccept_eq_scanAccept]
  · intro ts s reply
    obtain rfl := Except.ok.inj reply
    exact scanAccept_behind read label ts

theorem follows_pure (x : α) : Follows ((pure x).exec callee) ((pure x).scan heard) := by
  constructor
  · intro c
    simp [exec, scan, Except.map, Scan.outcomeFrom, Cursor.downTo_ahead]
  · intro ts s reply
    obtain rfl := Except.ok.inj reply
    exact List.suffix_rfl

theorem follows_bind {p : Parser γ α} {next : α → Parser γ β}
    (first : Follows (p.exec callee) (p.scan heard))
    (second : ∀ x, Follows ((next x).exec callee) ((next x).scan heard)) :
    Follows ((bind p next).exec callee) ((bind p next).scan heard) := by
  constructor
  · intro c
    rw [exec, scan, first.agrees]
    cases reply : p.scan heard c.ahead with
    | error e => rfl
    | ok s =>
      cases s with
      | refused label rest => rfl
      | taken x rest => exact (second x).agrees_downTo (first.behind _ _ reply)
  · intro ts s result
    rw [scan] at result
    cases reply : p.scan heard ts with
    | error e => simp [reply] at result
    | ok r =>
      have shorter := first.behind _ _ reply
      cases r with
      | refused label rest =>
        simp only [reply, Except.ok.injEq] at result
        simpa [← result, Scan.rest] using shorter
      | taken x rest =>
        simp only [reply] at result
        exact ((second x).behind _ _ result).trans shorter

theorem follows_orElse {p q : Parser γ α} (first : Follows (p.exec callee) (p.scan heard))
    (second : Follows (q.exec callee) (q.scan heard)) :
    Follows ((orElse p q).exec callee) ((orElse p q).scan heard) := by
  constructor
  · intro c
    rw [exec, scan, first.agrees]
    cases reply : p.scan heard c.ahead with
    | error e => rfl
    | ok s =>
      cases s with
      | refused label rest => exact second.agrees c
      | taken x rest => rfl
  · intro ts s result
    rw [scan] at result
    cases reply : p.scan heard ts with
    | error e => simp [reply] at result
    | ok r =>
      cases r with
      | refused label rest => exact second.behind _ _ (by simpa [reply] using result)
      | taken x rest =>
        simp only [reply, Except.ok.injEq] at result
        simpa [← result] using first.behind _ _ reply

theorem follows_peek {p : Parser γ α} (follows : Follows (p.exec callee) (p.scan heard)) :
    Follows ((peek p).exec callee) ((peek p).scan heard) := by
  constructor
  · intro c
    rw [exec, scan, follows.agrees]
    cases reply : p.scan heard c.ahead with
    | error e => rfl
    | ok s => cases s <;> simp [Except.map, Scan.outcomeFrom, Cursor.downTo_ahead]
  · intro ts s result
    rw [scan] at result
    cases reply : p.scan heard ts with
    | error e => simp [reply] at result
    | ok r =>
      cases r with
      | refused label rest =>
        simp only [reply, Except.ok.injEq] at result
        simpa [← result] using follows.behind _ _ reply
      | taken x rest =>
        simp only [reply, Except.ok.injEq] at result
        simp [← result, Scan.rest]

theorem follows_relabel {p : Parser γ α} (label : String)
    (follows : Follows (p.exec callee) (p.scan heard)) :
    Follows ((relabel p label).exec callee) ((relabel p label).scan heard) := by
  constructor
  · intro c
    rw [exec, scan, follows.agrees]
    cases reply : p.scan heard c.ahead with
    | error e => rfl
    | ok s => cases s <;> rfl
  · intro ts s result
    rw [scan] at result
    cases reply : p.scan heard ts with
    | error e => simp [reply] at result
    | ok r =>
      have shorter := follows.behind _ _ reply
      cases r with
      | refused old rest =>
        simp only [reply, Except.ok.injEq] at result
        simpa [← result, Scan.rest] using shorter
      | taken x rest =>
        simp only [reply, Except.ok.injEq] at result
        simpa [← result] using shorter

/-- A run sees nothing of a cursor but what is ahead of it. -/
theorem exec_follows_scan (calls : ∀ i, Follows (callee i) (heard i)) (p : Parser γ α) :
    Follows (p.exec callee) (p.scan heard) := by
  induction p with
  | accept read label => exact follows_accept read label
  | pure x => exact follows_pure x
  | bind p next ihp ihnext => exact follows_bind ihp ihnext
  | orElse p q ihp ihq => exact follows_orElse ihp ihq
  | peek p ih => exact follows_peek ih
  | many p ih => exact follows_many ih
  | relabel p label ih => exact follows_relabel label ih
  | call label i => exact calls i

end Running

def parse (p : Parser NoCalls α) (ts : List Token) : Scan α :=
  match p.scan (ε := Empty) (fun e => e.elim) ts with
  | .ok s => s
  | .error e => e.elim

theorem scan_eq_parse (p : Parser NoCalls α) (ts : List Token) :
    p.scan (ε := Empty) (fun e => e.elim) ts = .ok (p.parse ts) := by
  unfold parse
  cases p.scan (ε := Empty) (fun e => e.elim) ts with
  | ok s => rfl
  | error e => exact e.elim

theorem follows_parse (p : Parser NoCalls α) :
    Follows (p.exec (ε := Empty) fun e => e.elim) fun ts => .ok (p.parse ts) := by
  have calls (e : Empty) : Follows (ε := Empty) (α := NoCalls e) e.elim e.elim := e.elim
  have follows := exec_follows_scan calls p
  constructor
  · intro c
    rw [follows.agrees, scan_eq_parse]
  · intro ts s reply
    exact follows.behind ts s ((scan_eq_parse p ts).trans reply)

theorem run_eq_parse (p : Parser NoCalls α) (c : Cursor) :
    p.run c = (p.parse c.ahead).outcomeFrom c := by
  rw [run, (follows_parse p).agrees]
  rfl

theorem parse_behind (p : Parser NoCalls α) (ts : List Token) : (p.parse ts).rest <:+ ts :=
  (follows_parse p).behind ts _ rfl

end Parser

namespace Cells

variable {γ : Nat → Type} {α : Type}

def scanCall (cells : Cells γ) (depth i : Nat) (ts : List Token) :
    Except CellFault (Scan (γ i)) :=
  match cells.get? i, depth with
  | none, _ => .error (.unset i)
  | some _, 0 => .error .endless
  | some p, depth + 1 => p.scan (cells.scanCall depth) ts

theorem delegate_follows_scanCall (cells : Cells γ) (depth i : Nat) :
    Parser.Follows (cells.delegate depth i) (cells.scanCall depth i) := by
  induction depth generalizing i with
  | zero =>
    constructor
    · intro c
      cases held : cells.get? i <;> simp [delegate, scanCall, held, Except.map]
    · intro ts s reply
      cases held : cells.get? i <;> simp [scanCall, held] at reply
  | succ depth ih =>
    cases held : cells.get? i with
    | none =>
      constructor
      · intro c
        simp [delegate, scanCall, held, Except.map]
      · intro ts s reply
        simp [scanCall, held] at reply
    | some p =>
      have body := Parser.exec_follows_scan ih p
      constructor
      · intro c
        simpa [delegate, scanCall, held] using body.agrees c
      · intro ts s reply
        exact body.behind ts s (by simpa [scanCall, held] using reply)

theorem exec_follows_scan (cells : Cells γ) (depth : Nat) (p : Parser γ α) :
    Parser.Follows (p.exec (cells.delegate depth)) (p.scan (cells.scanCall depth)) :=
  Parser.exec_follows_scan (cells.delegate_follows_scanCall depth) p

end Cells
end ArmAssembly
