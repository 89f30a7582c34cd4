import ArmAssembly.Outcome

/-!
Parsers as data, and what it means to run one. A parser is built from reading one token,
a value, sequence, ordered choice, a look ahead, repetition, another label, and calls of
parsers kept elsewhere; `γ i` is the type of what the call `i` yields. Running takes the
meaning of the calls as an argument, so everything here is structural: a parser whose
calls answer always answers. Repetition needs no more, because each round either takes
something from what is ahead or is the last.
-/

namespace ArmAssembly

inductive Parser {ι : Type} (γ : ι → Type) : Type → Type 1 where
  | accept {α : Type} (read : Token → Option α) (label : String) : Parser γ α
  | pure {α : Type} (value : α) : Parser γ α
  | bind {α β : Type} (p : Parser γ α) (next : α → Parser γ β) : Parser γ β
  | orElse {α : Type} (p q : Parser γ α) : Parser γ α
  | peek {α : Type} (p : Parser γ α) : Parser γ α
  | many {α : Type} (p : Parser γ α) : Parser γ (List α)
  | relabel {α : Type} (p : Parser γ α) (label : String) : Parser γ α
  | call (label : String) (i : ι) : Parser γ (γ i)

/-- What running a parser comes to when the calls it makes may end in a fault. -/
abbrev Reply (ε α : Type) : Type := Except ε (Outcome α)

namespace Parser

variable {ι : Type} {γ : ι → Type} {ε : Type}

/-- The name a parser goes by. Its failures carry the label of the part that failed. -/
def label : {α : Type} → Parser γ α → String
  | _, accept _ label => label
  | _, pure _ => "Success"
  | _, bind p _ => p.label
  | _, orElse p _ => p.label
  | _, peek p => p.label
  | _, many p => "many " ++ p.label
  | _, relabel _ label => label
  | _, call label _ => label

def runAccept {α : Type} (read : Token → Option α) (label : String) (c : Cursor) : Outcome α :=
  match c.next? with
  | none => .failure (.atCursor label .noMoreInput c)
  | some (t, rest) =>
    match read t with
    | some x => .success x rest
    | none => .failure (.atCursor label (.ofToken t) c)

/-- Runs until a failure, which is given back, or until a success that leaves no less ahead;
    the value of that success is kept. -/
def runMany {α : Type} (run : Cursor → Reply ε α) (c : Cursor) : Reply ε (List α) :=
  match run c with
  | .error e => .error e
  | .ok (.failure _) => .ok (.success [] c)
  | .ok (.success x rest) =>
    if rest.ahead.length < c.ahead.length then
      match runMany run rest with
      | .ok (.success xs last) => .ok (.success (x :: xs) last)
      | reply => reply
    else
      .ok (.success [x] rest)
termination_by c.ahead.length

def exec (callee : (i : ι) → Cursor → Reply ε (γ i)) :
    {α : Type} → Parser γ α → Cursor → Reply ε α
  | _, accept read label, c => .ok (runAccept read label c)
  | _, pure x, c => .ok (.success x c)
  | _, bind p next, c =>
    match exec callee p c with
    | .ok (.success x rest) => exec callee (next x) rest
    | .ok (.failure f) => .ok (.failure f)
    | .error e => .error e
  | _, orElse p q, c =>
    match exec callee p c with
    | .ok (.failure _) => exec callee q c
    | reply => reply
  | _, peek p, c =>
    match exec callee p c with
    | .ok (.success x _) => .ok (.success x c)
    | reply => reply
  | _, many p, c => runMany (exec callee p) c
  | _, relabel p label, c =>
    match exec callee p c with
    | .ok (.failure f) => .ok (.failure (f.relabel label))
    | reply => reply
  | _, call _ i, c => callee i c

theorem exec_relabel_accept {α : Type} (callee : (i : ι) → Cursor → Reply ε (γ i))
    (read : Token → Option α) (label label' : String) (c : Cursor) :
    (relabel (accept read label) label').exec callee c = (accept read label').exec callee c := by
  simp only [exec]
  unfold runAccept
  cases c.next? with
  | none => rfl
  | some step =>
    obtain ⟨t, rest⟩ := step
    simp only
    cases read t <;> rfl

abbrev NoCalls (e : Empty) : Type := e.elim

def run {α : Type} (p : Parser NoCalls α) (c : Cursor) : Outcome α :=
  match exec (ε := Empty) (fun e => e.elim) p c with
  | .ok outcome => outcome
  | .error e => e.elim

end Parser
end ArmAssembly
