import ArmAssembly.Cursor

/-!
What reading from a cursor comes to: a value and the cursor after it, or a failure. A
failure names the rule that was tried, why it was refused and where, together with the
line it stands in.
-/

namespace ArmAssembly

inductive Reason where
  | noMoreInput
  | unexpected (t : Token)
  | stated (message : String)
  deriving DecidableEq, Repr

namespace Reason

/-- Why a token was refused: the end of a line counts as the end of the input, because no
    instruction crosses lines. -/
def ofToken : Token → Reason
  | .lineBreak => .noMoreInput
  | t => .unexpected t

def message : Reason → String
  | noMoreInput => "No more input"
  | unexpected t => "Unexpected '" ++ t.text ++ "'"
  | stated message => message

end Reason

structure Failure where
  label : String
  reason : Reason
  line : Line
  pos : Position
  deriving DecidableEq, Repr

namespace Failure

def atCursor (label : String) (reason : Reason) (c : Cursor) : Failure :=
  { label := label, reason := reason, line := c.currentLine, pos := c.pos }

def relabel (f : Failure) (label : String) : Failure := { f with label := label }

/-- Characters in front of the caret: the tokens before the failing one and the space after
    them. -/
def caretColumn (f : Failure) : Nat :=
  match renderChars (f.line.take f.pos.token) with
  | [] => 0
  | before => before.length + 1

/-- Three lines: where and which rule, the line itself, and a caret under the failing token
    with the reason. -/
def report (f : Failure) : String :=
  "Line:" ++ toString f.pos.line ++ " - TokenNo:" ++ toString f.pos.token
    ++ " Error parsing '" ++ f.label ++ "'\n"
    ++ render f.line ++ "\n"
    ++ String.ofList (List.replicate f.caretColumn ' ') ++ "^" ++ f.reason.message

end Failure

inductive Outcome (α : Type) where
  | success (value : α) (rest : Cursor)
  | failure (f : Failure)
  deriving DecidableEq, Repr

namespace Outcome

def value? {α : Type} : Outcome α → Option α
  | success x _ => some x
  | failure _ => none

def failure? {α : Type} : Outcome α → Option Failure
  | success _ _ => none
  | failure f => some f

end Outcome

end ArmAssembly
