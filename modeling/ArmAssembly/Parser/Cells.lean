import ArmAssembly.Parser.Sequence

/-!
Parsers that call one another. A cell is created empty, is filled once and then keeps its
parser; a call of a cell delegates to that parser. Running stops with a fault at an empty
cell, and no parser turns a fault into an answer. Delegations are counted: a chain of
nested delegations longer than cells times cursors has come back to the same cell at the
same cursor, so it would go on for ever, and that is the second fault.
-/

namespace ArmAssembly

inductive CellFault where
  | unset (cell : Nat)
  | alreadySet (cell : Nat)
  | endless
  deriving DecidableEq, Repr

def CellFault.message : CellFault → String
  | unset _ => "unfixed forwarded parser"
  | alreadySet _ => "forwarded parser already fixed"
  | endless => "endless recursion"

/-- Cells numbered from zero. The cell `i` is for parsers that yield a `γ i`. -/
structure Cells (γ : Nat → Type) : Type 1 where
  created : Nat := 0
  filled : List ((i : Nat) × Parser γ (γ i)) := []

namespace Cells

variable {γ : Nat → Type}

def find? (i : Nat) : List ((i : Nat) × Parser γ (γ i)) → Option (Parser γ (γ i))
  | [] => none
  | ⟨j, p⟩ :: rest => if same : j = i then some (same ▸ p) else find? i rest

def get? (cells : Cells γ) (i : Nat) : Option (Parser γ (γ i)) := find? i cells.filled

def isSet (cells : Cells γ) (i : Nat) : Bool := (cells.get? i).isSome

def fresh (cells : Cells γ) : Nat := cells.created

def create (cells : Cells γ) : Cells γ := { cells with created := cells.created + 1 }

def set (cells : Cells γ) (i : Nat) (p : Parser γ (γ i)) : Except CellFault (Cells γ) :=
  if cells.isSet i then .error (.alreadySet i)
  else .ok { cells with filled := ⟨i, p⟩ :: cells.filled }

def get (cells : Cells γ) (i : Nat) : Except CellFault (Parser γ (γ i)) :=
  match cells.get? i with
  | none => .error (.unset i)
  | some p => .ok p

/-- A call of a cell with at most `depth` nested delegations. -/
def delegate (cells : Cells γ) (depth i : Nat) (c : Cursor) : Reply CellFault (γ i) :=
  match cells.get? i, depth with
  | none, _ => .error (.unset i)
  | some _, 0 => .error .endless
  | some p, depth + 1 => p.exec (cells.delegate depth) c

/-- The longest chain of nested delegations from a cursor that does not repeat itself. -/
def depthAt (cells : Cells γ) (c : Cursor) : Nat :=
  cells.filled.length * (c.ahead.length + 1)

def run (cells : Cells γ) {α : Type} (p : Parser γ α) (c : Cursor) : Reply CellFault α :=
  p.exec (cells.delegate (cells.depthAt c)) c

theorem find?_eq_some_self (i : Nat) (p : Parser γ (γ i))
    (rest : List ((i : Nat) × Parser γ (γ i))) : find? i (⟨i, p⟩ :: rest) = some p := by
  simp [find?]

theorem get?_set_self {cells after : Cells γ} {i : Nat} {p : Parser γ (γ i)}
    (done : cells.set i p = .ok after) : after.get? i = some p := by
  unfold set at done
  split at done
  · simp at done
  · obtain rfl := by simpa using done
    exact find?_eq_some_self i p _

theorem get?_set_of_isSet {cells after : Cells γ} {i j : Nat} {p : Parser γ (γ i)}
    (done : cells.set i p = .ok after) (held : cells.isSet j) : after.get? j = cells.get? j := by
  unfold set at done
  split at done
  · simp at done
  next free =>
    obtain rfl := by simpa using done
    have other : i ≠ j := by
      intro same
      subst same
      exact free held
    simp [get?, find?, other]

end Cells
end ArmAssembly
