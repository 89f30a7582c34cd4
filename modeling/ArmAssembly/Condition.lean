/-!
Condition codes. Eighteen spellings name sixteen conditions: `HS` is `CS` and `LO` is
`CC`, and `canonical` picks the spelling that stands for the condition.
-/

namespace ArmAssembly

inductive Condition where
  | eq | ne | cs | hs | cc | lo | mi | pl | vs | vc | hi | ls | ge | lt | gt | le | al | nv
  deriving DecidableEq, Repr

namespace Condition

def all : List Condition :=
  [eq, ne, cs, hs, cc, lo, mi, pl, vs, vc, hi, ls, ge, lt, gt, le, al, nv]

def name : Condition → String
  | eq => "EQ" | ne => "NE" | cs => "CS" | hs => "HS" | cc => "CC" | lo => "LO"
  | mi => "MI" | pl => "PL" | vs => "VS" | vc => "VC" | hi => "HI" | ls => "LS"
  | ge => "GE" | lt => "LT" | gt => "GT" | le => "LE" | al => "AL" | nv => "NV"

def canonical : Condition → Condition
  | hs => cs
  | lo => cc
  | c => c

theorem canonical_idempotent (c : Condition) : c.canonical.canonical = c.canonical := by
  cases c <;> rfl

theorem mem_all (c : Condition) : c ∈ all := by
  cases c <;> decide

end Condition
end ArmAssembly
