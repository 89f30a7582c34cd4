import ArmAssembly.Diagnostic
import ArmAssembly.Instruction.Shape

/-!
A listing: every line is one instruction or has one diagnostic, and an empty line is
neither. Lines are read one by one, so a mistake in one does not reach the next.
-/

namespace ArmAssembly

def readLine (lines : List Line) (n : Nat) : Outcome Instruction :=
  Shape.line.run { lines := lines, pos := ⟨n, 0⟩ }

def readLines (lines : List Line) : List (Outcome Instruction) :=
  (lines.zipIdx.filter fun entry => !entry.1.isEmpty).map fun entry => readLine lines entry.2

structure Listing where
  instructions : List Instruction
  diagnostics : List Diagnostic
  deriving DecidableEq, Repr

namespace Listing

def ofOutcomes (file : Option String) (outcomes : List (Outcome Instruction)) : Listing :=
  { instructions := outcomes.filterMap Outcome.value?
    diagnostics := (outcomes.filterMap Outcome.failure?).map (Diagnostic.ofFailure file) }

def ofTokens (file : Option String) (tokens : List Token) : Listing :=
  ofOutcomes file (readLines (Line.split tokens))

end Listing
end ArmAssembly
