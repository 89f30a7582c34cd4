import ArmAssembly.Proofs.LineReading
import ArmAssembly.Proofs.Lines
import Mathlib.Data.List.Forall2

/-!
Listings line by line. A break ends what stands in front of it, whatever follows, so the
listing of a text is that of its upper part and then that of its lower part; the lower
lines are only counted on. The mark for the end of the input makes no difference: it is
dropped at the end of the lower part alone.
-/

namespace ArmAssembly

namespace Line

def instruction? (line : Line) : Option Instruction :=
  match Shape.instruction.parse line.beforeBreak with
  | .taken i [] => some i
  | _ => none

def failure? (line : Line) (n : Nat) : Option Failure :=
  match Shape.instruction.parse line.beforeBreak with
  | .taken _ [] => none
  | .taken _ rest => some (line.failureAt n "End of Line" (line.beforeBreak.length - rest.length))
  | .refused label rest => some (line.failureAt n label (line.beforeBreak.length - rest.length))

theorem value?_readLine {lines : List Line} {n : Nat} {line : Line} (here : lines[n]? = some line) :
    (readLine lines n).value? = line.instruction? := by
  rw [readLine_eq here, instruction?]
  cases Shape.instruction.parse line.beforeBreak with
  | refused label rest => rfl
  | taken i rest => cases rest <;> rfl

theorem failure?_readLine {lines : List Line} {n : Nat} {line : Line}
    (here : lines[n]? = some line) : (readLine lines n).failure? = line.failure? n := by
  rw [readLine_eq here, failure?]
  cases Shape.instruction.parse line.beforeBreak with
  | refused label rest => rfl
  | taken i rest => cases rest <;> rfl

end Line

namespace Failure

def lower (k : Nat) (f : Failure) : Failure := { f with pos := ⟨f.pos.line + k, f.pos.token⟩ }

/-- The report behind the number of the line. -/
def reportBody (f : Failure) : String :=
  toString f.pos.token ++ " Error parsing '" ++ f.label ++ "'\n" ++ render f.line ++ "\n"
    ++ String.ofList (List.replicate f.caretColumn ' ') ++ "^" ++ f.reason.message

theorem report_eq (f : Failure) :
    f.report = "Line:" ++ toString f.pos.line ++ " - TokenNo:" ++ f.reportBody := by
  unfold report reportBody
  simp only [String.append_assoc]

end Failure

theorem Line.failure?_add (line : Line) (n k : Nat) :
    line.failure? (n + k) = (line.failure? n).map (Failure.lower k) := by
  unfold failure?
  cases Shape.instruction.parse line.beforeBreak with
  | refused label rest => rfl
  | taken i rest => cases rest <;> rfl

def failuresFrom (n : Nat) (lines : List Line) : List Failure :=
  ((lines.zipIdx n).filter fun entry => !entry.1.isEmpty).filterMap fun entry =>
    entry.1.failure? entry.2

theorem failuresFrom_append (n : Nat) (above below : List Line) :
    failuresFrom n (above ++ below) =
      failuresFrom n above ++ failuresFrom (n + above.length) below := by
  simp [failuresFrom, List.zipIdx_append]

theorem failuresFrom_add (n k : Nat) (lines : List Line) :
    failuresFrom (n + k) lines = (failuresFrom n lines).map (Failure.lower k) := by
  induction lines generalizing n with
  | nil => rfl
  | cons line lines ih =>
    have rest := ih (n + 1)
    rw [Nat.add_right_comm] at rest
    simp only [failuresFrom, List.zipIdx_cons, List.filter_cons] at rest ⊢
    split
    · simp only [List.filterMap_cons, Line.failure?_add]
      cases line.failure? n with
      | none => exact rest
      | some f => simp [rest]
    · exact rest

theorem filterMap_value?_readLines (lines : List Line) :
    (readLines lines).filterMap Outcome.value? =
      (lines.filter (!·.isEmpty)).filterMap Line.instruction? := by
  have unnumbered : lines.filter (!·.isEmpty) =
      (lines.zipIdx.filter fun entry => !entry.1.isEmpty).map Prod.fst := by
    conv_lhs => rw [← List.zipIdx_map_fst 0 lines, List.filter_map]
    rfl
  rw [readLines, unnumbered, List.filterMap_map, List.filterMap_map]
  refine List.filterMap_congr fun entry member => ?_
  exact Line.value?_readLine (List.mem_zipIdx_iff_getElem?.1 (List.mem_filter.1 member).1)

theorem filterMap_failure?_readLines (lines : List Line) :
    (readLines lines).filterMap Outcome.failure? = failuresFrom 0 lines := by
  rw [readLines, failuresFrom, List.filterMap_map]
  refine List.filterMap_congr fun entry member => ?_
  exact Line.failure?_readLine (List.mem_zipIdx_iff_getElem?.1 (List.mem_filter.1 member).1)

/-- The second diagnostic is the first for a line that stands `k` lines further down: the line
    number is moved in both places where it is shown, and all else is the same. -/
def Diagnostic.MovedDown (k : Nat) (d e : Diagnostic) : Prop :=
  ∃ (n : Nat) (body : String),
    d.line = some ((n : Int) + 1) ∧
      d.detail = some ("Line:" ++ toString n ++ " - TokenNo:" ++ body) ∧
      e = { d with
        line := some ((n : Int) + 1 + k)
        detail := some ("Line:" ++ toString (n + k) ++ " - TokenNo:" ++ body) }

theorem Diagnostic.movedDown_ofFailure (file : Option String) (k : Nat) (f : Failure) :
    MovedDown k (ofFailure file f) (ofFailure file (f.lower k)) := by
  have below : (f.lower k).report =
      "Line:" ++ toString (f.pos.line + k) ++ " - TokenNo:" ++ f.reportBody :=
    (f.lower k).report_eq
  have number : ((f.pos.line + k : Nat) : Int) + 1 = f.pos.line + 1 + k := by omega
  refine ⟨f.pos.line, f.reportBody, rfl, congrArg some f.report_eq, ?_⟩
  rw [← below, ← number]
  rfl

/-- The lower part of a text is read as it would be alone, only its lines are counted on. -/
theorem Listing.ofTokens_append_break (file : Option String) (a b : List Token) :
    (ofTokens file (a ++ [.lineBreak] ++ b)).instructions =
        (ofTokens file (a ++ [.lineBreak])).instructions ++ (ofTokens file b).instructions ∧
      ∃ moved, (ofTokens file (a ++ [.lineBreak] ++ b)).diagnostics =
          (ofTokens file (a ++ [.lineBreak])).diagnostics ++ moved ∧
        List.Forall₂ (Diagnostic.MovedDown (a.count .lineBreak + 1))
          (ofTokens file b).diagnostics moved := by
  have lines := Line.split_append_break a b
  rw [List.append_assoc, List.singleton_append]
  constructor
  · simp only [ofTokens, ofOutcomes, filterMap_value?_readLines, lines, List.filter_append,
      List.filterMap_append]
  · have failures : failuresFrom 0 (Line.split (a ++ .lineBreak :: b)) =
        failuresFrom 0 (Line.split (a ++ [.lineBreak])) ++
          (failuresFrom 0 (Line.split b)).map (Failure.lower (a.count .lineBreak + 1)) := by
      rw [lines, failuresFrom_append, Line.length_split_append_break, failuresFrom_add]
    refine ⟨((failuresFrom 0 (Line.split b)).map (Failure.lower (a.count .lineBreak + 1))).map
      (Diagnostic.ofFailure file), ?_, ?_⟩
    · simp only [ofTokens, ofOutcomes, filterMap_failure?_readLines, failures, List.map_append]
    · simp only [ofTokens, ofOutcomes, filterMap_failure?_readLines, List.forall₂_map_left_iff,
        List.forall₂_map_right_iff]
      exact List.forall₂_same.2 fun f _ => Diagnostic.movedDown_ofFailure file _ f

end ArmAssembly
