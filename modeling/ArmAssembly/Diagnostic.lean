import ArmAssembly.Outcome

/-!
Diagnostics for the user, who counts lines and columns from one. The column is that of a
token in its line.
-/

namespace ArmAssembly

structure Diagnostic where
  severity : String
  message : String
  line : Option Int := none
  column : Option Int := none
  hint : Option String := none
  file : Option String := none
  detail : Option String := none
  deriving DecidableEq, Repr

namespace Diagnostic

def error (message : String) (line column : Option Int) (file hint detail : Option String) :
    Diagnostic :=
  { severity := "error", message := message, line := line, column := column, hint := hint,
    file := file, detail := detail }

/-- File and place, as far as they are known; a column says nothing without its line. -/
def place (d : Diagnostic) : String :=
  let file := match d.file with
    | some file => file ++ ":"
    | none => ""
  match d.line, d.column with
  | some line, some column => file ++ toString line ++ ":" ++ toString column
  | some line, none => file ++ toString line
  | none, _ => file

def enclose (opening : String) (text : Option String) (closing : String) : String :=
  match text with
  | none | some "" => ""
  | some text => opening ++ text ++ closing

def text (d : Diagnostic) : String :=
  enclose "" (some d.place) ": " ++ d.severity.toUpper ++ ": " ++ d.message
    ++ enclose "  (pista: " d.hint ")" ++ enclose "\n" d.detail ""

def unknownTexts (line : Line) : List String := line.filterMap Token.unknown?

/-- The rule that failed, and every text of the line that was not recognised, also one that
    stands after the failing token. -/
def hintOf (label : String) (line : Line) : String :=
  match unknownTexts line with
  | [] => label
  | texts => label ++ "; lexema no reconocido: " ++ ", ".intercalate (texts.map Text.quoted)

def ofFailure (file : Option String) (f : Failure) : Diagnostic :=
  error f.reason.message (some (f.pos.line + 1)) (some (f.pos.token + 1)) file
    (some (hintOf f.label f.line)) (some f.report)

end Diagnostic
end ArmAssembly
