import ArmAssembly.Parser.Sequence

/-!
Ordered choice. The first parser that succeeds decides, however much the ones before it
had read; if none does, the failure is that of the last. A choice has at least one
alternative and goes by the label of the first.
-/

namespace ArmAssembly.Parser

variable {ι : Type} {γ : ι → Type} {α : Type}

def choice (p : Parser γ α) (others : List (Parser γ α)) : Parser γ α := others.foldl orElse p

inductive ChoiceError where
  | noAlternative
  deriving DecidableEq, Repr

def ChoiceError.message : ChoiceError → String
  | noAlternative => "choice necesita al menos un parser"

def choiceOf : List (Parser γ α) → Except ChoiceError (Parser γ α)
  | [] => .error .noAlternative
  | p :: others => .ok (choice p others)

def anyOfLabel (ts : List Token) : String :=
  "anyOf [" ++ ", ".intercalate (ts.map Token.text) ++ "]"

def anyOf (t : Token) (others : List Token) : Parser γ Token :=
  relabel (choice (token t) (others.map token)) (anyOfLabel (t :: others))

def anyOfList : List Token → Except ChoiceError (Parser γ Token)
  | [] => .error .noAlternative
  | t :: others => .ok (anyOf t others)

def maybe (p : Parser γ α) : Parser γ (Option α) := orElse (map some p) (pure none)

end ArmAssembly.Parser
