import ArmAssembly.Parser.Choice

/-!
Repetition. A list with separators gives back a separator that no item follows, and so
does everything after it.
-/

namespace ArmAssembly.Parser

variable {ι : Type} {γ : ι → Type} {α β : Type}

def many1 (p : Parser γ α) : Parser γ (List α) := map2 (· :: ·) p (many p)

def sepBy1 (p : Parser γ α) (separator : Parser γ β) : Parser γ (List α) :=
  map2 (· :: ·) p (many (keepSecond separator p))

end ArmAssembly.Parser
