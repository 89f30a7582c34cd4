import ArmAssembly.Token

/-!
Lines of tokens. A line break ends a line and is not part of it; tokens after the last
break are a line of their own, and nothing after it is none. One mark for the end of the
input is dropped when it stands last, so it opens no line either.
-/

namespace ArmAssembly

abbrev Line := List Token

namespace Line

def withoutEnd (tokens : List Token) : List Token :=
  if tokens.getLast? = some .endOfInput then tokens.dropLast else tokens

def ofTerminated : List Token → List Line
  | [] => []
  | .lineBreak :: rest => [] :: ofTerminated rest
  | t :: rest =>
    match ofTerminated rest with
    | [] => [[t]]
    | line :: lines => (t :: line) :: lines

def split (tokens : List Token) : List Line := ofTerminated (withoutEnd tokens)

end Line
end ArmAssembly
