import ArmAssembly.Condition
import ArmAssembly.Register
import ArmAssembly.Opcode
import ArmAssembly.Text.Quoted

/-!
Tokens of assembly text, and the text that shows them. A token is shown by the spelling
it had, so the two spellings of one condition are shown differently. What was not
recognised is shown quoted, hence on one line.
-/

namespace ArmAssembly

inductive Token where
  | condition (c : Condition)
  | register (r : Register)
  | opcode (op : Opcode)
  | flags
  | comma
  | literal (n : Int)
  | lineBreak
  | endOfInput
  | unknown (text : String)
  deriving DecidableEq, Repr

namespace Token

def condition? : Token → Option Condition
  | condition c => some c
  | _ => none

def register? : Token → Option Register
  | register r => some r
  | _ => none

def opcode? : Token → Option Opcode
  | opcode op => some op
  | _ => none

def literal? : Token → Option Int
  | literal n => some n
  | _ => none

def unknown? : Token → Option String
  | unknown text => some text
  | _ => none

def decimal : Int → List Char
  | .ofNat n => Nat.toDigits 10 n
  | .negSucc n => '-' :: Nat.toDigits 10 (n + 1)

def chars : Token → List Char
  | condition c => c.name.toList
  | register r => r.name.toList
  | opcode op => op.name.toList
  | flags => ['S']
  | comma => [',']
  | literal n => '#' :: decimal n
  | lineBreak => "<newline>".toList
  | endOfInput => "<eof>".toList
  | unknown text => "<error ".toList ++ Text.quotedChars text.toList ++ ['>']

def text (t : Token) : String := String.ofList t.chars

end Token

def renderChars (line : List Token) : List Char := [' '].intercalate (line.map Token.chars)

def render (line : List Token) : String := String.ofList (renderChars line)

end ArmAssembly
