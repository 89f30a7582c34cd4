import ArmAssembly.Text.Printable

/-!
Quoted text, on one line whatever it holds. The quote is an apostrophe, unless the text
has an apostrophe and no double quote. The quote in use and the backslash are escaped
by a backslash; a character that is not printable is written by a letter or by its code
point in two, four or eight hexadecimal digits, the shortest that fits.
-/

namespace ArmAssembly.Text

def apostrophe : Char := '\x27'

def doubleQuote : Char := '\x22'

def backslash : Char := '\x5c'

def quoteOf (text : List Char) : Char :=
  if apostrophe ∈ text ∧ doubleQuote ∉ text then doubleQuote else apostrophe

def hexDigits : Nat → Nat → List Char
  | 0, _ => []
  | width + 1, n => hexDigits width (n / 16) ++ [Nat.digitChar (n % 16)]

/-- A code point as an escape of fixed width, so that what follows cannot extend it. -/
def codePointEscape (n : Nat) : List Char :=
  if n < 0x100 then backslash :: 'x' :: hexDigits 2 n
  else if n < 0x10000 then backslash :: 'u' :: hexDigits 4 n
  else backslash :: 'U' :: hexDigits 8 n

def escape (quote c : Char) : List Char :=
  if c = quote ∨ c = backslash then [backslash, c]
  else if c = '\n' then [backslash, 'n']
  else if c = '\r' then [backslash, 'r']
  else if c = '\t' then [backslash, 't']
  else if isPrintable c then [c]
  else codePointEscape c.toNat

def quotedChars (text : List Char) : List Char :=
  quoteOf text :: (text.flatMap (escape (quoteOf text)) ++ [quoteOf text])

def quoted (text : String) : String := String.ofList (quotedChars text.toList)

end ArmAssembly.Text
