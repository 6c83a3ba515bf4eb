import DeclScript.Text.Extending
import DeclScript.Text.Ignorable
import DeclScript.Text.Printable

set_option autoImplicit false

/-!
# Quoted text

A text between two quotes of one kind, on one line: the quote, the backslash and every character that does not show by
itself are written as escapes.
-/

namespace DeclScript

/-- The escape that names a character by its code point. -/
def codeEscape (c : Char) : List Char :=
  ['\\', 'u', '\x7b'] ++ Nat.toDigits 16 c.toNat ++ ['\x7d']

/-- Whether a character shows by itself between two quotes. -/
def showsAlone (c : Char) : Bool :=
  isPrintable c && !isExtending c && !isIgnorable c

/-- How one character is written between quotes of the kind `quote`. -/
def escape (quote c : Char) : List Char :=
  if c = '\x00' then ['\\', '0']
  else if c = '\t' then ['\\', 't']
  else if c = '\r' then ['\\', 'r']
  else if c = '\n' then ['\\', 'n']
  else if c = '\\' || c = quote then ['\\', c]
  else if showsAlone c then [c]
  else codeEscape c

def quoted (quote : Char) (cs : List Char) : List Char :=
  quote :: (cs.flatMap (escape quote) ++ [quote])

end DeclScript
