import DeclScript.Text.Quoted
import DeclScript.Token.Lexeme

set_option autoImplicit false

/-!
# Constants

The values that literals stand for.
-/

namespace DeclScript

inductive Constant where
  | string (text : String)
  | numeric (number : UInt64)
  | character (character : Char)
  | boolean (value : Bool)
  | null
deriving DecidableEq

namespace Constant

def typeName : Constant → String
  | string _ => "String"
  | numeric _ => "Numeric"
  | character _ => "Character"
  | boolean _ => "Boolean"
  | null => "Null"

def display : Constant → String
  | string text => String.ofList (quoted '"' text.toList)
  | numeric number => number.toNat.repr
  | character c => String.ofList (quoted '\x27' [c])
  | boolean true => "true"
  | boolean false => "false"
  | null => "null"

/-- The constant that a lexeme writes, if it is a literal. -/
def ofLexeme? : Lexeme → Option Constant
  | ⟨.stringLiteral, .text text⟩ => some (string text)
  | ⟨.numericLiteral, .number number⟩ => some (numeric number)
  | ⟨.characterLiteral, .text text⟩ =>
      match text.toList with
      | [c] => some (character c)
      | _ => none
  | ⟨.nullLiteral, _⟩ => some null
  | ⟨.booleanLiteral, .text text⟩ => some (boolean (text == "true"))
  | _ => none

theorem kind_ne_endOfFile_of_ofLexeme? {l : Lexeme} {c : Constant} (h : ofLexeme? l = some c) :
    l.kind ≠ .endOfFile := by
  rintro he
  obtain ⟨k, v⟩ := l
  cases he
  simp [ofLexeme?] at h

end Constant

end DeclScript
