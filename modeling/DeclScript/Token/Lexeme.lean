import DeclScript.Text.Position
import DeclScript.Token.Kind

set_option autoImplicit false

/-!
# Lexemes and tokens

A lexeme is a kind with the value it carries; a token is a lexeme with the stretch of text it was read from. The
scanner gives the number to numeric literals, nothing to the end of the file and a text to all other kinds.
-/

namespace DeclScript

inductive Value where
  | none
  | text (text : String)
  | number (number : UInt64)
deriving DecidableEq

namespace Value

def text? : Value → Option String
  | text t => some t
  | _ => Option.none

def display : Value → String
  | none => "null"
  | text t => t
  | number n => n.toNat.repr

end Value

structure Lexeme where
  kind : Kind
  value : Value
deriving DecidableEq

namespace Lexeme

/-- Whether this is a lexeme of the given kind that carries the given text. -/
def is (l : Lexeme) (kind : Kind) (text : String) : Bool :=
  l.kind == kind && l.value.text? == some text

def display (l : Lexeme) : String :=
  "Token \x7b\nkind: " ++ l.kind.name ++ ",\nvalue: " ++ l.value.display ++ "\x7d"

theorem is_eq_true {l : Lexeme} {kind : Kind} {text : String} :
    l.is kind text = true ↔ l = ⟨kind, .text text⟩ := by
  obtain ⟨k, v⟩ := l
  cases v <;> simp [is, Value.text?]

end Lexeme

structure Token extends Lexeme where
  span : Span
deriving DecidableEq

/-- The words that are no identifiers. -/
def reservedWords : List (String × Kind) :=
  [("let", .keyword), ("import", .keyword), ("from", .keyword), ("null", .nullLiteral), ("true", .booleanLiteral),
    ("false", .booleanLiteral)]

def reserved? (word : String) : Option Kind :=
  reservedWords.lookup word

example : ["let", "import", "from", "null", "true", "false", "for", "Let"].map reserved? =
    [some .keyword, some .keyword, some .keyword, some .nullLiteral, some .booleanLiteral, some .booleanLiteral, none,
      none] := by
  decide

/-- Every punctuator, those of more characters first. -/
def punctuators : List (List Char) :=
  [">>>", "<<", ">>", "&&", "||", "==", "!=", "%", "(", ")", "*", "+", ",", "-", ".", "/", ":", ";", "?", "[", "]", "^",
    "\x7b", "\x7d", "~", "<", ">", "=", "!", "&", "|"].map String.toList

/-- One punctuator of three signs, six of two, and each of the others is one sign. -/
example : punctuators.flatten = ">>><<>>&&||==!=%()*+,-./:;?[]^\x7b\x7d~<>=!&|".toList ∧
    punctuators.map List.length = 3 :: List.replicate 6 2 ++ List.replicate 24 1 := by
  decide

end DeclScript
