set_option autoImplicit false

/-!
# Kinds of tokens
-/

namespace DeclScript

inductive Kind where
  | comment
  | keyword
  | identifier
  | punctuator
  | nullLiteral
  | booleanLiteral
  | numericLiteral
  | characterLiteral
  | stringLiteral
  | endOfFile
deriving DecidableEq

namespace Kind

def name : Kind → String
  | comment => "Comment"
  | keyword => "Keyword"
  | identifier => "Identifier"
  | punctuator => "Punctuator"
  | nullLiteral => "NullLiteral"
  | booleanLiteral => "BooleanLiteral"
  | numericLiteral => "NumericLiteral"
  | characterLiteral => "CharacterLiteral"
  | stringLiteral => "StringLiteral"
  | endOfFile => "EOF"

/-- Every kind once, in the order of the names. -/
def all : List Kind :=
  [booleanLiteral, characterLiteral, comment, endOfFile, identifier, keyword, nullLiteral, numericLiteral, punctuator,
    stringLiteral]

def ofName? (name : String) : Option Kind :=
  all.find? (·.name == name)

theorem mem_all (k : Kind) : k ∈ all := by
  cases k <;> decide

@[simp] theorem ofName?_name (k : Kind) : ofName? k.name = some k := by
  cases k <;> decide

end Kind

end DeclScript
