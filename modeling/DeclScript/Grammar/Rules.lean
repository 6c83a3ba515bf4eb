import DeclScript.Token.Kind

set_option autoImplicit false

/-!
# Tables of rules

Which rule reads a statement is chosen by the keyword it starts with, and which rule reads a primary expression by the
kind of its token. A later entry for a key replaces the earlier one.
-/

namespace DeclScript

inductive StatementRule where
  | comment
  | expression
  | importDeclaration
  | variableDeclaration
deriving DecidableEq

inductive PrimaryRule where
  | identifier
  | literal
deriving DecidableEq

/-- Both tables, the latest entries first. -/
structure Rules where
  statements : List (String × StatementRule)
  primaries : List (Kind × PrimaryRule)
deriving DecidableEq

namespace Rules

/-- The rules of the language. -/
def standard : Rules where
  statements := [("import", .importDeclaration), ("let", .variableDeclaration)]
  primaries :=
    [(.identifier, .identifier), (.stringLiteral, .literal), (.numericLiteral, .literal), (.characterLiteral, .literal),
      (.nullLiteral, .literal), (.booleanLiteral, .literal)]

def statement? (r : Rules) (keyword : String) : Option StatementRule :=
  r.statements.lookup keyword

def primary? (r : Rules) (kind : Kind) : Option PrimaryRule :=
  r.primaries.lookup kind

def setStatement (r : Rules) (keyword : String) (rule : StatementRule) : Rules :=
  { r with statements := (keyword, rule) :: r.statements }

def setPrimary (r : Rules) (kind : Kind) (rule : PrimaryRule) : Rules :=
  { r with primaries := (kind, rule) :: r.primaries }

/-- The keywords that have a statement rule, each once and in order. -/
def statementKeywords (r : Rules) : List String :=
  (r.statements.map Prod.fst).eraseDups.mergeSort (· ≤ ·)

/-- The kinds that have a primary rule, each once and in the order of their names. -/
def primaryKinds (r : Rules) : List Kind :=
  Kind.all.filter fun kind => (r.primary? kind).isSome

theorem statement?_setStatement (r : Rules) (key keyword : String) (rule : StatementRule) :
    (r.setStatement key rule).statement? keyword = if keyword = key then some rule else r.statement? keyword := by
  by_cases h : keyword = key
  · simp [statement?, setStatement, h]
  · simp [statement?, setStatement, List.lookup_cons, h, beq_eq_false_iff_ne.2 h]

theorem primary?_setPrimary (r : Rules) (key kind : Kind) (rule : PrimaryRule) :
    (r.setPrimary key rule).primary? kind = if kind = key then some rule else r.primary? kind := by
  by_cases h : kind = key
  · simp [primary?, setPrimary, h]
  · simp [primary?, setPrimary, List.lookup_cons, h, beq_eq_false_iff_ne.2 h]

end Rules

end DeclScript
