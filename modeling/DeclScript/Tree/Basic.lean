import DeclScript.Tree.Constant

set_option autoImplicit false

/-!
# Program trees

Every node carries a mark. A parsed tree is marked with spans, and a tree marked with nothing is the program's bare
structure.
-/

namespace DeclScript

/-- A bare name: a variable, a callee, a type or an argument. -/
structure Identifier (Mark : Type) where
  name : String
  mark : Mark
deriving DecidableEq

structure Literal (Mark : Type) where
  value : Constant
  mark : Mark
deriving DecidableEq

structure Argument (Mark : Type) where
  id : Identifier Mark
  mark : Mark
deriving DecidableEq

/-- The callee of a call may itself be a call. -/
inductive Expr (Mark : Type) where
  | identifier (id : Identifier Mark)
  | literal (literal : Literal Mark)
  | call (callee : Expr Mark) (arguments : List (Argument Mark)) (mark : Mark)
deriving DecidableEq

structure Comment (Mark : Type) where
  text : String
  mark : Mark
deriving DecidableEq

structure ImportSpecifier (Mark : Type) where
  id : Identifier Mark
  mark : Mark
deriving DecidableEq

structure ImportDeclaration (Mark : Type) where
  specifiers : List (ImportSpecifier Mark)
  source : Literal Mark
  mark : Mark
deriving DecidableEq

structure VariableDeclaration (Mark : Type) where
  id : Identifier Mark
  valueType : Identifier Mark
  optional : Bool
  init : Expr Mark
  mark : Mark
deriving DecidableEq

/-- An entry of a program. An expression statement is kept as its expression, so its mark leaves out the semicolon. -/
inductive Element (Mark : Type) where
  | comment (comment : Comment Mark)
  | importDeclaration (declaration : ImportDeclaration Mark)
  | variableDeclaration (declaration : VariableDeclaration Mark)
  | expression (expr : Expr Mark)
deriving DecidableEq

structure Program (Mark : Type) where
  body : List (Element Mark)
  mark : Mark
deriving DecidableEq

/-- The kinds of nodes. -/
inductive Shape where
  | program
  | comment
  | importDeclaration
  | importSpecifier
  | variableDeclaration
  | callExpression
  | argument
  | identifier
  | literal
deriving DecidableEq

def Shape.name : Shape → String
  | program => "Program"
  | comment => "Comment"
  | importDeclaration => "ImportDeclaration"
  | importSpecifier => "ImportSpecifier"
  | variableDeclaration => "VariableDeclaration"
  | callExpression => "CallExpression"
  | argument => "Argument"
  | identifier => "Identifier"
  | literal => "Literal"

variable {Mark : Type}

def Expr.mark : Expr Mark → Mark
  | .identifier id => id.mark
  | .literal l => l.mark
  | .call _ _ mark => mark

def Expr.shape : Expr Mark → Shape
  | .identifier _ => .identifier
  | .literal _ => .literal
  | .call .. => .callExpression

def Element.mark : Element Mark → Mark
  | .comment c => c.mark
  | .importDeclaration d => d.mark
  | .variableDeclaration d => d.mark
  | .expression e => e.mark

def Element.shape : Element Mark → Shape
  | .comment _ => .comment
  | .importDeclaration _ => .importDeclaration
  | .variableDeclaration _ => .variableDeclaration
  | .expression e => e.shape

/-- One call for each list of arguments, the first list nearest to the callee. -/
def Expr.calls (callee : Expr Mark) (lists : List (List (Argument Mark) × Mark)) : Expr Mark :=
  lists.foldl (fun e list => .call e list.1 list.2) callee

end DeclScript
