import DeclScript.Tree.Basic

set_option autoImplicit false

/-!
# Outlines

A tree as a list of rows, each node before its children and one step less deep than they are.
-/

namespace DeclScript

structure OutlineRow (Mark : Type) where
  depth : Nat
  shape : Shape
  mark : Mark
  text : Option String
deriving DecidableEq

variable {Mark : Type}

def Identifier.outline (id : Identifier Mark) (depth : Nat) : List (OutlineRow Mark) :=
  [⟨depth, .identifier, id.mark, some id.name⟩]

def Literal.outline (literal : Literal Mark) (depth : Nat) : List (OutlineRow Mark) :=
  [⟨depth, .literal, literal.mark, some literal.value.display⟩]

def Argument.outline (argument : Argument Mark) (depth : Nat) : List (OutlineRow Mark) :=
  ⟨depth, .argument, argument.mark, none⟩ :: argument.id.outline (depth + 1)

def Expr.outline : Expr Mark → Nat → List (OutlineRow Mark)
  | .identifier id, depth => id.outline depth
  | .literal l, depth => l.outline depth
  | .call callee arguments mark, depth =>
      ⟨depth, .callExpression, mark, none⟩ ::
        (callee.outline (depth + 1) ++ arguments.flatMap (·.outline (depth + 1)))

def ImportSpecifier.outline (specifier : ImportSpecifier Mark) (depth : Nat) : List (OutlineRow Mark) :=
  ⟨depth, .importSpecifier, specifier.mark, none⟩ :: specifier.id.outline (depth + 1)

def Element.outline : Element Mark → Nat → List (OutlineRow Mark)
  | .comment c, depth => [⟨depth, .comment, c.mark, some c.text⟩]
  | .importDeclaration d, depth =>
      ⟨depth, .importDeclaration, d.mark, none⟩ ::
        (d.specifiers.flatMap (·.outline (depth + 1)) ++ d.source.outline (depth + 1))
  | .variableDeclaration d, depth =>
      ⟨depth, .variableDeclaration, d.mark, some (if d.optional then "optional" else "required")⟩ ::
        (d.id.outline (depth + 1) ++ d.valueType.outline (depth + 1) ++ d.init.outline (depth + 1))
  | .expression e, depth => e.outline depth

def Program.outline (program : Program Mark) : List (OutlineRow Mark) :=
  ⟨0, .program, program.mark, none⟩ :: program.body.flatMap (·.outline 1)

end DeclScript
