import DeclScript.Grammar.Progress
import DeclScript.Tree.Basic

set_option autoImplicit false

/-!
# Expressions

A primary expression is an identifier or a literal. A call chain is a primary expression with any number of argument
lists behind it, and an argument list holds identifiers without separators.
-/

namespace DeclScript

namespace Parser

def identifier : ParseM (Identifier Span) := do
  let start := (← get).marker
  let token ← expect .identifier
  return ⟨token.value.display, (← get).finish start⟩

def identifierExpr : ParseM (Expr Span) := do
  return .identifier (← identifier)

/-- Consumes the lookahead first, and only then rejects what is no literal. -/
def literalExpr : ParseM (Expr Span) := do
  let start := (← get).marker
  let token ← advance
  match Constant.ofLexeme? token.toLexeme with
  | some value => return .literal ⟨value, (← get).finish start⟩
  | none => throw ((← get).diagnose (.unexpectedToken token.kind) token.span.start)

def runPrimary : PrimaryRule → ParseM (Expr Span)
  | .identifier => identifierExpr
  | .literal => literalExpr

/-- Reads a primary expression by the rule for the kind of the lookahead. -/
def primary : ParseM (Expr Span) := do
  let p ← get
  match p.rules.primary? p.lookahead.kind with
  | some rule => runPrimary rule
  | none => throw p.unexpectedToken

def argument : ParseM (Argument Span) := do
  let start := (← get).marker
  let id ← identifier
  return ⟨id, (← get).finish start⟩

theorem progresses_identifier : Progresses identifier :=
  steady_get.bind_progresses fun _ =>
    (progresses_expect (by decide)).bind fun _ => steady_get.bind fun _ => steady_pure _

theorem progresses_identifierExpr : Progresses identifierExpr :=
  progresses_identifier.bind fun _ => steady_pure _

theorem progresses_literalExpr : Progresses literalExpr := by
  refine steady_get.bind_progresses fun _ => ?_
  intro p e p' h
  obtain ⟨t, q, ht, h⟩ := bind_eq_ok h
  cases hv : Constant.ofLexeme? t.toLexeme with
  | some value =>
      rw [hv] at h
      have hq := weight_lt_of_advance ht (Constant.kind_ne_endOfFile_of_ofLexeme? hv)
      have hs := (steady_get.bind fun _ => steady_pure _) h
      omega
  | none =>
      rw [hv] at h
      have hs := (steady_get.bind_progresses fun _ => progresses_throw _) h
      have hq := steady_advance ht
      omega

theorem progresses_runPrimary (rule : PrimaryRule) : Progresses (runPrimary rule) := by
  cases rule with
  | identifier => exact progresses_identifierExpr
  | literal => exact progresses_literalExpr

theorem progresses_primary : Progresses primary := by
  refine steady_get.bind_progresses fun p => ?_
  cases p.rules.primary? p.lookahead.kind with
  | some rule => exact progresses_runPrimary rule
  | none => exact progresses_throw _

theorem progresses_argument : Progresses argument :=
  steady_get.bind_progresses fun _ =>
    progresses_identifier.bind fun _ => steady_get.bind fun _ => steady_pure _

/-- The arguments between two parentheses. -/
def arguments : ParseM (List (Argument Span)) := do
  let _ ← expectPunctuator "("
  let args ← repeatWhile (fun p => !p.atPunctuator ")") argument progresses_argument
  let _ ← expectPunctuator ")"
  return args

theorem progresses_arguments : Progresses arguments :=
  (progresses_expectPunctuator _).bind fun _ =>
    (steady_repeatWhile _ _).bind fun _ => (progresses_expectPunctuator _).steady.bind fun _ => steady_pure _

/-- An argument list of the chain that starts at `start`, with the span of the call that it makes. -/
def callTail (start : Position) : ParseM (List (Argument Span) × Span) := do
  let args ← arguments
  return (args, (← get).finish start)

theorem progresses_callTail (start : Position) : Progresses (callTail start) :=
  progresses_arguments.bind fun _ => steady_get.bind fun _ => steady_pure _

/-- A primary expression with its argument lists; each list calls everything to its left. -/
def callChain : ParseM (Expr Span) := do
  let start := (← get).marker
  let head ← primary
  let tails ← repeatWhile (·.atPunctuator "(") (callTail start) (progresses_callTail start)
  return head.calls tails

theorem progresses_callChain : Progresses callChain :=
  steady_get.bind_progresses fun _ =>
    progresses_primary.bind fun _ => (steady_repeatWhile _ _).bind fun _ => steady_pure _

end Parser

end DeclScript
