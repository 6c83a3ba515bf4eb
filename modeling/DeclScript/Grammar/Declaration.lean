import DeclScript.Grammar.Expression

set_option autoImplicit false

/-!
# Elements of a program

Comments, imports, variable declarations and expression statements.
-/

namespace DeclScript

namespace Parser

def comment : ParseM (Element Span) := do
  let start := (← get).marker
  let token ← expect .comment
  return .comment ⟨token.value.display, (← get).finish start⟩

def expressionStatement : ParseM (Element Span) := do
  let expr ← callChain
  let _ ← expectPunctuator ";"
  return .expression expr

def importSpecifier : ParseM (ImportSpecifier Span) := do
  let start := (← get).marker
  let id ← identifier
  return ⟨id, (← get).finish start⟩

theorem progresses_importSpecifier : Progresses importSpecifier :=
  steady_get.bind_progresses fun _ =>
    progresses_identifier.bind fun _ => steady_get.bind fun _ => steady_pure _

/-- A further specifier, with the comma before it. -/
def furtherSpecifier : ParseM (ImportSpecifier Span) := do
  let _ ← advance
  importSpecifier

theorem progresses_furtherSpecifier : Progresses furtherSpecifier :=
  steady_advance.bind_progresses fun _ => progresses_importSpecifier

/-- Reads a primary expression first, and only then rejects what is no literal. -/
def importSource : ParseM (Literal Span) := do
  let kind := (← get).lookahead.kind
  match ← primary with
  | .literal l => return l
  | other =>
      throw ((← get).diagnose (.unsuitableToken kind "expected a literal import source") other.mark.start)

theorem steady_importSource : Steady importSource := by
  refine steady_get.bind fun _ => progresses_primary.steady.bind fun e => ?_
  cases e with
  | literal l => exact steady_pure l
  | identifier id => exact steady_get.bind fun _ => (progresses_throw _).steady
  | call callee args mark => exact steady_get.bind fun _ => (progresses_throw _).steady

def importDeclaration : ParseM (Element Span) := do
  let start := (← get).marker
  let _ ← expectKeyword "import"
  let _ ← expectPunctuator "\x7b"
  let first ← importSpecifier
  let others ← repeatWhile (·.atPunctuator ",") furtherSpecifier progresses_furtherSpecifier
  let _ ← expectPunctuator "\x7d"
  let _ ← expectKeyword "from"
  let source ← importSource
  let _ ← expectPunctuator ";"
  return .importDeclaration ⟨first :: others, source, (← get).finish start⟩

/-- The mark of an optional type, if it is there. -/
def optionalMark : ParseM Bool := do
  if (← get).atPunctuator "?" then
    let _ ← advance
    return true
  else return false

theorem steady_optionalMark : Steady optionalMark := by
  refine steady_get.bind fun p => ?_
  split
  · exact steady_advance.bind fun _ => steady_pure _
  · exact steady_pure _

def variableDeclaration : ParseM (Element Span) := do
  let start := (← get).marker
  let _ ← expectKeyword "let"
  let id ← identifier
  let _ ← expectPunctuator ":"
  let valueType ← identifier
  let optional ← optionalMark
  let _ ← expectPunctuator "="
  let init ← primary
  let _ ← expectPunctuator ";"
  return .variableDeclaration ⟨id, valueType, optional, init, (← get).finish start⟩

def runStatement : StatementRule → ParseM (Element Span)
  | .comment => comment
  | .expression => expressionStatement
  | .importDeclaration => importDeclaration
  | .variableDeclaration => variableDeclaration

/-- The rule that reads an element which starts with the given lexeme. A keyword without a rule starts an expression
statement, as do all other lexemes but comments. -/
def elementRule (rules : Rules) (l : Lexeme) : StatementRule :=
  match l.kind, l.value with
  | .comment, _ => .comment
  | .keyword, .text keyword => (rules.statement? keyword).getD .expression
  | _, _ => .expression

def element : ParseM (Element Span) := do
  let p ← get
  runStatement (elementRule p.rules p.lookahead.toLexeme)

theorem progresses_comment : Progresses comment :=
  steady_get.bind_progresses fun _ =>
    (progresses_expect (by decide)).bind fun _ => steady_get.bind fun _ => steady_pure _

theorem progresses_expressionStatement : Progresses expressionStatement :=
  progresses_callChain.bind fun _ => (progresses_expectPunctuator _).steady.bind fun _ => steady_pure _

theorem progresses_importDeclaration : Progresses importDeclaration :=
  steady_get.bind_progresses fun _ =>
    (progresses_expectKeyword _).bind fun _ =>
    (progresses_expectPunctuator _).steady.bind fun _ =>
    progresses_importSpecifier.steady.bind fun _ =>
    (steady_repeatWhile _ _).bind fun _ =>
    (progresses_expectPunctuator _).steady.bind fun _ =>
    (progresses_expectKeyword _).steady.bind fun _ =>
    steady_importSource.bind fun _ =>
    (progresses_expectPunctuator _).steady.bind fun _ => steady_get.bind fun _ => steady_pure _

theorem progresses_variableDeclaration : Progresses variableDeclaration :=
  steady_get.bind_progresses fun _ =>
    (progresses_expectKeyword _).bind fun _ =>
    progresses_identifier.steady.bind fun _ =>
    (progresses_expectPunctuator _).steady.bind fun _ =>
    progresses_identifier.steady.bind fun _ =>
    steady_optionalMark.bind fun _ =>
    (progresses_expectPunctuator _).steady.bind fun _ =>
    progresses_primary.steady.bind fun _ =>
    (progresses_expectPunctuator _).steady.bind fun _ => steady_get.bind fun _ => steady_pure _

theorem progresses_runStatement (rule : StatementRule) : Progresses (runStatement rule) := by
  cases rule with
  | comment => exact progresses_comment
  | expression => exact progresses_expressionStatement
  | importDeclaration => exact progresses_importDeclaration
  | variableDeclaration => exact progresses_variableDeclaration

theorem progresses_element : Progresses element :=
  steady_get.bind_progresses fun _ => progresses_runStatement _

end Parser

end DeclScript
