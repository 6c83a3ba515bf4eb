import DeclScript.Grammar.Rules
import DeclScript.Token.Scanner

set_option autoImplicit false

/-!
# The parser

A parser is a scanner with one token read ahead. Consuming that token reads the next one; when this fails, the old token
stays in place although the scanner has moved. A step of parsing keeps the state it reached also when it fails.
-/

namespace DeclScript

structure Parser where
  scanner : Scanner
  lookahead : Token
  rules : Rules := .standard
deriving DecidableEq

abbrev ParseM := EStateM Diagnostic Parser

/-- The parser at the start of a text, which fails if the first token cannot be read. -/
def Source.parser (s : Source) : Except Diagnostic Parser :=
  match Scanner.nextToken s.scanner with
  | .ok token scanner => .ok { scanner, lookahead := token }
  | .error d _ => .error d

namespace Parser

def hasTokens (p : Parser) : Bool :=
  p.lookahead.kind != .endOfFile

def atPunctuator (p : Parser) (text : String) : Bool :=
  p.lookahead.is .punctuator text

/-- Where a node that starts with the lookahead starts. -/
def marker (p : Parser) : Position :=
  p.lookahead.span.start

/-- The span of a node that ends just before the lookahead. -/
def finish (p : Parser) (start : Position) : Span :=
  ⟨start, p.lookahead.span.start⟩

def diagnose (p : Parser) (cause : Cause) (position : Position) : Diagnostic :=
  p.scanner.source.diagnose cause position

/-- The diagnostic that rejects the lookahead. -/
def unexpectedToken (p : Parser) : Diagnostic :=
  p.diagnose (.unexpectedToken p.lookahead.kind) p.lookahead.span.start

/-- Consumes the lookahead. -/
def advance : ParseM Token := fun p =>
  match Scanner.nextToken p.scanner with
  | .ok token scanner => .ok p.lookahead { p with scanner, lookahead := token }
  | .error d scanner => .error d { p with scanner }

/-- Consumes the lookahead if it passes the test, and rejects it otherwise. -/
def expectThat (test : Token → Bool) : ParseM Token := fun p =>
  if test p.lookahead then advance p else .error p.unexpectedToken p

def expect (kind : Kind) : ParseM Token :=
  expectThat (·.kind == kind)

def expectKeyword (text : String) : ParseM Token :=
  expectThat (·.is .keyword text)

def expectPunctuator (text : String) : ParseM Token :=
  expectThat (·.is .punctuator text)

end Parser

end DeclScript
