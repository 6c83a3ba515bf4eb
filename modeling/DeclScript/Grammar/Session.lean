import DeclScript.Grammar.Program

set_option autoImplicit false

/-!
# Working a parser by commands

A session runs commands one after the other on the same parser, which keeps the state a failure leaves.
-/

namespace DeclScript

/-- What a production makes. -/
inductive Node (Mark : Type) where
  | program (program : Program Mark)
  | element (element : Element Mark)
  | importSpecifier (specifier : ImportSpecifier Mark)
  | expr (expr : Expr Mark)
  | identifier (id : Identifier Mark)
  | argument (argument : Argument Mark)
  | arguments (arguments : List (Argument Mark))
deriving DecidableEq

inductive Production where
  | program
  | element
  | statementBy (rule : StatementRule)
  | importSpecifier
  | primary
  | primaryBy (rule : PrimaryRule)
  | identifier
  | callChain
  | arguments
  | argument
deriving DecidableEq

namespace Parser

def produce : Production → ParseM (Node Span)
  | .program => return .program (← program)
  | .element => return .element (← element)
  | .statementBy rule => return .element (← runStatement rule)
  | .importSpecifier => return .importSpecifier (← importSpecifier)
  | .primary => return .expr (← primary)
  | .primaryBy rule => return .expr (← runPrimary rule)
  | .identifier => return .identifier (← identifier)
  | .callChain => return .expr (← callChain)
  | .arguments => return .arguments (← arguments)
  | .argument => return .argument (← argument)

inductive Command where
  | lookahead
  | lookaheadKind
  | advance
  | expect (kind : Kind)
  | expectKeyword (text : String)
  | expectPunctuator (text : String)
  | atPunctuator (text : String)
  | hasTokens
  | marker
  | finish (start : Position)
  | diagnose (cause : Cause) (position : Position)
  | unexpectedToken
  | statementKeywords
  | primaryKinds
  | setStatement (keyword : String) (rule : StatementRule)
  | setPrimary (kind : Kind) (rule : PrimaryRule)
  | produce (production : Production)
deriving DecidableEq

inductive Reply where
  | token (token : Token)
  | kind (kind : Kind)
  | truth (truth : Bool)
  | position (position : Position)
  | span (span : Span)
  | keywords (keywords : List String)
  | kinds (kinds : List Kind)
  | node (node : Node Span)
  | diagnostic (diagnostic : Diagnostic)
  | done
deriving DecidableEq

/-- The answer to a step of parsing, with the parser after it. -/
def answer (p : Parser) (step : ParseM Reply) : Reply × Parser :=
  match step p with
  | .ok reply p' => (reply, p')
  | .error d p' => (.diagnostic d, p')

/-- The answer to a command, with the parser after it. -/
def run (p : Parser) : Command → Reply × Parser
  | .lookahead => (.token p.lookahead, p)
  | .lookaheadKind => (.kind p.lookahead.kind, p)
  | .advance => p.answer (return .token (← advance))
  | .expect kind => p.answer (return .token (← expect kind))
  | .expectKeyword text => p.answer (return .token (← expectKeyword text))
  | .expectPunctuator text => p.answer (return .token (← expectPunctuator text))
  | .atPunctuator text => (.truth (p.atPunctuator text), p)
  | .hasTokens => (.truth p.hasTokens, p)
  | .marker => (.position p.marker, p)
  | .finish start => (.span (p.finish start), p)
  | .diagnose cause position => (.diagnostic (p.diagnose cause position), p)
  | .unexpectedToken => (.diagnostic p.unexpectedToken, p)
  | .statementKeywords => (.keywords p.rules.statementKeywords, p)
  | .primaryKinds => (.kinds p.rules.primaryKinds, p)
  | .setStatement keyword rule => (.done, { p with rules := p.rules.setStatement keyword rule })
  | .setPrimary kind rule => (.done, { p with rules := p.rules.setPrimary kind rule })
  | .produce production => p.answer (return .node (← produce production))

/-- The answers to all commands in turn, each with the parser after it. -/
def session (p : Parser) : List Command → List (Reply × Parser)
  | [] => []
  | command :: commands =>
      let step := p.run command
      step :: step.2.session commands

end Parser

end DeclScript
