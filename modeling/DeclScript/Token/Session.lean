import DeclScript.Token.Stream

set_option autoImplicit false

/-!
# Working a scanner by commands

A session runs commands one after the other on the same scanner, which keeps its state through failures.
-/

namespace DeclScript

namespace Scanner

inductive Command where
  | nextToken
  | next
  /-- Collects the tokens left without moving this scanner. -/
  | collect
  | position
  | peek
  | remainder
  | atEnd
  | skipBytes (n : Nat)
  | diagnose (cause : Cause) (position : Position)
deriving DecidableEq

inductive Reply where
  | token (result : Except Diagnostic Token)
  | next (result : Option (Except Diagnostic Token))
  | tokens (result : Except Diagnostic (List Token))
  | position (position : Position)
  | character (character : Option Char)
  | text (text : String)
  | truth (truth : Bool)
  | diagnostic (diagnostic : Diagnostic)
  | done
  /-- The command would end inside a character. -/
  | refused

/-- The answer to a command, with the scanner after it. -/
def run (s : Scanner) : Command → Reply × Scanner
  | .nextToken =>
      match nextToken s with
      | .ok token s' => (.token (.ok token), s')
      | .error d s' => (.token (.error d), s')
  | .next =>
      match s.next with
      | (result, s') => (.next result, s')
  | .collect => (.tokens s.stream.collect, s)
  | .position => (.position s.position, s)
  | .peek => (.character s.peek?, s)
  | .remainder => (.text s.remainder, s)
  | .atEnd => (.truth s.atEnd, s)
  | .skipBytes n =>
      match s.skipBytes? n with
      | some s' => (.done, s')
      | none => (.refused, s)
  | .diagnose cause position => (.diagnostic (s.source.diagnose cause position), s)

/-- The answers to all commands in turn, each with the scanner after it. -/
def session (s : Scanner) : List Command → List (Reply × Scanner)
  | [] => []
  | command :: commands =>
      let step := s.run command
      step :: step.2.session commands

end Scanner

end DeclScript
