import DeclScript.Grammar.Declaration

set_option autoImplicit false

/-!
# Programs

A program is a list of elements up to the end of the file.
-/

namespace DeclScript

def Parser.program : ParseM (Program Span) := do
  let start := (← get).marker
  let body ← repeatWhile hasTokens element progresses_element
  return ⟨body, (← get).finish start⟩

/-- The tree of a text, or the first failure met while reading it. -/
def Source.parse (s : Source) : Except Diagnostic (Program Span) := do
  let p ← s.parser
  match Parser.program p with
  | .ok program _ => .ok program
  | .error d _ => .error d

end DeclScript
