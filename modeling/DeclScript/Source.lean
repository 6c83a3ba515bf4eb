import DeclScript.Diagnostic.Basic
import DeclScript.Text.Line

set_option autoImplicit false

/-!
# Source texts
-/

namespace DeclScript

/-- A text with the name of the file it stands in. -/
structure Source where
  text : String
  file : String := defaultFile
deriving DecidableEq

namespace Source

def line (s : Source) (n : Nat) : String :=
  String.ofList (lineAt n s.text.toList)

/-- A diagnostic about a place in this text. -/
def diagnose (s : Source) (cause : Cause) (position : Position) : Diagnostic :=
  { cause, position, file := s.file, lineText := s.line position.line }

end Source

end DeclScript
