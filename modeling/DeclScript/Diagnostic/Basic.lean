import DeclScript.Diagnostic.Cause
import DeclScript.Text.Position

set_option autoImplicit false

/-!
# Diagnostics

A failure with its place: the file, the position and the text of the line that the position lies on.
-/

namespace DeclScript

/-- The name of a text that was not read from a file. -/
def defaultFile : String := "shell"

structure Diagnostic where
  cause : Cause
  position : Position
  file : String := defaultFile
  lineText : String := ""
deriving DecidableEq

/-- The diagnostic in one sentence, above the line with a caret under the column. -/
def Diagnostic.message (d : Diagnostic) : String :=
  let place :=
    if d.cause.isScanning then
      " at line " ++ (d.position.line + 1).repr ++ " at column " ++ (d.position.column + 1).repr
    else ""
  d.cause.summary ++ place ++ "\n\t" ++ d.lineText ++ "\n\t" ++
    String.ofList (List.replicate d.position.column ' ') ++ "^"

end DeclScript
