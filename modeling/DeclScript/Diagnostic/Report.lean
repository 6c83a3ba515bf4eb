import DeclScript.Diagnostic.Basic
import DeclScript.Text.WhiteSpace

set_option autoImplicit false

/-!
# Reports

A diagnostic as a block of five lines: what failed, the file, and the line without its indentation beside a gutter, with
a caret under the place.
-/

namespace DeclScript

namespace Diagnostic

/-- How many spaces the line starts with. -/
def indentation (d : Diagnostic) : Nat :=
  (d.lineText.toList.takeWhile (· == ' ')).length

/-- The line as the report shows it: without the spaces before it and the white space behind it. -/
def shownLine (d : Diagnostic) : List Char :=
  trimEnd (d.lineText.toList.drop d.indentation)

def lineNumber (d : Diagnostic) : List Char :=
  Nat.toDigits 10 (d.position.line + 1)

/-- The gutter beside a line without a number. -/
def gutter (d : Diagnostic) : List Char :=
  List.leftpad (d.lineNumber.length + 2) ' ' ['|']

/-- The caret behind one dash for each shown character before it. A place inside the indentation is moved to its end. -/
def caret (d : Diagnostic) : List Char :=
  List.leftpad (d.position.column - d.indentation + 1) '-' ['^']

def heading (d : Diagnostic) : String :=
  match d.cause.advice? with
  | none => "Error: " ++ d.cause.name
  | some advice => "Error: " ++ d.cause.name ++ " (" ++ advice ++ ")"

def reportLines (d : Diagnostic) : List String :=
  [d.heading,
    "-> " ++ d.file,
    String.ofList d.gutter,
    String.ofList (d.lineNumber ++ [' ', '|', ' '] ++ d.shownLine),
    String.ofList (d.gutter ++ ' ' :: d.caret)]

def report (d : Diagnostic) : String :=
  "\n".intercalate d.reportLines

/-- The report as it is printed, ending its last line. -/
def printed (d : Diagnostic) : String :=
  d.report ++ "\n"

end Diagnostic

end DeclScript
