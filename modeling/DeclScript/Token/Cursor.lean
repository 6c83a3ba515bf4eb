import DeclScript.Token.Scanner

set_option autoImplicit false

/-!
# Scanning by bytes

A cursor is a place in the bytes of a text, with the position beside it that diagnostics show. Text is only seen through
slices, and the cursor moves by distances in bytes. A slice that would start or end inside a character crashes the scan
where it is. What is read is what a scanner reads, which knows of characters only.
-/

namespace DeclScript

structure Cursor where
  source : Source
  bytes : Nat := 0
  position : Position := {}
  ended : Bool := false
deriving DecidableEq

/-- The cursor at the start of a text. -/
def Source.cursor (s : Source) : Cursor :=
  { source := s }

/-- Why a scan stops before it has a token. -/
inductive Halt where
  | crash
  | failure (d : Diagnostic)
deriving DecidableEq

abbrev ScanM := EStateM Halt Cursor

namespace Cursor

variable {α β : Type}

/-! ## Looking ahead and moving -/

def atEnd (c : Cursor) : Bool :=
  c.source.text.utf8ByteSize ≤ c.bytes

def slice (text : String) (start stop : Nat) : ScanM String :=
  match slice? text start stop with
  | some part => pure part
  | none => throw .crash

def remainder : ScanM String := do
  let c ← get
  slice c.source.text c.bytes c.source.text.utf8ByteSize

def peek? : ScanM (Option Char) := do
  let text ← remainder
  return text.toList.head?

/-- Where the cursor stands `n` bytes further, the end of the text cutting the distance short. -/
def target (c : Cursor) (n : Nat) : Nat :=
  min (c.bytes + n) c.source.text.utf8ByteSize

/-- Moves the cursor over the next `n` bytes. -/
def advance (n : Nat) : ScanM Unit := do
  let c ← get
  let passed ← slice c.source.text c.bytes (c.target n)
  set { c with bytes := c.target n, position := c.position.after passed.toList }

def fail (cause : Cause) : ScanM α := do
  let c ← get
  throw (.failure (c.source.diagnose cause c.position))

/-! ## Lexemes -/

/-- The front of a text that starts with a character of the one kind and goes on with characters of the other. -/
def leading? (first others : Char → Bool) : List Char → Option (List Char)
  | [] => none
  | c :: cs => if first c then some (c :: cs.takeWhile others) else none

def skipBlanks : ScanM Unit := do
  let text ← remainder
  match leading? isBlank isBlank text.toList with
  | some blanks => advance (byteLength blanks)
  | none => pure ()

def comment (word : List Char) : ScanM Lexeme := do
  advance (byteLength word)
  let text ← slice (String.ofList word) 1 (byteLength word)
  return ⟨.comment, .text text⟩

def word (word : List Char) : ScanM Lexeme := do
  advance (byteLength word)
  return ⟨(reserved? (String.ofList word)).getD .identifier, .text (String.ofList word)⟩

def number (digits : List Char) : ScanM Lexeme := do
  let n := Nat.ofDigitChars 10 digits 0
  if n < UInt64.size then
    advance (byteLength digits)
    return ⟨.numericLiteral, .number (UInt64.ofNat n)⟩
  else fail (.numberTooLarge (String.ofList digits))

def malformed (found : Option Char) : ScanM Lexeme :=
  fail (.malformedCharacter (foundText found.toList))

/-- The closing quote of the character literal of `c`. -/
def closeCharacter (c : Char) : ScanM Lexeme := do
  advance c.utf8Size
  let found ← peek?
  if found = some '\x27' then
    advance 1
    return ⟨.characterLiteral, .text (String.singleton c)⟩
  else malformed found

def character : ScanM Lexeme := do
  advance 1
  match ← peek? with
  | none => malformed none
  | some c => if c = '\x27' then malformed (some c) else closeCharacter c

/-- How many bytes stand before the first `c`. -/
def find? (c : Char) (cs : List Char) : Option Nat :=
  if c ∈ cs then some (byteLength (cs.takeWhile (· != c))) else none

def string : ScanM Lexeme := do
  advance 1
  let text ← remainder
  match find? '"' text.toList with
  | some length =>
      let inside ← slice text 0 length
      advance (length + 1)
      return ⟨.stringLiteral, .text inside⟩
  | none =>
      advance text.utf8ByteSize
      fail .unexpectedEndOfFile

def punctuator (word : List Char) : ScanM Lexeme := do
  advance (byteLength word)
  return ⟨.punctuator, .text (String.ofList word)⟩

/-- The classes of lexemes: how to tell one at the front of a text, and how to read it there. -/
def patterns : List ((List Char → Option (List Char)) × (List Char → ScanM Lexeme)) :=
  [(leading? (· == '#') (· != '\n'), comment), (leading? Char.isAlpha Char.isAlphanum, word),
    (leading? Char.isDigit Char.isDigit, number), (leading? (· == '\x27') (fun _ => false), fun _ => character),
    (leading? (· == '"') (fun _ => false), fun _ => string),
    (fun cs => punctuators.find? (·.isPrefixOf cs), punctuator)]

/-- How to read a text by the first class that matches its front. -/
def reader? (cs : List Char) : Option (ScanM Lexeme) :=
  patterns.findSome? fun p => (p.1 cs).map p.2

def lexeme : ScanM Lexeme := do
  let text ← remainder
  match reader? text.toList with
  | some read => read
  | none => fail (.unexpectedCharacter (text.toList.head?.getD '\x00'))

def nextToken : ScanM Token := do
  skipBlanks
  let c ← get
  if c.atEnd then return ⟨⟨.endOfFile, .none⟩, ⟨c.position, c.position⟩⟩
  else
    let l ← lexeme
    return ⟨l, ⟨c.position, (← get).position⟩⟩

/-- The next token, or nothing once the end of the file or a failure has come this way. -/
def next : ScanM (Option (Except Diagnostic Token)) := fun c =>
  if c.ended then .ok none c
  else
    match nextToken c with
    | .ok token c' => .ok (some (.ok token)) { c' with ended := token.kind == .endOfFile }
    | .error (.failure d) c' => .ok (some (.error d)) { c' with ended := true }
    | .error .crash c' => .error .crash c'

end Cursor

end DeclScript
