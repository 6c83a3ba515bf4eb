import DeclScript.Diagnostic.Cause
import DeclScript.Token.Lexeme

set_option autoImplicit false

/-!
# Reading one lexeme

The first character of a text decides the class of the lexeme that starts there, and within its class a lexeme is as
long as it can be. A reading says over how many characters it moves and what was read, or why there is no lexeme; it
then ends at the place to blame.
-/

namespace DeclScript

structure Reading where
  length : Nat
  outcome : Except Cause Lexeme

namespace Reading

/-- A lexeme that carries a text and was spelled with `length` characters. -/
def text (length : Nat) (kind : Kind) (cs : List Char) : Reading :=
  ⟨length, .ok ⟨kind, .text (String.ofList cs)⟩⟩

def failure (length : Nat) (cause : Cause) : Reading :=
  ⟨length, .error cause⟩

end Reading

/-- The comment whose mark stands before `cs`: the rest of the line. -/
def readComment (cs : List Char) : Reading :=
  let line := cs.takeWhile (· != '\n')
  .text (line.length + 1) .comment line

/-- The word that starts with the letter `c`. -/
def readWord (c : Char) (cs : List Char) : Reading :=
  let word := c :: cs.takeWhile Char.isAlphanum
  .text word.length ((reserved? (String.ofList word)).getD .identifier) word

/-- The number that starts with the digit `c`. -/
def readNumber (c : Char) (cs : List Char) : Reading :=
  let digits := c :: cs.takeWhile Char.isDigit
  let n := Nat.ofDigitChars 10 digits 0
  if n < UInt64.size then ⟨digits.length, .ok ⟨.numericLiteral, .number (UInt64.ofNat n)⟩⟩
  else .failure 0 (.numberTooLarge (String.ofList digits))

/-- What a diagnostic says about the front of `cs`. -/
def foundText : List Char → String
  | [] => "end of file"
  | c :: _ => String.ofList ['"', c, '"']

/-- The character literal whose opening quote stands before `cs`. -/
def readCharacter : List Char → Reading
  | [] => .failure 1 (.malformedCharacter (foundText []))
  | c :: cs =>
      if c = '\x27' then .failure 1 (.malformedCharacter (foundText (c :: cs)))
      else if cs.head? = some '\x27' then .text 3 .characterLiteral [c]
      else .failure 2 (.malformedCharacter (foundText cs))

/-- The string whose opening quote stands before `cs`. -/
def readString (cs : List Char) : Reading :=
  let inside := cs.takeWhile (· != '"')
  if inside.length < cs.length then .text (inside.length + 2) .stringLiteral inside
  else .failure (cs.length + 1) .unexpectedEndOfFile

/-- The longest punctuator that starts with `c`. -/
def readPunctuator (c : Char) (cs : List Char) : Reading :=
  match punctuators.find? (·.isPrefixOf (c :: cs)) with
  | some p => .text p.length .punctuator p
  | none => .failure 0 (.unexpectedCharacter c)

/-- The lexeme at the front of the text `c :: cs`. -/
def readLexeme (c : Char) (cs : List Char) : Reading :=
  if c = '#' then readComment cs
  else if c.isAlpha then readWord c cs
  else if c.isDigit then readNumber c cs
  else if c = '\x27' then readCharacter cs
  else if c = '"' then readString cs
  else readPunctuator c cs

theorem punctuator_ne_nil {p : List Char} (h : p ∈ punctuators) : p ≠ [] := by
  revert p; decide

/-- A lexeme is spelled with at least one character. -/
theorem readLexeme_length_pos {c : Char} {cs : List Char} {l : Lexeme} (h : (readLexeme c cs).outcome = .ok l) :
    0 < (readLexeme c cs).length := by
  unfold readLexeme at h ⊢
  split
  · simp [readComment, Reading.text]
  split
  · simp [readWord, Reading.text]
  split
  · simp_all only [readNumber]
    split <;> simp_all [Reading.failure]
  split
  · unfold readCharacter
    split
    · simp [Reading.failure]
    · split
      · simp [Reading.failure]
      · split <;> simp [Reading.failure, Reading.text]
  split
  · simp only [readString]
    split <;> simp [Reading.failure, Reading.text]
  · simp_all only [readPunctuator]
    split <;> simp_all [Reading.failure, Reading.text]
    rename_i p hp
    exact List.length_pos_iff.2 (punctuator_ne_nil (List.mem_of_find?_eq_some hp))

end DeclScript
