import DeclScript.Source
import DeclScript.Text.Bytes
import DeclScript.Token.Reading

set_option autoImplicit false

/-!
# The scanner

A scanner stands between two characters of a source text and has in sight what is left of it; a `Cursor` keeps its
place in bytes instead. A scanner gives one token at a time, over and over the end of the file once the text is used up,
and after a failure it stands where the diagnostic points. Whoever pulls tokens through `next` also gets an end mark:
nothing comes after the end of the file or after a failure.
-/

namespace DeclScript

structure Scanner where
  source : Source
  position : Position := {}
  rest : List Char
  ended : Bool := false
deriving DecidableEq

/-- The scanner at the start of a text. -/
def Source.scanner (s : Source) : Scanner :=
  { source := s, rest := s.text.toList }

/-- The characters that separate lexemes. -/
def isBlank (c : Char) : Bool :=
  c == ' ' || c == '\n'

namespace Scanner

def atEnd (s : Scanner) : Bool :=
  s.rest.isEmpty

def peek? (s : Scanner) : Option Char :=
  s.rest.head?

def remainder (s : Scanner) : String :=
  String.ofList s.rest

/-- Moves over the next `n` characters. -/
def skip (s : Scanner) (n : Nat) : Scanner :=
  { s with position := s.position.after (s.rest.take n), rest := s.rest.drop n }

def skipBlanks (s : Scanner) : Scanner :=
  s.skip (s.rest.takeWhile isBlank).length

/-- Moves over the next `n` bytes, or not at all when that would end inside a character. -/
def skipBytes? (s : Scanner) (n : Nat) : Option Scanner :=
  (charsInBytes? n s.rest).map s.skip

/-- The token ahead of a scanner that stands at no blank. -/
def readToken (s : Scanner) : EStateM.Result Diagnostic Scanner Token :=
  match s.rest with
  | [] => .ok ⟨⟨.endOfFile, .none⟩, ⟨s.position, s.position⟩⟩ s
  | c :: cs =>
      let reading := readLexeme c cs
      let behind := s.skip reading.length
      match reading.outcome with
      | .ok lexeme => .ok ⟨lexeme, ⟨s.position, behind.position⟩⟩ behind
      | .error cause => .error (s.source.diagnose cause behind.position) behind

/-- The next token, with the scanner behind it. -/
def nextToken : EStateM Diagnostic Scanner Token := fun s =>
  s.skipBlanks.readToken

/-- The next token, or nothing once the end of the file or a failure has come this way. -/
def next (s : Scanner) : Option (Except Diagnostic Token) × Scanner :=
  if s.ended then (none, s)
  else
    match nextToken s with
    | .ok token s' => (some (.ok token), { s' with ended := token.kind == .endOfFile })
    | .error d s' => (some (.error d), { s' with ended := true })

@[simp] theorem skip_source (s : Scanner) (n : Nat) : (s.skip n).source = s.source := rfl

@[simp] theorem skip_rest (s : Scanner) (n : Nat) : (s.skip n).rest = s.rest.drop n := rfl

@[simp] theorem skip_position (s : Scanner) (n : Nat) :
    (s.skip n).position = s.position.after (s.rest.take n) := rfl

@[simp] theorem skip_ended (s : Scanner) (n : Nat) : (s.skip n).ended = s.ended := rfl

theorem skipBlanks_rest (s : Scanner) : s.skipBlanks.rest = s.rest.dropWhile isBlank := by
  have h := List.takeWhile_append_dropWhile (p := isBlank) (l := s.rest)
  calc s.skipBlanks.rest
      = (s.rest.takeWhile isBlank ++ s.rest.dropWhile isBlank).drop (s.rest.takeWhile isBlank).length := by
        rw [h]; rfl
    _ = s.rest.dropWhile isBlank := by rw [List.drop_left]

theorem ended_of_nextToken {s s' : Scanner} {t : Token} (h : nextToken s = .ok t s') : s'.ended = s.ended := by
  unfold nextToken readToken at h
  split at h
  · cases h
    rfl
  · simp only at h
    split at h
    · cases h
      rfl
    · cases h

/-- A token uses up text unless it is the end of the file. -/
theorem rest_length_of_readToken {s s' : Scanner} {t : Token} (h : s.readToken = .ok t s') :
    s'.rest.length + (if t.kind = .endOfFile then 0 else 1) ≤ s.rest.length := by
  unfold readToken at h
  split at h
  · simp_all
    grind
  · rename_i c cs hr
    simp only at h
    split at h
    · rename_i l hl
      have := readLexeme_length_pos hl
      grind [skip_rest]
    · simp at h

theorem rest_length_of_nextToken {s s' : Scanner} {t : Token} (h : nextToken s = .ok t s') :
    s'.rest.length + (if t.kind = .endOfFile then 0 else 1) ≤ s.rest.length := by
  have hr := rest_length_of_readToken h
  have hb : s.skipBlanks.rest.length ≤ s.rest.length := by simp [skipBlanks]
  omega

theorem rest_length_lt_of_nextToken {s s' : Scanner} {t : Token} (h : nextToken s = .ok t s')
    (he : t.kind ≠ .endOfFile) : s'.rest.length < s.rest.length := by
  simpa [he, Nat.succ_le_iff] using rest_length_of_nextToken h

end Scanner

end DeclScript
