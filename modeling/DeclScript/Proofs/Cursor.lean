import DeclScript.Proofs.Spelling
import DeclScript.Proofs.Standing
import DeclScript.Token.CursorSession
import Mathlib.Data.List.Forall2

set_option autoImplicit false

/-!
# The cursor never drifts

A cursor that stands before some text of the source gets exactly this text as its remainder, and each reader of lexemes
passes over the bytes of the characters that it reads. So no slice of a scan fails, whatever was done before, and the
cursor always stands between two characters, where its position counts what it has passed. Seen from outside it is the
scanner of the same source. Only a distance asked for in bytes can end inside a character, and it is refused.
-/

namespace DeclScript

namespace Cursor

/-! ## Passing over characters -/

/-- The cursor stands before the text `rest`, at the end of its source. -/
def Before (c : Cursor) (rest : List Char) : Prop :=
  ∃ front, c.source.text.toList = front ++ rest ∧ c.bytes = byteLength front

/-- The cursor behind the characters `word` that come next. -/
def past (c : Cursor) (word : List Char) : Cursor :=
  { c with bytes := c.bytes + byteLength word, position := c.position.after word }

theorem past_past (c : Cursor) (word more : List Char) : (c.past word).past more = c.past (word ++ more) := by
  simp [past, byteLength_append, Position.after_append, Nat.add_assoc]

theorem slice_of_eq {text part : String} {start stop : Nat} (h : slice? text start stop = some part) (c : Cursor) :
    slice text start stop c = .ok part c := by
  rw [slice, h]
  rfl

section Before

variable {c : Cursor} {word rest : List Char}

theorem Before.past (h : c.Before (word ++ rest)) : (c.past word).Before rest := by
  obtain ⟨front, htext, hbytes⟩ := h
  refine ⟨front ++ word, by rw [List.append_assoc]; exact htext, ?_⟩
  rw [byteLength_append, ← hbytes]
  rfl

theorem Before.size (h : c.Before rest) : c.source.text.utf8ByteSize = c.bytes + byteLength rest := by
  obtain ⟨front, htext, hbytes⟩ := h
  rw [hbytes, ← byteLength_append, ← htext, byteLength_eq, String.ofList_toList]

theorem Before.slice? (h : c.Before (word ++ rest)) :
    DeclScript.slice? c.source.text c.bytes (c.bytes + byteLength word) = some (String.ofList word) := by
  obtain ⟨front, htext, hbytes⟩ := h
  have hslice := slice?_ofList front word rest
  rwa [List.append_assoc, ← htext, String.ofList_toList, byteLength_append, ← hbytes] at hslice

theorem Before.remainder (h : c.Before rest) : remainder c = .ok (String.ofList rest) c := by
  have h' : c.Before (rest ++ []) := by rwa [List.append_nil]
  have hslice := h'.slice?
  rw [Cursor.remainder, get_bind, h.size]
  exact slice_of_eq hslice c

theorem Before.peek? (h : c.Before rest) : peek? c = .ok rest.head? c := by
  rw [Cursor.peek?, bind_of_ok h.remainder, String.toList_ofList]
  rfl

/-- The distance may reach behind the end of the text. -/
theorem Before.advance_of_target (h : c.Before (word ++ rest)) {n : Nat} (hn : c.target n = c.bytes + byteLength word) :
    advance n c = .ok () (c.past word) := by
  rw [Cursor.advance, get_bind, hn, bind_of_ok (slice_of_eq h.slice? c)]
  change EStateM.Result.ok () { c with
    bytes := c.bytes + byteLength word, position := c.position.after (String.ofList word).toList } = _
  rw [String.toList_ofList]
  rfl

theorem Before.advance (h : c.Before (word ++ rest)) : advance (byteLength word) c = .ok () (c.past word) := by
  refine h.advance_of_target ?_
  rw [target, h.size, byteLength_append]
  omega

theorem Before.advance_cons {x : Char} {n : Nat} (h : c.Before (x :: rest)) (hn : x.utf8Size = n) :
    Cursor.advance n c = .ok () (c.past [x]) ∧ (c.past [x]).Before rest := by
  have h : c.Before ([x] ++ rest) := h
  subst hn
  exact ⟨h.advance, h.past⟩

theorem Before.target (h : c.Before rest) (n : Nat) : c.target n = c.bytes + min n (byteLength rest) := by
  rw [Cursor.target, h.size]
  omega

/-- The distance ends between two characters if it is the length of some that come next. -/
theorem Before.isValid_target_iff (h : c.Before rest) (n : Nat) :
    String.Pos.Raw.IsValid c.source.text ⟨c.target n⟩ ↔ ∃ k, byteLength (rest.take k) = min n (byteLength rest) := by
  rw [String.Pos.Raw.isValid_iff_exists_append, h.target]
  obtain ⟨front, htext, hbytes⟩ := h
  constructor
  · rintro ⟨left, right, happend, hplace⟩
    have hsize : byteLength left.toList = byteLength front + min n (byteLength rest) := by
      rw [byteLength_eq, String.ofList_toList, ← hbytes]
      exact (congrArg String.Pos.Raw.byteIdx hplace).symm
    have hsplit : front ++ rest = left.toList ++ right.toList := by rw [← htext, happend, String.toList_append]
    rcases List.append_eq_append_iff.1 hsplit with ⟨more, hleft, hrest⟩ | ⟨more, hfront, -⟩
    · refine ⟨more.length, ?_⟩
      rw [hleft, byteLength_append] at hsize
      rw [hrest, List.take_left, ← hrest]
      omega
    · refine ⟨0, ?_⟩
      rw [hfront, byteLength_append] at hsize
      simp only [List.take_zero, byteLength]
      omega
  · rintro ⟨k, hk⟩
    refine ⟨String.ofList (front ++ rest.take k), String.ofList (rest.drop k), ?_, ?_⟩
    · rw [← String.ofList_append, List.append_assoc, List.take_append_drop, ← htext, String.ofList_toList]
    · apply String.Pos.Raw.ext
      rw [String.byteIdx_rawEndPos, ← byteLength_eq, byteLength_append, hk, hbytes]

theorem advance_of_not_isValid {n : Nat} (h : ¬ String.Pos.Raw.IsValid c.source.text ⟨c.target n⟩) :
    Cursor.advance n c = .error .crash c := by
  have hcrash : slice c.source.text c.bytes (c.target n) c = .error .crash c := by
    rw [slice, slice?_of_not_isValid h]
    rfl
  rw [Cursor.advance, get_bind, bind_of_error hcrash]

end Before

/-! ## Readers -/

/-- What the reading of a lexeme at the front of `rest` does to the cursor. -/
def outcome (c : Cursor) (rest : List Char) (reading : Reading) : EStateM.Result Halt Cursor Lexeme :=
  let behind := c.past (rest.take reading.length)
  match reading.outcome with
  | .ok l => .ok l behind
  | .error cause => .error (.failure (c.source.diagnose cause behind.position)) behind

section Readers

variable {c : Cursor} {x : Char} {cs : List Char}

theorem outcome_text (c : Cursor) (word rest : List Char) (kind : Kind) (cs : List Char) :
    c.outcome (word ++ rest) (.text word.length kind cs) = .ok ⟨kind, .text (String.ofList cs)⟩ (c.past word) := by
  simp [outcome, Reading.text]

theorem outcome_failure (c : Cursor) (word rest : List Char) (cause : Cause) :
    c.outcome (word ++ rest) (.failure word.length cause) =
      .error (.failure (c.source.diagnose cause (c.past word).position)) (c.past word) := by
  simp [outcome, Reading.failure]

theorem skipBlanks_eq (h : c.Before cs) : skipBlanks c = .ok () (c.past (cs.takeWhile isBlank)) := by
  rw [skipBlanks, bind_of_ok h.remainder, String.toList_ofList]
  cases cs with
  | nil => rfl
  | cons x cs =>
      by_cases hx : isBlank x
      · have hsplit : x :: cs = (x :: cs).takeWhile isBlank ++ (x :: cs).dropWhile isBlank :=
          List.takeWhile_append_dropWhile.symm
        rw [hsplit] at h
        rw [List.takeWhile_cons_of_pos hx] at h ⊢
        simp only [leading?, hx, if_true]
        exact h.advance
      · rw [List.takeWhile_cons_of_neg hx]
        simp only [leading?, hx]
        rfl

theorem cons_eq_run (x : Char) (cs : List Char) (others : Char → Bool) :
    x :: cs = (x :: cs.takeWhile others) ++ cs.dropWhile others :=
  congrArg (x :: ·) List.takeWhile_append_dropWhile.symm

theorem comment_eq (h : c.Before ('#' :: cs)) :
    comment ('#' :: cs.takeWhile (· != '\n')) c = c.outcome ('#' :: cs) (readComment cs) := by
  let line := cs.takeWhile (· != '\n')
  have hsplit := cons_eq_run '#' cs (· != '\n')
  have htext : slice? (String.ofList ('#' :: line)) 1 (byteLength ('#' :: line)) = some (String.ofList line) := by
    have hslice := slice?_ofList ['#'] line []
    rwa [List.append_nil] at hslice
  rw [hsplit] at h
  rw [comment, bind_of_ok h.advance, bind_of_ok (slice_of_eq htext _), readComment, hsplit]
  exact (outcome_text c ('#' :: line) _ .comment line).symm

theorem word_eq (h : c.Before (x :: cs)) :
    word (x :: cs.takeWhile Char.isAlphanum) c = c.outcome (x :: cs) (readWord x cs) := by
  have hsplit := cons_eq_run x cs Char.isAlphanum
  rw [hsplit] at h
  rw [word, bind_of_ok h.advance, readWord, hsplit, outcome_text]
  rfl

theorem number_eq (h : c.Before (x :: cs)) :
    number (x :: cs.takeWhile Char.isDigit) c = c.outcome (x :: cs) (readNumber x cs) := by
  have hsplit := cons_eq_run x cs Char.isDigit
  simp only [number, readNumber]
  split
  · rw [hsplit] at h
    rw [bind_of_ok h.advance]
    simp only [outcome]
    rw [hsplit, List.take_left]
    rfl
  · rfl

theorem character_eq (h : c.Before ('\x27' :: cs)) :
    character c = c.outcome ('\x27' :: cs) (readCharacter cs) := by
  obtain ⟨hopen, h⟩ := h.advance_cons (n := 1) rfl
  rw [character, bind_of_ok hopen, bind_of_ok h.peek?]
  cases cs with
  | nil => rfl
  | cons y cs =>
      by_cases hy : y = '\x27'
      · subst hy
        rfl
      · obtain ⟨hread, h⟩ := h.advance_cons rfl
        simp only [List.head?_cons, hy, if_false, readCharacter]
        rw [closeCharacter, bind_of_ok hread, bind_of_ok h.peek?, past_past]
        by_cases hclosed : cs.head? = some '\x27'
        · simp only [hclosed, if_true]
          obtain ⟨rest, rfl⟩ := List.head?_eq_some_iff.1 hclosed
          have hclose := (h.advance_cons (n := 1) rfl).1
          rw [past_past, past_past] at hclose
          rw [bind_of_ok hclose]
          rfl
        · simp only [hclosed, if_false]
          cases cs <;> rfl

theorem find?_of_mem {inside rest : List Char} (h : ∀ d ∈ inside, (d != x) = true) :
    find? x (inside ++ x :: rest) = some (byteLength inside) := by
  have hrest : ∀ d, (x :: rest).head? = some d → (d != x) = false := by simp
  rw [find?, if_pos (by simp), takeWhile_run h hrest]

theorem string_of_closed {inside rest : List Char} (hq : ∀ d ∈ inside, (d != '"') = true)
    (h : c.Before ('"' :: (inside ++ '"' :: rest))) :
    string c = .ok ⟨.stringLiteral, .text (String.ofList inside)⟩ (c.past ('"' :: (inside ++ ['"']))) := by
  obtain ⟨hopen, h⟩ := h.advance_cons (n := 1) rfl
  have hslice : slice? (String.ofList (inside ++ '"' :: rest)) 0 (byteLength inside) = some (String.ofList inside) :=
    slice?_ofList [] inside ('"' :: rest)
  have hclosed : (c.past ['"']).Before ((inside ++ ['"']) ++ rest) := by
    rwa [List.append_assoc, List.singleton_append]
  have hread : advance (byteLength inside + 1) (c.past ['"']) = .ok () (c.past ('"' :: (inside ++ ['"']))) := by
    have hread := hclosed.advance
    rw [byteLength_append, past_past] at hread
    exact hread
  rw [string, bind_of_ok hopen, bind_of_ok h.remainder, String.toList_ofList, find?_of_mem hq]
  simp only
  rw [bind_of_ok (slice_of_eq hslice _), bind_of_ok hread]
  rfl

theorem string_of_open {inside : List Char} (hq : ∀ d ∈ inside, (d != '"') = true) (h : c.Before ('"' :: inside)) :
    string c = .error (.failure (c.source.diagnose .unexpectedEndOfFile (c.past ('"' :: inside)).position))
      (c.past ('"' :: inside)) := by
  obtain ⟨hopen, h⟩ := h.advance_cons (n := 1) rfl
  rw [← List.append_nil inside] at h
  have hread := h.advance
  have hfind : find? '"' inside = none := if_neg fun hm => absurd (hq _ hm) (by decide)
  rw [List.append_nil] at h
  rw [byteLength_eq, past_past] at hread
  rw [string, bind_of_ok hopen, bind_of_ok h.remainder, String.toList_ofList, hfind]
  simp only
  rw [bind_of_ok hread]
  rfl

theorem string_eq (h : c.Before ('"' :: cs)) : string c = c.outcome ('"' :: cs) (readString cs) := by
  obtain ⟨rest, hcs, hrun, hrest⟩ := exists_run (· != '"') cs
  simp only [readString]
  generalize cs.takeWhile (· != '"') = inside at *
  subst hcs
  cases rest with
  | nil =>
      have hfailure := outcome_failure c ('"' :: inside) [] .unexpectedEndOfFile
      rw [List.append_nil] at h hfailure ⊢
      rw [if_neg (Nat.lt_irrefl _), string_of_open hrun h]
      exact hfailure.symm
  | cons d rest =>
      obtain rfl : d = '"' := by simpa using hrest d rfl
      have htext := outcome_text c ('"' :: (inside ++ ['"'])) rest .stringLiteral inside
      rw [List.cons_append, List.append_assoc, List.singleton_append, List.length_cons, List.length_append] at htext
      rw [if_pos (by simp), string_of_closed hrun h]
      exact htext.symm

theorem punctuator_eq {p : List Char} (h : c.Before (x :: cs)) (hp : p <+: x :: cs) :
    punctuator p c = c.outcome (x :: cs) (.text p.length .punctuator p) := by
  obtain ⟨rest, hsplit⟩ := hp
  rw [← hsplit] at h ⊢
  rw [punctuator, bind_of_ok h.advance, outcome_text]
  rfl

/-- The classes are tried in the order in which the first character decides between them. -/
theorem lexeme_eq (h : c.Before (x :: cs)) : lexeme c = c.outcome (x :: cs) (readLexeme x cs) := by
  rw [lexeme, bind_of_ok h.remainder, String.toList_ofList]
  unfold readLexeme
  split
  · rename_i hx
    subst hx
    exact comment_eq h
  rename_i hcomment
  split
  · rename_i hx
    have hreader : reader? (x :: cs) = some (word (x :: cs.takeWhile Char.isAlphanum)) := by
      simp [reader?, patterns, leading?, hcomment, hx]
    rw [hreader]
    exact word_eq h
  rename_i halpha
  split
  · rename_i hx
    have hreader : reader? (x :: cs) = some (number (x :: cs.takeWhile Char.isDigit)) := by
      simp [reader?, patterns, leading?, hcomment, halpha, hx]
    rw [hreader]
    exact number_eq h
  rename_i hdigit
  split
  · rename_i hx
    subst hx
    exact character_eq h
  rename_i hquote
  split
  · rename_i hx
    subst hx
    exact string_eq h
  rename_i hdouble
  have hreader : reader? (x :: cs) = (punctuators.find? (·.isPrefixOf (x :: cs))).map punctuator := by
    simp [reader?, patterns, leading?, hcomment, halpha, hdigit, hquote, hdouble]
  rw [hreader, readPunctuator]
  cases hp : punctuators.find? (·.isPrefixOf (x :: cs)) with
  | none => rfl
  | some p =>
      have hprefix : p.isPrefixOf (x :: cs) := by simpa using List.find?_some hp
      exact punctuator_eq h (List.isPrefixOf_iff_prefix.1 hprefix)

end Readers

/-! ## Cursor and scanner -/

/-- The cursor stands where the scanner stands. -/
structure Agrees (c : Cursor) (t : Scanner) : Prop where
  source : c.source = t.source
  position : c.position = t.position
  ended : c.ended = t.ended
  before : c.Before t.rest

/-- The same outcome, and where there is one the same state behind it. -/
inductive SameResult : EStateM.Result Halt Cursor Token → EStateM.Result Diagnostic Scanner Token → Prop
  | ok {c : Cursor} {t : Scanner} (token : Token) (h : c.Agrees t) : SameResult (.ok token c) (.ok token t)
  | error {c : Cursor} {t : Scanner} (d : Diagnostic) (h : c.Agrees t) : SameResult (.error (.failure d) c) (.error d t)

theorem agrees_start (s : Source) : s.cursor.Agrees s.scanner :=
  ⟨rfl, rfl, rfl, [], rfl, rfl⟩

section Agrees

variable {c : Cursor} {t : Scanner} (h : c.Agrees t)
include h

theorem Agrees.skip (n : Nat) : (c.past (t.rest.take n)).Agrees (t.skip n) where
  source := h.source
  position := by rw [Scanner.skip_position, ← h.position]; rfl
  ended := h.ended
  before := by
    have hbefore := h.before
    rw [← List.take_append_drop n t.rest] at hbefore
    exact hbefore.past

theorem Agrees.skipBlanks : ∃ d, skipBlanks c = .ok () d ∧ d.Agrees t.skipBlanks := by
  have hskip := h.skip (t.rest.takeWhile isBlank).length
  rw [← List.prefix_iff_eq_take.1 (List.takeWhile_prefix isBlank)] at hskip
  exact ⟨_, skipBlanks_eq h.before, hskip⟩

theorem Agrees.atEnd : c.atEnd = t.atEnd := by
  have hsize := h.before.size
  unfold Cursor.atEnd Scanner.atEnd
  cases hr : t.rest with
  | nil =>
      rw [hr] at hsize
      simp [hsize, byteLength]
  | cons x cs =>
      have hpos := byteLength_pos (List.cons_ne_nil x cs)
      rw [hr] at hsize
      simp only [List.isEmpty_cons, decide_eq_false_iff_not]
      omega

theorem Agrees.nextToken : SameResult (nextToken c) (Scanner.nextToken t) := by
  obtain ⟨d, hskip, h⟩ := h.skipBlanks
  rw [Cursor.nextToken, bind_of_ok hskip, get_bind, Scanner.nextToken, Scanner.readToken, h.atEnd, Scanner.atEnd]
  generalize t.skipBlanks = u at h ⊢
  cases hr : u.rest with
  | nil =>
      simp only [List.isEmpty_nil, if_true, ← h.position]
      exact .ok _ h
  | cons x cs =>
      have hbehind := h.skip (readLexeme x cs).length
      have hbefore := h.before
      rw [hr] at hbefore hbehind
      have hread := lexeme_eq hbefore
      simp only [List.isEmpty_cons, Bool.false_eq_true, if_false, outcome] at hread ⊢
      cases ho : (readLexeme x cs).outcome with
      | ok l =>
          rw [ho] at hread
          rw [bind_of_ok hread]
          change SameResult (.ok ⟨l, ⟨d.position, _⟩⟩ _) _
          rw [h.position, hbehind.position]
          exact .ok _ hbehind
      | error cause =>
          rw [ho] at hread
          rw [bind_of_error hread]
          simp only [h.source, hbehind.position]
          exact .error _ hbehind

theorem Agrees.next : ∃ d, next c = .ok t.next.1 d ∧ d.Agrees t.next.2 := by
  have hnext := h.nextToken
  unfold Cursor.next Scanner.next
  generalize Cursor.nextToken c = r, Scanner.nextToken t = r' at hnext ⊢
  rw [h.ended]
  cases t.ended with
  | true => exact ⟨c, rfl, h⟩
  | false =>
      simp only [Bool.false_eq_true, if_false]
      cases hnext with
      | ok token h' => exact ⟨_, rfl, h'.source, h'.position, rfl, h'.before⟩
      | error d h' => exact ⟨_, rfl, h'.source, h'.position, rfl, h'.before⟩

end Agrees

/-- The result in the state `d`. -/
def finish {α : Type} (d : Cursor) : Except Diagnostic α → EStateM.Result Halt Cursor α
  | .ok a => .ok a d
  | .error e => .error (.failure e) d

theorem Agrees.of_next {c c' : Cursor} {t : Scanner} {item : Option (Except Diagnostic Token)} (h : c.Agrees t)
    (hn : Cursor.next c = .ok item c') : t.next = (item, t.next.2) ∧ c'.Agrees t.next.2 := by
  obtain ⟨d, hnext, h'⟩ := h.next
  rw [hn] at hnext
  cases hnext
  exact ⟨rfl, h'⟩

/-- Collecting gives the stream of the scanner. -/
theorem Agrees.collect {c : Cursor} {t : Scanner} (h : c.Agrees t) :
    ∃ d : Cursor, Cursor.collect c = d.finish t.stream.collect := by
  fun_induction Cursor.collect c generalizing t with
  | case1 c c' hn =>
      rw [(Scanner.stream_of_next_none (h.of_next hn).1).1]
      exact ⟨c', rfl⟩
  | case2 c token c' hn hlt tokens c'' hc ih =>
      obtain ⟨hnext, h'⟩ := h.of_next hn
      obtain ⟨d, ih⟩ := ih h'
      rw [hc] at ih
      rw [Scanner.stream_of_next_token hnext, Stream.collect_cons]
      cases hs : t.next.2.stream.collect with
      | ok more =>
          rw [hs] at ih
          cases ih
          exact ⟨c'', rfl⟩
      | error e =>
          rw [hs] at ih
          cases ih
  | case3 c token c' hn hlt halt c'' hc ih =>
      obtain ⟨hnext, h'⟩ := h.of_next hn
      obtain ⟨d, ih⟩ := ih h'
      rw [hc] at ih
      rw [Scanner.stream_of_next_token hnext, Stream.collect_cons]
      cases hs : t.next.2.stream.collect with
      | ok more =>
          rw [hs] at ih
          cases ih
      | error e =>
          rw [hs] at ih
          cases ih
          exact ⟨c'', rfl⟩
  | case4 c e c' hn =>
      rw [(Scanner.stream_of_next_failure (h.of_next hn).1).1]
      exact ⟨c', rfl⟩
  | case5 c halt c' hn =>
      obtain ⟨d, hnext, -⟩ := h.next
      rw [hn] at hnext
      cases hnext

/-- To a command the cursor gives the answer of the scanner. -/
theorem Agrees.run {c : Cursor} {t : Scanner} (h : c.Agrees t) (command : Scanner.Command) :
    (c.run command).1 = (t.run command).1 ∧ (c.run command).2.Agrees (t.run command).2 := by
  cases command with
  | nextToken =>
      have hnext := h.nextToken
      unfold Cursor.run Scanner.run
      generalize Cursor.nextToken c = r, Scanner.nextToken t = r' at hnext ⊢
      cases hnext with
      | ok token h' => exact ⟨rfl, h'⟩
      | error d h' => exact ⟨rfl, h'⟩
  | next =>
      obtain ⟨d, hnext, h'⟩ := h.next
      simp only [Cursor.run, Scanner.run, hnext]
      exact ⟨trivial, h'⟩
  | collect =>
      obtain ⟨d, hcollect⟩ := h.collect
      simp only [Cursor.run, Scanner.run, hcollect]
      cases t.stream.collect with
      | ok tokens => exact ⟨rfl, h⟩
      | error e => exact ⟨rfl, h⟩
  | position => exact ⟨congrArg Scanner.Reply.position h.position, h⟩
  | peek =>
      simp only [Cursor.run, Scanner.run, h.before.peek?]
      exact ⟨rfl, h⟩
  | remainder =>
      simp only [Cursor.run, Scanner.run, h.before.remainder]
      exact ⟨rfl, h⟩
  | atEnd => exact ⟨congrArg Scanner.Reply.truth h.atEnd, h⟩
  | skipBytes n =>
      have hbefore := h.before
      simp only [Cursor.run, Scanner.run, Scanner.skipBytes?]
      cases hk : charsInBytes? n t.rest with
      | some k =>
          have htarget : c.target n = c.bytes + byteLength (t.rest.take k) := by
            rw [hbefore.target, byteLength_take_of_charsInBytes? hk]
          rw [← List.take_append_drop k t.rest] at hbefore
          rw [hbefore.advance_of_target htarget]
          exact ⟨rfl, h.skip k⟩
      | none =>
          have hinside : ¬ String.Pos.Raw.IsValid c.source.text ⟨c.target n⟩ := by
            rw [hbefore.isValid_target_iff, not_exists]
            exact byteLength_take_ne_of_charsInBytes? hk
          rw [advance_of_not_isValid hinside]
          exact ⟨rfl, h⟩
  | diagnose cause position =>
      exact ⟨congrArg (fun s : Source => Scanner.Reply.diagnostic (s.diagnose cause position)) h.source, h⟩

/-! ## Sessions -/

/-- The cursor after all commands in turn. -/
def runAll (c : Cursor) (commands : List Scanner.Command) : Cursor :=
  commands.foldl (fun c command => (c.run command).2) c

theorem runAll_append (c : Cursor) (commands more : List Scanner.Command) :
    c.runAll (commands ++ more) = (c.runAll commands).runAll more :=
  List.foldl_append

theorem Agrees.runAll {c : Cursor} {t : Scanner} (h : c.Agrees t) (commands : List Scanner.Command) :
    (c.runAll commands).Agrees (t.runAll commands) := by
  induction commands generalizing c t with
  | nil => exact h
  | cons command commands ih => exact ih (h.run command).2

/-- A session with a cursor is the session with the scanner. -/
theorem Agrees.session {c : Cursor} {t : Scanner} (h : c.Agrees t) (commands : List Scanner.Command) :
    List.Forall₂ (fun x y => x.1 = y.1 ∧ x.2.Agrees y.2) (c.session commands) (t.session commands) := by
  induction commands generalizing c t with
  | nil => exact .nil
  | cons command commands ih => exact .cons (h.run command) (ih (h.run command).2)

/-- Seen from outside, the two cannot be told apart. -/
theorem session_answers (s : Source) (commands : List Scanner.Command) :
    (s.cursor.session commands).map Prod.fst = (s.scanner.session commands).map Prod.fst := by
  rw [← List.forall₂_eq_eq_eq, List.forall₂_map_left_iff, List.forall₂_map_right_iff]
  exact ((agrees_start s).session commands).imp fun _ _ h => h.1

theorem Agrees.bytes_le {c d : Cursor} {t u : Scanner} (h : c.Agrees t) (h' : d.Agrees u) (hm : t.MovesTo u) :
    c.bytes ≤ d.bytes := by
  obtain ⟨n, ended, rfl⟩ := hm
  have hsize := h.before.size
  have hsize' := h'.before.size
  have hsplit := byteLength_append (t.rest.take n) (t.rest.drop n)
  rw [List.take_append_drop] at hsplit
  rw [h'.source] at hsize'
  rw [h.source] at hsize
  simp only [Scanner.skip_source, Scanner.skip_rest] at hsize'
  omega

/-- The cursor is about the source `s` and stands between two characters, its position counts all that stands before,
and what stands behind is in sight. -/
structure Undrifted (c : Cursor) (s : Source) : Prop where
  source : c.source = s
  within : c.bytes ≤ s.text.utf8ByteSize
  boundary : String.Pos.Raw.IsValid s.text ⟨c.bytes⟩
  counts : ∃ front rest, s.text = front ++ rest ∧ front.utf8ByteSize = c.bytes ∧ c.position.Counts front.toList ∧
    remainder c = .ok rest c ∧ peek? c = .ok rest.toList.head? c
  atEnd_iff : c.atEnd = true ↔ c.bytes = s.text.utf8ByteSize

theorem Agrees.undrifted {c : Cursor} {t : Scanner} {s : Source} {front : List Char} (h : c.Agrees t)
    (hs : t.Stands s front) : c.Undrifted s := by
  have hsource : c.source = s := h.source.trans hs.source
  have htext : s.text = String.ofList front ++ String.ofList t.rest := by
    rw [← String.ofList_append, ← hs.text, String.ofList_toList]
  have hsize := h.before.size
  have hbytes : (String.ofList front).utf8ByteSize = c.bytes := by
    have happend := congrArg String.utf8ByteSize htext
    rw [String.utf8ByteSize_append, ← byteLength_eq t.rest, ← hsource] at happend
    omega
  rw [hsource] at hsize
  refine ⟨hsource, by omega, ?_, ⟨_, _, htext, hbytes, ?_, h.before.remainder, ?_⟩, ?_⟩
  · exact String.Pos.Raw.isValid_iff_exists_append.2 ⟨_, _, htext, String.Pos.Raw.ext hbytes.symm⟩
  · rw [h.position, hs.position, String.toList_ofList]
    exact Position.counts_after front
  · rw [String.toList_ofList]
    exact h.before.peek?
  · rw [Cursor.atEnd, hsource, decide_eq_true_eq]
    omega

theorem Agrees.run_skipBytes {c : Cursor} {t : Scanner} (h : c.Agrees t) {n stop : Nat} (hstop : stop = c.target n) :
    (String.Pos.Raw.IsValid c.source.text ⟨stop⟩ → ∃ d, c.run (.skipBytes n) = (.done, d) ∧ d.bytes = stop) ∧
    (¬ String.Pos.Raw.IsValid c.source.text ⟨stop⟩ → c.run (.skipBytes n) = (.refused, c)) := by
  subst hstop
  have hbefore := h.before
  constructor
  · rw [hbefore.isValid_target_iff]
    rintro ⟨k, hk⟩
    have htarget : c.target n = c.bytes + byteLength (t.rest.take k) := by rw [hbefore.target, hk]
    rw [← List.take_append_drop k t.rest] at hbefore
    exact ⟨_, by rw [Cursor.run, hbefore.advance_of_target htarget], htarget.symm⟩
  · intro hinside
    rw [Cursor.run, advance_of_not_isValid hinside]

/-- Nothing else a cursor is asked for is refused, as no slice fails. -/
theorem Agrees.answers {c : Cursor} {t : Scanner} (h : c.Agrees t) {command : Scanner.Command}
    (hc : ∀ n, command ≠ .skipBytes n) : (c.run command).1 ≠ .refused := by
  rw [(h.run command).1]
  cases command with
  | nextToken =>
      unfold Scanner.run
      cases Scanner.nextToken t <;> exact Scanner.Reply.noConfusion
  | skipBytes n => exact absurd rfl (hc n)
  | _ => exact Scanner.Reply.noConfusion

end Cursor

/-- Whatever is done with the cursor of a source, it stays about this source, it stands between two characters and never
goes back, and its position counts what stands before. No slice fails, so that only a distance in bytes can be refused:
one that ends inside a character, and it leaves the cursor as it was. -/
theorem cursor_undrifted (s : Source) (commands : List Scanner.Command) :
    let c := s.cursor.runAll commands
    c.Undrifted s ∧ (∀ more, c.bytes ≤ (s.cursor.runAll (commands ++ more)).bytes) ∧
    (∀ command, (∀ n, command ≠ .skipBytes n) → (c.run command).1 ≠ .refused) ∧
    ∀ n stop, stop = min (c.bytes + n) s.text.utf8ByteSize →
      (String.Pos.Raw.IsValid s.text ⟨stop⟩ → ∃ d, c.run (.skipBytes n) = (.done, d) ∧ d.bytes = stop) ∧
      (¬ String.Pos.Raw.IsValid s.text ⟨stop⟩ → c.run (.skipBytes n) = (.refused, c)) := by
  obtain ⟨front, hs⟩ := Scanner.exists_stands s commands
  have h := (Cursor.agrees_start s).runAll commands
  have hundrifted := h.undrifted hs
  refine ⟨hundrifted, ?_, fun command => h.answers, ?_⟩
  · intro more
    rw [Cursor.runAll_append]
    exact h.bytes_le (h.runAll more) (Scanner.movesTo_runAll _ more)
  · intro n stop hstop
    have htarget : stop = (s.cursor.runAll commands).target n := by
      rw [Cursor.target, hundrifted.source]
      exact hstop
    have hrun := h.run_skipBytes htarget
    rwa [hundrifted.source] at hrun

/-- On the second line the scan stops before a character of two bytes that no token starts with. -/
theorem cursor_undrifted_second_line : ∃ s c, s = Source.mk "'ü' \"\n\" é" "shell" ∧
    c = s.cursor.runAll [.nextToken, .next, .nextToken] ∧ c.Undrifted s ∧ c.bytes = 9 ∧ c.position = ⟨8, 1, 2⟩ ∧
    (c.run .nextToken).1 ≠ .refused ∧ c.run (.skipBytes 1) = (.refused, c) ∧
    ∃ d, c.run (.skipBytes 9) = (.done, d) ∧ d.bytes = 11 := by
  generalize hs : Source.mk "'ü' \"\n\" é" "shell" = s
  obtain ⟨hundrifted, -, hanswers, hskip⟩ := cursor_undrifted s [.nextToken, .next, .nextToken]
  generalize hc : s.cursor.runAll [.nextToken, .next, .nextToken] = c at *
  obtain ⟨hbytes, hposition⟩ : c.bytes = 9 ∧ c.position = ⟨8, 1, 2⟩ := by
    subst hc hs
    decide +kernel
  refine ⟨_, _, rfl, hc.symm, hundrifted, hbytes, hposition, hanswers .nextToken (by simp), ?_, ?_⟩
  · exact (hskip 1 10 (by rw [hbytes, ← hs]; decide +kernel)).2 (by rw [← hs]; decide +kernel)
  · exact (hskip 9 11 (by rw [hbytes, ← hs]; decide +kernel)).1 (by rw [← hs]; decide +kernel)

end DeclScript
