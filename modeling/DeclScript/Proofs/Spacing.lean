import DeclScript.Proofs.Layout

set_option autoImplicit false

/-!
# Lexemes with blanks between

Lexemes that are written down one behind the other are read back as they are, if blanks keep them apart. A comment goes
on over spaces, so it is the line feed that ends it; all other lexemes end before any blank.
-/

namespace DeclScript

namespace Lexeme

/-- The lexemes that can be written down. -/
def isWritable : Lexeme → Bool
  | ⟨.comment, .text t⟩ => !t.toList.contains '\n'
  | ⟨.keyword, .text t⟩ => reservedWords.contains (t, .keyword)
  | ⟨.nullLiteral, .text t⟩ => reservedWords.contains (t, .nullLiteral)
  | ⟨.booleanLiteral, .text t⟩ => reservedWords.contains (t, .booleanLiteral)
  | ⟨.identifier, .text t⟩ => isName t
  | ⟨.punctuator, .text t⟩ => punctuators.contains t.toList
  | ⟨.numericLiteral, .number _⟩ => true
  | ⟨.characterLiteral, .text t⟩ => t.toList.length == 1 && !t.toList.contains '\x27'
  | ⟨.stringLiteral, .text t⟩ => !t.toList.contains '"'
  | _ => false

/-- How a lexeme is written: a number in decimal, with this many zeros before it. -/
def spelling (zeros : Nat) : Lexeme → List Char
  | ⟨.comment, .text t⟩ => '#' :: t.toList
  | ⟨.characterLiteral, .text t⟩ => '\x27' :: (t.toList ++ ['\x27'])
  | ⟨.stringLiteral, .text t⟩ => '"' :: (t.toList ++ ['"'])
  | ⟨_, .text t⟩ => t.toList
  | ⟨_, .number n⟩ => List.replicate zeros '0' ++ Nat.toDigits 10 n.toNat
  | ⟨_, .none⟩ => []

end Lexeme

theorem spells_decimal (zeros : Nat) (n : UInt64) :
    Lexeme.Spells ⟨.numericLiteral, .number n⟩ (List.replicate zeros '0' ++ Nat.toDigits 10 n.toNat) := by
  refine .number ?_ ?_ ?_
  · simp [Nat.toDigits_ne_nil]
  · intro d hd
    rcases List.mem_append.1 hd with hd | hd
    · rw [List.eq_of_mem_replicate hd]
      rfl
    · exact Nat.isDigit_of_mem_toDigits (by decide) (by decide) hd
  · rw [Nat.ofDigitChars_append, Nat.ofDigitChars_replicate_zero, Nat.mul_zero]
    exact Nat.ofDigitChars_ten_toDigits

theorem Lexeme.spells_spelling {l : Lexeme} (h : l.isWritable) (zeros : Nat) : l.Spells (l.spelling zeros) := by
  revert h
  fun_cases isWritable l with
  | case1 t => exact fun h => .comment (by simpa using h)
  | case2 t => exact fun h => .reserved (by simpa using h)
  | case3 t => exact fun h => .reserved (by simpa using h)
  | case4 t => exact fun h => .reserved (by simpa using h)
  | case5 t => exact fun h => .identifier h
  | case6 t => exact fun h => .punctuator (by simpa using h)
  | case7 n => exact fun _ => spells_decimal zeros n
  | case8 t =>
      intro h
      simp only [Bool.and_eq_true, beq_iff_eq, Bool.not_eq_true', List.contains_eq_mem, decide_eq_false_iff_not] at h
      obtain ⟨c, hc⟩ := List.length_eq_one_iff.1 h.1
      have hne : c ≠ '\x27' := by
        rintro rfl
        exact h.2 (by simp [hc])
      have hs := Spells.character hne
      rw [← hc, String.ofList_toList] at hs
      simpa [spelling, hc] using hs
  | case9 t => exact fun h => .string (by simpa using h)
  | case10 => exact fun h => by cases h

/-- A lexeme ends where nothing or a blank follows. After a comment the blank has to be a line feed. -/
theorem Lexeme.ends_of_blank {l : Lexeme} {rest : List Char} (word : List Char)
    (hrest : ∀ c, rest.head? = some c → isBlank c)
    (hcomment : l.kind = .comment → ∀ c, rest.head? = some c → c = '\n') : l.Ends word rest := by
  have hword : ∀ c, rest.head? = some c → c.isAlphanum = false := by
    intro c hc
    rcases eq_of_isBlank (hrest c hc) with rfl | rfl <;> rfl
  obtain ⟨kind, value⟩ := l
  cases kind with
  | comment => exact hcomment rfl
  | keyword => exact hword
  | identifier => exact hword
  | nullLiteral => exact hword
  | booleanLiteral => exact hword
  | numericLiteral =>
      intro c hc
      rcases eq_of_isBlank (hrest c hc) with rfl | rfl <;> rfl
  | characterLiteral => trivial
  | stringLiteral => trivial
  | endOfFile => trivial
  | punctuator =>
      intro p hp hprefix
      cases rest with
      | nil =>
          rw [List.append_nil] at hprefix
          exact hprefix.length_le
      | cons c rest =>
          have hmem : c ∉ p := by
            intro hc
            have hblank := (of_mem_punctuator hp hc).2.2.2.2.2
            rw [hrest c rfl] at hblank
            cases hblank
          exact (prefix_of_not_mem hmem hprefix).length_le

/-! ## Written texts -/

/-- A lexeme that is written with `zeros` zeros before it, if it is a number, and with the blanks `gap` behind it. -/
structure Entry where
  lexeme : Lexeme
  zeros : Nat := 0
  gap : List Char

namespace Entry

def word (e : Entry) : List Char :=
  e.lexeme.spelling e.zeros

/-- The entries written one behind the other. -/
def written (entries : List Entry) : List Char :=
  entries.flatMap fun e => e.word ++ e.gap

/-- The lexeme can be written, only blanks are behind it, and they do not go on with a comment. -/
structure Proper (e : Entry) : Prop where
  writable : e.lexeme.isWritable
  blank : e.gap.all isBlank
  comment : e.lexeme.kind = .comment → e.gap = [] ∨ e.gap.head? = some '\n'

instance (e : Entry) : Decidable e.Proper :=
  decidable_of_iff (e.lexeme.isWritable = true ∧ e.gap.all isBlank = true ∧
      (e.lexeme.kind = .comment → e.gap = [] ∨ e.gap.head? = some '\n'))
    ⟨fun ⟨hw, hb, hc⟩ => ⟨hw, hb, hc⟩, fun ⟨hw, hb, hc⟩ => ⟨hw, hb, hc⟩⟩

/-- Each entry is proper, and blanks keep it apart from the next one. -/
structure Spaced (entries : List Entry) : Prop where
  proper : ∀ e ∈ entries, e.Proper
  apart : ∀ e ∈ entries.dropLast, e.gap ≠ []

/-- The tokens of the entries, which are written behind the text `read`. -/
def tokens (read : List Char) : List Entry → List Token
  | [] => [⟨⟨.endOfFile, .none⟩, ⟨Position.after {} read, Position.after {} read⟩⟩]
  | e :: es => ⟨e.lexeme, ⟨Position.after {} read, Position.after {} (read ++ e.word)⟩⟩ ::
      tokens (read ++ e.word ++ e.gap) es

theorem written_cons (e : Entry) (es : List Entry) : written (e :: es) = e.word ++ (e.gap ++ written es) := by
  simp [written]

theorem lexemes_tokens (read : List Char) (entries : List Entry) :
    lexemes (tokens read entries) = entries.map lexeme ++ [⟨.endOfFile, .none⟩] := by
  induction entries generalizing read with
  | nil => rfl
  | cons e es ih => exact congrArg (e.lexeme :: ·) (ih _)

/-- Behind the tokens of some entries come those of the others. -/
theorem drop_tokens (read : List Char) (before behind : List Entry) :
    (tokens read (before ++ behind)).drop before.length = tokens (read ++ written before) behind := by
  induction before generalizing read with
  | nil => simp [written]
  | cons e before ih =>
      rw [written_cons, ← List.append_assoc, ← List.append_assoc]
      exact ih (read ++ e.word ++ e.gap)

theorem getElem?_tokens (read : List Char) (before behind : List Entry) :
    (tokens read (before ++ behind))[before.length]? = (tokens (read ++ written before) behind).head? := by
  rw [← drop_tokens, List.head?_drop]

theorem Spaced.tail {e : Entry} {es : List Entry} (h : Spaced (e :: es)) : Spaced es where
  proper f hf := h.proper f (List.mem_cons_of_mem e hf)
  apart f hf := by
    refine h.apart f ?_
    cases es with
    | nil => cases hf
    | cons g es => exact List.mem_cons_of_mem e hf

theorem Spaced.ends {e : Entry} {es : List Entry} (h : Spaced (e :: es)) :
    e.lexeme.Ends e.word (e.gap ++ written es) := by
  have he := h.proper e List.mem_cons_self
  -- if there is no blank behind the entry, it is the last one
  have hhead : ∀ c, (e.gap ++ written es).head? = some c → e.gap.head? = some c := by
    intro c hc
    cases hgap : e.gap with
    | cons d gap =>
        rw [hgap] at hc
        exact hc
    | nil =>
        cases es with
        | nil => simp [hgap, written] at hc
        | cons f es => exact absurd hgap (h.apart e (by simp))
  refine Lexeme.ends_of_blank e.word ?_ ?_
  · intro c hc
    exact List.all_eq_true.1 he.blank c (List.mem_of_head? (hhead c hc))
  · intro hk c hc
    have hc := hhead c hc
    rcases he.comment hk with hgap | hgap
    · simp [hgap] at hc
    · exact Option.some.inj (hc.symm.trans hgap)

/-- A scanner before blanks and the entries reads the entries, one after the other. -/
theorem Spaced.drain {entries : List Entry} (h : Spaced entries) {s : Scanner} {read blanks : List Char}
    (hp : s.position = Position.after {} read) (hr : s.rest = blanks ++ written entries)
    (hb : blanks.all isBlank) : s.drain = ⟨tokens (read ++ blanks) entries, none⟩ := by
  induction entries generalizing s read blanks with
  | nil =>
      have hrest : s.rest = blanks := by simpa [written] using hr
      have hn := Scanner.nextToken_of_pulls (.endOfFile (hrest ▸ List.all_eq_true.1 hb))
      rw [Scanner.drain_of_endOfFile hn rfl, hrest, hp, ← Position.after_append]
      rfl
  | cons e es ih =>
      have he := h.proper e List.mem_cons_self
      have hs := Lexeme.spells_spelling he.writable e.zeros
      rw [written_cons] at hr
      have hn := Scanner.nextToken_of_pulls (.lexeme hr (List.all_eq_true.1 hb) hs h.ends)
      have hstop : s.position.after (blanks ++ e.word) = Position.after {} (read ++ blanks ++ e.word) := by
        rw [hp, ← Position.after_append, List.append_assoc]
      rw [Scanner.drain_of_ok hn hs.kind_ne_endOfFile, ih h.tail hstop rfl he.blank, hp, ← Position.after_append,
        ← Position.after_append, ← List.append_assoc]
      rfl

end Entry

theorem Source.tokens_of_spaced {lead : List Char} {entries : List Entry} (file : String)
    (hlead : lead.all isBlank) (h : Entry.Spaced entries) :
    Source.tokens ⟨String.ofList (lead ++ Entry.written entries), file⟩ = .ok (Entry.tokens lead entries) := by
  rw [tokens_eq_ok_iff]
  exact @Entry.Spaced.drain entries h (scanner ⟨_, file⟩) [] lead rfl String.toList_ofList hlead

/-- Lexemes that are written down with blanks before, between and behind them are read back, each with the span of its
own spelling, and the end of the file behind all of them. -/
theorem tokens_of_written (file : String) (lead : List Char) (entries : List Entry)
    (hlead : lead.all isBlank) (h : Entry.Spaced entries) :
    ∃ ts, Source.tokens ⟨String.ofList (lead ++ Entry.written entries), file⟩ = .ok ts ∧
      lexemes ts = entries.map Entry.lexeme ++ [⟨.endOfFile, .none⟩] ∧
      (∀ before e behind, entries = before ++ e :: behind → ∃ t, ts[before.length]? = some t ∧
        t.toLexeme = e.lexeme ∧ t.span.start = Position.after {} (lead ++ Entry.written before) ∧
        t.span.stop = Position.after {} (lead ++ Entry.written before ++ e.word) ∧
        stretch (lead ++ Entry.written entries) t.span.start.offset t.span.stop.offset = e.word) ∧
      ∃ e, ts[entries.length]? = some e ∧ e.span.start = Position.after {} (lead ++ Entry.written entries) ∧
        e.span.stop = e.span.start := by
  refine ⟨_, Source.tokens_of_spaced file hlead h, Entry.lexemes_tokens lead entries, ?_, ?_⟩
  · rintro before e behind rfl
    refine ⟨_, Entry.getElem?_tokens lead before (e :: behind), rfl, rfl, rfl, ?_⟩
    have hmiddle := stretch_middle (lead ++ Entry.written before) e.word (e.gap ++ Entry.written behind)
    rw [offset_after, offset_after]
    simpa [Entry.written] using hmiddle
  · have hend := Entry.getElem?_tokens lead entries []
    rw [List.append_nil] at hend
    exact ⟨_, hend, rfl, rfl⟩

/-- A comment over a name, a character that is a line feed, a string of two lines, the greatest number behind zeros, and
punctuators that would be one without the blank. -/
theorem tokens_of_written_lines : ∃ ts, Source.tokens
      ⟨" #é > 'x' \nlet1 '\n' \"'\n#\" 0018446744073709551615 > >> null\n", "shell"⟩ = .ok ts ∧
    lexemes ts = [⟨.comment, .text "é > 'x' "⟩, ⟨.identifier, .text "let1"⟩, ⟨.characterLiteral, .text "\n"⟩,
      ⟨.stringLiteral, .text "'\n#"⟩, ⟨.numericLiteral, .number (.ofNat 18446744073709551615)⟩,
      ⟨.punctuator, .text ">"⟩, ⟨.punctuator, .text ">>"⟩, ⟨.nullLiteral, .text "null"⟩, ⟨.endOfFile, .none⟩] ∧
    ∃ t, ts[4]? = some t ∧ t.span.start = ⟨26, 3, 3⟩ ∧ t.span.stop = ⟨48, 3, 25⟩ := by
  let before : List Entry := [⟨⟨.comment, .text "é > 'x' "⟩, 0, ['\n']⟩, ⟨⟨.identifier, .text "let1"⟩, 0, [' ']⟩,
    ⟨⟨.characterLiteral, .text "\n"⟩, 0, [' ']⟩, ⟨⟨.stringLiteral, .text "'\n#"⟩, 0, [' ']⟩]
  let number : Entry := ⟨⟨.numericLiteral, .number (.ofNat 18446744073709551615)⟩, 2, [' ']⟩
  let behind : List Entry := [⟨⟨.punctuator, .text ">"⟩, 0, [' ']⟩, ⟨⟨.punctuator, .text ">>"⟩, 0, [' ']⟩,
    ⟨⟨.nullLiteral, .text "null"⟩, 0, ['\n']⟩]
  have hspaced : Entry.Spaced (before ++ number :: behind) := ⟨by decide +kernel, by decide +kernel⟩
  obtain ⟨ts, hts, hlexemes, hspans, -⟩ := tokens_of_written "shell" [' '] _ (by decide) hspaced
  obtain ⟨t, ht, -, hstart, hstop, -⟩ := hspans before number behind rfl
  exact ⟨ts, hts, hlexemes, t, ht, hstart, hstop⟩

end DeclScript
