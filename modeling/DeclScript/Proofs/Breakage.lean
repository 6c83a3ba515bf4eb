import DeclScript.Proofs.Longest

set_option autoImplicit false

/-!
# Texts that break off

When no token can be pulled, the first character ahead says what was begun there, and `Breaks` where it goes wrong. A
failure names this as its cause. The scanner then stands at the place to blame, so a failure that lies at the first
character comes again and again.
-/

namespace DeclScript

/-- The text ahead goes wrong behind its first `n` characters. -/
inductive Breaks : List Char → Nat → Cause → Prop
  /-- The whole run of digits is to blame. -/
  | number {c : Char} {cs : List Char} (h : c.isDigit)
      (hlarge : LexemeClass.number.Oversized ((c :: cs).takeWhile Char.isDigit)) :
      Breaks (c :: cs) 0 (.numberTooLarge (String.ofList ((c :: cs).takeWhile Char.isDigit)))
  | missingCharacter : Breaks ['\x27'] 1 (.malformedCharacter "end of file")
  | emptyCharacter (cs : List Char) : Breaks ('\x27' :: '\x27' :: cs) 1 (.malformedCharacter "\"'\"")
  | missingQuote {c : Char} (h : c ≠ '\x27') : Breaks ['\x27', c] 2 (.malformedCharacter "end of file")
  | longCharacter {c d : Char} (cs : List Char) (h : c ≠ '\x27') (hd : d ≠ '\x27') :
      Breaks ('\x27' :: c :: d :: cs) 2 (.malformedCharacter (String.ofList ['"', d, '"']))
  | string {cs : List Char} (h : '"' ∉ cs) : Breaks ('"' :: cs) (cs.length + 1) .unexpectedEndOfFile
  /-- No lexeme starts here. -/
  | other {c : Char} {cs : List Char} (hd : c.isDigit = false) (hs : c ≠ '\x27') (hq : c ≠ '"')
      (hnone : ∀ (cls : LexemeClass) (word : List Char), word <+: c :: cs → ¬ cls.Holds word) :
      Breaks (c :: cs) 0 (.unexpectedCharacter c)

/-! ## Readings that fail -/

variable {c : Char} {cs : List Char} {cause : Cause}

theorem breaks_of_readNumber (hc : c.isDigit) (h : (readNumber c cs).outcome = .error cause) :
    Breaks (c :: cs) (readNumber c cs).length cause := by
  simp only [readNumber] at h ⊢
  split at h
  · cases h
  · rename_i hlarge
    rw [if_neg hlarge]
    cases h
    have hb := @Breaks.number c cs hc
    rw [List.takeWhile_cons_of_pos hc] at hb
    exact hb ⟨rfl, Nat.le_of_not_lt hlarge⟩

theorem breaks_of_readCharacter (h : (readCharacter cs).outcome = .error cause) :
    Breaks ('\x27' :: cs) (readCharacter cs).length cause := by
  cases cs with
  | nil =>
      cases h
      exact .missingCharacter
  | cons c cs =>
      simp only [readCharacter] at h ⊢
      by_cases hc : c = '\x27'
      · subst hc
        rw [if_pos rfl] at h ⊢
        cases h
        exact .emptyCharacter cs
      · rw [if_neg hc] at h ⊢
        split at h
        · cases h
        · rename_i hq
          rw [if_neg hq]
          cases h
          cases cs with
          | nil => exact .missingQuote hc
          | cons d cs => exact .longCharacter cs hc fun hd => hq (congrArg some hd)

theorem breaks_of_readString (h : (readString cs).outcome = .error cause) :
    Breaks ('"' :: cs) (readString cs).length cause := by
  simp only [readString] at h ⊢
  split at h
  · cases h
  · rename_i hlength
    rw [if_neg hlength]
    cases h
    -- the run that a quote would end goes through to the end of the text
    have hall : cs.takeWhile (· != '"') = cs :=
      (List.takeWhile_prefix _).eq_of_length_le (Nat.le_of_not_lt hlength)
    refine .string ?_
    intro hmem
    rw [← hall] at hmem
    cases List.mem_takeWhile_imp hmem

/-- Where no other class of lexemes begins, there are only punctuators to be looked for. -/
theorem breaks_of_readPunctuator (hn : c ≠ '#') (ha : c.isAlpha = false) (hd : c.isDigit = false) (hs : c ≠ '\x27')
    (hq : c ≠ '"') (h : (readPunctuator c cs).outcome = .error cause) :
    Breaks (c :: cs) (readPunctuator c cs).length cause := by
  unfold readPunctuator at h ⊢
  split at h
  · cases h
  · rename_i hfind
    cases h
    refine .other hd hs hq ?_
    intro cls word hfront hholds
    obtain ⟨d, word, rfl⟩ := List.exists_cons_of_ne_nil hholds.ne_nil
    obtain ⟨rfl, -⟩ := List.cons_prefix_cons.1 hfront
    have hclass : cls = .punctuator := by
      rw [hholds.eq_ofFirst]
      simp [LexemeClass.ofFirst, hn, ha, hd, hs, hq]
    subst hclass
    cases hholds with
    | punctuator hmem => exact absurd (List.isPrefixOf_iff_prefix.2 hfront) (List.find?_eq_none.1 hfind _ hmem)

theorem breaks_of_readLexeme :
    (readLexeme c cs).outcome = .error cause → Breaks (c :: cs) (readLexeme c cs).length cause := by
  fun_cases readLexeme c cs with
  | case1 => exact fun h => by cases h
  | case2 => exact fun h => by cases h
  | case3 _ _ hc => exact breaks_of_readNumber hc
  | case4 _ _ _ hc =>
      subst hc
      exact breaks_of_readCharacter
  | case5 _ _ _ _ hc =>
      subst hc
      exact breaks_of_readString
  | case6 hn ha hd hs hq => exact breaks_of_readPunctuator hn (by simpa using ha) (by simpa using hd) hs hq

/-! ## Scanners that fail -/

namespace Breaks

variable {text : List Char} {n : Nat}

theorem eq_zero (h : Breaks text n cause)
    (hcause : (∃ c, cause = .unexpectedCharacter c) ∨ ∃ digits, cause = .numberTooLarge digits) : n = 0 := by
  cases h with
  | number => rfl
  | other => rfl
  | _ => simp at hcause

theorem drop_of_unexpectedEndOfFile (h : Breaks text n .unexpectedEndOfFile) : text.drop n = [] := by
  cases h with
  | string => simp

theorem found_iff {found : String} (h : Breaks text n (.malformedCharacter found)) :
    found = "end of file" ↔ text.drop n = [] := by
  cases h with
  | missingCharacter => simp
  | emptyCharacter => simp
  | missingQuote => simp
  | @longCharacter c d cs hc hd =>
      refine iff_of_false ?_ (by simp)
      intro heq
      have hchars : ['"', d, '"'] = "end of file".toList := by rw [← heq, String.toList_ofList]
      have hfirst : some '"' = "end of file".toList.head? := congrArg List.head? hchars
      exact absurd hfirst (by decide)

end Breaks

namespace Scanner

variable {s s' : Scanner} {d : Diagnostic}

theorem breaks_of_nextToken (h : nextToken s = .error d s') : ∃ n, Breaks s.ahead n d.cause ∧
    s' = s.skipBlanks.skip n ∧ d = s.source.diagnose d.cause s'.position := by
  have hahead : s.skipBlanks.rest = s.ahead := s.skipBlanks_rest
  unfold nextToken readToken at h
  split at h
  · cases h
  · rename_i c cs hr
    rw [hr] at hahead
    simp only at h
    cases ho : (readLexeme c cs).outcome with
    | ok l =>
        rw [ho] at h
        cases h
    | error cause =>
        rw [ho] at h
        cases h
        rw [← hahead]
        exact ⟨_, breaks_of_readLexeme ho, rfl, rfl⟩

theorem skipBlanks_position (s : Scanner) :
    s.skipBlanks.position = s.position.after (s.rest.takeWhile isBlank) := by
  have htake := List.prefix_iff_eq_take.1 (List.takeWhile_prefix (p := isBlank) (l := s.rest))
  rw [skipBlanks, skip_position, ← htake]

theorem isBlank_of_head?_ahead {c : Char} (h : s.ahead.head? = some c) : isBlank c = false := by
  have hfirst := List.head?_dropWhile_not isBlank s.rest
  rw [ahead] at h
  rw [h] at hfirst
  exact hfirst

theorem skipBlanks_skipBlanks (s : Scanner) : s.skipBlanks.skipBlanks = s.skipBlanks := by
  have hfirst : ∀ c, s.skipBlanks.rest.head? = some c → isBlank c = false := by
    intro c hc
    rw [skipBlanks_rest] at hc
    exact isBlank_of_head?_ahead hc
  exact skipBlanks_eq (List.nil_append _).symm (by simp) hfirst

theorem nextToken_skipBlanks (s : Scanner) : nextToken s.skipBlanks = nextToken s := by
  rw [nextToken, skipBlanks_skipBlanks]
  rfl

end Scanner

/-- A failing scanner has only moved: it stands at the place that the diagnostic gives, where the text ahead breaks off.
If this is at its first character, the same failure comes again; if it is at its end, the end of the file comes next. -/
theorem nextToken_error_exact (s s' : Scanner) (d : Diagnostic) (h : Scanner.nextToken s = .error d s') :
    d.position = s'.position ∧ s'.source = s.source ∧ s'.ended = s.ended ∧
    d = s.source.diagnose d.cause d.position ∧
    (∃ n, Breaks s.ahead n d.cause ∧ s'.rest = s.ahead.drop n ∧
      d.position = s.position.after (s.rest.takeWhile isBlank ++ s.ahead.take n)) ∧
    (∀ found, d.cause = .malformedCharacter found → (found = "end of file" ↔ s'.rest = [])) ∧
    ((∃ c, d.cause = .unexpectedCharacter c) ∨ (∃ digits, d.cause = .numberTooLarge digits) →
      Scanner.nextToken s' = .error d s') ∧
    (d.cause = .unexpectedEndOfFile →
      ∃ t s'', Scanner.nextToken s' = .ok t s'' ∧ t.toLexeme = ⟨.endOfFile, .none⟩) := by
  obtain ⟨n, hbreaks, hs', hd⟩ := Scanner.breaks_of_nextToken h
  have hposition : d.position = s'.position := congrArg Diagnostic.position hd
  have hrest : s'.rest = s.ahead.drop n := by
    rw [hs', Scanner.skip_rest, Scanner.skipBlanks_rest]
    rfl
  have hplace : s'.position = s.position.after (s.rest.takeWhile isBlank ++ s.ahead.take n) := by
    rw [hs', Scanner.skip_position, Scanner.skipBlanks_rest, Scanner.skipBlanks_position, Position.after_append]
    rfl
  refine ⟨hposition, by rw [hs']; rfl, by rw [hs']; rfl, hposition ▸ hd, ⟨n, hbreaks, hrest, hposition.trans hplace⟩,
    ?_, ?_, ?_⟩
  · intro found hfound
    rw [hfound] at hbreaks
    rw [hbreaks.found_iff, hrest]
  · intro hcause
    obtain rfl := hbreaks.eq_zero hcause
    have hblanks : s' = s.skipBlanks := hs'
    rw [hblanks, Scanner.nextToken_skipBlanks, h, hblanks]
  · intro hcause
    rw [hcause] at hbreaks
    have hend : s'.ahead = [] := by
      rw [Scanner.ahead, hrest, hbreaks.drop_of_unexpectedEndOfFile]
      rfl
    exact Scanner.exists_endOfFile_of_ahead hend

/-- The third character is the line feed behind a character of two bytes, and it is not a quote. -/
theorem nextToken_error_exact_lineFeed : ∃ s s' d, s = Source.scanner ⟨" \n'é\n", "shell"⟩ ∧
    Scanner.nextToken s = .error d s' ∧ d = ⟨.malformedCharacter "\"\n\"", ⟨4, 1, 2⟩, "shell", "'é"⟩ ∧
    d.position = s'.position ∧ s'.source = s.source ∧ s'.ended = s.ended ∧
    ∃ n, Breaks s.ahead n d.cause ∧ s'.rest = s.ahead.drop n := by
  have herror : Scanner.nextToken (Source.scanner ⟨" \n'é\n", "shell"⟩) =
      .error ⟨.malformedCharacter "\"\n\"", ⟨4, 1, 2⟩, "shell", "'é"⟩
        ⟨⟨" \n'é\n", "shell"⟩, ⟨4, 1, 2⟩, ['\n'], false⟩ := by
    rfl
  obtain ⟨hposition, hsource, hended, -, ⟨n, hbreaks, hrest, -⟩, -⟩ := nextToken_error_exact _ _ _ herror
  exact ⟨_, _, _, rfl, herror, rfl, hposition, hsource, hended, n, hbreaks, hrest⟩

end DeclScript
