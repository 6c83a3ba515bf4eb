import DeclScript.Proofs.Layout

set_option autoImplicit false

/-!
# The longest lexeme

The texts of lexemes fall into six classes, which say nothing about the order in which they are tried. Pulling a token
takes the longest text of any class that the text ahead starts with, and there is a token whenever there is such a text.
Only a run of digits may still be refused, for the size of its number.
-/

namespace DeclScript

inductive LexemeClass where
  | comment
  | word
  | number
  | character
  | string
  | punctuator
deriving DecidableEq

namespace LexemeClass

/-- The texts of a class. Numbers may be of any size. -/
inductive Holds : LexemeClass → List Char → Prop
  | comment {text : List Char} (h : '\n' ∉ text) : Holds .comment ('#' :: text)
  | word {word : List Char} (h : isWord word) : Holds .word word
  | number {digits : List Char} (hne : digits ≠ []) (hd : ∀ d ∈ digits, d.isDigit) : Holds .number digits
  | character {c : Char} (h : c ≠ '\x27') : Holds .character ['\x27', c, '\x27']
  | string {text : List Char} (h : '"' ∉ text) : Holds .string ('"' :: (text ++ ['"']))
  | punctuator {text : List Char} (h : text ∈ punctuators) : Holds .punctuator text

/-- The kind of the lexeme of a class that is written `word`. Only words that are reserved as a whole have a kind of
their own. -/
def kind (word : List Char) : LexemeClass → Kind
  | .comment => .comment
  | .word => (reserved? (String.ofList word)).getD .identifier
  | .number => .numericLiteral
  | .character => .characterLiteral
  | .string => .stringLiteral
  | .punctuator => .punctuator

/-- The text is a run of digits whose number does not fit into 64 bits. -/
def Oversized (cls : LexemeClass) (word : List Char) : Prop :=
  cls = .number ∧ UInt64.size ≤ Nat.ofDigitChars 10 word 0

/-- The text starts with `word`, and with no longer text of any class. -/
structure Longest (cls : LexemeClass) (word text : List Char) : Prop where
  front : word <+: text
  holds : cls.Holds word
  max : ∀ (cls' : LexemeClass) (other : List Char), other <+: text → cls'.Holds other → other.length ≤ word.length

/-! ## Classes and first characters -/

/-- The only class that has texts with this first character. -/
def ofFirst (c : Char) : LexemeClass :=
  if c = '#' then .comment
  else if c.isAlpha then .word
  else if c.isDigit then .number
  else if c = '\x27' then .character
  else if c = '"' then .string
  else .punctuator

variable {cls cls' : LexemeClass} {word other text rest : List Char}

theorem Holds.ne_nil (h : cls.Holds word) : word ≠ [] := by
  cases h with
  | comment => exact List.cons_ne_nil _ _
  | word h =>
      rintro rfl
      cases h
  | number hne => exact hne
  | character => exact List.cons_ne_nil _ _
  | string => exact List.cons_ne_nil _ _
  | punctuator h => exact punctuator_ne_nil h

theorem Holds.eq_ofFirst {c : Char} (h : cls.Holds (c :: text)) : cls = ofFirst c := by
  generalize hcs : c :: text = cs at h
  cases h with
  | comment =>
      cases hcs
      rfl
  | word h =>
      subst hcs
      have hc : c.isAlpha := by
        simp only [isWord, Bool.and_eq_true] at h
        exact h.1
      have hne : c ≠ '#' := by
        rintro rfl
        cases hc
      simp [ofFirst, hne, hc]
  | number hne hd =>
      subst hcs
      have hc := hd c List.mem_cons_self
      have hne : c ≠ '#' := by
        rintro rfl
        cases hc
      simp [ofFirst, hne, hc, not_isAlpha_of_isDigit hc]
  | character =>
      cases hcs
      rfl
  | string =>
      cases hcs
      rfl
  | punctuator h =>
      subst hcs
      obtain ⟨h1, h2, h3, h4, h5, -⟩ := of_mem_punctuator h List.mem_cons_self
      simp [ofFirst, h1, h2, h3, h4, h5]

theorem Holds.eq_of_front (h : cls.Holds word) (h' : cls'.Holds other) (hf : word <+: text) (hf' : other <+: text) :
    cls = cls' := by
  obtain ⟨c, word, rfl⟩ := List.exists_cons_of_ne_nil h.ne_nil
  obtain ⟨d, other, rfl⟩ := List.exists_cons_of_ne_nil h'.ne_nil
  cases text with
  | nil => simp at hf
  | cons e text =>
      obtain ⟨rfl, -⟩ := List.cons_prefix_cons.1 hf
      obtain ⟨rfl, -⟩ := List.cons_prefix_cons.1 hf'
      rw [h.eq_ofFirst, h'.eq_ofFirst]

/-! ## Spellings are longest -/

theorem length_le_of_ends {l : Lexeme} (h : l.Spells word) (he : l.Ends word rest) (ho : cls.Holds other)
    (hf : other <+: word ++ rest) : other.length ≤ word.length := by
  have hword : word <+: word ++ rest := List.prefix_append word rest
  cases h with
  | comment h =>
      obtain rfl := ho.eq_of_front (.comment h) hf hword
      cases ho with
      | @comment text ho =>
          have hf := (List.cons_prefix_cons.1 hf).2
          have hrest : ∀ c, rest.head? = some c → (c != '\n') = false := by
            intro c hc
            simp [he c hc]
          exact Nat.succ_le_succ (length_le_of_run (bne_of_not_mem ho) hrest hf)
  | reserved h =>
      obtain rfl := ho.eq_of_front (.word (isWord_of_reserved h)) hf hword
      have hrest : ∀ c, rest.head? = some c → c.isAlphanum = false := by
        rcases kind_of_reserved h with rfl | rfl | rfl <;> exact he
      cases ho with
      | word ho => exact length_le_of_run (isAlphanum_of_isWord ho) hrest hf
  | identifier h =>
      simp only [isName, Bool.and_eq_true] at h
      obtain rfl := ho.eq_of_front (.word h.1) hf hword
      cases ho with
      | word ho => exact length_le_of_run (isAlphanum_of_isWord ho) he hf
  | punctuator h =>
      obtain rfl := ho.eq_of_front (.punctuator h) hf hword
      cases ho with
      | punctuator ho => exact he other ho hf
  | number hne hd =>
      obtain rfl := ho.eq_of_front (.number hne hd) hf hword
      cases ho with
      | number _ ho => exact length_le_of_run ho he hf
  | character h =>
      obtain rfl := ho.eq_of_front (.character h) hf hword
      cases ho with
      | character => exact Nat.le_refl _
  | @string text h =>
      obtain rfl := ho.eq_of_front (.string h) hf hword
      cases ho with
      | @string inside ho =>
          -- the shorter of two strings would have its closing quote inside the longer one
          have hinside : inside <+: text.toList ++ '"' :: rest := by
            have hf : inside ++ ['"'] <+: text.toList ++ ['"'] ++ rest := (List.cons_prefix_cons.1 hf).2
            rw [List.append_assoc] at hf
            exact (List.prefix_append inside ['"']).trans hf
          have := (prefix_of_not_mem ho hinside).length_le
          simpa using this

theorem holds_of_spells {l : Lexeme} (h : l.Spells word) :
    ∃ cls : LexemeClass, cls.Holds word ∧ l.kind = cls.kind word ∧ ¬ cls.Oversized word := by
  cases h with
  | comment h => exact ⟨.comment, .comment h, rfl, by simp [Oversized]⟩
  | reserved h =>
      refine ⟨.word, .word (isWord_of_reserved h), ?_, by simp [Oversized]⟩
      rw [kind, String.ofList_toList, reserved?_of_mem h]
      rfl
  | identifier h =>
      simp only [isName, Bool.and_eq_true, Bool.not_eq_true', List.contains_eq_mem, decide_eq_false_iff_not] at h
      refine ⟨.word, .word h.1, ?_, by simp [Oversized]⟩
      rw [kind, String.ofList_toList, reserved?_eq_none_iff.2 h.2]
      rfl
  | punctuator h => exact ⟨.punctuator, .punctuator h, rfl, by simp [Oversized]⟩
  | @number n digits hne hd hn =>
      refine ⟨.number, .number hne hd, rfl, ?_⟩
      rintro ⟨-, hlarge⟩
      rw [hn] at hlarge
      exact Nat.not_le_of_lt n.toNat_lt hlarge
  | character h => exact ⟨.character, .character h, rfl, by simp [Oversized]⟩
  | string h => exact ⟨.string, .string h, rfl, by simp [Oversized]⟩

/-! ## Longest texts are spellings -/

namespace Longest

theorem unique (h : cls.Longest word text) (h' : cls'.Longest other text) : cls = cls' ∧ word = other := by
  refine ⟨h.holds.eq_of_front h'.holds h.front h'.front, ?_⟩
  have hle := h'.max cls word h.front h.holds
  have hge := h.max cls' other h'.front h'.holds
  exact (List.prefix_of_prefix_length_le h.front h'.front hle).eq_of_length_le hge

/-- The next character makes no longer text of the class. -/
theorem not_holds_concat (h : cls.Longest word (word ++ rest)) {c : Char} (hc : rest.head? = some c) :
    ¬ cls.Holds (word ++ [c]) := by
  intro hholds
  obtain ⟨rest, rfl⟩ := List.head?_eq_some_iff.1 hc
  have hle := h.max cls (word ++ [c]) ⟨rest, by simp⟩ hholds
  rw [List.length_append, List.length_singleton] at hle
  omega

theorem exists_lexeme (h : cls.Longest word (word ++ rest)) (hn : ¬ cls.Oversized word) :
    ∃ l : Lexeme, l.Spells word ∧ l.Ends word rest := by
  cases h.holds with
  | @comment text ht =>
      refine ⟨_, spells_comment ht, ?_⟩
      intro c hc
      by_contra hne
      have ht' : '\n' ∉ text ++ [c] := by simp [ht, Ne.symm hne]
      exact h.not_holds_concat hc (.comment ht')
  | word hw =>
      refine ⟨_, spells_word hw, ends_word ?_⟩
      intro c hc
      rw [Bool.eq_false_iff]
      intro halpha
      refine h.not_holds_concat hc (.word ?_)
      cases word with
      | nil => cases hw
      | cons d word =>
          simp only [isWord, Bool.and_eq_true, List.all_eq_true] at hw
          simpa [isWord, hw.1, halpha] using hw.2
  | number hne hd =>
      have hlt : Nat.ofDigitChars 10 word 0 < UInt64.size := Nat.lt_of_not_le fun hle => hn ⟨rfl, hle⟩
      refine ⟨_, .number hne hd (UInt64.toNat_ofNat_of_lt' hlt).symm, ?_⟩
      intro c hc
      rw [Bool.eq_false_iff]
      intro hdigit
      refine h.not_holds_concat hc (.number (by simp) ?_)
      intro d hmem
      rcases List.mem_append.1 hmem with hmem | hmem
      · exact hd d hmem
      · rwa [List.mem_singleton.1 hmem]
  | character hc => exact ⟨_, .character hc, trivial⟩
  | string ht => exact ⟨_, spells_string ht, trivial⟩
  | punctuator hp => exact ⟨_, spells_punctuator hp, fun p hp hf => h.max .punctuator p hf (.punctuator hp)⟩

end Longest

/-- Of the texts of all classes that a text starts with, one is the longest. -/
theorem exists_longest (hf : word <+: text) (h : cls.Holds word) :
    ∃ (cls' : LexemeClass) (other : List Char), cls'.Longest other text := by
  -- each longer text is nearer to the end of `text`
  induction hm : text.length - word.length using Nat.strongRecOn generalizing cls word with
  | ind m ih =>
      by_cases hlong : ∃ cls' : LexemeClass, ∃ other : List Char,
          other <+: text ∧ cls'.Holds other ∧ word.length < other.length
      · obtain ⟨cls', other, hf', h', hlt⟩ := hlong
        have := hf'.length_le
        exact ih (text.length - other.length) (by omega) hf' h' rfl
      · refine ⟨cls, word, hf, h, ?_⟩
        intro cls' other hf' h'
        by_contra hlt
        exact hlong ⟨cls', other, hf', h', by omega⟩

/-- The words with kinds of their own are those that are reserved. -/
theorem kind_word_iff (word : List Char) :
    (LexemeClass.word.kind word = .keyword ∨ LexemeClass.word.kind word = .nullLiteral ∨
      LexemeClass.word.kind word = .booleanLiteral) ↔ String.ofList word ∈ reservedWords.map Prod.fst := by
  rw [kind]
  cases hr : reserved? (String.ofList word) with
  | some k =>
      have hmem := mem_of_reserved? hr
      exact iff_of_true (kind_of_reserved hmem) (List.mem_map.2 ⟨_, hmem, rfl⟩)
  | none => exact iff_of_false (by simp) (reserved?_eq_none_iff.1 hr)

end LexemeClass

/-! ## Pulling the longest lexeme -/

namespace Scanner

/-- What is left of the text behind the next blanks. -/
def ahead (s : Scanner) : List Char :=
  s.rest.dropWhile isBlank

variable {s s' : Scanner} {t : Token}

theorem rest_eq (s : Scanner) : s.rest = s.rest.takeWhile isBlank ++ s.ahead :=
  List.takeWhile_append_dropWhile.symm

theorem ahead_eq {blanks rest : List Char} (hr : s.rest = blanks ++ rest) (hb : ∀ c ∈ blanks, isBlank c)
    (hrest : ∀ c, rest.head? = some c → isBlank c = false) : s.rest.takeWhile isBlank = blanks ∧ s.ahead = rest := by
  have htake : s.rest.takeWhile isBlank = blanks := by
    rw [hr, takeWhile_run hb hrest]
  refine ⟨htake, ?_⟩
  have hsplit := s.rest_eq
  rw [htake, hr] at hsplit
  exact (List.append_cancel_left hsplit).symm

theorem exists_endOfFile_of_ahead (h : s.ahead = []) :
    ∃ t s', nextToken s = .ok t s' ∧ t.toLexeme = ⟨.endOfFile, .none⟩ := by
  have hblank : ∀ c ∈ s.rest, isBlank c := by
    rw [s.rest_eq, h, List.append_nil]
    exact fun c hc => List.mem_takeWhile_imp hc
  exact ⟨_, _, nextToken_of_pulls (.endOfFile hblank), rfl⟩

/-- The token covers the longest lexeme ahead, and the scanner stands behind it. -/
structure Takes (s : Scanner) (t : Token) (s' : Scanner) (cls : LexemeClass) (word : List Char) : Prop where
  longest : cls.Longest word s.ahead
  start : t.span.start = s.position.after (s.rest.takeWhile isBlank)
  stop : t.span.stop = t.span.start.after word
  position : s'.position = t.span.stop
  rest : s'.rest = s.ahead.drop word.length
  spells : t.Spells word
  kind : t.kind = cls.kind word

theorem Pulls.takes (h : s.Pulls t s') (hne : s.ahead ≠ []) :
    ∃ (cls : LexemeClass) (word : List Char), s.Takes t s' cls word ∧ ¬ cls.Oversized word := by
  cases h with
  | @lexeme l blanks word rest hr hb hs he =>
      obtain ⟨c, cs, hword, hc⟩ := hs.exists_cons
      obtain ⟨htake, hahead⟩ := ahead_eq hr hb (by simp [hword, hc])
      obtain ⟨cls, hholds, hkind, hn⟩ := LexemeClass.holds_of_spells hs
      refine ⟨cls, word, ⟨⟨?_, hholds, ?_⟩, ?_, ?_, rfl, ?_, hs, hkind⟩, hn⟩
      · rw [hahead]
        exact List.prefix_append word rest
      · intro cls' other hf ho
        rw [hahead] at hf
        exact LexemeClass.length_le_of_ends hs he ho hf
      · rw [htake]
      · rw [Position.after_append]
      · rw [hahead, List.drop_left]
  | endOfFile hb =>
      have hahead := ahead_eq (List.append_nil s.rest).symm hb (by simp)
      exact absurd hahead.2 hne

theorem exists_nextToken_of_longest {cls : LexemeClass} {word : List Char} (h : cls.Longest word s.ahead)
    (hn : ¬ cls.Oversized word) : ∃ t s', nextToken s = .ok t s' := by
  obtain ⟨rest, hrest⟩ := h.front
  rw [← hrest] at h
  obtain ⟨l, hs, he⟩ := h.exists_lexeme hn
  have hr : s.rest = s.rest.takeWhile isBlank ++ (word ++ rest) := by
    rw [hrest]
    exact s.rest_eq
  exact ⟨_, _, nextToken_of_pulls (.lexeme hr (fun c hc => List.mem_takeWhile_imp hc) hs he)⟩

end Scanner

/-- Whatever a scanner has left, behind the blanks it reads the longest lexeme there is, and gives it the kind of its
class. It fails if there is none, or if the longest is a run of digits whose number does not fit. -/
theorem nextToken_longest (s : Scanner) :
    (s.ahead = [] → ∃ t s', Scanner.nextToken s = .ok t s' ∧ t.toLexeme = ⟨.endOfFile, .none⟩) ∧
    (s.ahead ≠ [] →
      ((∃ t s', Scanner.nextToken s = .ok t s') ↔
        (∃ (cls : LexemeClass) (word : List Char), word <+: s.ahead ∧ cls.Holds word) ∧
          ∀ (cls : LexemeClass) (word : List Char), cls.Longest word s.ahead → ¬ cls.Oversized word) ∧
      ∀ t s', Scanner.nextToken s = .ok t s' →
        ∃ (cls : LexemeClass) (word : List Char), s.Takes t s' cls word ∧
          (cls = .word → ((t.kind = .keyword ∨ t.kind = .nullLiteral ∨ t.kind = .booleanLiteral) ↔
            String.ofList word ∈ reservedWords.map Prod.fst))) := by
  refine ⟨Scanner.exists_endOfFile_of_ahead, fun hne => ⟨⟨?_, ?_⟩, ?_⟩⟩
  · rintro ⟨t, s', h⟩
    obtain ⟨cls, word, htakes, hn⟩ := (Scanner.pulls_of_nextToken h).takes hne
    refine ⟨⟨cls, word, htakes.longest.front, htakes.longest.holds⟩, ?_⟩
    intro cls' other h'
    obtain ⟨rfl, rfl⟩ := h'.unique htakes.longest
    exact hn
  · rintro ⟨⟨cls, word, hf, hholds⟩, hn⟩
    obtain ⟨cls', other, hlongest⟩ := LexemeClass.exists_longest hf hholds
    exact Scanner.exists_nextToken_of_longest hlongest (hn cls' other hlongest)
  · intro t s' h
    obtain ⟨cls, word, htakes, -⟩ := (Scanner.pulls_of_nextToken h).takes hne
    refine ⟨cls, word, htakes, ?_⟩
    rintro rfl
    rw [htakes.kind]
    exact LexemeClass.kind_word_iff word

/-- Of four signs in a row, the first three are one punctuator. -/
theorem nextToken_longest_signs : ∃ s t s' cls word, s = Source.scanner ⟨"\n >>>>x", "shell"⟩ ∧
    s.ahead ≠ [] ∧ Scanner.nextToken s = .ok t s' ∧ t.span = ⟨⟨2, 1, 1⟩, ⟨5, 1, 4⟩⟩ ∧ s'.rest = ['>', 'x'] ∧
    s.Takes t s' cls word := by
  have hne : (Source.scanner ⟨"\n >>>>x", "shell"⟩).ahead ≠ [] := by decide
  have hnext : Scanner.nextToken (Source.scanner ⟨"\n >>>>x", "shell"⟩) =
      .ok ⟨⟨.punctuator, .text ">>>"⟩, ⟨⟨2, 1, 1⟩, ⟨5, 1, 4⟩⟩⟩
        ⟨⟨"\n >>>>x", "shell"⟩, ⟨5, 1, 4⟩, ['>', 'x'], false⟩ := by
    rfl
  obtain ⟨-, hlexeme⟩ := nextToken_longest (Source.scanner ⟨"\n >>>>x", "shell"⟩)
  obtain ⟨cls, word, htakes, -⟩ := (hlexeme hne).2 _ _ hnext
  exact ⟨_, _, _, cls, word, rfl, hne, hnext, rfl, rfl, htakes⟩

end DeclScript
