import DeclScript.Token.Stream
import Mathlib.Data.List.TakeWhile

set_option autoImplicit false

/-!
# Spellings of lexemes

`Lexeme.Spells` says by which texts a lexeme can be written, and `Lexeme.Ends` where such a text ends: the text behind
it must not make the lexeme longer. Both are stated on their own, and reading one lexeme or pulling one token succeeds
exactly where they hold.
-/

namespace DeclScript

def isWord : List Char → Bool
  | [] => false
  | c :: cs => c.isAlpha && cs.all Char.isAlphanum

/-- A word that is not reserved. -/
def isName (name : String) : Bool :=
  isWord name.toList && !(reservedWords.map Prod.fst).contains name

namespace Lexeme

inductive Spells : Lexeme → List Char → Prop
  | comment {text : String} (h : '\n' ∉ text.toList) : Spells ⟨.comment, .text text⟩ ('#' :: text.toList)
  | reserved {word : String} {kind : Kind} (h : (word, kind) ∈ reservedWords) :
      Spells ⟨kind, .text word⟩ word.toList
  | identifier {name : String} (h : isName name) : Spells ⟨.identifier, .text name⟩ name.toList
  | punctuator {text : String} (h : text.toList ∈ punctuators) : Spells ⟨.punctuator, .text text⟩ text.toList
  | number {n : UInt64} {digits : List Char} (hne : digits ≠ []) (hd : ∀ d ∈ digits, d.isDigit)
      (hn : Nat.ofDigitChars 10 digits 0 = n.toNat) : Spells ⟨.numericLiteral, .number n⟩ digits
  | character {c : Char} (h : c ≠ '\x27') :
      Spells ⟨.characterLiteral, .text (String.ofList [c])⟩ ['\x27', c, '\x27']
  | string {text : String} (h : '"' ∉ text.toList) :
      Spells ⟨.stringLiteral, .text text⟩ ('"' :: (text.toList ++ ['"']))

/-- The spelling `word` of the lexeme stops before `rest`. -/
def Ends (l : Lexeme) (word rest : List Char) : Prop :=
  match l.kind with
  | .comment => ∀ c, rest.head? = some c → c = '\n'
  | .keyword | .identifier | .nullLiteral | .booleanLiteral => ∀ c, rest.head? = some c → c.isAlphanum = false
  | .numericLiteral => ∀ c, rest.head? = some c → c.isDigit = false
  | .punctuator => ∀ p ∈ punctuators, p <+: word ++ rest → p.length ≤ word.length
  | .characterLiteral | .stringLiteral | .endOfFile => True

end Lexeme

/-! ## Runs of one class of characters -/

theorem takeWhile_run {p : Char → Bool} {run rest : List Char} (hrun : ∀ c ∈ run, p c)
    (hrest : ∀ c, rest.head? = some c → p c = false) : (run ++ rest).takeWhile p = run := by
  have hnil : rest.takeWhile p = [] := by
    cases rest with
    | nil => rfl
    | cons c rest => rw [List.takeWhile_cons_of_neg (by simp [hrest c rfl])]
  rw [List.takeWhile_append_of_pos hrun, hnil, List.append_nil]

theorem bne_of_not_mem {x : Char} {cs : List Char} (h : x ∉ cs) : ∀ c ∈ cs, (c != x) = true := by
  intro c hc
  rw [bne_iff_ne]
  rintro rfl
  exact h hc

theorem exists_run (p : Char → Bool) (cs : List Char) : ∃ rest,
    cs = cs.takeWhile p ++ rest ∧ (∀ c ∈ cs.takeWhile p, p c) ∧ ∀ c, rest.head? = some c → p c = false := by
  refine ⟨cs.dropWhile p, List.takeWhile_append_dropWhile.symm, fun c hc => List.mem_takeWhile_imp hc, ?_⟩
  intro c hc
  have h := List.head?_dropWhile_not p cs
  rw [hc] at h
  simpa using h

/-- What starts a text and does not contain `c` stops before the first `c`. -/
theorem prefix_of_not_mem {c : Char} {p cs more : List Char} (hc : c ∉ p) (h : p <+: cs ++ c :: more) : p <+: cs := by
  rcases Nat.lt_or_ge cs.length p.length with hlt | hge
  · have hlong : cs ++ [c] <+: p :=
      List.prefix_of_prefix_length_le ⟨more, by simp⟩ h (by rw [List.length_append]; exact hlt)
    exact absurd (hlong.subset (by simp)) hc
  · exact List.prefix_of_prefix_length_le h (List.prefix_append cs _) hge

/-- A run of one class at the front of a text is no longer than the run that ends there. -/
theorem length_le_of_run {p : Char → Bool} {other run rest : List Char} (hother : ∀ c ∈ other, p c)
    (hrest : ∀ c, rest.head? = some c → p c = false) (h : other <+: run ++ rest) : other.length ≤ run.length := by
  cases rest with
  | nil =>
      rw [List.append_nil] at h
      exact h.length_le
  | cons c rest =>
      have hc : c ∉ other := by
        intro hmem
        have := hother c hmem
        rw [hrest c rfl] at this
        cases this
      exact (prefix_of_not_mem hc h).length_le

/-! ## Words and punctuators -/

theorem isAlphanum_of_isWord {word : List Char} (h : isWord word) : ∀ c ∈ word, c.isAlphanum := by
  cases word with
  | nil => cases h
  | cons d word =>
      simp only [isWord, Bool.and_eq_true, List.all_eq_true] at h
      intro c hc
      rcases List.mem_cons.1 hc with rfl | hc
      · simp [Char.isAlphanum, h.1]
      · exact h.2 c hc

theorem reserved?_of_mem {word : String} {kind : Kind} (h : (word, kind) ∈ reservedWords) :
    reserved? word = some kind := by
  have all : ∀ e ∈ reservedWords, reserved? e.1 = some e.2 := by decide
  exact all (word, kind) h

theorem mem_of_reserved? {word : String} {kind : Kind} (h : reserved? word = some kind) :
    (word, kind) ∈ reservedWords := by
  obtain ⟨before, behind, he, -⟩ := List.lookup_eq_some_iff.1 h
  rw [he]
  simp

theorem reserved?_eq_none_iff {word : String} :
    reserved? word = none ↔ word ∉ reservedWords.map Prod.fst := by
  rw [reserved?, List.lookup_eq_none_iff]
  simp only [List.mem_map, bne_iff_ne]
  constructor
  · rintro h ⟨e, he, rfl⟩
    exact h e he rfl
  · intro h e he hw
    exact h ⟨e, he, hw.symm⟩

theorem isWord_of_reserved {word : String} {kind : Kind} (h : (word, kind) ∈ reservedWords) :
    isWord word.toList := by
  have all : ∀ e ∈ reservedWords, isWord e.1.toList := by decide
  exact all (word, kind) h

theorem kind_of_reserved {word : String} {kind : Kind} (h : (word, kind) ∈ reservedWords) :
    kind = .keyword ∨ kind = .nullLiteral ∨ kind = .booleanLiteral := by
  have all : ∀ e ∈ reservedWords, e.2 = .keyword ∨ e.2 = .nullLiteral ∨ e.2 = .booleanLiteral := by decide
  exact all (word, kind) h

theorem punctuators_pairwise : punctuators.Pairwise fun p q => q.length ≤ p.length := by
  decide

theorem of_mem_punctuator {p : List Char} {c : Char} (hp : p ∈ punctuators) (hc : c ∈ p) :
    c ≠ '#' ∧ c.isAlpha = false ∧ c.isDigit = false ∧ c ≠ '\x27' ∧ c ≠ '"' ∧ isBlank c = false := by
  have all : (punctuators.all fun p => p.all fun c =>
      c != '#' && !c.isAlpha && !c.isDigit && c != '\x27' && c != '"' && !isBlank c) = true := by decide
  simpa [and_assoc] using List.all_eq_true.1 (List.all_eq_true.1 all p hp) c hc

/-- The first punctuator that fits is the longest one, since none in the table is longer than one before it. -/
theorem longest_of_find? {cs p : List Char} (h : punctuators.find? (·.isPrefixOf cs) = some p) :
    p ∈ punctuators ∧ p <+: cs ∧ ∀ q ∈ punctuators, q <+: cs → q.length ≤ p.length := by
  obtain ⟨hp, before, behind, he, hbefore⟩ := List.find?_eq_some_iff_append.1 h
  refine ⟨List.mem_of_find?_eq_some h, List.isPrefixOf_iff_prefix.1 hp, ?_⟩
  have hsorted := punctuators_pairwise
  rw [he, List.pairwise_append, List.pairwise_cons] at hsorted
  intro q hq hqcs
  rw [he, List.mem_append, List.mem_cons] at hq
  rcases hq with hq | rfl | hq
  · have hno := hbefore q hq
    rw [List.isPrefixOf_iff_prefix.2 hqcs] at hno
    cases hno
  · exact Nat.le_refl _
  · exact hsorted.2.1.1 q hq

theorem find?_of_longest {cs p : List Char} (hp : p ∈ punctuators) (hcs : p <+: cs)
    (hmax : ∀ q ∈ punctuators, q <+: cs → q.length ≤ p.length) :
    punctuators.find? (·.isPrefixOf cs) = some p := by
  cases hf : punctuators.find? (·.isPrefixOf cs) with
  | none => exact absurd (List.isPrefixOf_iff_prefix.2 hcs) (List.find?_eq_none.1 hf p hp)
  | some q =>
      obtain ⟨hq, hqcs, hqmax⟩ := longest_of_find? hf
      have hpq := List.prefix_of_prefix_length_le hcs hqcs (hqmax p hp hcs)
      rw [hpq.eq_of_length_le (hmax q hq hqcs)]

/-! ## Reading one lexeme -/

namespace Lexeme

/-- The text `c :: cs` starts with a spelling of the lexeme that takes `n` characters. -/
def Leads (l : Lexeme) (c : Char) (cs : List Char) (n : Nat) : Prop :=
  ∃ word rest, cs = word ++ rest ∧ n = word.length + 1 ∧ l.Spells (c :: word) ∧ l.Ends (c :: word) rest

end Lexeme

theorem spells_comment {text : List Char} (h : '\n' ∉ text) :
    Lexeme.Spells ⟨.comment, .text (String.ofList text)⟩ ('#' :: text) := by
  have hs := @Lexeme.Spells.comment (String.ofList text)
  rw [String.toList_ofList] at hs
  exact hs h

theorem spells_string {text : List Char} (h : '"' ∉ text) :
    Lexeme.Spells ⟨.stringLiteral, .text (String.ofList text)⟩ ('"' :: (text ++ ['"'])) := by
  have hs := @Lexeme.Spells.string (String.ofList text)
  rw [String.toList_ofList] at hs
  exact hs h

theorem spells_punctuator {text : List Char} (h : text ∈ punctuators) :
    Lexeme.Spells ⟨.punctuator, .text (String.ofList text)⟩ text := by
  have hs := @Lexeme.Spells.punctuator (String.ofList text)
  rw [String.toList_ofList] at hs
  exact hs h

/-- A word spells the lexeme of the kind that the table gives it. -/
theorem spells_word {word : List Char} (hw : isWord word) :
    Lexeme.Spells ⟨(reserved? (String.ofList word)).getD .identifier, .text (String.ofList word)⟩ word := by
  cases hr : reserved? (String.ofList word) with
  | some kind =>
      have hs := Lexeme.Spells.reserved (mem_of_reserved? hr)
      rw [String.toList_ofList] at hs
      exact hs
  | none =>
      have hn : isName (String.ofList word) := by
        have hmem := reserved?_eq_none_iff.1 hr
        rw [isName, String.toList_ofList, hw, List.contains_eq_mem]
        simpa using hmem
      have hs := Lexeme.Spells.identifier hn
      rw [String.toList_ofList] at hs
      exact hs

theorem ends_word {name : String} {value : Value} {word rest : List Char}
    (hrest : ∀ c, rest.head? = some c → c.isAlphanum = false) :
    Lexeme.Ends ⟨(reserved? name).getD .identifier, value⟩ word rest := by
  cases hr : reserved? name with
  | some kind => rcases kind_of_reserved (mem_of_reserved? hr) with rfl | rfl | rfl <;> exact hrest
  | none => exact hrest

theorem leads_of_readComment {cs : List Char} {l : Lexeme} (h : (readComment cs).outcome = .ok l) :
    l.Leads '#' cs (readComment cs).length := by
  obtain ⟨rest, hcs, hline, hrest⟩ := exists_run (· != '\n') cs
  cases h
  refine ⟨_, rest, hcs, rfl, ?_, ?_⟩
  · exact spells_comment fun hm => absurd (hline _ hm) (by decide)
  · intro c hc
    simpa using hrest c hc

theorem leads_of_readWord {c : Char} {cs : List Char} {l : Lexeme} (hc : c.isAlpha)
    (h : (readWord c cs).outcome = .ok l) : l.Leads c cs (readWord c cs).length := by
  obtain ⟨rest, hcs, hword, hrest⟩ := exists_run Char.isAlphanum cs
  have hw : isWord (c :: cs.takeWhile Char.isAlphanum) := by
    simp [isWord, hc]
  cases h
  exact ⟨_, rest, hcs, rfl, spells_word hw, ends_word hrest⟩

theorem leads_of_readNumber {c : Char} {cs : List Char} {l : Lexeme} (hc : c.isDigit)
    (h : (readNumber c cs).outcome = .ok l) : l.Leads c cs (readNumber c cs).length := by
  obtain ⟨rest, hcs, hrun, hrest⟩ := exists_run Char.isDigit cs
  have hd : ∀ d ∈ c :: cs.takeWhile Char.isDigit, d.isDigit := by
    simpa [hc] using hrun
  simp only [readNumber] at h ⊢
  split at h
  · rename_i hn
    rw [if_pos hn]
    cases h
    refine ⟨_, rest, hcs, rfl, .number (by simp) hd ?_, hrest⟩
    exact (UInt64.toNat_ofNat_of_lt' hn).symm
  · cases h

theorem leads_of_readCharacter {cs : List Char} {l : Lexeme} (h : (readCharacter cs).outcome = .ok l) :
    l.Leads '\x27' cs (readCharacter cs).length := by
  cases cs with
  | nil => cases h
  | cons c cs =>
      simp only [readCharacter] at h ⊢
      split at h
      · cases h
      · rename_i hc
        split at h
        · rename_i hq
          rw [if_neg hc, if_pos hq]
          cases h
          obtain ⟨rest, rfl⟩ := List.head?_eq_some_iff.1 hq
          exact ⟨[c, '\x27'], rest, rfl, rfl, .character hc, trivial⟩
        · cases h

theorem leads_of_readString {cs : List Char} {l : Lexeme} (h : (readString cs).outcome = .ok l) :
    l.Leads '"' cs (readString cs).length := by
  obtain ⟨rest, hcs, hrun, hrest⟩ := exists_run (· != '"') cs
  simp only [readString] at h ⊢
  generalize cs.takeWhile (· != '"') = inside at *
  split at h
  · rename_i hlt
    rw [if_pos hlt]
    cases h
    cases rest with
    | nil =>
        rw [hcs, List.append_nil] at hlt
        omega
    | cons q rest =>
        obtain rfl : q = '"' := by simpa using hrest q rfl
        refine ⟨inside ++ ['"'], rest, by simp [hcs], by simp [Reading.text], ?_, trivial⟩
        exact spells_string fun hm => absurd (hrun _ hm) (by decide)
  · cases h

theorem leads_of_readPunctuator {c : Char} {cs : List Char} {l : Lexeme}
    (h : (readPunctuator c cs).outcome = .ok l) : l.Leads c cs (readPunctuator c cs).length := by
  unfold readPunctuator at h ⊢
  split at h
  · rename_i p hp
    cases h
    obtain ⟨hmem, ⟨rest, hrest⟩, hmax⟩ := longest_of_find? hp
    cases p with
    | nil => exact absurd rfl (punctuator_ne_nil hmem)
    | cons d word =>
        obtain ⟨rfl, hcs⟩ := List.cons.inj hrest
        refine ⟨word, rest, hcs.symm, rfl, spells_punctuator hmem, ?_⟩
        rw [← hrest] at hmax
        exact hmax
  · cases h

theorem leads_of_readLexeme {c : Char} {cs : List Char} {l : Lexeme} (h : (readLexeme c cs).outcome = .ok l) :
    l.Leads c cs (readLexeme c cs).length := by
  revert h
  fun_cases readLexeme c cs with
  | case1 hc =>
      subst hc
      exact leads_of_readComment
  | case2 _ hc => exact leads_of_readWord hc
  | case3 _ _ hc => exact leads_of_readNumber hc
  | case4 _ _ _ hc =>
      subst hc
      exact leads_of_readCharacter
  | case5 _ _ _ _ hc =>
      subst hc
      exact leads_of_readString
  | case6 => exact leads_of_readPunctuator

theorem not_isAlpha_of_isDigit {c : Char} (h : c.isDigit) : c.isAlpha = false := by
  have hdigit : 48 ≤ c.val.toNat ∧ c.val.toNat ≤ 57 := by
    simpa [Char.isDigit, UInt32.le_iff_toNat_le] using h
  have halpha : c.isAlpha =
      (decide (65 ≤ c.val ∧ c.val ≤ 90) || decide (97 ≤ c.val) && decide (c.val ≤ 122)) := rfl
  have h1 : ¬ 65 ≤ c.val := by
    rw [UInt32.le_iff_toNat_le]
    change ¬ 65 ≤ c.val.toNat
    omega
  have h2 : ¬ 97 ≤ c.val := by
    rw [UInt32.le_iff_toNat_le]
    change ¬ 97 ≤ c.val.toNat
    omega
  simp [halpha, h1, h2]

theorem readLexeme_of_isAlpha {c : Char} (cs : List Char) (hc : c.isAlpha) : readLexeme c cs = readWord c cs := by
  have hne : c ≠ '#' := by
    rintro rfl
    cases hc
  rw [readLexeme, if_neg hne, if_pos hc]

theorem readLexeme_of_isDigit {c : Char} (cs : List Char) (hc : c.isDigit) : readLexeme c cs = readNumber c cs := by
  have hne : c ≠ '#' := by
    rintro rfl
    cases hc
  rw [readLexeme, if_neg hne, if_neg (by simp [not_isAlpha_of_isDigit hc]), if_pos hc]

theorem readLexeme_of_punctuator {c : Char} {word : List Char} (cs : List Char) (h : c :: word ∈ punctuators) :
    readLexeme c cs = readPunctuator c cs := by
  obtain ⟨h1, h2, h3, h4, h5, -⟩ := of_mem_punctuator h List.mem_cons_self
  simp [readLexeme, h1, h2, h3, h4, h5]

theorem readWord_append {c : Char} {word rest : List Char} (hw : isWord (c :: word))
    (hrest : ∀ d, rest.head? = some d → d.isAlphanum = false) : readWord c (word ++ rest) =
      .text (word.length + 1) ((reserved? (String.ofList (c :: word))).getD .identifier) (c :: word) := by
  have hrun : ∀ d ∈ word, d.isAlphanum := fun d hd => isAlphanum_of_isWord hw d (List.mem_cons_of_mem c hd)
  simp only [readWord, takeWhile_run hrun hrest, List.length_cons]

theorem readLexeme_of_isWord {c : Char} {word rest : List Char} (hw : isWord (c :: word))
    (hrest : ∀ d, rest.head? = some d → d.isAlphanum = false) : readLexeme c (word ++ rest) =
      .text (word.length + 1) ((reserved? (String.ofList (c :: word))).getD .identifier) (c :: word) := by
  have hc : c.isAlpha := by
    simp only [isWord, Bool.and_eq_true] at hw
    exact hw.1
  rw [readLexeme_of_isAlpha _ hc, readWord_append hw hrest]

/-- A spelling at the front of a text is read, whatever text follows that does not make it longer. -/
theorem readLexeme_of_spells {l : Lexeme} {c : Char} {word rest : List Char} (hs : l.Spells (c :: word))
    (he : l.Ends (c :: word) rest) : readLexeme c (word ++ rest) = ⟨word.length + 1, .ok l⟩ := by
  generalize hcs : c :: word = cs at hs
  cases hs with
  | @comment text h =>
      obtain ⟨rfl, rfl⟩ := List.cons.inj hcs
      have hrest : ∀ d, rest.head? = some d → (d != '\n') = false := by
        intro d hd
        simp [he d hd]
      simp only [readLexeme, if_true, readComment, takeWhile_run (bne_of_not_mem h) hrest, Reading.text,
        String.ofList_toList]
  | @reserved w kind h =>
      have hrest : ∀ d, rest.head? = some d → d.isAlphanum = false := by
        rcases kind_of_reserved h with rfl | rfl | rfl <;> exact he
      rw [readLexeme_of_isWord (hcs ▸ isWord_of_reserved h) hrest, hcs, String.ofList_toList, reserved?_of_mem h]
      simp [Reading.text]
  | @identifier name h =>
      simp only [isName, Bool.and_eq_true, Bool.not_eq_true'] at h
      have hr : reserved? name = none := by
        rw [reserved?_eq_none_iff]
        simpa using h.2
      rw [readLexeme_of_isWord (hcs ▸ h.1) he, hcs, String.ofList_toList, hr]
      simp [Reading.text]
  | @punctuator text h =>
      rw [← hcs] at h
      have hf := find?_of_longest h (List.prefix_append (c :: word) rest) he
      rw [List.cons_append] at hf
      rw [readLexeme_of_punctuator _ h, readPunctuator, hf]
      simp only [Reading.text, List.length_cons]
      rw [hcs, String.ofList_toList]
  | @number n digits hne hd hn =>
      subst hcs
      have hrun : ∀ d ∈ word, d.isDigit := fun d h => hd d (by simp [h])
      rw [readLexeme_of_isDigit _ (hd c (by simp))]
      simp only [readNumber, takeWhile_run hrun he, hn, n.toNat_lt, if_true, List.length_cons]
      simp
  | @character d h =>
      obtain ⟨rfl, rfl⟩ := List.cons.inj hcs
      simp [readLexeme, readCharacter, h, Reading.text]
  | @string text h =>
      obtain ⟨rfl, rfl⟩ := List.cons.inj hcs
      have hq : (text.toList ++ '"' :: rest).takeWhile (· != '"') = text.toList :=
        takeWhile_run (bne_of_not_mem h) (by simp)
      rw [List.append_assoc, List.singleton_append]
      simp only [readLexeme, Char.reduceEq, if_false, if_true, Char.reduceIsAlpha, Char.reduceIsDigit, readString, hq]
      simp [Reading.text]

/-! ## Pulling one token -/

theorem isBlank_of_isAlphanum {c : Char} (h : c.isAlphanum) : isBlank c = false := by
  rw [Bool.eq_false_iff]
  intro hb
  simp only [isBlank, Bool.or_eq_true, beq_iff_eq] at hb
  rcases hb with rfl | rfl <;> cases h

theorem exists_cons_of_isWord {word : List Char} (h : isWord word) : ∃ c cs, word = c :: cs ∧ isBlank c = false := by
  cases word with
  | nil => cases h
  | cons c cs => exact ⟨c, cs, rfl, isBlank_of_isAlphanum (isAlphanum_of_isWord h c List.mem_cons_self)⟩

theorem exists_cons_of_punctuator {p : List Char} (h : p ∈ punctuators) :
    ∃ c cs, p = c :: cs ∧ isBlank c = false := by
  cases p with
  | nil => exact absurd rfl (punctuator_ne_nil h)
  | cons c cs =>
      obtain ⟨-, -, -, -, -, hb⟩ := of_mem_punctuator h List.mem_cons_self
      exact ⟨c, cs, rfl, hb⟩

theorem Lexeme.Spells.exists_cons {l : Lexeme} {word : List Char} (h : l.Spells word) :
    ∃ c cs, word = c :: cs ∧ isBlank c = false := by
  cases h with
  | comment => exact ⟨_, _, rfl, rfl⟩
  | reserved h => exact exists_cons_of_isWord (isWord_of_reserved h)
  | identifier h =>
      simp only [isName, Bool.and_eq_true] at h
      exact exists_cons_of_isWord h.1
  | punctuator h => exact exists_cons_of_punctuator h
  | number hne hd hn =>
      cases word with
      | nil => exact absurd rfl hne
      | cons d ds => exact ⟨d, ds, rfl, isBlank_of_isAlphanum (by simp [Char.isAlphanum, hd d (by simp)])⟩
  | character => exact ⟨_, _, rfl, rfl⟩
  | string => exact ⟨_, _, rfl, rfl⟩

namespace Scanner

/-- The token that the text ahead spells behind its blanks, with the scanner behind it. -/
inductive Pulls (s : Scanner) : Token → Scanner → Prop
  | lexeme {l : Lexeme} {blanks word rest : List Char} (hr : s.rest = blanks ++ (word ++ rest))
      (hb : ∀ c ∈ blanks, isBlank c) (hs : l.Spells word) (he : l.Ends word rest) :
      Pulls s ⟨l, ⟨s.position.after blanks, s.position.after (blanks ++ word)⟩⟩
        { s with position := s.position.after (blanks ++ word), rest }
  | endOfFile (hb : ∀ c ∈ s.rest, isBlank c) :
      Pulls s ⟨⟨.endOfFile, .none⟩, ⟨s.position.after s.rest, s.position.after s.rest⟩⟩
        { s with position := s.position.after s.rest, rest := [] }

theorem skipBlanks_eq {s : Scanner} {blanks rest : List Char} (hr : s.rest = blanks ++ rest)
    (hb : ∀ c ∈ blanks, isBlank c) (hrest : ∀ c, rest.head? = some c → isBlank c = false) :
    s.skipBlanks = { s with position := s.position.after blanks, rest } := by
  have hrun : s.rest.takeWhile isBlank = blanks := by
    rw [hr, takeWhile_run hb hrest]
  rw [skipBlanks, hrun, skip, hr, List.take_left, List.drop_left]

theorem nextToken_of_pulls {s s' : Scanner} {t : Token} (h : s.Pulls t s') : nextToken s = .ok t s' := by
  cases h with
  | @lexeme l blanks word rest hr hb hs he =>
      obtain ⟨c, cs, rfl, hc⟩ := hs.exists_cons
      have hstart := skipBlanks_eq hr hb (by simp [hc])
      have hread := readLexeme_of_spells hs he
      rw [nextToken, hstart, readToken]
      simp [hread, skip, Position.after_append]
  | endOfFile hb =>
      have hstart : s.skipBlanks = { s with position := s.position.after s.rest, rest := [] } :=
        skipBlanks_eq (List.append_nil s.rest).symm hb (by simp)
      rw [nextToken, hstart]
      rfl

theorem pulls_of_nextToken {s s' : Scanner} {t : Token} (h : nextToken s = .ok t s') : s.Pulls t s' := by
  obtain ⟨rest, hr, hb, hrest⟩ := exists_run isBlank s.rest
  generalize s.rest.takeWhile isBlank = blanks at hr hb
  rw [nextToken, skipBlanks_eq hr hb hrest, readToken] at h
  cases rest with
  | nil =>
      rw [List.append_nil] at hr
      subst hr
      cases h
      exact .endOfFile hb
  | cons c cs =>
      simp only at h
      cases ho : (readLexeme c cs).outcome with
      | error cause =>
          rw [ho] at h
          cases h
      | ok l =>
          obtain ⟨word, rest, hcs, hn, hs, he⟩ := leads_of_readLexeme ho
          subst hcs
          rw [ho] at h
          cases h
          rw [← List.cons_append] at hr
          have hp := Pulls.lexeme hr hb hs he
          simpa [skip, hn, Position.after_append] using hp

end Scanner

end DeclScript
