import DeclScript.Proofs.Spelling

set_option autoImplicit false

/-!
# Tokens and the text they were cut from

The tokens of a stream lie one behind the other in the text. Each covers its own spelling, and what they leave out is
blank. Nothing is said here about the text behind a failure.
-/

namespace DeclScript

def lexemes (ts : List Token) : List Lexeme :=
  ts.map Token.toLexeme

@[simp] theorem lexemes_append (ts us : List Token) : lexemes (ts ++ us) = lexemes ts ++ lexemes us :=
  List.map_append

/-- The characters of a text from the place `i` up to the place `j`. -/
def stretch (text : List Char) (i j : Nat) : List Char :=
  (text.take j).drop i

/-- The tokens `ts` are cut from `rest`, the text that follows `read`. -/
inductive Laid : List Char → List Char → List Token → Prop
  | nil (read rest : List Char) : Laid read rest []
  | endOfFile {read rest : List Char} {p : Position} (hb : ∀ c ∈ rest, isBlank c)
      (hp : p = Position.after {} (read ++ rest)) : Laid read rest [⟨⟨.endOfFile, .none⟩, ⟨p, p⟩⟩]
  | cons {read blanks word rest : List Char} {t : Token} {ts : List Token} (hb : ∀ c ∈ blanks, isBlank c)
      (hs : t.Spells word) (hstart : t.span.start = Position.after {} (read ++ blanks))
      (hstop : t.span.stop = Position.after {} (read ++ blanks ++ word))
      (h : Laid (read ++ blanks ++ word) rest ts) : Laid read (blanks ++ (word ++ rest)) (t :: ts)

theorem stretch_middle (a b c : List Char) : stretch (a ++ (b ++ c)) a.length (a ++ b).length = b := by
  rw [stretch, ← List.append_assoc, List.take_left, List.drop_left]

theorem offset_after (cs : List Char) : (Position.after {} cs).offset = cs.length := by
  rw [Position.after_offset, Nat.zero_add]

theorem Lexeme.Spells.kind_ne_endOfFile {l : Lexeme} {word : List Char} (h : l.Spells word) :
    l.kind ≠ .endOfFile := by
  cases h with
  | reserved h => rcases kind_of_reserved h with rfl | rfl | rfl <;> simp
  | _ => simp

namespace Laid

variable {read rest : List Char} {ts : List Token}

/-- A layout can be entered at any of its tokens. -/
theorem drop {before : List Token} (h : Laid read rest (before ++ ts)) :
    ∃ read' rest', read' ++ rest' = read ++ rest ∧ Laid read' rest' ts := by
  induction before generalizing read rest with
  | nil => exact ⟨read, rest, rfl, h⟩
  | cons t before ih =>
      rw [List.cons_append] at h
      generalize hts : before ++ ts = tail at h
      cases h with
      | endOfFile hb hp =>
          obtain ⟨-, rfl⟩ := List.append_eq_nil_iff.1 hts
          exact ⟨read, rest, rfl, .nil _ _⟩
      | cons hb hs hstart hstop h =>
          subst hts
          obtain ⟨read', rest', he, h'⟩ := ih h
          exact ⟨read', rest', by rw [he]; simp, h'⟩

theorem le_start (h : Laid read rest ts) : ∀ t ∈ ts, read.length ≤ t.span.start.offset := by
  induction h with
  | nil => simp
  | endOfFile hb hp =>
      intro t ht
      obtain rfl := List.mem_singleton.1 ht
      simp [hp, offset_after]
  | cons hb hs hstart hstop h ih =>
      intro u hu
      rcases List.mem_cons.1 hu with rfl | hu
      · rw [hstart, offset_after, List.length_append]
        omega
      · have := ih u hu
        simp only [List.length_append] at this
        omega

theorem pairwise (h : Laid read rest ts) : ts.Pairwise fun t u =>
    t.span.start.offset < u.span.start.offset ∧ t.span.stop.offset ≤ u.span.start.offset := by
  induction h with
  | nil => exact .nil
  | endOfFile => exact List.pairwise_singleton _ _
  | @cons read blanks word rest t ts hb hs hstart hstop h ih =>
      refine List.pairwise_cons.2 ⟨fun u hu => ?_, ih⟩
      have hu := h.le_start u hu
      obtain ⟨c, cs, rfl, -⟩ := hs.exists_cons
      rw [hstart, hstop, offset_after, offset_after]
      simp only [List.length_append, List.length_cons] at hu ⊢
      omega

theorem spells (h : Laid read rest ts) {t : Token} (ht : t ∈ ts) (he : t.kind ≠ .endOfFile) :
    t.span.stop.offset ≤ (read ++ rest).length ∧
      t.Spells (stretch (read ++ rest) t.span.start.offset t.span.stop.offset) := by
  obtain ⟨before, behind, rfl⟩ := List.append_of_mem ht
  obtain ⟨read, rest, htext, h⟩ := h.drop
  rw [← htext]
  cases h with
  | endOfFile => exact absurd rfl he
  | @cons _ blanks word rest _ _ hb hs hstart hstop h =>
      rw [hstart, hstop, offset_after, offset_after]
      refine ⟨by simp, ?_⟩
      rw [← List.append_assoc, stretch_middle]
      exact hs

theorem blank_before {t : Token} (h : Laid read rest (t :: ts)) :
    ∀ c ∈ stretch (read ++ rest) read.length t.span.start.offset, isBlank c := by
  cases h with
  | endOfFile hb hp =>
      have hm := stretch_middle read rest []
      rw [List.append_nil] at hm
      rw [hp, offset_after, hm]
      exact hb
  | @cons _ blanks word rest _ _ hb hs hstart hstop h =>
      rw [hstart, offset_after, stretch_middle]
      exact hb

theorem blank_between {t u : Token} (h : Laid read rest (t :: u :: ts)) :
    ∀ c ∈ stretch (read ++ rest) t.span.stop.offset u.span.start.offset, isBlank c := by
  cases h with
  | @cons _ blanks word rest _ _ hb hs hstart hstop h =>
      have hbefore := h.blank_before
      rw [hstop, offset_after]
      simpa using hbefore

/-- A token starts behind all the blanks before it. -/
theorem exists_gap {t : Token} (h : Laid read rest (t :: ts)) : ∃ gap rest', rest = gap ++ rest' ∧
    (∀ c ∈ gap, isBlank c) ∧ (∀ c, rest'.head? = some c → isBlank c = false) ∧
    t.span.start = Position.after {} (read ++ gap) := by
  cases h with
  | endOfFile hb hp => exact ⟨rest, [], (List.append_nil rest).symm, hb, by simp, hp⟩
  | @cons _ blanks word rest _ _ hb hs hstart hstop h =>
      obtain ⟨c, cs, rfl, hc⟩ := hs.exists_cons
      exact ⟨blanks, c :: cs ++ rest, rfl, hb, by simpa using hc, hstart⟩

/-- From the start of a token to the start of the next one there are its spelling and blanks. -/
theorem spells_to_next {t u : Token} (h : Laid read rest (t :: u :: ts)) :
    u.span.start.offset ≤ (read ++ rest).length ∧ ∃ word blanks, t.Spells word ∧ (∀ c ∈ blanks, isBlank c) ∧
      stretch (read ++ rest) t.span.start.offset u.span.start.offset = word ++ blanks := by
  cases h with
  | @cons _ blanks word rest _ _ hb hs hstart hstop h =>
      obtain ⟨gap, rest', rfl, hgap, -, hnext⟩ := h.exists_gap
      rw [hstart, hnext, offset_after, offset_after]
      refine ⟨by simp, word, gap, hs, hgap, ?_⟩
      have hmiddle := stretch_middle (read ++ blanks) (word ++ gap) rest'
      simpa using hmiddle

end Laid

namespace Scanner

inductive Runs : Scanner → List Token → Scanner → Prop
  | nil (s : Scanner) : Runs s [] s
  | cons {s s' s'' : Scanner} {t : Token} {ts : List Token} (h : nextToken s = .ok t s') (hs : Runs s' ts s'') :
      Runs s (t :: ts) s''

theorem Runs.append {s s' s'' : Scanner} {ts us : List Token} (h : Runs s ts s') (h' : Runs s' us s'') :
    Runs s (ts ++ us) s'' := by
  induction h with
  | nil => exact h'
  | cons h _ ih => exact .cons h (ih h')

theorem Pulls.offset {s s' : Scanner} {t : Token} (h : s.Pulls t s') :
    s'.position.offset + s'.rest.length = s.position.offset + s.rest.length := by
  cases h with
  | lexeme hr hb hs he =>
      simp only [Position.after_offset, hr, List.length_append]
      omega
  | endOfFile => simp [Position.after_offset]

theorem Pulls.position {s s' : Scanner} {t : Token} (h : s.Pulls t s') : s'.position = t.span.stop := by
  cases h <;> rfl

theorem Pulls.start {s s' : Scanner} {t : Token} (h : s.Pulls t s') :
    s.position.offset ≤ t.span.start.offset ∧ t.span.start.offset ≤ s'.position.offset ∧
      (t.kind ≠ .endOfFile → t.span.start.offset < s'.position.offset) ∧ (t.kind = .endOfFile → s'.rest = []) := by
  cases h with
  | @lexeme l blanks word rest hr hb hs =>
      obtain ⟨c, cs, rfl, -⟩ := hs.exists_cons
      simp only [Position.after_offset, List.length_append, List.length_cons]
      refine ⟨by omega, by omega, fun _ => by omega, fun he => ?_⟩
      exact absurd he hs.kind_ne_endOfFile
  | endOfFile hb =>
      simp only [Position.after_offset]
      exact ⟨by omega, by omega, fun he => absurd rfl he, fun _ => trivial⟩

theorem Runs.offset {s s' : Scanner} {ts : List Token} (h : s.Runs ts s') :
    s'.position.offset + s'.rest.length = s.position.offset + s.rest.length := by
  induction h with
  | nil => rfl
  | cons h _ ih => rw [ih, (pulls_of_nextToken h).offset]

theorem laid_drain {s : Scanner} {read : List Char} (h : s.position = Position.after {} read) :
    Laid read s.rest s.drain.tokens := by
  fun_induction drain s generalizing read with
  | case1 s d s' hn => exact .nil _ _
  | case2 s t s' hn he =>
      cases pulls_of_nextToken hn with
      | lexeme hr hb hs => exact absurd he hs.kind_ne_endOfFile
      | endOfFile hb => exact .endOfFile hb (by rw [Position.after_append, h])
  | case3 s t s' hn he hlt ih =>
      cases pulls_of_nextToken hn with
      | @lexeme l blanks word rest hr hb hs =>
          have hstart : s.position.after blanks = Position.after {} (read ++ blanks) := by
            rw [h, ← Position.after_append]
          have hstop : s.position.after (blanks ++ word) = Position.after {} (read ++ blanks ++ word) := by
            rw [Position.after_append, hstart, ← Position.after_append]
          rw [hr]
          exact .cons hb hs hstart hstop (ih hstop)
      | endOfFile => exact absurd rfl he

/-- A stream without a failure closes with the end of the file, where the scanner stays for good. -/
theorem runs_drain {s : Scanner} (h : s.drain.fault = none) : ∃ before s',
    s.drain.tokens = before ++ [⟨⟨.endOfFile, .none⟩, ⟨s'.position, s'.position⟩⟩] ∧
      (∀ t ∈ before, t.kind ≠ .endOfFile) ∧ s.Runs s.drain.tokens s' ∧ s'.rest = [] := by
  fun_induction drain s with
  | case1 s d s' hn => cases h
  | case2 s t s' hn he =>
      have hp := pulls_of_nextToken hn
      cases hp with
      | lexeme hr hb hs => exact absurd he hs.kind_ne_endOfFile
      | endOfFile hb => exact ⟨[], _, rfl, by simp, .cons hn (.nil _), rfl⟩
  | case3 s t s' hn he hlt ih =>
      obtain ⟨before, s'', htokens, hbefore, hruns, hrest⟩ := ih h
      refine ⟨t :: before, s'', ?_, ?_, .cons hn hruns, hrest⟩
      · rw [Stream.cons, htokens, List.cons_append]
      · intro u hu
        rcases List.mem_cons.1 hu with rfl | hu
        · exact he
        · exact hbefore u hu

theorem runs_replicate {s : Scanner} (h : s.rest = []) (n : Nat) :
    s.Runs (List.replicate n ⟨⟨.endOfFile, .none⟩, ⟨s.position, s.position⟩⟩) s := by
  have hn : nextToken s = .ok ⟨⟨.endOfFile, .none⟩, ⟨s.position, s.position⟩⟩ s := by
    have hp := @Pulls.endOfFile s (by simp [h])
    rw [h, Position.after_nil, ← h] at hp
    exact nextToken_of_pulls hp
  induction n with
  | zero => exact .nil s
  | succ n ih => exact .cons hn ih

end Scanner

/-! ## The stream of a text -/

/-- The tokens cut a text up without losing any of it but blanks. -/
structure Lossless (text : List Char) (tokens : List Token) : Prop where
  ordered : tokens.Pairwise fun t u => t.span.start.offset < u.span.start.offset
  disjoint : tokens.Pairwise fun t u => t.span.stop.offset ≤ u.span.start.offset
  covers : ∀ t ∈ tokens, t.kind ≠ .endOfFile →
    t.span.start.offset < t.span.stop.offset ∧ t.span.stop.offset ≤ text.length ∧
      t.Spells (stretch text t.span.start.offset t.span.stop.offset)
  blank_before : ∀ t behind, tokens = t :: behind →
    ∀ c ∈ stretch text 0 t.span.start.offset, c = ' ' ∨ c = '\n'
  blank_between : ∀ before t u behind, tokens = before ++ t :: u :: behind →
    ∀ c ∈ stretch text t.span.stop.offset u.span.start.offset, c = ' ' ∨ c = '\n'

theorem eq_of_isBlank {c : Char} (h : isBlank c) : c = ' ' ∨ c = '\n' := by
  simpa [isBlank] using h

theorem Laid.lossless {text : List Char} {ts : List Token} (h : Laid [] text ts) : Lossless text ts where
  ordered := h.pairwise.imp And.left
  disjoint := h.pairwise.imp And.right
  covers := by
    intro t ht he
    obtain ⟨hle, hs⟩ := h.spells ht he
    refine ⟨?_, hle, hs⟩
    obtain ⟨c, cs, hcs, -⟩ := hs.exists_cons
    have hlen := congrArg List.length hcs
    simp only [stretch, List.length_drop, List.length_take, List.length_cons] at hlen
    omega
  blank_before := by
    rintro t behind rfl c hc
    exact eq_of_isBlank (h.blank_before c hc)
  blank_between := by
    rintro before t u behind rfl c hc
    obtain ⟨read, rest, htext, h⟩ := h.drop
    rw [List.nil_append] at htext
    rw [← htext] at hc
    exact eq_of_isBlank (h.blank_between c hc)

theorem Source.tokens_eq_ok_iff {s : Source} {ts : List Token} : s.tokens = .ok ts ↔ s.stream = ⟨ts, none⟩ := by
  unfold tokens
  generalize s.stream = stream
  obtain ⟨tokens, fault⟩ := stream
  cases fault <;> simp [Stream.collect]

theorem Source.laid_stream (s : Source) : Laid [] s.text.toList s.stream.tokens :=
  @Scanner.laid_drain s.scanner [] rfl

theorem Source.exists_endOfFile {s : Source} {ts : List Token} (h : s.tokens = .ok ts) : ∃ before s',
    ts = before ++ [⟨⟨.endOfFile, .none⟩, ⟨s'.position, s'.position⟩⟩] ∧ (∀ t ∈ before, t.kind ≠ .endOfFile) ∧
      s.scanner.Runs ts s' ∧ s'.rest = [] := by
  have hstream : s.scanner.drain = ⟨ts, none⟩ := tokens_eq_ok_iff.1 h
  have hruns := Scanner.runs_drain (congrArg Stream.fault hstream)
  rwa [hstream] at hruns

/-- The stream of every text is lossless up to its end or to the failure that cuts it short. Without a failure it closes
with the end of the file, at the end of the text, and pulling on gives that same token again and again. -/
theorem stream_lossless (s : Source) : Lossless s.text.toList s.stream.tokens ∧
    ∀ ts, s.tokens = .ok ts → ts = s.stream.tokens ∧ ∃ before e s', ts = before ++ [e] ∧
      (∀ t ∈ before, t.kind ≠ .endOfFile) ∧ e.kind = .endOfFile ∧ e.value = .none ∧ e.span.start = e.span.stop ∧
      e.span.start.offset = s.text.toList.length ∧
      ∀ n, s.scanner.Runs (ts ++ List.replicate n e) s' := by
  refine ⟨s.laid_stream.lossless, ?_⟩
  intro ts hts
  have hstream := Source.tokens_eq_ok_iff.1 hts
  obtain ⟨before, s', htokens, hbefore, hruns, hrest⟩ := Source.exists_endOfFile hts
  refine ⟨congrArg Stream.tokens hstream.symm, before, _, s', htokens, hbefore, rfl, rfl, rfl, ?_,
    fun n => hruns.append (Scanner.runs_replicate hrest n)⟩
  have hoffset := hruns.offset
  rw [hrest] at hoffset
  simpa [Source.scanner] using hoffset

theorem stream_lossless_lines : ∃ s, s = Source.mk "# é\n'ü' \"a\nb\" 007 " "shell" ∧
    ∃ ts before e, s.tokens = .ok ts ∧ ts = before ++ [e] ∧ e.kind = .endOfFile ∧ e.span.start.offset = 18 := by
  refine ⟨_, rfl, ?_⟩
  generalize hs : Source.mk _ _ = s
  have hok : s.tokens.isOk = true := by
    subst hs
    decide +kernel
  have hlength : s.text.toList.length = 18 := by
    subst hs
    rfl
  cases ht : s.tokens with
  | error d =>
      rw [ht] at hok
      cases hok
  | ok ts =>
      obtain ⟨-, before, e, s', hts, -, hk, -, -, ho, -⟩ := (stream_lossless s).2 ts ht
      exact ⟨ts, before, e, rfl, hts, hk, ho.trans hlength⟩

end DeclScript
