import DeclScript.Proofs.Nesting
import DeclScript.Proofs.Relocation

set_option autoImplicit false

/-!
# Texts below each other

A line feed ends every lexeme, and a program is complete wherever its last element is. A text that is put below another
one, with a line feed between, is therefore read as it would be alone: the tokens of both come one behind the other, and
so do their elements.
-/

namespace DeclScript

/-- The place `p` of a text, in the whole that arises when the text is put below `above`. -/
def Position.below (above : List Char) (p : Position) : Position :=
  ⟨p.offset + above.length + 1, p.line + above.count '\n' + 1, p.column⟩

namespace Position

theorem step_below (above : List Char) (p : Position) (c : Char) : (p.below above).step c = (p.step c).below above := by
  unfold step
  split <;> simp [below] <;> omega

theorem after_below (above : List Char) (p : Position) (cs : List Char) :
    (p.below above).after cs = (p.after cs).below above := by
  induction cs generalizing p with
  | nil => rfl
  | cons c cs ih => rw [after_cons, step_below, ih, after_cons]

/-- The text below starts behind the line feed. -/
theorem below_zero (above : List Char) : below above {} = after {} (above ++ ['\n']) := by
  rw [after_append]
  simp [below, step, after_offset, after_line]

end Position

namespace Source

/-- The text of `b` put below the text of `a`, in the file of `b`. -/
def below (a : String) (b : Source) : Source :=
  { b with text := a ++ "\n" ++ b.text }

theorem toList_below (a : String) (b : Source) : (b.below a).text.toList = a.toList ++ '\n' :: b.text.toList := by
  simp [below]

theorem liesIn_below (a : String) (b : Source) : b.LiesIn (Position.below a.toList) (b.below a) where
  after p cs := (Position.after_below a.toList p cs).symm
  diagnose cause p := by
    have hline : (b.below a).line (p.below a.toList).line = b.line p.line := by
      rw [line, toList_below]
      exact congrArg String.ofList (lineAt_append p.line a.toList b.text.toList)
    rw [diagnose, hline]
    rfl

end Source

/-! ## Scanning up to the line feed -/

theorem lineFeed_not_mem_punctuator {p : List Char} (hp : p ∈ punctuators) : '\n' ∉ p := by
  intro h
  cases (of_mem_punctuator hp h).2.2.2.2.2

/-- A line feed makes no lexeme longer. -/
theorem Lexeme.Ends.append {l : Lexeme} {word rest : List Char} (h : l.Ends word rest) (more : List Char) :
    l.Ends word (rest ++ '\n' :: more) := by
  have hhead {p : Char → Prop} (hp : p '\n') (h : ∀ c, rest.head? = some c → p c) :
      ∀ c, (rest ++ '\n' :: more).head? = some c → p c := by
    intro c hc
    cases rest with
    | nil =>
        cases hc
        exact hp
    | cons => exact h c hc
  obtain ⟨kind, value⟩ := l
  cases kind with
  | comment => exact hhead rfl h
  | keyword => exact hhead rfl h
  | identifier => exact hhead rfl h
  | nullLiteral => exact hhead rfl h
  | booleanLiteral => exact hhead rfl h
  | numericLiteral => exact hhead rfl h
  | characterLiteral => trivial
  | stringLiteral => trivial
  | endOfFile => trivial
  | punctuator =>
      -- a punctuator that reached over the line feed would contain it
      intro p hp hprefix
      rw [← List.append_assoc] at hprefix
      exact h p hp (prefix_of_not_mem (lineFeed_not_mem_punctuator hp) hprefix)

namespace Scanner

/-- The same place in a longer text, which is named by `target`. -/
def extend (target : Source) (more : List Char) (s : Scanner) : Scanner :=
  { s with source := target, rest := s.rest ++ more }

/-- The scanner behind all that is left and one more line feed. -/
def nextLine (target : Source) (more : List Char) (s : Scanner) : Scanner :=
  { s with source := target, position := s.position.after (s.rest ++ ['\n']), rest := more }

variable {s s' : Scanner} {t : Token} (target : Source) (more : List Char)

theorem Pulls.extend (h : s.Pulls t s') (he : t.kind ≠ .endOfFile) :
    (s.extend target ('\n' :: more)).Pulls t (s'.extend target ('\n' :: more)) := by
  cases h with
  | endOfFile => exact absurd rfl he
  | @lexeme l blanks word rest hr hb hs hends =>
      have hr' : (s.extend target ('\n' :: more)).rest = blanks ++ (word ++ (rest ++ '\n' :: more)) := by
        simp [Scanner.extend, hr]
      exact .lexeme hr' hb hs (hends.append more)

theorem Pulls.nextLine (h : s.Pulls t s') (he : t.kind ≠ .endOfFile) :
    s'.nextLine target more = s.nextLine target more := by
  cases h with
  | endOfFile => exact absurd rfl he
  | @lexeme l blanks word rest hr hb hs hends => simp [Scanner.nextLine, hr, Position.after_append]

theorem skipBlanks_extend (h : ∀ c ∈ s.rest, isBlank c) :
    (s.extend target ('\n' :: more)).skipBlanks = (s.nextLine target more).skipBlanks := by
  obtain ⟨rest, hr, hb, hrest⟩ := exists_run isBlank more
  generalize more.takeWhile isBlank = blanks at hr hb
  have hblank : ∀ c ∈ s.rest ++ ('\n' :: blanks), isBlank c := by
    intro c hc
    rcases List.mem_append.1 hc with hc | hc
    · exact h c hc
    · rcases List.mem_cons.1 hc with rfl | hc
      · rfl
      · exact hb c hc
  rw [skipBlanks_eq (by simp [extend, hr]) hblank hrest, skipBlanks_eq hr hb hrest]
  simp [extend, nextLine, Position.after_append]

theorem drain_congr {s s' : Scanner} (h : nextToken s = nextToken s') : s.drain = s'.drain := by
  cases hn : nextToken s' with
  | error d u => rw [drain_of_error hn, drain_of_error (h.trans hn)]
  | ok t u =>
      by_cases he : t.kind = .endOfFile
      · rw [drain_of_endOfFile hn he, drain_of_endOfFile (h.trans hn) he]
      · rw [drain_of_ok hn he, drain_of_ok (h.trans hn) he]

/-- A longer text is scanned as before up to the end of the shorter one, and from the next line on as if it started
there. -/
theorem drain_extend (h : s.drain.fault = none) : (s.extend target ('\n' :: more)).drain =
    (s.nextLine target more).drain.prepend s.drain.tokens.dropLast := by
  fun_induction drain s with
  | case1 s d s' hn => cases h
  | case2 s t s' hn he =>
      cases pulls_of_nextToken hn with
      | lexeme hr hb hs => exact absurd he hs.kind_ne_endOfFile
      | endOfFile hb => exact drain_congr (congrArg readToken (skipBlanks_extend target more hb))
  | case3 s t s' hn he hlt ih =>
      have hpulls := pulls_of_nextToken hn
      -- the end of the file is still ahead, so it is not `t` that is left out
      obtain ⟨before, s'', htokens, -⟩ := runs_drain h
      have hlast : (Stream.cons t s'.drain).tokens.dropLast = t :: s'.drain.tokens.dropLast :=
        List.dropLast_cons_of_ne_nil (by simp [htokens])
      rw [drain_of_ok (nextToken_of_pulls (hpulls.extend target more he)) he, ih h, hpulls.nextLine target more he,
        hlast]
      rfl

end Scanner

namespace Source

theorem stream_below {a : Source} {ts : List Token} (b : Source) (h : a.tokens = .ok ts) :
    (b.below a.text).stream = (b.stream.relocate (Position.below a.text.toList)).prepend ts.dropLast := by
  have hdrain : a.scanner.drain = ⟨ts, none⟩ := tokens_eq_ok_iff.1 h
  have hextend : (b.below a.text).scanner = a.scanner.extend (b.below a.text) ('\n' :: b.text.toList) := by
    rw [scanner, toList_below]
    rfl
  have hnext : a.scanner.nextLine (b.below a.text) b.text.toList =
      b.scanner.relocate (Position.below a.text.toList) (b.below a.text) := by
    have hposition : Position.below a.text.toList b.scanner.position = Position.after {} (a.text.toList ++ ['\n']) :=
      Position.below_zero a.text.toList
    rw [Scanner.relocate, hposition]
    rfl
  have hstream := Scanner.drain_extend (b.below a.text) b.text.toList (congrArg Stream.fault hdrain)
  rw [← hextend, hnext, Scanner.drain_relocate (liesIn_below a.text b), hdrain] at hstream
  exact hstream

theorem tokens_below {a b : Source} {ts us : List Token} (ha : a.tokens = .ok ts) (hb : b.tokens = .ok us) :
    (b.below a.text).tokens = .ok (ts.dropLast ++ us.map (Token.relocate (Position.below a.text.toList))) := by
  rw [tokens_eq_ok_iff] at hb ⊢
  rw [stream_below b ha, hb]
  rfl

theorem tokens_below_error {a b : Source} {ts : List Token} {d : Diagnostic} (ha : a.tokens = .ok ts)
    (hb : b.tokens = .error d) :
    (b.below a.text).tokens = .error (d.relocate (Position.below a.text.toList)) := by
  rw [tokens_eq_error_iff] at hb ⊢
  rw [stream_below b ha, Stream.prepend, Stream.relocate, hb]
  rfl

end Source

/-- Two texts with a line feed between are scanned as the first, without its end of the file, and then the second, moved
below the first, if the first can be scanned. If the second cannot, this is what fails. -/
theorem tokens_joined (a b file : String) (ts : List Token) (h : Source.tokens ⟨a, file⟩ = .ok ts) :
    ∃ before last, ts = before ++ [last] ∧ (∀ t ∈ before, t.kind ≠ .endOfFile) ∧ last.kind = .endOfFile ∧
      (∀ us, Source.tokens ⟨b, file⟩ = .ok us → Source.tokens ⟨a ++ "\n" ++ b, file⟩ =
        .ok (before ++ us.map (Token.relocate (Position.below a.toList)))) ∧
      ∀ d, Source.tokens ⟨b, file⟩ = .error d → Source.tokens ⟨a ++ "\n" ++ b, file⟩ =
        .error (d.relocate (Position.below a.toList)) := by
  obtain ⟨before, s', hts, hbefore, -, -⟩ := Source.exists_endOfFile h
  refine ⟨before, _, hts, hbefore, rfl, ?_, ?_⟩
  · intro us hus
    have hjoined := @Source.tokens_below ⟨a, file⟩ ⟨b, file⟩ ts us h hus
    rw [hts, List.dropLast_concat] at hjoined
    exact hjoined
  · intro d hd
    exact @Source.tokens_below_error ⟨a, file⟩ ⟨b, file⟩ ts d h hd

/-- The line feed ends a comment above a character that is not closed, and it keeps two signs apart. -/
theorem tokens_joined_lines :
    Source.tokens ⟨"# é" ++ "\n" ++ "x\n'ü ", "shell"⟩ =
      .error ⟨.malformedCharacter "\" \"", ⟨8, 2, 2⟩, "shell", "'ü "⟩ ∧
    Source.tokens ⟨"<" ++ "\n" ++ "<", "shell"⟩ =
      .ok [⟨⟨.punctuator, .text "<"⟩, ⟨⟨0, 0, 0⟩, ⟨1, 0, 1⟩⟩⟩, ⟨⟨.punctuator, .text "<"⟩, ⟨⟨2, 1, 0⟩, ⟨3, 1, 1⟩⟩⟩,
        ⟨⟨.endOfFile, .none⟩, ⟨⟨3, 1, 1⟩, ⟨3, 1, 1⟩⟩⟩] := by
  have hcomment : Source.tokens ⟨"# é", "shell"⟩ = .ok [⟨⟨.comment, .text " é"⟩, ⟨⟨0, 0, 0⟩, ⟨3, 0, 3⟩⟩⟩,
      ⟨⟨.endOfFile, .none⟩, ⟨⟨3, 0, 3⟩, ⟨3, 0, 3⟩⟩⟩] := by
    decide +kernel
  have hquote : Source.tokens ⟨"x\n'ü ", "shell"⟩ =
      .error ⟨.malformedCharacter "\" \"", ⟨4, 1, 2⟩, "shell", "'ü "⟩ := by
    decide +kernel
  have hsign : Source.tokens ⟨"<", "shell"⟩ = .ok [⟨⟨.punctuator, .text "<"⟩, ⟨⟨0, 0, 0⟩, ⟨1, 0, 1⟩⟩⟩,
      ⟨⟨.endOfFile, .none⟩, ⟨⟨1, 0, 1⟩, ⟨1, 0, 1⟩⟩⟩] := by
    decide +kernel
  constructor
  · obtain ⟨before, last, -, -, -, -, hfails⟩ := tokens_joined "# é" "x\n'ü " "shell" _ hcomment
    exact hfails _ hquote
  · obtain ⟨before, last, hts, -, -, hjoined, -⟩ := tokens_joined "<" "<" "shell" _ hsign
    have hbefore := congrArg List.dropLast hts
    rw [List.dropLast_concat] at hbefore
    rw [hjoined _ hsign, ← hbefore]
    rfl

/-! ## Programs below each other -/

/-- The element as it is when another token comes next, which starts at `stop`. The next token is no matter to an
expression statement. -/
def Element.endAt (stop : Position) : Element Span → Element Span
  | .comment c => .comment { c with mark := { c.mark with stop } }
  | .importDeclaration d => .importDeclaration { d with mark := { d.mark with stop } }
  | .variableDeclaration d => .variableDeclaration { d with mark := { d.mark with stop } }
  | .expression e => .expression e

def endLast (stop : Position) : List (Element Span) → List (Element Span)
  | [] => []
  | [e] => [e.endAt stop]
  | e :: f :: es => e :: endLast stop (f :: es)

theorem MarkedElement.endAt {ts : List Token} {next : Token} {e : Element Span} (h : MarkedElement ts next e)
    (other : Token) : MarkedElement ts other (e.endAt other.span.start) := by
  cases h with
  | comment h => exact .comment h
  | importDeclaration hword hopen h hs hclose hfrom hc hsemicolon =>
      exact .importDeclaration hword hopen h hs hclose hfrom hc hsemicolon
  | variableDeclaration hword hid hcolon htype hmark hequals hinit hsemicolon =>
      exact .variableDeclaration hword hid hcolon htype hmark hequals hinit hsemicolon
  | expression h hsemicolon => exact .expression h hsemicolon

namespace MarkedBody

variable {last : Token} {ts : List Token} {es : List (Element Span)}

theorem endLast (h : MarkedBody last ts es) (other : Token) :
    MarkedBody other ts (DeclScript.endLast other.span.start es) := by
  induction h with
  | nil => exact .nil
  | cons h hs ih =>
      cases hs with
      | nil => exact .cons (h.endAt other) .nil
      | @cons us vs f fs hf hfs =>
          have hnext : (us ++ vs).headD last = (us ++ vs).headD other := by
            rw [headD_append last other hf.ne_nil, headD_append other other hf.ne_nil]
          rw [hnext] at h
          exact .cons h ih

theorem append {us : List Token} {fs : List (Element Span)} (h : MarkedBody (us.headD last) ts es)
    (h' : MarkedBody last us fs) : MarkedBody last (ts ++ us) (es ++ fs) := by
  induction h with
  | nil => exact h'
  | @cons ts vs e es h _ ih =>
      have hnext : vs.headD (us.headD last) = (vs ++ us).headD last := by
        cases vs <;> rfl
      rw [hnext] at h
      rw [List.append_assoc]
      exact .cons h ih

end MarkedBody

/-- Two bodies in a row start with the first one, unless it is empty. -/
theorem MarkedBody.extent_append {last : Token} {ts : List Token} {es : List (Element Span)}
    (h : MarkedBody last ts es) (us : List Token) (next : Token) : extent (ts ++ us) next =
      ⟨if es = [] then (extent us next).start else (extent ts last).start, next.span.start⟩ := by
  cases h with
  | nil => rfl
  | @cons ts vs e es h =>
      have hne : ts ++ vs ≠ [] := by simp [h.ne_nil]
      rw [if_neg (List.cons_ne_nil e es), extent, extent, headD_append next last hne]

namespace MarkedProgram

variable {ts us : List Token} {t : Token} {p q : Program Span}

theorem exists_cons (h : MarkedProgram ts p) : ∃ t us, ts = t :: us := by
  cases h with
  | intro => exact List.exists_cons_of_ne_nil (by simp)

theorem run_dropLast (h : MarkedProgram ts p) :
    Progression.run ⟨[], .start⟩ (lexemes ts.dropLast) = some ⟨p.erase.body, .start⟩ := by
  cases h with
  | intro h hlast =>
      rw [List.dropLast_concat]
      exact Progression.run_isBody [] h.isBody

/-- The tokens of two programs, with one end of the file, make one program of the elements of both. -/
theorem join (hp : MarkedProgram ts p) (hq : MarkedProgram (t :: us) q) : MarkedProgram (ts.dropLast ++ t :: us)
    ⟨endLast t.span.start p.body ++ q.body,
      ⟨if p.body = [] then q.mark.start else p.mark.start, q.mark.stop⟩⟩ := by
  generalize hvs : t :: us = vs at hq
  cases hp with
  | @intro ts lastp es h hlastp =>
      cases hq with
      | @intro vs lastq fs h' hlastq =>
          have ht : vs.headD lastq = t := by
            cases vs <;> cases hvs <;> rfl
          have hfirst := h.endLast t
          rw [← ht] at hfirst ⊢
          have hprogram := MarkedProgram.intro (hfirst.append h') hlastq
          rw [h.extent_append] at hprogram
          rw [List.dropLast_concat, ← List.append_assoc]
          exact hprogram

end MarkedProgram

theorem Source.parse_below_error (a b : Source) {p : Program Span} {d : Diagnostic} (ha : a.parse = .ok p)
    (hb : b.parse = .error d) :
    (b.below a.text).parse = .error (d.relocate (Position.below a.text.toList)) := by
  obtain ⟨ts, hts, hp⟩ := marked_of_parse ha
  have hstops := ((parse_eq_error_iff.1 hb).relocate (liesIn_below a.text b)).behind p.erase.body
  rw [parse_eq_error_iff, stream_below b hts]
  refine hstops.prepend ?_
  rw [hp.run_dropLast, Progression.behind, List.append_nil]

/-- Two texts with a line feed between are parsed as the first and then the second, moved below the first, if the first
can be parsed. If the second cannot, this is what fails. Otherwise the elements of both make up the program, and the
last element of the first text now ends where the first token of the second starts. -/
theorem parse_joined (a b file : String) (p : Program Span) (h : Source.parse ⟨a, file⟩ = .ok p) :
    (∀ d, Source.parse ⟨b, file⟩ = .error d →
      Source.parse ⟨a ++ "\n" ++ b, file⟩ = .error (d.relocate (Position.below a.toList))) ∧
    ∀ q, Source.parse ⟨b, file⟩ = .ok q →
      ∃ ts t us, Source.tokens ⟨a, file⟩ = .ok ts ∧ Source.tokens ⟨b, file⟩ = .ok (t :: us) ∧
        Source.tokens ⟨a ++ "\n" ++ b, file⟩ =
          .ok (ts.dropLast ++ (t :: us).map (Token.relocate (Position.below a.toList))) ∧
        Source.parse ⟨a ++ "\n" ++ b, file⟩ = .ok ⟨endLast (t.span.start.below a.toList) p.body ++
          q.body.map (Element.relocate (Position.below a.toList)),
          ⟨if p.body = [] then q.mark.start.below a.toList else p.mark.start, q.mark.stop.below a.toList⟩⟩ := by
  constructor
  · intro d hd
    exact Source.parse_below_error ⟨a, file⟩ ⟨b, file⟩ h hd
  · intro q hq
    obtain ⟨ts, hts, hp⟩ := Source.marked_of_parse h
    obtain ⟨vs, hvs, hq⟩ := Source.marked_of_parse hq
    obtain ⟨t, us, rfl⟩ := hq.exists_cons
    have htokens := Source.tokens_below hts hvs
    have hjoin := hp.join (hq.relocate (Position.below a.toList))
    exact ⟨ts, t, us, hts, hvs, htokens, Source.parse_eq_ok_iff.2 ⟨_, htokens, hjoin⟩⟩

theorem parse_joined_comment :
    Source.parse ⟨"# é" ++ "\n" ++ "let x", "shell"⟩ =
      .error ⟨.unexpectedToken .endOfFile, ⟨9, 1, 5⟩, "shell", "let x"⟩ ∧
    Source.parse ⟨"# é" ++ "\n" ++ "\n 'ü';", "shell"⟩ =
      .ok ⟨[.comment ⟨" é", ⟨⟨0, 0, 0⟩, ⟨6, 2, 1⟩⟩⟩,
        .expression (.literal ⟨.character 'ü', ⟨⟨6, 2, 1⟩, ⟨9, 2, 4⟩⟩⟩)], ⟨⟨0, 0, 0⟩, ⟨10, 2, 5⟩⟩⟩ := by
  have ha : Source.parse ⟨"# é", "shell"⟩ =
    .ok ⟨[.comment ⟨" é", ⟨⟨0, 0, 0⟩, ⟨3, 0, 3⟩⟩⟩], ⟨⟨0, 0, 0⟩, ⟨3, 0, 3⟩⟩⟩ := by decide +kernel
  have hd : Source.parse ⟨"let x", "shell"⟩ =
    .error ⟨.unexpectedToken .endOfFile, ⟨5, 0, 5⟩, "shell", "let x"⟩ := by decide +kernel
  have hq : Source.parse ⟨"\n 'ü';", "shell"⟩ =
    .ok ⟨[.expression (.literal ⟨.character 'ü', ⟨⟨2, 1, 1⟩, ⟨5, 1, 4⟩⟩⟩)], ⟨⟨2, 1, 1⟩, ⟨6, 1, 5⟩⟩⟩ := by decide +kernel
  have hts : Source.tokens ⟨"\n 'ü';", "shell"⟩ = .ok [⟨⟨.characterLiteral, .text "ü"⟩, ⟨⟨2, 1, 1⟩, ⟨5, 1, 4⟩⟩⟩,
    ⟨⟨.punctuator, .text ";"⟩, ⟨⟨5, 1, 4⟩, ⟨6, 1, 5⟩⟩⟩, ⟨⟨.endOfFile, .none⟩, ⟨⟨6, 1, 5⟩, ⟨6, 1, 5⟩⟩⟩] := by
    decide +kernel
  have habove : "# é".toList = ['#', ' ', 'é'] := by decide
  have herror := (parse_joined "# é" "let x" "shell" _ ha).1 _ hd
  obtain ⟨-, t, us, -, ht, -, hok⟩ := (parse_joined "# é" "\n 'ü';" "shell" _ ha).2 _ hq
  cases ht.symm.trans hts
  rw [habove] at herror hok
  exact ⟨herror, hok⟩

end DeclScript
