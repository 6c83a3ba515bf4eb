import DeclScript.Proofs.Determined

set_option autoImplicit false

/-!
# Texts inside other texts

Tokens, failures and trees keep their shape when the positions in them are moved. If a text lies inside another one so
that positions and lines correspond, scanning it there gives the same stream, moved; and to move a stream is to move the
tree or the failure that is read from it.
-/

namespace DeclScript

def Span.relocate (f : Position → Position) (span : Span) : Span :=
  ⟨f span.start, f span.stop⟩

def Token.relocate (f : Position → Position) (t : Token) : Token :=
  { t with span := t.span.relocate f }

def Diagnostic.relocate (f : Position → Position) (d : Diagnostic) : Diagnostic :=
  { d with position := f d.position }

def Stream.relocate (f : Position → Position) (s : Stream) : Stream :=
  ⟨s.tokens.map (Token.relocate f), s.fault.map (Diagnostic.relocate f)⟩

/-! ## Trees -/

def Identifier.relocate (f : Position → Position) (id : Identifier Span) : Identifier Span :=
  ⟨id.name, id.mark.relocate f⟩

def Literal.relocate (f : Position → Position) (literal : Literal Span) : Literal Span :=
  ⟨literal.value, literal.mark.relocate f⟩

def Argument.relocate (f : Position → Position) (argument : Argument Span) : Argument Span :=
  ⟨argument.id.relocate f, argument.mark.relocate f⟩

def Expr.relocate (f : Position → Position) : Expr Span → Expr Span
  | .identifier id => .identifier (id.relocate f)
  | .literal l => .literal (l.relocate f)
  | .call callee arguments mark =>
      .call (callee.relocate f) (arguments.map (Argument.relocate f)) (mark.relocate f)

def ImportSpecifier.relocate (f : Position → Position) (specifier : ImportSpecifier Span) : ImportSpecifier Span :=
  ⟨specifier.id.relocate f, specifier.mark.relocate f⟩

def Element.relocate (f : Position → Position) : Element Span → Element Span
  | .comment c => .comment ⟨c.text, c.mark.relocate f⟩
  | .importDeclaration d => .importDeclaration
      ⟨d.specifiers.map (ImportSpecifier.relocate f), d.source.relocate f, d.mark.relocate f⟩
  | .variableDeclaration d => .variableDeclaration
      ⟨d.id.relocate f, d.valueType.relocate f, d.optional, d.init.relocate f, d.mark.relocate f⟩
  | .expression e => .expression (e.relocate f)

def Program.relocate (f : Position → Position) (program : Program Span) : Program Span :=
  ⟨program.body.map (Element.relocate f), program.mark.relocate f⟩

section Marked

variable (f : Position → Position)

theorem headD_relocate (ts : List Token) (next : Token) :
    (ts.map (Token.relocate f)).headD (next.relocate f) = (ts.headD next).relocate f := by
  cases ts <;> rfl

theorem extent_relocate (ts : List Token) (next : Token) :
    extent (ts.map (Token.relocate f)) (next.relocate f) = (extent ts next).relocate f := by
  rw [extent, headD_relocate]
  rfl

theorem lexemes_relocate (ts : List Token) : lexemes (ts.map (Token.relocate f)) = lexemes ts := by
  rw [lexemes, List.map_map]
  rfl

theorem MarkedPrimary.relocate {t next : Token} {e : Expr Span} (h : MarkedPrimary t next e) :
    MarkedPrimary (t.relocate f) (next.relocate f) (e.relocate f) := by
  cases h with
  | identifier h => exact .identifier h
  | literal h => exact .literal h

theorem MarkedArguments.relocate {close : Token} {ts : List Token} {args : List (Argument Span)}
    (h : MarkedArguments close ts args) : MarkedArguments (close.relocate f) (ts.map (Token.relocate f))
      (args.map (Argument.relocate f)) := by
  induction h with
  | nil => exact .nil
  | @cons t ts name args h _ ih =>
      have hcons := @MarkedArguments.cons _ (t.relocate f) _ _ _ h ih
      rw [headD_relocate] at hcons
      exact hcons

theorem MarkedChain.relocate {ts : List Token} {next : Token} {e : Expr Span} (h : MarkedChain ts next e) :
    MarkedChain (ts.map (Token.relocate f)) (next.relocate f) (e.relocate f) := by
  induction h with
  | primary h => exact .primary (h.relocate f)
  | @call ts us op close next e args h hopen ha hclose ih =>
      have hcall := @MarkedChain.call _ _ (op.relocate f) _ (next.relocate f) _ _ ih hopen (ha.relocate f) hclose
      have hts : ts.map (Token.relocate f) ++ op.relocate f :: (us.map (Token.relocate f) ++ [close.relocate f]) =
          (ts ++ op :: (us ++ [close])).map (Token.relocate f) := by simp
      rw [hts, extent_relocate] at hcall
      exact hcall

theorem MarkedSpecifiers.relocate {close : Token} {ts : List Token} {specifiers : List (ImportSpecifier Span)}
    (h : MarkedSpecifiers close ts specifiers) : MarkedSpecifiers (close.relocate f) (ts.map (Token.relocate f))
      (specifiers.map (ImportSpecifier.relocate f)) := by
  induction h with
  | nil => exact .nil
  | @cons comma t ts name specifiers hc h _ ih =>
      have hcons := @MarkedSpecifiers.cons _ (comma.relocate f) (t.relocate f) _ _ _ hc h ih
      rw [headD_relocate] at hcons
      exact hcons

theorem MarkedOptional.relocate {ts : List Token} {optional : Bool} (h : MarkedOptional ts optional) :
    MarkedOptional (ts.map (Token.relocate f)) optional := by
  cases h with
  | absent => exact .absent
  | present h => exact .present h

theorem MarkedElement.relocate {ts : List Token} {next : Token} {e : Element Span} (h : MarkedElement ts next e) :
    MarkedElement (ts.map (Token.relocate f)) (next.relocate f) (e.relocate f) := by
  cases h with
  | comment h => exact .comment h
  | @importDeclaration word op t close behind source semicolon _ ts name specifiers c hword hopen h hs hclose hfrom hc
      hsemicolon =>
      have helement := @MarkedElement.importDeclaration (word.relocate f) (op.relocate f) (t.relocate f)
        (close.relocate f) (behind.relocate f) (source.relocate f) (semicolon.relocate f) (next.relocate f)
        (ts.map (Token.relocate f)) name _ c hword hopen h (hs.relocate f) hclose hfrom hc hsemicolon
      have hts : [word.relocate f, op.relocate f, t.relocate f] ++ (ts.map (Token.relocate f) ++
          [close.relocate f, behind.relocate f, source.relocate f, semicolon.relocate f]) =
          ([word, op, t] ++ (ts ++ [close, behind, source, semicolon])).map (Token.relocate f) := by simp
      rw [hts, extent_relocate, headD_relocate] at helement
      exact helement
  | @variableDeclaration word id colon type equals init semicolon _ ts name typeName optional e hword hid hcolon htype
      hmark hequals hinit hsemicolon =>
      have helement := @MarkedElement.variableDeclaration (word.relocate f) (id.relocate f) (colon.relocate f)
        (type.relocate f) (equals.relocate f) (init.relocate f) (semicolon.relocate f) (next.relocate f)
        (ts.map (Token.relocate f)) name typeName optional _ hword hid hcolon htype (hmark.relocate f) hequals
        (hinit.relocate f) hsemicolon
      have hts : [word.relocate f, id.relocate f, colon.relocate f, type.relocate f] ++ (ts.map (Token.relocate f) ++
          [equals.relocate f, init.relocate f, semicolon.relocate f]) =
          ([word, id, colon, type] ++ (ts ++ [equals, init, semicolon])).map (Token.relocate f) := by simp
      rw [hts, extent_relocate, headD_relocate] at helement
      exact helement
  | expression h hsemicolon =>
      rw [List.map_append]
      exact .expression (h.relocate f) hsemicolon

theorem MarkedBody.relocate {last : Token} {ts : List Token} {es : List (Element Span)} (h : MarkedBody last ts es) :
    MarkedBody (last.relocate f) (ts.map (Token.relocate f)) (es.map (Element.relocate f)) := by
  induction h with
  | nil => exact .nil
  | @cons ts us e es h _ ih =>
      have hfirst := h.relocate f
      rw [← headD_relocate] at hfirst
      have hcons := MarkedBody.cons hfirst ih
      rw [← List.map_append] at hcons
      exact hcons

theorem MarkedProgram.relocate {ts : List Token} {program : Program Span} (h : MarkedProgram ts program) :
    MarkedProgram (ts.map (Token.relocate f)) (program.relocate f) := by
  cases h with
  | intro h hlast =>
      have hprogram := MarkedProgram.intro (h.relocate f) hlast
      rw [extent_relocate] at hprogram
      rw [List.map_append]
      exact hprogram

end Marked

/-! ## Scanning inside another text -/

/-- The text of `source` lies in the text of `target`, with its positions moved by `f`. -/
structure Source.LiesIn (f : Position → Position) (source target : Source) : Prop where
  after : ∀ p cs, f (p.after cs) = (f p).after cs
  diagnose : ∀ cause p, target.diagnose cause (f p) = (source.diagnose cause p).relocate f

namespace Scanner

/-- The same text ahead, in the text of `target`. -/
def relocate (f : Position → Position) (target : Source) (s : Scanner) : Scanner :=
  { s with source := target, position := f s.position }

def relocateResult (f : Position → Position) (target : Source) :
    EStateM.Result Diagnostic Scanner Token → EStateM.Result Diagnostic Scanner Token
  | .ok t s => .ok (t.relocate f) (s.relocate f target)
  | .error d s => .error (d.relocate f) (s.relocate f target)

variable {f : Position → Position} {target : Source} {s : Scanner}

theorem skip_relocate (h : s.source.LiesIn f target) (n : Nat) :
    (s.relocate f target).skip n = (s.skip n).relocate f target := by
  simp only [skip, relocate, h.after]

theorem readToken_relocate (h : s.source.LiesIn f target) :
    (s.relocate f target).readToken = relocateResult f target s.readToken := by
  have hrest : (s.relocate f target).rest = s.rest := rfl
  unfold readToken
  rw [hrest]
  cases s.rest with
  | nil => rfl
  | cons c cs =>
      simp only [skip_relocate h]
      cases (readLexeme c cs).outcome with
      | ok l => rfl
      | error cause =>
          simp only [relocateResult]
          rw [← h.diagnose]
          rfl

theorem nextToken_relocate (h : s.source.LiesIn f target) :
    nextToken (s.relocate f target) = relocateResult f target (nextToken s) := by
  have hblanks : (s.relocate f target).skipBlanks = s.skipBlanks.relocate f target := skip_relocate h _
  rw [nextToken, hblanks]
  exact readToken_relocate h

theorem drain_relocate (h : s.source.LiesIn f target) : (s.relocate f target).drain = s.drain.relocate f := by
  fun_induction drain s with
  | case1 s d s' hn =>
      have hn' := nextToken_relocate h
      rw [hn] at hn'
      exact drain_of_error hn'
  | case2 s t s' hn he =>
      have hn' := nextToken_relocate h
      rw [hn] at hn'
      exact drain_of_endOfFile hn' he
  | case3 s t s' hn he hlt ih =>
      have hn' := nextToken_relocate h
      rw [hn] at hn'
      rw [drain_of_ok hn' he, ih (by rwa [(pulls_of_nextToken hn).source])]
      rfl

end Scanner

/-! ## Failing inside another text -/

/-- The same progress behind further elements. -/
def Progression.behind (es : List (Element Unit)) (s : Progression) : Progression :=
  ⟨es ++ s.body, s.phase⟩

namespace Progression

variable (es : List (Element Unit))

theorem behind_phase (s : Progression) : (s.behind es).phase = s.phase := rfl

theorem behind_goTo (s : Progression) (phase : Phase) : (s.goTo phase).behind es = (s.behind es).goTo phase := rfl

theorem behind_close (s : Progression) (e : Element Unit) : (s.close e).behind es = (s.behind es).close e := by
  simp [behind, close]

theorem map_behind_ite (p : Prop) [Decidable p] (s : Progression) (other : Option Progression) :
    (if p then some s else other).map (behind es) = if p then some (s.behind es) else other.map (behind es) :=
  apply_ite (Option.map (behind es)) p (some s) other

theorem begin_behind (s : Progression) (l : Lexeme) : (s.behind es).begin l = (s.begin l).map (behind es) := by
  simp only [begin, map_behind_ite, behind_goTo]
  congr 3
  split
  · rw [Option.map_some, behind_close]
  · rw [Option.map_map]
    rfl

/-- What a lexeme does depends on the element being read only, not on those before. -/
theorem step_behind (s : Progression) (l : Lexeme) : (s.behind es).step l = (s.step l).map (behind es) := by
  obtain ⟨body, phase⟩ := s
  cases phase with
  | start => exact begin_behind es _ l
  | ended => rfl
  | _ => simp only [step, behind_phase, map_behind_ite, behind_goTo, behind_close, Option.map_none, Option.map_map,
      Function.comp_def]

theorem run_behind (s : Progression) (ls : List Lexeme) : (s.behind es).run ls = (s.run ls).map (behind es) := by
  induction ls generalizing s with
  | nil => rfl
  | cons l ls ih =>
      rw [run_cons, run_cons, step_behind]
      cases s.step l with
      | none => rfl
      | some s' => exact ih s'

end Progression

namespace Stops

variable {source target : Source} {ahead : Stream} {s : Progression} {d : Diagnostic}

theorem relocate {f : Position → Position} (hf : source.LiesIn f target) (h : Stops source ahead s d) :
    Stops target (ahead.relocate f) s (d.relocate f) := by
  have hfault (h : ahead.fault = some d) : (ahead.relocate f).fault = some (d.relocate f) := by
    rw [Stream.relocate, h]
    rfl
  have hrun {ts : List Token} {s' : Progression} (hr : s.run (lexemes ts) = some s') :
      s.run (lexemes (ts.map (Token.relocate f))) = some s' := by
    rwa [lexemes_relocate]
  cases h with
  | @token s' ts us t hp hr hs hd hu =>
      have htokens : (ahead.relocate f).tokens =
          ts.map (Token.relocate f) ++ t.relocate f :: us.map (Token.relocate f) := by
        rw [Stream.relocate, hp, List.map_append, List.map_cons]
      refine .token htokens (hrun hr) hs ?_ ?_
      · rw [hd, ← hf.diagnose]
        rfl
      · intro hc
        simpa using hu hc
  | fault h hr => exact .fault (hfault h) (hrun hr)
  | @overtaken body first others ts t h hp hr ht =>
      have htokens : (ahead.relocate f).tokens = ts.map (Token.relocate f) ++ [t.relocate f] := by
        rw [Stream.relocate, hp, List.map_append]
        rfl
      exact .overtaken (hfault h) htokens (hrun hr) ht

theorem behind (es : List (Element Unit)) (h : Stops source ahead s d) : Stops source ahead (s.behind es) d := by
  have hrun {ls : List Lexeme} {s' : Progression} (hr : s.run ls = some s') :
      (s.behind es).run ls = some (s'.behind es) := by
    rw [Progression.run_behind, hr]
    rfl
  cases h with
  | token hp hr hs hd hu => exact .token hp (hrun hr) (by rw [Progression.step_behind, hs]; rfl) hd hu
  | fault hf hr => exact .fault hf (hrun hr)
  | overtaken hf hp hr ht => exact .overtaken hf hp (hrun hr) ht

end Stops

end DeclScript
