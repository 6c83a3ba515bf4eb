import DeclScript.Proofs.Extents
import DeclScript.Proofs.Faults

set_option autoImplicit false

/-!
# The stream decides the parse

No two trees are made of the same tokens: the recognizer fixes the bare tree, the bare tree how many tokens each node
takes, and these tokens the marks. Nor are there two ways in which a stream makes reading fail. What a text is parsed to
is thus decided by its stream, and can be found out without running the parser.
-/

namespace DeclScript

open Progression

/-! ## The width of a bare tree -/

/-- The number of lexemes of an expression. -/
def Expr.width : Expr Unit → Nat
  | .identifier _ => 1
  | .literal _ => 1
  | .call callee arguments _ => callee.width + arguments.length + 2

/-- The number of lexemes of an element. -/
def Element.width : Element Unit → Nat
  | .comment _ => 1
  | .importDeclaration d => 2 * d.specifiers.length + 5
  | .variableDeclaration d => if d.optional then 8 else 7
  | .expression e => e.width + 1

theorem IsChain.length {ls : List Lexeme} {e : Expr Unit} (h : IsChain ls e) : ls.length = e.width := by
  induction h with
  | primary h => cases h <;> rfl
  | call h names ih => simp [Expr.width, ih, Nat.add_assoc]

theorem IsElement.length {ls : List Lexeme} {e : Element Unit} (h : IsElement ls e) : ls.length = e.width := by
  cases h with
  | comment => rfl
  | importDeclaration first others h =>
      simp [importHead, importNames, Element.width, List.map_const']
      omega
  | variableDeclaration name type optional h => cases optional <;> rfl
  | expression h => simp [Element.width, h.length]

theorem MarkedChain.length {ts : List Token} {next : Token} {e : Expr Span} (h : MarkedChain ts next e) :
    ts.length = e.erase.width := by
  rw [← h.isChain.length, lexemes, List.length_map]

theorem MarkedElement.length {ts : List Token} {next : Token} {e : Element Span} (h : MarkedElement ts next e) :
    ts.length = e.erase.width := by
  rw [← h.isElement.length, lexemes, List.length_map]

/-! ## A tree is decided by its tokens -/

theorem MarkedPrimary.unique {t next : Token} {e e' : Expr Span} (h : MarkedPrimary t next e)
    (h' : MarkedPrimary t next e') (he : e.erase = e'.erase) : e = e' := by
  cases h with
  | identifier =>
      cases h' with
      | identifier =>
          cases he
          rfl
      | literal => cases he
  | literal =>
      cases h' with
      | identifier => cases he
      | literal =>
          cases he
          rfl

theorem MarkedArguments.unique {close : Token} {ts : List Token} {args args' : List (Argument Span)}
    (h : MarkedArguments close ts args) (h' : MarkedArguments close ts args') : args = args' := by
  induction h generalizing args' with
  | nil =>
      cases h'
      rfl
  | cons h _ ih =>
      cases h' with
      | cons h' hs =>
          cases h.symm.trans h'
          rw [ih hs]

theorem MarkedChain.unique {ts ts' : List Token} {next : Token} {e e' : Expr Span} (h : MarkedChain ts next e)
    (h' : MarkedChain ts' next e') (hts : ts = ts') (he : e.erase = e'.erase) : e = e' := by
  induction h generalizing ts' e' with
  | primary h =>
      cases h' with
      | primary h' =>
          cases hts
          exact h.unique h' he
      | call => cases h <;> cases he
  | call h _ ha _ ih =>
      cases h' with
      | primary h' => cases h' <;> cases he
      | call h' _ ha' _ =>
          -- the callees have one bare tree, so they are equally wide and the tokens are split in the same place
          have hcallee := (Expr.call.inj he).1
          obtain ⟨rfl, htail⟩ := List.append_inj hts (by rw [h.length, h'.length, hcallee])
          obtain ⟨rfl, hlist⟩ := List.cons.inj htail
          obtain ⟨rfl, hclose⟩ := List.append_inj' hlist rfl
          cases hclose
          rw [ih h' rfl hcallee, ha.unique ha']

theorem MarkedSpecifiers.unique {close : Token} {ts : List Token} {specifiers specifiers' : List (ImportSpecifier Span)}
    (h : MarkedSpecifiers close ts specifiers) (h' : MarkedSpecifiers close ts specifiers') :
    specifiers = specifiers' := by
  induction h generalizing specifiers' with
  | nil =>
      cases h'
      rfl
  | cons _ h _ ih =>
      cases h' with
      | cons _ h' hs =>
          cases h.symm.trans h'
          rw [ih hs]

theorem MarkedElement.unique {ts ts' : List Token} {next : Token} {e e' : Element Span} (h : MarkedElement ts next e)
    (h' : MarkedElement ts' next e') (hts : ts = ts') (he : e.erase = e'.erase) : e = e' := by
  cases h with
  | comment =>
      cases h' with
      | comment =>
          cases hts
          cases he
          rfl
      | _ => cases he
  | importDeclaration _ _ ht hs _ _ hc =>
      cases h' with
      | importDeclaration _ _ ht' hs' _ _ hc' =>
          obtain ⟨hhead, htail⟩ := List.append_inj hts rfl
          obtain ⟨rfl, hend⟩ := List.append_inj' htail rfl
          cases hhead
          cases hend
          cases ht.symm.trans ht'
          rw [hs.unique hs']
          have hsource := congrArg Literal.value (ImportDeclaration.mk.inj (Element.importDeclaration.inj he)).2.1
          cases hsource
          rfl
      | _ => cases he
  | variableDeclaration _ hid _ htype hmark _ hinit _ =>
      cases h' with
      | variableDeclaration _ hid' _ htype' hmark' _ hinit' _ =>
          obtain ⟨hhead, htail⟩ := List.append_inj hts rfl
          obtain ⟨rfl, hend⟩ := List.append_inj' htail rfl
          cases hhead
          cases hend
          obtain ⟨-, -, rfl, he, -⟩ := VariableDeclaration.mk.inj (Element.variableDeclaration.inj he)
          cases hid.symm.trans hid'
          cases htype.symm.trans htype'
          rw [hinit.unique hinit' he]
      | _ => cases he
  | expression h =>
      cases h' with
      | expression h' =>
          obtain ⟨rfl, hsemicolon⟩ := List.append_inj' hts rfl
          cases hsemicolon
          rw [h.unique h' rfl (Element.expression.inj he)]
      | _ => cases he

theorem MarkedBody.unique {last : Token} {ts ts' : List Token} {es es' : List (Element Span)}
    (h : MarkedBody last ts es) (h' : MarkedBody last ts' es') (hts : ts = ts')
    (he : es.map Element.erase = es'.map Element.erase) : es = es' := by
  induction h generalizing ts' es' with
  | nil =>
      cases h' with
      | nil => rfl
      | cons => cases he
  | cons h _ ih =>
      cases h' with
      | nil => cases he
      | cons h' hs' =>
          obtain ⟨hfirst, hothers⟩ := List.cons.inj he
          obtain ⟨rfl, rfl⟩ := List.append_inj hts (by rw [h.length, h'.length, hfirst])
          rw [h.unique h' rfl hfirst, ih hs' rfl hothers]

theorem MarkedProgram.unique {ts : List Token} {program program' : Program Span} (h : MarkedProgram ts program)
    (h' : MarkedProgram ts program') : program = program' := by
  have hbody : program.erase.body = program'.erase.body := by
    have hrun := (isProgram_iff_run.1 h.isProgram).symm.trans (isProgram_iff_run.1 h'.isProgram)
    exact congrArg Progression.body (Option.some.inj hrun)
  cases h with
  | @intro ts last body h =>
      generalize hts : ts ++ [last] = us at h'
      cases h' with
      | intro h' =>
          obtain ⟨rfl, hlast⟩ := List.append_inj' hts rfl
          cases hlast
          rw [h.unique h' rfl hbody]

/-! ## A failure is decided by the stream -/

theorem Progression.run_lexemes_eq_none {s s' : Progression} {ts : List Token} {t : Token} (us : List Token)
    (hr : s.run (lexemes ts) = some s') (hs : s'.step t.toLexeme = none) :
    s.run (lexemes (ts ++ t :: us)) = none := by
  rw [lexemes_append]
  exact run_eq_none (lexemes us) hr hs

/-- A run gets stuck in one place only, since it would have to get past the first such place to reach another. -/
theorem Progression.stuck_unique {s r r' : Progression} {ts us ts' us' : List Token} {t t' : Token}
    (hts : ts ++ t :: us = ts' ++ t' :: us') (hr : s.run (lexemes ts) = some r) (hs : r.step t.toLexeme = none)
    (hr' : s.run (lexemes ts') = some r') (hs' : r'.step t'.toLexeme = none) : ts = ts' ∧ t = t' ∧ us = us' := by
  rcases List.append_eq_append_iff.1 hts with ⟨ms, rfl, h⟩ | ⟨ms, rfl, h⟩
  · cases ms with
    | nil => exact ⟨(List.append_nil _).symm, List.cons.inj h⟩
    | cons m ms =>
        cases (List.cons.inj h).1
        cases (run_lexemes_eq_none ms hr hs).symm.trans hr'
  · cases ms with
    | nil => exact ⟨List.append_nil _, (List.cons.inj h.symm)⟩
    | cons m ms =>
        cases (List.cons.inj h).1
        cases (run_lexemes_eq_none ms hr' hs').symm.trans hr

namespace Stops

variable {source : Source} {ahead : Stream} {s : Progression} {d d' : Diagnostic}

/-- Where a token is at fault, nothing else is. -/
theorem eq_of_token {s' : Progression} {ts us : List Token} {t : Token} (hp : ahead.tokens = ts ++ t :: us)
    (hr : s.run (lexemes ts) = some s') (hs : s'.step t.toLexeme = none)
    (hu : s'.complaint t.kind ≠ .unexpectedToken t.kind → us ≠ []) (h : Stops source ahead s d) :
    d = source.diagnose (s'.complaint t.kind) t.span.start := by
  cases h with
  | token hp' hr' hs' hd' =>
      obtain ⟨rfl, rfl, -⟩ := stuck_unique (hp.symm.trans hp') hr hs hr' hs'
      cases hr.symm.trans hr'
      exact hd'
  | fault hf hr' =>
      rw [hp, run_lexemes_eq_none us hr hs] at hr'
      cases hr'
  | overtaken hf hp' hr' ht =>
      obtain ⟨rfl, rfl, rfl⟩ := stuck_unique (hp.symm.trans hp') hr hs hr' (step_fromWord_identifier ht)
      cases hr.symm.trans hr'
      refine absurd rfl (hu ?_)
      rw [ht]
      simp [complaint]

theorem unique (h : Stops source ahead s d) (h' : Stops source ahead s d') : d = d' := by
  have hfault (hf : ahead.fault = some d) (h' : Stops source ahead s d') : d = d' := by
    cases h' with
    | token hp' hr' hs' hd' hu' => exact (eq_of_token hp' hr' hs' hu' h).trans hd'.symm
    | fault hf' => exact Option.some.inj (hf.symm.trans hf')
    | overtaken hf' => exact Option.some.inj (hf.symm.trans hf')
  cases h with
  | token hp hr hs hd hu => exact hd.trans (eq_of_token hp hr hs hu h').symm
  | fault hf => exact hfault hf h'
  | overtaken hf => exact hfault hf h'

end Stops

/-! ## What a text is parsed to -/

namespace Source

theorem parse_eq_ok_iff {s : Source} {program : Program Span} :
    s.parse = .ok program ↔ ∃ ts, s.tokens = .ok ts ∧ MarkedProgram ts program := by
  constructor
  · exact marked_of_parse
  · rintro ⟨ts, hts, h⟩
    obtain ⟨program', hparse, -⟩ := parse_of_isProgram hts h.isProgram
    obtain ⟨ts', hts', h'⟩ := marked_of_parse hparse
    cases hts.symm.trans hts'
    rw [hparse, h.unique h']

theorem parse_eq_error_iff {s : Source} {d : Diagnostic} : s.parse = .error d ↔ Stops s s.stream ⟨[], .start⟩ d := by
  constructor
  · exact stops_of_parse_eq_error
  · intro h
    cases hp : s.parse with
    | error d' => rw [h.unique (stops_of_parse_eq_error hp)]
    | ok program =>
        obtain ⟨ts, hts, hr⟩ := run_of_parse_eq_ok hp
        rw [tokens_eq_ok_iff.1 hts] at h
        cases h with
        | token htokens hr' hs =>
            cases htokens
            cases (run_lexemes_eq_none _ hr' hs).symm.trans hr
        | fault hf => cases hf
        | overtaken hf => cases hf

end Source

end DeclScript
