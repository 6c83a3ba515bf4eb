import DeclScript.Proofs.Acceptance

set_option autoImplicit false

/-!
# The tokens of a node

The grammar once more, over tokens instead of lexemes and with the marks of the nodes: which tokens a node is made of,
and that its span reaches from the first of them to the token that stands behind them. The trees of the parser follow
this grammar. Whether a tree follows it is a matter of its tokens alone, wherever they lie in a text.
-/

namespace DeclScript

/-- From the start of the tokens `ts` to the start of the token `next` behind them. -/
def extent (ts : List Token) (next : Token) : Span :=
  ⟨(ts.headD next).span.start, next.span.start⟩

theorem part_upTo (ts us : List Token) (last : Token) : ts ++ [us.headD last] <:+: ts ++ us ++ [last] := by
  cases us with
  | nil => exact ⟨[], [], by simp⟩
  | cons u us => exact ⟨[], us ++ [last], by simp⟩

inductive MarkedPrimary (t next : Token) : Expr Span → Prop
  | identifier {name : String} (h : t.toLexeme = .identifier name) :
      MarkedPrimary t next (.identifier ⟨name, extent [t] next⟩)
  | literal {c : Constant} (h : t.toLexeme.Writes c) : MarkedPrimary t next (.literal ⟨c, extent [t] next⟩)

/-- The arguments before the token `close`. -/
inductive MarkedArguments (close : Token) : List Token → List (Argument Span) → Prop
  | nil : MarkedArguments close [] []
  | cons {t : Token} {ts : List Token} {name : String} {args : List (Argument Span)}
      (h : t.toLexeme = .identifier name) (hs : MarkedArguments close ts args) : MarkedArguments close (t :: ts)
        (⟨⟨name, extent [t] (ts.headD close)⟩, extent [t] (ts.headD close)⟩ :: args)

/-- The expression made of the tokens `ts`, which `next` follows. -/
inductive MarkedChain : List Token → Token → Expr Span → Prop
  | primary {t next : Token} {e : Expr Span} (h : MarkedPrimary t next e) : MarkedChain [t] next e
  | call {ts us : List Token} {op close next : Token} {e : Expr Span} {args : List (Argument Span)}
      (h : MarkedChain ts op e) (hopen : op.toLexeme = .punctuator "(") (ha : MarkedArguments close us args)
      (hclose : close.toLexeme = .punctuator ")") :
      MarkedChain (ts ++ op :: (us ++ [close])) next (.call e args (extent (ts ++ op :: (us ++ [close])) next))

/-- The specifiers behind the first one, each with the comma before it. -/
inductive MarkedSpecifiers (close : Token) : List Token → List (ImportSpecifier Span) → Prop
  | nil : MarkedSpecifiers close [] []
  | cons {comma t : Token} {ts : List Token} {name : String} {specifiers : List (ImportSpecifier Span)}
      (hc : comma.toLexeme = .punctuator ",") (h : t.toLexeme = .identifier name)
      (hs : MarkedSpecifiers close ts specifiers) : MarkedSpecifiers close (comma :: t :: ts)
        (⟨⟨name, extent [t] (ts.headD close)⟩, extent [t] (ts.headD close)⟩ :: specifiers)

/-- The question mark of an optional type, if there is one. -/
inductive MarkedOptional : List Token → Bool → Prop
  | absent : MarkedOptional [] false
  | present {t : Token} (h : t.toLexeme = .punctuator "?") : MarkedOptional [t] true

/-- The element made of the tokens `ts`, which `next` follows. The semicolon belongs to declarations, and it stands
behind expressions. -/
inductive MarkedElement : List Token → Token → Element Span → Prop
  | comment {t next : Token} {text : String} (h : t.toLexeme = .comment text) :
      MarkedElement [t] next (.comment ⟨text, extent [t] next⟩)
  | importDeclaration {word op t close behind source semicolon next : Token} {ts : List Token} {name : String}
      {specifiers : List (ImportSpecifier Span)} {c : Constant} (hword : word.toLexeme = .keyword "import")
      (hopen : op.toLexeme = .punctuator "\x7b") (h : t.toLexeme = .identifier name)
      (hs : MarkedSpecifiers close ts specifiers) (hclose : close.toLexeme = .punctuator "\x7d")
      (hfrom : behind.toLexeme = .keyword "from") (hc : source.toLexeme.Writes c)
      (hsemicolon : semicolon.toLexeme = .punctuator ";") :
      MarkedElement ([word, op, t] ++ (ts ++ [close, behind, source, semicolon])) next (.importDeclaration
        ⟨⟨⟨name, extent [t] (ts.headD close)⟩, extent [t] (ts.headD close)⟩ :: specifiers,
          ⟨c, extent [source] semicolon⟩, extent ([word, op, t] ++ (ts ++ [close, behind, source, semicolon])) next⟩)
  | variableDeclaration {word id colon type equals init semicolon next : Token} {ts : List Token}
      {name typeName : String} {optional : Bool} {e : Expr Span} (hword : word.toLexeme = .keyword "let")
      (hid : id.toLexeme = .identifier name) (hcolon : colon.toLexeme = .punctuator ":")
      (htype : type.toLexeme = .identifier typeName) (hmark : MarkedOptional ts optional)
      (hequals : equals.toLexeme = .punctuator "=") (hinit : MarkedPrimary init semicolon e)
      (hsemicolon : semicolon.toLexeme = .punctuator ";") :
      MarkedElement ([word, id, colon, type] ++ (ts ++ [equals, init, semicolon])) next (.variableDeclaration
        ⟨⟨name, extent [id] colon⟩, ⟨typeName, extent [type] (ts.headD equals)⟩, optional, e,
          extent ([word, id, colon, type] ++ (ts ++ [equals, init, semicolon])) next⟩)
  | expression {ts : List Token} {semicolon next : Token} {e : Expr Span} (h : MarkedChain ts semicolon e)
      (hsemicolon : semicolon.toLexeme = .punctuator ";") : MarkedElement (ts ++ [semicolon]) next (.expression e)

/-- The elements before the token `last`. -/
inductive MarkedBody (last : Token) : List Token → List (Element Span) → Prop
  | nil : MarkedBody last [] []
  | cons {ts us : List Token} {e : Element Span} {es : List (Element Span)}
      (h : MarkedElement ts (us.headD last) e) (hs : MarkedBody last us es) : MarkedBody last (ts ++ us) (e :: es)

/-- The program made of the tokens `ts`, the last of which is the end of the file. -/
inductive MarkedProgram : List Token → Program Span → Prop
  | intro {ts : List Token} {last : Token} {body : List (Element Span)} (h : MarkedBody last ts body)
      (hlast : last.toLexeme = .endOfFile) : MarkedProgram (ts ++ [last]) ⟨body, extent ts last⟩

/-! ## Marked trees are trees of the language -/

theorem MarkedPrimary.isPrimary {t next : Token} {e : Expr Span} (h : MarkedPrimary t next e) :
    IsPrimary t.toLexeme e.erase := by
  cases h with
  | identifier h =>
      rw [h]
      exact .identifier _
  | literal h => exact .literal h

theorem MarkedArguments.lexemes_eq {close : Token} {ts : List Token} {args : List (Argument Span)}
    (h : MarkedArguments close ts args) : lexemes ts = (args.map (·.id.name)).map .identifier := by
  induction h with
  | nil => rfl
  | cons h _ ih => exact congr (congrArg _ h) ih

theorem MarkedChain.isChain {ts : List Token} {next : Token} {e : Expr Span} (h : MarkedChain ts next e) :
    IsChain (lexemes ts) e.erase := by
  induction h with
  | primary h => exact .primary h.isPrimary
  | @call ts us op close next e args h hopen ha hclose ih =>
      have hcall := ih.call (args.map (·.id.name))
      rw [← map_erase_arguments, ← ha.lexemes_eq, ← hopen, ← hclose] at hcall
      rw [lexemes_append]
      have hlist : lexemes (op :: (us ++ [close])) = op.toLexeme :: (lexemes us ++ [close.toLexeme]) :=
        congrArg _ (lexemes_append us [close])
      rw [hlist]
      exact hcall

theorem MarkedSpecifiers.lexemes_eq {close : Token} {ts : List Token} {specifiers : List (ImportSpecifier Span)}
    (h : MarkedSpecifiers close ts specifiers) : lexemes ts =
      (specifiers.map (·.id.name)).flatMap fun name => [.punctuator ",", .identifier name] := by
  induction h with
  | nil => rfl
  | cons hc h _ ih => exact congr (congrArg _ hc) (congr (congrArg _ h) ih)

theorem MarkedElement.isElement {ts : List Token} {next : Token} {e : Element Span} (h : MarkedElement ts next e) :
    IsElement (lexemes ts) e.erase := by
  cases h with
  | @comment t _ text h =>
      have hl : lexemes [t] = [.comment text] := congrArg (· :: []) h
      rw [hl]
      exact .comment text
  | @importDeclaration word op t close behind source semicolon _ ts name specifiers c hword hopen h hs hclose hfrom hc
      hsemicolon =>
      have hl : lexemes ([word, op, t] ++ (ts ++ [close, behind, source, semicolon])) =
          importHead name (specifiers.map (·.id.name)) ++ [source.toLexeme, .punctuator ";"] := by
        simp [importHead, importNames, ← hs.lexemes_eq, lexemes, hword, hopen, h, hclose, hfrom, hsemicolon]
      have helement := IsElement.importDeclaration name (specifiers.map (·.id.name)) hc
      rw [List.map_cons, ← map_erase_specifiers, ← hl] at helement
      exact helement
  | @variableDeclaration word id colon type equals init semicolon _ ts name typeName optional e hword hid hcolon htype
      hmark hequals hinit hsemicolon =>
      have hl : lexemes ([word, id, colon, type] ++ (ts ++ [equals, init, semicolon])) =
          variableHead name typeName optional ++ [init.toLexeme, .punctuator ";"] := by
        cases hmark <;> simp [lexemes, variableHead, *]
      rw [hl]
      exact .variableDeclaration name typeName optional hinit.isPrimary
  | @expression ts semicolon _ e h hsemicolon =>
      have helement := IsElement.expression h.isChain
      rw [← hsemicolon] at helement
      rw [lexemes_append]
      exact helement

theorem MarkedBody.isBody {last : Token} {ts : List Token} {es : List (Element Span)} (h : MarkedBody last ts es) :
    IsBody (lexemes ts) (es.map Element.erase) := by
  induction h with
  | nil => exact .nil
  | cons h _ ih =>
      rw [lexemes_append]
      exact .cons h.isElement ih

theorem MarkedProgram.isProgram {ts : List Token} {program : Program Span} (h : MarkedProgram ts program) :
    IsProgram (lexemes ts) program.erase := by
  cases h with
  | @intro ts last body h hlast =>
      refine ⟨lexemes ts, ?_, h.isBody⟩
      rw [lexemes_append, ← hlast]
      rfl

namespace Parser

variable {α : Type}

/-- The parser went from `p` to `p'` by consuming the tokens `ts`, and can go on. -/
structure Took (p : Parser) (ts : List Token) (p' : Parser) : Prop extends Consumed p ts p' where
  ready : p'.Ready

theorem Took.refl {p : Parser} (h : p.Ready) : Took p [] p :=
  ⟨.refl p, h⟩

theorem Took.trans {p q r : Parser} {ts us : List Token} (h : Took p ts q) (h' : Took q us r) : Took p (ts ++ us) r :=
  ⟨h.toConsumed.trans h'.toConsumed, h'.ready⟩

theorem Consumed.lookahead {p p' : Parser} {ts : List Token} (h : Consumed p ts p') :
    p.lookahead = ts.headD p'.lookahead := by
  obtain ⟨us, hp⟩ := p.exists_pending
  obtain ⟨vs, hp'⟩ := p'.exists_pending
  rw [h.pending, Stream.prepend, hp'] at hp
  cases ts with
  | nil => exact (List.cons.inj hp).1.symm
  | cons t ts => exact (List.cons.inj hp).1.symm

/-- Where a node starts and ends is decided by the tokens it took. -/
theorem Consumed.finish {p p' : Parser} {ts : List Token} (h : Consumed p ts p') :
    p'.finish p.marker = extent ts p'.lookahead := by
  rw [Parser.finish, marker, extent, h.lookahead]

/-! ## Single tokens -/

theorem took_of_advance {p p' : Parser} {t : Token} (h : advance p = .ok t p') (hp : p.Ready)
    (he : t.kind ≠ .endOfFile) : Took p [t] p' := by
  obtain ⟨rfl, -⟩ := advance_eq_ok h
  exact ⟨consumed_of_advance h he, ready_of_advance h hp⟩

theorem took_of_expectThat {p p' : Parser} {t : Token} {test : Token → Bool} (h : expectThat test p = .ok t p')
    (hp : p.Ready) (hk : ∀ u, test u → u.kind ≠ .endOfFile) : test t ∧ Took p [t] p' := by
  unfold expectThat at h
  split at h
  · rename_i ht
    rw [← (advance_eq_ok h).1] at ht
    exact ⟨ht, took_of_advance h hp (hk t ht)⟩
  · cases h

theorem took_of_expectKeyword {p p' : Parser} {t : Token} {text : String} (h : expectKeyword text p = .ok t p')
    (hp : p.Ready) : t.toLexeme = .keyword text ∧ Took p [t] p' := by
  obtain ⟨ht, htook⟩ := took_of_expectThat h hp fun u hu => by simp [Lexeme.is_eq_true.1 hu]
  exact ⟨Lexeme.is_eq_true.1 ht, htook⟩

theorem took_of_expectPunctuator {p p' : Parser} {t : Token} {text : String} (h : expectPunctuator text p = .ok t p')
    (hp : p.Ready) : t.toLexeme = .punctuator text ∧ Took p [t] p' := by
  obtain ⟨ht, htook⟩ := took_of_expectThat h hp fun u hu => by simp [Lexeme.is_eq_true.1 hu]
  exact ⟨Lexeme.is_eq_true.1 ht, htook⟩

/-- A token of a kind that carries a text shows this text. -/
theorem took_of_expect {p p' : Parser} {t : Token} {kind : Kind} (h : expect kind p = .ok t p') (hp : p.Ready)
    (he : kind ≠ .endOfFile) (hn : kind ≠ .numericLiteral) :
    t.toLexeme = ⟨kind, .text t.value.display⟩ ∧ Took p [t] p' := by
  obtain ⟨ht, htook⟩ := took_of_expectThat h hp fun u hu => by simp_all
  have hk : t.kind = kind := by simpa using ht
  have hscanned : t.Scanned := by
    have hl : p.lookahead = t := htook.lookahead
    exact hl ▸ hp.scanned
  obtain ⟨text, hl⟩ := hscanned.exists_text (hk ▸ he) (hk ▸ hn)
  refine ⟨?_, htook⟩
  rw [hk] at hl
  rw [hl]
  rfl

theorem took_of_identifier {p p' : Parser} {id : Identifier Span} (h : identifier p = .ok id p') (hp : p.Ready) :
    ∃ t name, t.toLexeme = .identifier name ∧ id = ⟨name, extent [t] p'.lookahead⟩ ∧ Took p [t] p' := by
  obtain ⟨_, _, hget, h⟩ := bind_eq_ok h
  cases hget
  obtain ⟨t, q, hexpect, h⟩ := bind_eq_ok h
  cases h
  obtain ⟨ht, htook⟩ := took_of_expect hexpect hp (by decide) (by decide)
  exact ⟨t, _, ht, congrArg _ htook.finish, htook⟩

theorem took_of_argument {p p' : Parser} {a : Argument Span} (h : argument p = .ok a p') (hp : p.Ready) :
    ∃ t name, t.toLexeme = .identifier name ∧ a = ⟨⟨name, extent [t] p'.lookahead⟩, extent [t] p'.lookahead⟩ ∧
      Took p [t] p' := by
  obtain ⟨_, _, hget, h⟩ := bind_eq_ok h
  cases hget
  obtain ⟨id, q, hid, h⟩ := bind_eq_ok h
  cases h
  obtain ⟨t, name, ht, rfl, htook⟩ := took_of_identifier hid hp
  exact ⟨t, name, ht, congrArg _ htook.finish, htook⟩

theorem took_of_importSpecifier {p p' : Parser} {sp : ImportSpecifier Span} (h : importSpecifier p = .ok sp p')
    (hp : p.Ready) : ∃ t name, t.toLexeme = .identifier name ∧
      sp = ⟨⟨name, extent [t] p'.lookahead⟩, extent [t] p'.lookahead⟩ ∧ Took p [t] p' := by
  obtain ⟨_, _, hget, h⟩ := bind_eq_ok h
  cases hget
  obtain ⟨id, q, hid, h⟩ := bind_eq_ok h
  cases h
  obtain ⟨t, name, ht, rfl, htook⟩ := took_of_identifier hid hp
  exact ⟨t, name, ht, congrArg _ htook.finish, htook⟩

theorem took_of_literalExpr {p p' : Parser} {e : Expr Span} (h : literalExpr p = .ok e p') (hp : p.Ready) :
    ∃ t c, t.toLexeme.Writes c ∧ e = .literal ⟨c, extent [t] p'.lookahead⟩ ∧ Took p [t] p' := by
  obtain ⟨_, _, hget, h⟩ := bind_eq_ok h
  cases hget
  obtain ⟨t, q, hadvance, h⟩ := bind_eq_ok h
  cases hc : Constant.ofLexeme? t.toLexeme with
  | none =>
      rw [hc] at h
      cases h
  | some c =>
      rw [hc] at h
      cases h
      have htook := took_of_advance hadvance hp (Constant.kind_ne_endOfFile_of_ofLexeme? hc)
      exact ⟨t, c, Constant.ofLexeme?_eq_some_iff.1 hc, by rw [← htook.finish], htook⟩

theorem took_of_primary {p p' : Parser} {e : Expr Span} (h : primary p = .ok e p') (hp : p.Ready) :
    ∃ t, MarkedPrimary t p'.lookahead e ∧ Took p [t] p' := by
  rcases primary_cases hp with ⟨_, _, hr⟩ | ⟨_, _, hr, _⟩ | ⟨_, hr⟩
  · rw [primary_eq_runPrimary hr] at h
    obtain ⟨id, q, hid, h⟩ := bind_eq_ok h
    cases h
    obtain ⟨t, name, ht, rfl, htook⟩ := took_of_identifier hid hp
    exact ⟨t, .identifier ht, htook⟩
  · rw [primary_eq_runPrimary hr] at h
    obtain ⟨t, c, hc, rfl, htook⟩ := took_of_literalExpr h hp
    exact ⟨t, .literal hc, htook⟩
  · rw [primary_eq_unexpectedToken hr] at h
    cases h

/-! ## Loops -/

theorem took_of_arguments {p p' : Parser} {args : List (Argument Span)} (h : arguments p = .ok args p') (hp : p.Ready) :
    ∃ op us close, op.toLexeme = .punctuator "(" ∧ MarkedArguments close us args ∧
      close.toLexeme = .punctuator ")" ∧ Took p (op :: (us ++ [close])) p' := by
  obtain ⟨op, q, hopen, h⟩ := bind_eq_ok h
  obtain ⟨args', r, hloop, h⟩ := bind_eq_ok h
  obtain ⟨close, _, hclose, h⟩ := bind_eq_ok h
  cases h
  obtain ⟨hop, htook⟩ := took_of_expectPunctuator hopen hp
  have hargs : ∃ us, MarkedArguments r.lookahead us args ∧ Took q us r := by
    refine repeatWhile_induction (motive := fun p as p' => p.Ready →
      ∃ us, MarkedArguments p'.lookahead us as ∧ Took p us p') ?_ ?_ hloop htook.ready
    · intro p _ hp
      exact ⟨[], .nil, .refl hp⟩
    · intro p a q as p' _ ha ih hp
      obtain ⟨t, name, ht, rfl, htook⟩ := took_of_argument ha hp
      obtain ⟨us, hus, htook'⟩ := ih htook.ready
      refine ⟨t :: us, ?_, htook.trans htook'⟩
      rw [htook'.lookahead]
      exact .cons ht hus
  obtain ⟨us, hus, htook'⟩ := hargs
  obtain ⟨hcl, htook''⟩ := took_of_expectPunctuator hclose htook'.ready
  have hl : r.lookahead = close := htook''.lookahead
  exact ⟨op, us, close, hop, hl ▸ hus, hcl, htook.trans (htook'.trans htook'')⟩

theorem callTail_eq_ok {p p' : Parser} {start : Position} {tail : List (Argument Span) × Span}
    (h : callTail start p = .ok tail p') : arguments p = .ok tail.1 p' ∧ tail.2 = p'.finish start := by
  obtain ⟨args, q, hargs, h⟩ := bind_eq_ok h
  cases h
  exact ⟨hargs, rfl⟩

theorem took_of_callChain {p p' : Parser} {e : Expr Span} (h : callChain p = .ok e p') (hp : p.Ready) :
    ∃ ts, MarkedChain ts p'.lookahead e ∧ Took p ts p' := by
  obtain ⟨_, _, hget, h⟩ := bind_eq_ok h
  cases hget
  obtain ⟨head, q, hhead, h⟩ := bind_eq_ok h
  obtain ⟨tails, _, hloop, h⟩ := bind_eq_ok h
  cases h
  obtain ⟨t, ht, htook⟩ := took_of_primary hhead hp
  -- The chain grows at its end, so the loop is entered with the part of it that was read before.
  refine repeatWhile_induction (motive := fun q tails p' => ∀ ts e, MarkedChain ts q.lookahead e → Took p ts q →
    ∃ us, MarkedChain us p'.lookahead (e.calls tails) ∧ Took p us p') ?_ ?_ hloop [t] head (.primary ht) htook
  · intro q _ ts e he htook
    exact ⟨ts, he, htook⟩
  · intro q tail r tails p' _ htail ih ts e he htook
    obtain ⟨hargs, hspan⟩ := callTail_eq_ok htail
    obtain ⟨op, us, close, hop, hus, hclose, htook'⟩ := took_of_arguments hargs htook.ready
    have hl : q.lookahead = op := htook'.lookahead
    have hall := htook.trans htook'
    rw [hl] at he
    have hcall : MarkedChain (ts ++ op :: (us ++ [close])) r.lookahead (.call e tail.1 tail.2) := by
      rw [hspan, hall.finish]
      exact .call he hop hus hclose
    exact ih _ _ hcall hall

theorem took_of_furtherSpecifier {p p' : Parser} {sp : ImportSpecifier Span} (h : furtherSpecifier p = .ok sp p')
    (hcomma : p.atPunctuator ",") (hp : p.Ready) : ∃ comma t name, comma.toLexeme = .punctuator "," ∧
      t.toLexeme = .identifier name ∧ sp = ⟨⟨name, extent [t] p'.lookahead⟩, extent [t] p'.lookahead⟩ ∧
      Took p [comma, t] p' := by
  obtain ⟨comma, q, hadvance, h⟩ := bind_eq_ok h
  have hl : comma.toLexeme = .punctuator "," := by
    rw [(advance_eq_ok hadvance).1]
    exact atPunctuator_eq_true.1 hcomma
  have htook := took_of_advance hadvance hp (by simp [hl])
  obtain ⟨t, name, ht, hsp, htook'⟩ := took_of_importSpecifier h htook.ready
  exact ⟨comma, t, name, hl, ht, hsp, htook.trans htook'⟩

theorem took_of_specifiers {p p' : Parser} {sps : List (ImportSpecifier Span)}
    (h : repeatWhile (·.atPunctuator ",") furtherSpecifier progresses_furtherSpecifier p = .ok sps p') (hp : p.Ready) :
    ∃ ts, MarkedSpecifiers p'.lookahead ts sps ∧ Took p ts p' := by
  refine repeatWhile_induction (motive := fun p sps p' => p.Ready →
    ∃ ts, MarkedSpecifiers p'.lookahead ts sps ∧ Took p ts p') ?_ ?_ h hp
  · intro p _ hp
    exact ⟨[], .nil, .refl hp⟩
  · intro p sp q sps p' hmore hsp ih hp
    obtain ⟨comma, t, name, hcomma, ht, rfl, htook⟩ := took_of_furtherSpecifier hsp hmore hp
    obtain ⟨ts, hts, htook'⟩ := ih htook.ready
    refine ⟨comma :: t :: ts, ?_, htook.trans htook'⟩
    rw [htook'.lookahead]
    exact .cons hcomma ht hts

/-! ## Elements -/

theorem took_of_comment {p p' : Parser} {e : Element Span} (h : comment p = .ok e p') (hp : p.Ready) :
    ∃ ts, MarkedElement ts p'.lookahead e ∧ Took p ts p' := by
  obtain ⟨_, _, hget, h⟩ := bind_eq_ok h
  cases hget
  obtain ⟨t, q, hexpect, h⟩ := bind_eq_ok h
  cases h
  obtain ⟨ht, htook⟩ := took_of_expect hexpect hp (by decide) (by decide)
  refine ⟨[t], ?_, htook⟩
  rw [htook.finish]
  exact .comment ht

theorem took_of_expressionStatement {p p' : Parser} {e : Element Span} (h : expressionStatement p = .ok e p')
    (hp : p.Ready) : ∃ ts, MarkedElement ts p'.lookahead e ∧ Took p ts p' := by
  obtain ⟨expr, q, hchain, h⟩ := bind_eq_ok h
  obtain ⟨semicolon, _, hsemicolon, h⟩ := bind_eq_ok h
  cases h
  obtain ⟨ts, hts, htook⟩ := took_of_callChain hchain hp
  obtain ⟨hl, htook'⟩ := took_of_expectPunctuator hsemicolon htook.ready
  have hnext : q.lookahead = semicolon := htook'.lookahead
  exact ⟨ts ++ [semicolon], .expression (hnext ▸ hts) hl, htook.trans htook'⟩

theorem took_of_importSource {p p' : Parser} {source : Literal Span} (h : importSource p = .ok source p')
    (hp : p.Ready) : ∃ t c, t.toLexeme.Writes c ∧ source = ⟨c, extent [t] p'.lookahead⟩ ∧ Took p [t] p' := by
  obtain ⟨_, _, hget, h⟩ := bind_eq_ok h
  cases hget
  obtain ⟨e, q, hprimary, h⟩ := bind_eq_ok h
  obtain ⟨t, ht, htook⟩ := took_of_primary hprimary hp
  cases ht with
  | identifier => cases h
  | literal hc =>
      cases h
      exact ⟨t, _, hc, rfl, htook⟩

theorem took_of_importDeclaration {p p' : Parser} {e : Element Span} (h : importDeclaration p = .ok e p')
    (hp : p.Ready) : ∃ ts, MarkedElement ts p'.lookahead e ∧ Took p ts p' := by
  obtain ⟨_, _, hget, h⟩ := bind_eq_ok h
  cases hget
  obtain ⟨word, p1, h1, h⟩ := bind_eq_ok h
  obtain ⟨hword, htook1⟩ := took_of_expectKeyword h1 hp
  obtain ⟨op, p2, h2, h⟩ := bind_eq_ok h
  obtain ⟨hopen, htook2⟩ := took_of_expectPunctuator h2 htook1.ready
  obtain ⟨first, p3, h3, h⟩ := bind_eq_ok h
  obtain ⟨t, name, ht, rfl, htook3⟩ := took_of_importSpecifier h3 htook2.ready
  obtain ⟨others, p4, h4, h⟩ := bind_eq_ok h
  obtain ⟨ts, hts, htook4⟩ := took_of_specifiers h4 htook3.ready
  obtain ⟨close, p5, h5, h⟩ := bind_eq_ok h
  obtain ⟨hclose, htook5⟩ := took_of_expectPunctuator h5 htook4.ready
  obtain ⟨behind, p6, h6, h⟩ := bind_eq_ok h
  obtain ⟨hfrom, htook6⟩ := took_of_expectKeyword h6 htook5.ready
  obtain ⟨_, p7, h7, h⟩ := bind_eq_ok h
  obtain ⟨source, c, hc, rfl, htook7⟩ := took_of_importSource h7 htook6.ready
  obtain ⟨semicolon, p8, h8, h⟩ := bind_eq_ok h
  obtain ⟨hsemicolon, htook8⟩ := took_of_expectPunctuator h8 htook7.ready
  cases h
  have htook := htook1.trans (htook2.trans (htook3.trans (htook4.trans (htook5.trans (htook6.trans
    (htook7.trans htook8))))))
  have hnext4 : p4.lookahead = close := htook5.lookahead
  have hnext3 : p3.lookahead = ts.headD close := by rw [htook4.lookahead, hnext4]
  have hnext7 : p7.lookahead = semicolon := htook8.lookahead
  rw [hnext4] at hts
  refine ⟨[word, op, t] ++ (ts ++ [close, behind, source, semicolon]), ?_, htook⟩
  rw [hnext3, hnext7, htook.finish]
  exact .importDeclaration hword hopen ht hts hclose hfrom hc hsemicolon

theorem took_of_optionalMark {p p' : Parser} {optional : Bool} (h : optionalMark p = .ok optional p') (hp : p.Ready) :
    ∃ ts, MarkedOptional ts optional ∧ Took p ts p' := by
  obtain ⟨_, _, hget, h⟩ := bind_eq_ok h
  cases hget
  split at h
  · rename_i hmark
    obtain ⟨t, q, hadvance, h⟩ := bind_eq_ok h
    cases h
    have hl : t.toLexeme = .punctuator "?" := by
      rw [(advance_eq_ok hadvance).1]
      exact atPunctuator_eq_true.1 hmark
    exact ⟨[t], .present hl, took_of_advance hadvance hp (by simp [hl])⟩
  · cases h
    exact ⟨[], .absent, .refl hp⟩

theorem took_of_variableDeclaration {p p' : Parser} {e : Element Span} (h : variableDeclaration p = .ok e p')
    (hp : p.Ready) : ∃ ts, MarkedElement ts p'.lookahead e ∧ Took p ts p' := by
  obtain ⟨_, _, hget, h⟩ := bind_eq_ok h
  cases hget
  obtain ⟨word, p1, h1, h⟩ := bind_eq_ok h
  obtain ⟨hword, htook1⟩ := took_of_expectKeyword h1 hp
  obtain ⟨_, p2, h2, h⟩ := bind_eq_ok h
  obtain ⟨id, name, hid, rfl, htook2⟩ := took_of_identifier h2 htook1.ready
  obtain ⟨colon, p3, h3, h⟩ := bind_eq_ok h
  obtain ⟨hcolon, htook3⟩ := took_of_expectPunctuator h3 htook2.ready
  obtain ⟨_, p4, h4, h⟩ := bind_eq_ok h
  obtain ⟨type, typeName, htype, rfl, htook4⟩ := took_of_identifier h4 htook3.ready
  obtain ⟨optional, p5, h5, h⟩ := bind_eq_ok h
  obtain ⟨ts, hts, htook5⟩ := took_of_optionalMark h5 htook4.ready
  obtain ⟨equals, p6, h6, h⟩ := bind_eq_ok h
  obtain ⟨hequals, htook6⟩ := took_of_expectPunctuator h6 htook5.ready
  obtain ⟨value, p7, h7, h⟩ := bind_eq_ok h
  obtain ⟨init, hinit, htook7⟩ := took_of_primary h7 htook6.ready
  obtain ⟨semicolon, p8, h8, h⟩ := bind_eq_ok h
  obtain ⟨hsemicolon, htook8⟩ := took_of_expectPunctuator h8 htook7.ready
  cases h
  have htook := htook1.trans (htook2.trans (htook3.trans (htook4.trans (htook5.trans (htook6.trans
    (htook7.trans htook8))))))
  have hnext2 : p2.lookahead = colon := htook3.lookahead
  have hnext5 : p5.lookahead = equals := htook6.lookahead
  have hnext4 : p4.lookahead = ts.headD equals := by rw [htook5.lookahead, hnext5]
  have hnext7 : p7.lookahead = semicolon := htook8.lookahead
  rw [hnext7] at hinit
  refine ⟨[word, id, colon, type] ++ (ts ++ [equals, init, semicolon]), ?_, htook⟩
  rw [hnext2, hnext4, htook.finish]
  exact .variableDeclaration hword hid hcolon htype hts hequals hinit hsemicolon

theorem took_of_element {p p' : Parser} {e : Element Span} (h : element p = .ok e p') (hp : p.Ready) :
    ∃ ts, MarkedElement ts p'.lookahead e ∧ Took p ts p' := by
  obtain ⟨_, _, hget, h⟩ := bind_eq_ok h
  cases hget
  cases hrule : elementRule p.rules p.lookahead.toLexeme with
  | comment =>
      rw [hrule] at h
      exact took_of_comment h hp
  | expression =>
      rw [hrule] at h
      exact took_of_expressionStatement h hp
  | importDeclaration =>
      rw [hrule] at h
      exact took_of_importDeclaration h hp
  | variableDeclaration =>
      rw [hrule] at h
      exact took_of_variableDeclaration h hp

theorem took_of_program {p p' : Parser} {tree : Program Span} (h : program p = .ok tree p') (hp : p.Ready) :
    ∃ ts, MarkedBody p'.lookahead ts tree.body ∧ tree.mark = extent ts p'.lookahead ∧ Took p ts p' := by
  obtain ⟨_, _, hget, h⟩ := bind_eq_ok h
  cases hget
  obtain ⟨body, q, hloop, h⟩ := bind_eq_ok h
  cases h
  have hbody : ∃ ts, MarkedBody p'.lookahead ts body ∧ Took p ts p' := by
    refine repeatWhile_induction (motive := fun p es p' => p.Ready →
      ∃ ts, MarkedBody p'.lookahead ts es ∧ Took p ts p') ?_ ?_ hloop hp
    · intro p _ hp
      exact ⟨[], .nil, .refl hp⟩
    · intro p e q es p' _ he ih hp
      obtain ⟨ts, hts, htook⟩ := took_of_element he hp
      obtain ⟨us, hus, htook'⟩ := ih htook.ready
      refine ⟨ts ++ us, ?_, htook.trans htook'⟩
      rw [htook'.lookahead] at hts
      exact .cons hts hus
  obtain ⟨ts, hts, htook⟩ := hbody
  exact ⟨ts, hts, htook.finish, htook⟩

end Parser

/-- The tree of a text is made of the tokens of the text. -/
theorem Source.marked_of_parse {s : Source} {program : Program Span} (h : s.parse = .ok program) :
    ∃ ts, s.tokens = .ok ts ∧ MarkedProgram ts program := by
  obtain ⟨p, q, hready, hstream, hprogram, hkind⟩ := exists_program_of_parse h
  obtain ⟨ts, hbody, hmark, htook⟩ := Parser.took_of_program hprogram hready
  refine ⟨ts ++ [q.lookahead], tokens_of_consumed hstream htook.toConsumed hkind, ?_⟩
  obtain ⟨body, mark⟩ := program
  subst hmark
  exact .intro hbody (htook.ready.scanned.eq_endOfFile hkind)

end DeclScript
