import DeclScript.Proofs.Extents

set_option autoImplicit false

/-!
# Nested spans

The tokens of a text start one behind the other, so the extents of tokens that follow each other do the same. In a
parsed tree the spans of the children of a node therefore lie inside its own span, in the order of the text and apart.
-/

namespace DeclScript

/-- The spans `inner` lie in `outer`, one behind the other, and none of them is empty. -/
structure Span.Encloses (outer : Span) (inner : List Span) : Prop where
  proper : ∀ s ∈ inner, s.start.offset < s.stop.offset
  inside : ∀ s ∈ inner, outer.start.offset ≤ s.start.offset ∧ s.stop.offset ≤ outer.stop.offset
  ordered : inner.Pairwise fun s t => s.stop.offset ≤ t.start.offset

/-- The marks of a chain of calls, from the primary expression outwards. -/
def Expr.spine {Mark : Type} : Expr Mark → List Mark
  | .identifier id => [id.mark]
  | .literal l => [l.mark]
  | .call callee _ mark => callee.spine ++ [mark]

def Expr.Nested : Expr Span → Prop
  | .identifier _ | .literal _ => True
  | .call callee args mark => callee.Nested ∧ (∀ a ∈ args, a.mark = a.id.mark) ∧
      mark.Encloses (callee.mark :: args.map Argument.mark)

/-- All calls of a chain start with its primary expression, and each ends behind the one inside it. -/
structure Expr.Telescopes (e : Expr Span) : Prop where
  start : ∀ m ∈ e.spine, m.start = e.mark.start
  stop : e.spine.Pairwise fun m n => m.stop.offset < n.stop.offset

def Element.Nested : Element Span → Prop
  | .comment _ => True
  | .importDeclaration d => (∀ sp ∈ d.specifiers, sp.mark = sp.id.mark) ∧
      d.mark.Encloses (d.specifiers.map ImportSpecifier.mark ++ [d.source.mark])
  | .variableDeclaration d => d.init.Nested ∧ d.mark.Encloses [d.id.mark, d.valueType.mark, d.init.mark]
  | .expression e => e.Nested ∧ e.Telescopes

def Program.Nested (program : Program Span) : Prop :=
  (∀ e ∈ program.body, e.Nested) ∧ program.mark.Encloses (program.body.map Element.mark)

/-! ## Spans in a row -/

/-- Between the places `i` and `j` the spans stand one behind the other. -/
inductive InRow (j : Nat) : Nat → List Span → Prop
  | nil {i : Nat} (h : i ≤ j) : InRow j i []
  | cons {i : Nat} {s : Span} {ss : List Span} (hi : i ≤ s.start.offset) (hs : s.start.offset < s.stop.offset)
      (h : InRow j s.stop.offset ss) : InRow j i (s :: ss)

namespace InRow

variable {i j : Nat} {ss : List Span}

theorem le (h : InRow j i ss) : i ≤ j := by
  induction h with
  | nil h => exact h
  | cons hi hs _ ih => omega

theorem widen {i' j' : Nat} (h : InRow j i ss) (hi : i' ≤ i) (hj : j ≤ j') : InRow j' i' ss := by
  induction h generalizing i' with
  | nil h => exact .nil (by omega)
  | cons hs hlt _ ih => exact .cons (by omega) hlt (ih (Nat.le_refl _))

theorem append {k : Nat} {ts : List Span} (h : InRow j i ss) (h' : InRow k j ts) : InRow k i (ss ++ ts) := by
  induction h with
  | nil hij => exact h'.widen hij (Nat.le_refl k)
  | cons hi hs _ ih => exact .cons hi hs ih

theorem encloses {outer : Span} (h : InRow outer.stop.offset outer.start.offset ss) : outer.Encloses ss := by
  have bounds {i : Nat} {ss : List Span} (h : InRow outer.stop.offset i ss) : ∀ s ∈ ss,
      i ≤ s.start.offset ∧ s.start.offset < s.stop.offset ∧ s.stop.offset ≤ outer.stop.offset := by
    induction h with
    | nil => simp
    | cons hi hs h ih =>
        intro t ht
        rcases List.mem_cons.1 ht with rfl | ht
        · exact ⟨hi, hs, h.le⟩
        · have := ih t ht
          omega
  refine ⟨fun s hs => (bounds h s hs).2.1, fun s hs => ⟨(bounds h s hs).1, (bounds h s hs).2.2⟩, ?_⟩
  generalize outer.start.offset = i at h
  induction h with
  | nil => exact .nil
  | cons _ _ h ih => exact List.pairwise_cons.2 ⟨fun t ht => (bounds h t ht).1, ih⟩

end InRow

/-! ## Tokens in ascending order -/

def Ascending (ts : List Token) : Prop :=
  ts.Pairwise fun t u => t.span.start.offset < u.span.start.offset

namespace Ascending

theorem part {ts us : List Token} (h : Ascending ts) (hus : us <:+: ts) : Ascending us :=
  List.Pairwise.sublist hus.sublist h

theorem lt {t u : Token} (h : Ascending [t, u]) : t.span.start.offset < u.span.start.offset :=
  (List.pairwise_cons.1 h).1 u List.mem_cons_self

theorem tail {t : Token} {ts : List Token} (h : Ascending (t :: ts)) : Ascending ts :=
  (List.pairwise_cons.1 h).2

theorem lt_headD {t next : Token} {ts : List Token} (h : Ascending (t :: (ts ++ [next]))) :
    t.span.start.offset < (ts.headD next).span.start.offset := by
  cases ts with
  | nil => exact (List.pairwise_cons.1 h).1 next (by simp)
  | cons u ts => exact (List.pairwise_cons.1 h).1 u (by simp)

theorem headD_lt {next : Token} {ts : List Token} (h : Ascending (ts ++ [next])) (hne : ts ≠ []) :
    (ts.headD next).span.start.offset < next.span.start.offset := by
  cases ts with
  | nil => exact absurd rfl hne
  | cons t ts => exact (List.pairwise_cons.1 h).1 next (by simp)

theorem upTo {ts us : List Token} {last : Token} (h : Ascending (ts ++ us ++ [last])) :
    Ascending (ts ++ [us.headD last]) :=
  h.part (part_upTo ts us last)

end Ascending

/-! ## Expressions -/

theorem headD_append {ts us : List Token} (t u : Token) (h : ts ≠ []) : (ts ++ us).headD t = ts.headD u := by
  cases ts with
  | nil => exact absurd rfl h
  | cons => rfl

theorem MarkedArguments.inRow {close : Token} {ts : List Token} {args : List (Argument Span)}
    (h : MarkedArguments close ts args) (hts : Ascending (ts ++ [close])) :
    InRow close.span.start.offset (ts.headD close).span.start.offset (args.map Argument.mark) := by
  induction h with
  | nil => exact .nil (Nat.le_refl _)
  | cons h _ ih => exact .cons (Nat.le_refl _) hts.lt_headD (ih hts.tail)

theorem MarkedArguments.mark_eq {close : Token} {ts : List Token} {args : List (Argument Span)}
    (h : MarkedArguments close ts args) : ∀ a ∈ args, a.mark = a.id.mark := by
  induction h with
  | nil => simp
  | cons h _ ih =>
      intro a ha
      rcases List.mem_cons.1 ha with rfl | ha
      · rfl
      · exact ih a ha

theorem MarkedPrimary.mark {t next : Token} {e : Expr Span} (h : MarkedPrimary t next e) :
    e.mark = extent [t] next := by
  cases h <;> rfl

theorem MarkedPrimary.nested {t next : Token} {e : Expr Span} (h : MarkedPrimary t next e) : e.Nested := by
  cases h <;> trivial

namespace MarkedChain

variable {ts : List Token} {next : Token} {e : Expr Span}

theorem ne_nil (h : MarkedChain ts next e) : ts ≠ [] := by
  cases h <;> simp

theorem mark (h : MarkedChain ts next e) : e.mark = extent ts next := by
  cases h with
  | primary h => exact h.mark
  | call => rfl

theorem nested (h : MarkedChain ts next e) (hts : Ascending (ts ++ [next])) : e.Nested := by
  induction h with
  | primary h => exact h.nested
  | @call ts us op close next e args h hopen ha hclose ih =>
      have hcallee : Ascending (ts ++ [op]) := hts.part ⟨[], us ++ [close, next], by simp⟩
      have hargs : Ascending (op :: (us ++ [close])) := hts.part ⟨ts, [next], by simp⟩
      have hnext : Ascending [close, next] := hts.part ⟨ts ++ op :: us, [], by simp⟩
      refine ⟨ih hcallee, ha.mark_eq, InRow.encloses (.cons ?_ ?_ ?_)⟩
      · rw [h.mark, extent, extent, headD_append next op h.ne_nil]
      · rw [h.mark]
        exact hcallee.headD_lt h.ne_nil
      · rw [h.mark]
        exact (ha.inRow hargs.tail).widen (Nat.le_of_lt hargs.lt_headD) (Nat.le_of_lt hnext.lt)

theorem telescopes (h : MarkedChain ts next e) (hts : Ascending (ts ++ [next])) : e.Telescopes := by
  suffices hspine : (∀ m ∈ e.spine, m.start = e.mark.start ∧ m.stop.offset ≤ next.span.start.offset) ∧
      e.spine.Pairwise fun m n => m.stop.offset < n.stop.offset from ⟨fun m hm => (hspine.1 m hm).1, hspine.2⟩
  induction h with
  | primary h => cases h <;> simp [Expr.spine, Expr.mark, extent]
  | @call ts us op close next e args h hopen ha hclose ih =>
      have hcallee : Ascending (ts ++ [op]) := hts.part ⟨[], us ++ [close, next], by simp⟩
      have hnext : op.span.start.offset < next.span.start.offset := by
        have hop : Ascending (op :: (us ++ [close]) ++ [next]) := hts.part ⟨ts, [], by simp⟩
        exact hop.headD_lt (by simp)
      have hstart : e.mark.start = (extent (ts ++ op :: (us ++ [close])) next).start := by
        rw [h.mark, extent, extent, headD_append next op h.ne_nil]
      obtain ⟨hbounds, hpairwise⟩ := ih hcallee
      constructor
      · intro m hm
        rcases List.mem_append.1 hm with hm | hm
        · obtain ⟨hm, hle⟩ := hbounds m hm
          exact ⟨hm.trans hstart, by omega⟩
        · cases List.mem_singleton.1 hm
          exact ⟨rfl, Nat.le_refl _⟩
      · refine List.pairwise_append.2 ⟨hpairwise, List.pairwise_singleton _ _, fun m hm n hn => ?_⟩
        cases List.mem_singleton.1 hn
        exact Nat.lt_of_le_of_lt (hbounds m hm).2 hnext

end MarkedChain

/-! ## Elements -/

theorem MarkedSpecifiers.inRow {close : Token} {ts : List Token} {specifiers : List (ImportSpecifier Span)}
    (h : MarkedSpecifiers close ts specifiers) (hts : Ascending (ts ++ [close])) :
    InRow close.span.start.offset (ts.headD close).span.start.offset (specifiers.map ImportSpecifier.mark) := by
  induction h with
  | nil => exact .nil (Nat.le_refl _)
  | @cons comma t ts name specifiers hc h _ ih =>
      have hcomma : Ascending [comma, t] := hts.part ⟨[], ts ++ [close], rfl⟩
      have ht : Ascending (t :: (ts ++ [close])) := hts.tail
      exact .cons (Nat.le_of_lt hcomma.lt) ht.lt_headD (ih ht.tail)

theorem MarkedSpecifiers.mark_eq {close : Token} {ts : List Token} {specifiers : List (ImportSpecifier Span)}
    (h : MarkedSpecifiers close ts specifiers) : ∀ sp ∈ specifiers, sp.mark = sp.id.mark := by
  induction h with
  | nil => simp
  | cons hc h _ ih =>
      intro sp hsp
      rcases List.mem_cons.1 hsp with rfl | hsp
      · rfl
      · exact ih sp hsp

namespace MarkedElement

variable {ts : List Token} {next : Token} {e : Element Span}

theorem ne_nil (h : MarkedElement ts next e) : ts ≠ [] := by
  cases h <;> simp

theorem start (h : MarkedElement ts next e) : e.mark.start = (ts.headD next).span.start := by
  cases h with
  | @expression ts semicolon next e h hsemicolon =>
      rw [headD_append next semicolon h.ne_nil, Element.mark, h.mark]
      rfl
  | _ => rfl

/-- Only behind an expression statement there is a token before the next element. -/
theorem stop (h : MarkedElement ts next e) :
    ((∀ expr, e ≠ .expression expr) ∧ e.mark.stop = next.span.start) ∨
    ∃ expr us semicolon, e = .expression expr ∧ ts = us ++ [semicolon] ∧ us ≠ [] ∧
      semicolon.toLexeme = .punctuator ";" ∧ e.mark.stop = semicolon.span.start := by
  cases h with
  | @expression us semicolon next e h hsemicolon =>
      exact .inr ⟨e, us, semicolon, rfl, rfl, h.ne_nil, hsemicolon, congrArg Span.stop h.mark⟩
  | _ => exact .inl ⟨by simp, rfl⟩

theorem inRow (h : MarkedElement ts next e) (hts : Ascending (ts ++ [next])) :
    InRow next.span.start.offset (ts.headD next).span.start.offset [e.mark] := by
  rcases h.stop with ⟨-, hstop⟩ | ⟨expr, us, semicolon, -, rfl, hne, -, hstop⟩
  · refine .cons (by rw [h.start]) ?_ (.nil (by rw [hstop]))
    rw [h.start, hstop]
    exact hts.headD_lt h.ne_nil
  · have hus : Ascending (us ++ [semicolon]) := hts.part ⟨[], [next], by simp⟩
    have hnext : Ascending [semicolon, next] := hts.part ⟨us, [], by simp⟩
    refine .cons (by rw [h.start]) ?_ (.nil (by rw [hstop]; exact Nat.le_of_lt hnext.lt))
    rw [h.start, hstop, headD_append next semicolon hne]
    exact hus.headD_lt hne

theorem nested (h : MarkedElement ts next e) (hts : Ascending (ts ++ [next])) : e.Nested := by
  cases h with
  | comment => trivial
  | @importDeclaration word op t close behind source semicolon _ ts name specifiers c hword hopen ht hs hclose hfrom hc
      hsemicolon =>
      have hfirst : Ascending (t :: (ts ++ [close])) :=
        hts.part ⟨[word, op], [behind, source, semicolon, next], by simp⟩
      have hword : Ascending (word :: [op] ++ [t]) :=
        hts.part ⟨[], ts ++ [close, behind, source, semicolon, next], by simp⟩
      have hsource : Ascending (close :: [behind] ++ [source]) :=
        hts.part ⟨[word, op, t] ++ ts, [semicolon, next], by simp⟩
      have hsemicolon : Ascending [source, semicolon] :=
        hts.part ⟨[word, op, t] ++ ts ++ [close, behind], [next], by simp⟩
      have hnext : Ascending [semicolon, next] :=
        hts.part ⟨[word, op, t] ++ ts ++ [close, behind, source], [], by simp⟩
      refine ⟨?_, InRow.encloses (.cons ?_ hfirst.lt_headD ((hs.inRow hfirst.tail).append (.cons ?_ hsemicolon.lt
        (.nil ?_))))⟩
      · intro sp hsp
        rcases List.mem_cons.1 hsp with rfl | hsp
        · rfl
        · exact hs.mark_eq sp hsp
      · exact Nat.le_of_lt (hword.headD_lt (by simp))
      · exact Nat.le_of_lt (hsource.headD_lt (by simp))
      · exact Nat.le_of_lt hnext.lt
  | @variableDeclaration word id colon type equals init semicolon _ ts name typeName optional e hword hid hcolon htype
      hmark hequals hinit hsemicolon =>
      have hword : Ascending [word, id] :=
        hts.part ⟨[], [colon, type] ++ ts ++ [equals, init, semicolon, next], by simp⟩
      have hcolon : Ascending [id, colon] :=
        hts.part ⟨[word], type :: ts ++ [equals, init, semicolon, next], by simp⟩
      have htype : Ascending [colon, type] :=
        hts.part ⟨[word, id], ts ++ [equals, init, semicolon, next], by simp⟩
      have hbehind : Ascending (type :: (ts ++ [equals])) :=
        hts.part ⟨[word, id, colon], [init, semicolon, next], by simp⟩
      have hequals : Ascending (ts ++ [equals] ++ [init]) :=
        hts.part ⟨[word, id, colon, type], [semicolon, next], by simp⟩
      have hinit' : Ascending [init, semicolon] :=
        hts.part ⟨[word, id, colon, type] ++ ts ++ [equals], [next], by simp⟩
      have hnext : Ascending [semicolon, next] :=
        hts.part ⟨[word, id, colon, type] ++ ts ++ [equals, init], [], by simp⟩
      have hvalue : (ts.headD equals).span.start.offset < init.span.start.offset := by
        have h := hequals.headD_lt (by simp)
        cases ts <;> exact h
      refine ⟨hinit.nested, InRow.encloses (.cons (Nat.le_of_lt hword.lt) hcolon.lt (.cons (Nat.le_of_lt htype.lt)
        hbehind.lt_headD ?_))⟩
      rw [hinit.mark]
      exact .cons (Nat.le_of_lt hvalue) hinit'.lt (.nil (Nat.le_of_lt hnext.lt))
  | @expression ts semicolon _ e h hsemicolon =>
      have hchain : Ascending (ts ++ [semicolon]) := hts.part ⟨[], [next], by simp⟩
      exact ⟨h.nested hchain, h.telescopes hchain⟩

end MarkedElement

/-! ## Programs -/

/-- The element `f` comes next behind `e` in a program made of the tokens `ts`. It starts where `e` ends, unless `e` is
an expression statement: then just a semicolon stands between. -/
def Element.Adjoins (ts : List Token) (e f : Element Span) : Prop :=
  match e with
  | .expression e => ∃ before semicolon next behind, ts = before ++ semicolon :: next :: behind ∧
      semicolon.toLexeme = .punctuator ";" ∧ e.mark.stop = semicolon.span.start ∧ f.mark.start = next.span.start
  | e => e.mark.stop = f.mark.start

theorem Element.Adjoins.prepend {ts : List Token} {e f : Element Span} (us : List Token) (h : e.Adjoins ts f) :
    e.Adjoins (us ++ ts) f := by
  cases e with
  | expression e =>
      obtain ⟨before, semicolon, next, behind, rfl, h⟩ := h
      exact ⟨us ++ before, semicolon, next, behind, by simp, h⟩
  | _ => exact h

namespace MarkedBody

variable {last : Token} {ts : List Token} {es : List (Element Span)}

theorem inRow (h : MarkedBody last ts es) (hts : Ascending (ts ++ [last])) :
    InRow last.span.start.offset (ts.headD last).span.start.offset (es.map Element.mark) := by
  induction h with
  | nil => exact .nil (Nat.le_refl _)
  | @cons ts us e es h _ ih =>
      have hus : Ascending (us ++ [last]) := hts.part ⟨ts, [], by simp⟩
      rw [headD_append last (us.headD last) h.ne_nil]
      exact (h.inRow hts.upTo).append (ih hus)

theorem nested (h : MarkedBody last ts es) (hts : Ascending (ts ++ [last])) : ∀ e ∈ es, e.Nested := by
  induction h with
  | nil => simp
  | @cons ts us e es h _ ih =>
      have hus : Ascending (us ++ [last]) := hts.part ⟨ts, [], by simp⟩
      intro f hf
      rcases List.mem_cons.1 hf with rfl | hf
      · exact h.nested hts.upTo
      · exact ih hus f hf

/-- A program can be entered at any of its elements. -/
theorem drop {before : List (Element Span)} (h : MarkedBody last ts (before ++ es)) :
    ∃ us vs, ts = us ++ vs ∧ MarkedBody last vs es := by
  induction before generalizing ts with
  | nil => exact ⟨[], ts, rfl, h⟩
  | cons e before ih =>
      cases h with
      | @cons us vs _ _ h hs =>
          obtain ⟨us', vs', rfl, h'⟩ := ih hs
          exact ⟨us ++ us', vs', by simp, h'⟩

theorem adjoins {e f : Element Span} (h : MarkedBody last ts (e :: f :: es)) : e.Adjoins (ts ++ [last]) f := by
  cases h with
  | @cons us vs _ _ he h =>
      have hf : f.mark.start = (vs.headD last).span.start := by
        cases h with
        | @cons vs ws _ _ hf _ => rw [hf.start, headD_append last (ws.headD last) hf.ne_nil]
      rcases he.stop with ⟨hne, hstop⟩ | ⟨expr, us, semicolon, rfl, rfl, -, hsemicolon, hstop⟩
      · cases e with
        | expression e => exact absurd rfl (hne e)
        | _ => exact hstop.trans hf.symm
      · obtain ⟨behind, hbehind⟩ : ∃ behind, vs ++ [last] = vs.headD last :: behind := by
          cases vs with
          | nil => exact ⟨[], rfl⟩
          | cons v vs => exact ⟨vs ++ [last], rfl⟩
        refine ⟨us, semicolon, vs.headD last, behind, ?_, hsemicolon, hstop, hf⟩
        rw [← hbehind]
        simp

end MarkedBody

namespace Source

theorem laid_tokens {s : Source} {ts : List Token} (h : s.tokens = .ok ts) : Laid [] s.text.toList ts := by
  have hlaid := s.laid_stream
  rwa [tokens_eq_ok_iff.1 h] at hlaid

theorem ascending_tokens {s : Source} {ts : List Token} (h : s.tokens = .ok ts) : Ascending ts :=
  (laid_tokens h).pairwise.imp And.left

end Source

theorem Laid.offset_endOfFile {read rest : List Char} {ts : List Token} {last : Token}
    (h : Laid read rest (ts ++ [last])) (hl : last.kind = .endOfFile) :
    last.span.start.offset = (read ++ rest).length := by
  obtain ⟨read', rest', htext, h⟩ := h.drop
  rw [← htext]
  cases h with
  | endOfFile hb hp => rw [hp, offset_after]
  | cons hb hs => exact absurd hl hs.kind_ne_endOfFile

/-- The tree of a text is derived from the tokens of the text and marked with their extents. Its spans are nested, the
elements of the program adjoin each other, and the program reaches to the end of the text. -/
theorem parse_spans_nested (s : Source) (program : Program Span) (h : s.parse = .ok program) :
    ∃ ts, s.tokens = .ok ts ∧ IsProgram (lexemes ts) program.erase ∧ MarkedProgram ts program ∧ program.Nested ∧
      (∀ before e f behind, program.body = before ++ e :: f :: behind → e.Adjoins ts f) ∧
      program.mark.stop.offset = s.text.toList.length := by
  obtain ⟨ts, ht, hmarked⟩ := Source.marked_of_parse h
  refine ⟨ts, ht, hmarked.isProgram, hmarked, ?_⟩
  have hascending := Source.ascending_tokens ht
  have hlaid := Source.laid_tokens ht
  cases hmarked with
  | @intro ts last body hbody hlast =>
      refine ⟨⟨hbody.nested hascending, (hbody.inRow hascending).encloses⟩, ?_, ?_⟩
      · intro before e f behind hsplit
        subst hsplit
        obtain ⟨us, vs, rfl, hbody'⟩ := hbody.drop
        rw [List.append_assoc]
        exact hbody'.adjoins.prepend us
      · exact hlaid.offset_endOfFile (congrArg Lexeme.kind hlast)

theorem parse_spans_nested_lines : ∃ s,
    s = Source.mk "# é\nf(a b)\n();import \x7ba, b\x7d from\n\"\n\";let x: T? = 'ü' ;\n" "shell" ∧
    ∃ program ts, s.parse = .ok program ∧ s.tokens = .ok ts ∧ MarkedProgram ts program ∧ program.Nested ∧
      program.mark.stop.offset = 55 := by
  refine ⟨_, rfl, ?_⟩
  generalize hs : Source.mk _ _ = s
  have hok : s.parse.isOk = true := by
    subst hs
    decide +kernel
  have hlength : s.text.toList.length = 55 := by
    subst hs
    rfl
  cases hp : s.parse with
  | error d =>
      rw [hp] at hok
      cases hok
  | ok program =>
      obtain ⟨ts, ht, -, hmarked, hnested, -, hstop⟩ := parse_spans_nested s program hp
      exact ⟨program, ts, rfl, ht, hmarked, hnested, hstop.trans hlength⟩

end DeclScript
