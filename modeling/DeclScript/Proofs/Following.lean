import DeclScript.Proofs.Lookahead
import DeclScript.Proofs.Recognizer

set_option autoImplicit false

/-!
# The parser keeps pace with the recognizer

Every production of the parser is run beside the recognizer. When the production succeeds, the recognizer has taken the
consumed tokens and stands in the phase that belongs to the tree that was made. When it fails, the tokens ahead hold the
first token that the recognizer cannot take, or they were cut short by a failure to scan.
-/

namespace DeclScript

/-- How a token of the given kind is rejected. Only an identifier in the place of an import's source is treated
specially. -/
def Progression.complaint (s : Progression) (kind : Kind) : Cause :=
  match s.phase, kind with
  | .fromWord _ _, .identifier => .unsuitableToken .identifier "expected a literal import source"
  | _, kind => .unexpectedToken kind

/-- Why reading the stream `ahead`, beside a recognizer at `s`, fails with `d`. -/
inductive Stops (source : Source) (ahead : Stream) (s : Progression) (d : Diagnostic) : Prop
  -- The token `t` cannot stand behind the tokens `ts`. If it is treated specially, a further token was scanned before.
  | token {s' : Progression} {ts us : List Token} {t : Token} (hp : ahead.tokens = ts ++ t :: us)
      (hr : s.run (lexemes ts) = some s') (hs : s'.step t.toLexeme = none)
      (hd : d = source.diagnose (s'.complaint t.kind) t.span.start)
      (hu : s'.complaint t.kind ≠ .unexpectedToken t.kind → us ≠ [])
  -- Nothing is wrong with the tokens that could be scanned.
  | fault {s' : Progression} (hf : ahead.fault = some d) (hr : s.run (lexemes ahead.tokens) = some s')
  -- The identifier `t` cannot be the source of an import, but the scanner failed before that was noticed.
  | overtaken {body : List (Element Unit)} {first : String} {others : List String} {ts : List Token} {t : Token}
      (hf : ahead.fault = some d) (hp : ahead.tokens = ts ++ [t])
      (hr : s.run (lexemes ts) = some ⟨body, .fromWord first others⟩) (ht : t.kind = .identifier)

theorem Stops.prepend {source : Source} {ahead : Stream} {s s' : Progression} {ts : List Token} {d : Diagnostic}
    (hr : s.run (lexemes ts) = some s') (h : Stops source ahead s' d) : Stops source (ahead.prepend ts) s d := by
  have hrun : ∀ us, s.run (lexemes (ts ++ us)) = s'.run (lexemes us) := by
    intro us
    rw [lexemes_append, Progression.run_append, hr]
    rfl
  cases h with
  | @token s'' us vs t hp hr' hs hd hu =>
      have htokens : (ahead.prepend ts).tokens = (ts ++ us) ++ t :: vs := by
        rw [Stream.prepend, hp, List.append_assoc]
      exact .token htokens ((hrun us).trans hr') hs hd hu
  | fault hf hr' => exact .fault hf ((hrun _).trans hr')
  | @overtaken body first others us t hf hp hr' ht =>
      have htokens : (ahead.prepend ts).tokens = (ts ++ us) ++ [t] := by
        rw [Stream.prepend, hp, List.append_assoc]
      exact .overtaken hf htokens ((hrun us).trans hr') ht

namespace Parser

variable {α β : Type}

/-- What a production run at `p` has to show for itself, beside a recognizer that goes from `s` to `post a`. -/
def Outcome (s : Progression) (post : α → Progression) (p : Parser) : EStateM.Result Diagnostic Parser α → Prop
  | .ok a p' => p'.Ready ∧ ∃ ts, Consumed p ts p' ∧ s.run (lexemes ts) = some (post a)
  | .error d _ => Stops p.scanner.source p.pending s d

theorem bind_ok_eq {m : ParseM α} {f : α → ParseM β} {p q : Parser} {a : α} (h : m p = .ok a q) :
    (m >>= f) p = f a q := by
  change EStateM.bind m f p = _
  rw [EStateM.bind, h]

theorem bind_error_eq {m : ParseM α} {f : α → ParseM β} {p q : Parser} {d : Diagnostic} (h : m p = .error d q) :
    (m >>= f) p = .error d q := by
  change EStateM.bind m f p = _
  rw [EStateM.bind, h]

theorem outcome_pure {s : Progression} {post : α → Progression} {p : Parser} (hp : p.Ready) {a : α} (h : post a = s) :
    Outcome s post p ((pure a : ParseM α) p) :=
  ⟨hp, [], .refl p, congrArg some h.symm⟩

theorem Outcome.bind {s : Progression} {mid : α → Progression} {post : β → Progression} {p : Parser} {m : ParseM α}
    {f : α → ParseM β} (hm : Outcome s mid p (m p))
    (hf : ∀ a q, m p = .ok a q → q.Ready → Outcome (mid a) post q (f a q)) : Outcome s post p ((m >>= f) p) := by
  change Outcome s post p (EStateM.bind m f p)
  unfold EStateM.bind
  cases h : m p with
  | error d q =>
      rw [h] at hm
      exact hm
  | ok a q =>
      rw [h] at hm
      obtain ⟨hq, ts, hc, hr⟩ := hm
      have ho := hf a q h hq
      change Outcome s post p (f a q)
      cases hfa : f a q with
      | error d r =>
          rw [hfa] at ho
          have hstops := ho.prepend hr
          rwa [← hc.pending, hc.source] at hstops
      | ok b r =>
          rw [hfa] at ho
          obtain ⟨hready, us, hc', hr'⟩ := ho
          refine ⟨hready, ts ++ us, hc.trans hc', ?_⟩
          rw [lexemes_append, Progression.run_append, hr]
          exact hr'

theorem outcome_get_bind {s : Progression} {post : β → Progression} {p : Parser} {f : Parser → ParseM β}
    (h : Outcome s post p (f p p)) : Outcome s post p ((get >>= f) p) :=
  h

/-! ## Consuming one token -/

theorem outcome_advance {s s' : Progression} {p : Parser} (hp : p.Ready) (he : p.lookahead.kind ≠ .endOfFile)
    (hs : s.step p.lookahead.toLexeme = some s') : Outcome s (fun _ => s') p (advance p) := by
  have hrun : s.run (lexemes [p.lookahead]) = some s' := by
    change (s.step p.lookahead.toLexeme).bind _ = _
    rw [hs]
    rfl
  cases h : advance p with
  | ok t q => exact ⟨ready_of_advance h hp, [p.lookahead], consumed_of_advance h he, hrun⟩
  | error d q =>
      have hpending := pending_of_advance_error h he
      exact .fault (by rw [hpending]) (by rw [hpending]; exact hrun)

theorem stops_unexpectedToken {s : Progression} {p : Parser} (hs : s.step p.lookahead.toLexeme = none)
    (hc : s.complaint p.lookahead.kind = .unexpectedToken p.lookahead.kind) :
    Stops p.scanner.source p.pending s p.unexpectedToken := by
  obtain ⟨us, hus⟩ := p.exists_pending
  refine .token hus rfl hs ?_ (absurd hc)
  rw [hc, unexpectedToken, diagnose]

theorem outcome_expectThat {s : Progression} {post : Token → Progression} {test : Token → Bool} {p : Parser}
    (hp : p.Ready) (hyes : test p.lookahead → p.lookahead.kind ≠ .endOfFile ∧
      s.step p.lookahead.toLexeme = some (post p.lookahead))
    (hno : test p.lookahead = false → s.step p.lookahead.toLexeme = none)
    (hc : ∀ kind, s.complaint kind = .unexpectedToken kind) : Outcome s post p (expectThat test p) := by
  unfold expectThat
  split
  · rename_i ht
    have ho := outcome_advance hp (hyes ht).1 (hyes ht).2
    cases h : advance p with
    | ok t q =>
        rw [h] at ho
        obtain rfl := (advance_eq_ok h).1
        exact ho
    | error d q =>
        rw [h] at ho
        exact ho
  · rename_i ht
    exact stops_unexpectedToken (hno (by simpa using ht)) (hc _)

theorem outcome_expectLexeme {s s' : Progression} {p : Parser} {kind : Kind} {text : String} (hk : kind ≠ .endOfFile)
    (hp : p.Ready) (hyes : s.step ⟨kind, .text text⟩ = some s')
    (hno : p.lookahead.toLexeme ≠ ⟨kind, .text text⟩ → s.step p.lookahead.toLexeme = none)
    (hc : ∀ kind, s.complaint kind = .unexpectedToken kind) :
    Outcome s (fun _ => s') p (expectThat (·.is kind text) p) := by
  refine outcome_expectThat hp (fun ht => ?_) (fun ht => hno fun h => ?_) hc
  · rw [Lexeme.is_eq_true.1 ht]
    exact ⟨hk, hyes⟩
  · rw [Lexeme.is_eq_true.2 h] at ht
    cases ht

theorem outcome_expectKeyword (s s' : Progression) {p : Parser} {text : String} (hp : p.Ready)
    (hyes : s.step (.keyword text) = some s')
    (hno : p.lookahead.toLexeme ≠ .keyword text → s.step p.lookahead.toLexeme = none)
    (hc : ∀ kind, s.complaint kind = .unexpectedToken kind) : Outcome s (fun _ => s') p (expectKeyword text p) :=
  outcome_expectLexeme (by decide) hp hyes hno hc

theorem outcome_expectPunctuator (s s' : Progression) {p : Parser} {text : String} (hp : p.Ready)
    (hyes : s.step (.punctuator text) = some s')
    (hno : p.lookahead.toLexeme ≠ .punctuator text → s.step p.lookahead.toLexeme = none)
    (hc : ∀ kind, s.complaint kind = .unexpectedToken kind) :
    Outcome s (fun _ => s') p (expectPunctuator text p) :=
  outcome_expectLexeme (by decide) hp hyes hno hc

/-! ## Names and primary expressions -/

theorem outcome_identifier (s : Progression) (next : String → Progression) {p : Parser} (hp : p.Ready)
    (h : s.step p.lookahead.toLexeme = p.lookahead.name?.map next)
    (hc : ∀ kind, s.complaint kind = .unexpectedToken kind) :
    Outcome s (fun id => next id.name) p (identifier p) := by
  apply outcome_get_bind
  have hexpect : Outcome s (fun t => next t.value.display) p (expect .identifier p) := by
    refine outcome_expectThat hp (fun ht => ?_) (fun ht => ?_) hc
    · have hk : p.lookahead.kind = .identifier := by simpa using ht
      obtain ⟨name, hn⟩ := hp.scanned.exists_text (by simp [hk]) (by simp [hk])
      rw [h, hn, hk]
      exact ⟨by simp, rfl⟩
    · have hk : p.lookahead.kind ≠ .identifier := by simpa using ht
      have hn : p.lookahead.name? = none := by
        unfold Lexeme.name?
        split
        · rename_i hl
          exact absurd (congrArg Lexeme.kind hl) hk
        · rfl
      rw [h, hn]
      rfl
  exact hexpect.bind fun t q _ hq => outcome_get_bind (outcome_pure hq rfl)

theorem outcome_literalExpr {s : Progression} {next : Expr Unit → Progression} {p : Parser} {c : Constant}
    (hp : p.Ready) (hl : Constant.ofLexeme? p.lookahead.toLexeme = some c)
    (hs : s.step p.lookahead.toLexeme = some (next (.literal ⟨c, ()⟩))) :
    Outcome s (fun e => next e.erase) p (literalExpr p) := by
  apply outcome_get_bind
  apply (outcome_advance hp (Constant.kind_ne_endOfFile_of_ofLexeme? hl) hs).bind
  intro t q ht hq
  obtain rfl := (advance_eq_ok ht).1
  rw [hl]
  exact outcome_get_bind (outcome_pure hq rfl)

theorem primary_cases {p : Parser} (hp : p.Ready) :
    (∃ name, p.lookahead.toLexeme = .identifier name ∧ p.rules.primary? p.lookahead.kind = some .identifier) ∨
    (∃ c, Constant.ofLexeme? p.lookahead.toLexeme = some c ∧ p.rules.primary? p.lookahead.kind = some .literal ∧
      p.lookahead.name? = none) ∨
    (p.lookahead.primary? = none ∧ p.rules.primary? p.lookahead.kind = none) := by
  rw [hp.rules]
  rcases hp.scanned.primary with ⟨name, h⟩ | ⟨c, h⟩ | h
  · exact .inl ⟨name, h, by rw [h]; rfl⟩
  · refine .inr (.inl ⟨c, h, ?_⟩)
    have hw := Constant.ofLexeme?_eq_some_iff.1 h
    generalize p.lookahead.toLexeme = l at *
    cases hw <;> exact ⟨rfl, rfl⟩
  · refine .inr (.inr ?_)
    generalize p.lookahead.toLexeme = l at *
    obtain ⟨kind, value⟩ := l
    simp only [List.mem_cons, List.not_mem_nil, or_false] at h
    rcases h with rfl | rfl | rfl | rfl <;> exact ⟨rfl, rfl⟩

theorem primary_eq_runPrimary {p : Parser} {rule : PrimaryRule} (h : p.rules.primary? p.lookahead.kind = some rule) :
    primary p = runPrimary rule p := by
  apply (bind_ok_eq rfl).trans
  rw [h]

theorem primary_eq_unexpectedToken {p : Parser} (h : p.rules.primary? p.lookahead.kind = none) :
    primary p = .error p.unexpectedToken p := by
  apply (bind_ok_eq rfl).trans
  rw [h]
  rfl

theorem outcome_primary (s : Progression) (next : Expr Unit → Progression) {p : Parser} (hp : p.Ready)
    (h : s.step p.lookahead.toLexeme = p.lookahead.primary?.map next)
    (hc : ∀ kind, s.complaint kind = .unexpectedToken kind) :
    Outcome s (fun e => next e.erase) p (primary p) := by
  rcases primary_cases hp with ⟨name, hl, hr⟩ | ⟨c, hl, hr, hn⟩ | ⟨hl, hr⟩
  · rw [primary_eq_runPrimary hr]
    have hn : s.step p.lookahead.toLexeme = p.lookahead.name?.map fun name => next (.identifier ⟨name, ()⟩) := by
      rw [h, hl]
      rfl
    exact (outcome_identifier s _ hp hn hc).bind fun id q _ hq => outcome_pure hq rfl
  · rw [primary_eq_runPrimary hr]
    apply outcome_literalExpr hp hl
    rw [h, Lexeme.primary?, hn, hl]
    rfl
  · rw [primary_eq_unexpectedToken hr]
    exact stops_unexpectedToken (by rw [h, hl]; rfl) (hc _)

theorem outcome_argument (s : Progression) (next : String → Progression) {p : Parser} (hp : p.Ready)
    (h : s.step p.lookahead.toLexeme = p.lookahead.name?.map next)
    (hc : ∀ kind, s.complaint kind = .unexpectedToken kind) :
    Outcome s (fun a => next a.id.name) p (argument p) := by
  apply outcome_get_bind
  exact (outcome_identifier s next hp h hc).bind fun _ _ _ hq =>
    outcome_get_bind (outcome_pure hq rfl)

theorem outcome_importSpecifier (s : Progression) (next : String → Progression) {p : Parser} (hp : p.Ready)
    (h : s.step p.lookahead.toLexeme = p.lookahead.name?.map next)
    (hc : ∀ kind, s.complaint kind = .unexpectedToken kind) :
    Outcome s (fun sp => next sp.id.name) p (importSpecifier p) := by
  apply outcome_get_bind
  exact (outcome_identifier s next hp h hc).bind fun _ _ _ hq =>
    outcome_get_bind (outcome_pure hq rfl)

/-!
## Repetition

For each loop there is a family of states, indexed by the items that were read. An item moves the recognizer by one
step in this family, and the loop moves it by the list of its items.
-/

theorem outcome_repeatWhile {more : Parser → Bool} {item : ParseM α} {progress : Progresses item}
    (reached : List α → Progression)
    (hitem : ∀ as p, p.Ready → more p → Outcome (reached as) (fun a => reached (as ++ [a])) p (item p))
    (as : List α) {p : Parser} (hp : p.Ready) :
    Outcome (reached as) (fun bs => reached (as ++ bs)) p (repeatWhile more item progress p) := by
  -- Every item lowers the weight, so the rest of the loop is an instance of the induction hypothesis.
  induction hw : p.weight using Nat.strongRecOn generalizing p as with
  | ind n ih =>
      rw [repeatWhile_eq]
      apply outcome_get_bind
      split
      · rename_i hmore
        apply (hitem as p hp hmore).bind
        intro a q ha hq
        have hlt : q.weight < n := hw ▸ progress ha
        refine (ih _ hlt (as ++ [a]) hq rfl).bind fun bs r _ hr => outcome_pure hr ?_
        rw [List.append_assoc, List.singleton_append]
      · exact outcome_pure hp (by rw [List.append_nil])

theorem not_more_of_repeatWhile {more : Parser → Bool} {item : ParseM α} {progress : Progresses item} {p p' : Parser}
    {as : List α} (h : repeatWhile more item progress p = .ok as p') : more p' = false := by
  refine repeatWhile_induction (motive := fun _ _ p' => more p' = false) ?_ ?_ h
  · intro p hmore
    exact hmore
  · intro p a q as p' _ _ ih
    exact ih

/-! ## Call chains -/

theorem atPunctuator_eq_true {p : Parser} {text : String} :
    p.atPunctuator text = true ↔ p.lookahead.toLexeme = .punctuator text :=
  Lexeme.is_eq_true

theorem atPunctuator_eq_false {p : Parser} {text : String} :
    p.atPunctuator text = false ↔ p.lookahead.toLexeme ≠ .punctuator text := by
  rw [Ne, ← atPunctuator_eq_true, Bool.not_eq_true]

def amongArguments (body : List (Element Unit)) (e : Expr Unit) (args : List (Argument Span)) : Progression :=
  ⟨body, .arguments e (args.map (·.id.name))⟩

theorem outcome_arguments {body : List (Element Unit)} {e : Expr Unit} {p : Parser} (hp : p.Ready)
    (h : p.atPunctuator "(") :
    Outcome ⟨body, .chain e⟩ (fun args => ⟨body, .chain (.call e (args.map Argument.erase) ())⟩) p (arguments p) := by
  apply (outcome_expectPunctuator ⟨body, .chain e⟩ ⟨body, .arguments e []⟩ hp rfl
    (fun hne => absurd (atPunctuator_eq_true.1 h) hne) fun _ => rfl).bind
  intro _ q _ hq
  have hitem : ∀ as p, p.Ready → (!p.atPunctuator ")") = true →
      Outcome (amongArguments body e as) (fun a => amongArguments body e (as ++ [a])) p (argument p) := by
    intro as p hp hmore
    have hne : p.lookahead.toLexeme ≠ .punctuator ")" := atPunctuator_eq_false.1 (by simpa using hmore)
    have ho := outcome_argument (amongArguments body e as)
      (fun name => ⟨body, .arguments e (as.map (·.id.name) ++ [name])⟩) hp (if_neg hne) fun _ => rfl
    simpa [amongArguments] using ho
  apply (outcome_repeatWhile (amongArguments body e) hitem [] hq).bind
  intro args r hloop hr
  have hend : r.lookahead.toLexeme = .punctuator ")" :=
    atPunctuator_eq_true.1 (by simpa using not_more_of_repeatWhile hloop)
  refine (outcome_expectPunctuator (amongArguments body e args)
    ⟨body, .chain (.call e ((args.map (·.id.name)).map bareArgument) ())⟩ hr rfl
    (fun hne => absurd hend hne) fun _ => rfl).bind fun _ t _ ht => outcome_pure ht ?_
  rw [map_erase_arguments]

theorem outcome_callTail {body : List (Element Unit)} {e : Expr Unit} {p : Parser} (start : Position) (hp : p.Ready)
    (h : p.atPunctuator "(") : Outcome ⟨body, .chain e⟩
      (fun tail => ⟨body, .chain (.call e (tail.1.map Argument.erase) ())⟩) p (callTail start p) :=
  (outcome_arguments hp h).bind fun _ _ _ hq => outcome_get_bind (outcome_pure hq rfl)

def behindCalls (body : List (Element Unit)) (head : Expr Span) (tails : List (List (Argument Span) × Span)) :
    Progression :=
  ⟨body, .chain (head.calls tails).erase⟩

theorem outcome_callChain {body : List (Element Unit)} {p : Parser} (hp : p.Ready)
    (h : Progression.step ⟨body, .start⟩ p.lookahead.toLexeme =
      p.lookahead.primary?.map fun e => ⟨body, .chain e⟩) :
    Outcome ⟨body, .start⟩ (fun e => ⟨body, .chain e.erase⟩) p (callChain p) := by
  apply outcome_get_bind
  apply (outcome_primary ⟨body, .start⟩ _ hp h fun _ => rfl).bind
  intro head q _ hq
  have hitem : ∀ tails r, r.Ready → r.atPunctuator "(" = true → Outcome (behindCalls body head tails)
      (fun tail => behindCalls body head (tails ++ [tail])) r (callTail p.marker r) := by
    intro tails r hr hmore
    have ho := @outcome_callTail body (head.calls tails).erase r p.marker hr hmore
    simpa [behindCalls, Expr.calls, Expr.erase] using ho
  exact (outcome_repeatWhile (behindCalls body head) hitem [] hq).bind fun tails r _ hr => outcome_pure hr rfl

theorem not_atPunctuator_of_callChain {p p' : Parser} {e : Expr Span} (h : callChain p = .ok e p') :
    p'.atPunctuator "(" = false := by
  obtain ⟨_, q, -, h⟩ := bind_eq_ok h
  obtain ⟨head, r, -, h⟩ := bind_eq_ok h
  obtain ⟨tails, t, hloop, h⟩ := bind_eq_ok h
  cases h
  exact not_more_of_repeatWhile hloop

/-! ## Comments and expression statements -/

theorem outcome_comment {body : List (Element Unit)} {p : Parser} (hp : p.Ready) (hk : p.lookahead.kind = .comment) :
    Outcome ⟨body, .start⟩ (fun e => ⟨body ++ [e.erase], .start⟩) p (comment p) := by
  apply outcome_get_bind
  have hexpect : Outcome ⟨body, .start⟩ (fun t => ⟨body ++ [.comment ⟨t.value.display, ()⟩], .start⟩) p
      (expect .comment p) := by
    refine outcome_expectThat hp (fun ht => ?_) (fun ht => ?_) fun _ => rfl
    · obtain ⟨text, hl⟩ := hp.scanned.exists_text (by simp [hk]) (by simp [hk])
      rw [hl, hk]
      exact ⟨by simp, rfl⟩
    · simp [hk] at ht
  exact hexpect.bind fun t q _ hq => outcome_get_bind (outcome_pure hq rfl)

theorem outcome_expressionStatement {body : List (Element Unit)} {p : Parser} (hp : p.Ready)
    (h : Progression.step ⟨body, .start⟩ p.lookahead.toLexeme =
      p.lookahead.primary?.map fun e => ⟨body, .chain e⟩) :
    Outcome ⟨body, .start⟩ (fun e => ⟨body ++ [e.erase], .start⟩) p (expressionStatement p) := by
  apply (outcome_callChain hp h).bind
  intro e q he hq
  have hopen := atPunctuator_eq_false.1 (not_atPunctuator_of_callChain he)
  refine (outcome_expectPunctuator ⟨body, .chain e.erase⟩ ⟨body ++ [.expression e.erase], .start⟩ hq rfl
    (fun hne => ?_) fun _ => rfl).bind fun _ r _ hr => outcome_pure hr rfl
  simp only [Progression.step, hopen, hne, if_false]

/-! ## Imports -/

theorem identifierExpr_eq {p : Parser} {name : String} (h : p.lookahead.toLexeme = .identifier name) :
    identifierExpr p = match advance p with
      | .ok _ q => .ok (.identifier ⟨name, q.finish p.marker⟩) q
      | .error d q => .error d q := by
  have hk : p.lookahead.kind = .identifier := by rw [h]
  have hexpect : expect .identifier p = advance p := by
    have ht : (p.lookahead.kind == .identifier) = true := by rw [hk]; rfl
    exact if_pos ht
  cases ha : advance p with
  | error d q =>
      have hidentifier : identifier p = .error d q := (bind_ok_eq rfl).trans (bind_error_eq (hexpect.trans ha))
      exact bind_error_eq hidentifier
  | ok t q =>
      obtain rfl := (advance_eq_ok ha).1
      have hidentifier : identifier p = .ok ⟨name, q.finish p.marker⟩ q := by
        have hi : identifier p = .ok ⟨p.lookahead.value.display, q.finish p.marker⟩ q :=
          (bind_ok_eq rfl).trans (bind_ok_eq (hexpect.trans ha))
        rw [hi, h]
        rfl
      exact bind_ok_eq hidentifier

theorem exists_literal_of_literalExpr {p q : Parser} {e : Expr Span} (h : literalExpr p = .ok e q) :
    ∃ l, e = .literal l := by
  obtain ⟨_, r, -, h⟩ := bind_eq_ok h
  obtain ⟨t, r, -, h⟩ := bind_eq_ok h
  cases hv : Constant.ofLexeme? t.toLexeme with
  | some value =>
      rw [hv] at h
      obtain ⟨_, r, -, h⟩ := bind_eq_ok h
      cases h
      exact ⟨_, rfl⟩
  | none =>
      rw [hv] at h
      obtain ⟨_, r, -, h⟩ := bind_eq_ok h
      cases h

/-- An identifier in the place of an import's source is rejected only after it has been consumed, so a failure to scan
what stands behind it comes first. -/
theorem stops_importSource {body : List (Element Unit)} {first : String} {others : List String} {p : Parser}
    {name : String} (hl : p.lookahead.toLexeme = .identifier name)
    (hr : p.rules.primary? p.lookahead.kind = some .identifier) :
    ∃ d q, importSource p = .error d q ∧ Stops p.scanner.source p.pending ⟨body, .fromWord first others⟩ d := by
  have hk : p.lookahead.kind = .identifier := by rw [hl]
  have he : p.lookahead.kind ≠ .endOfFile := by simp [hk]
  cases ha : advance p with
  | error d q =>
      have hprimary : primary p = .error d q := by
        rw [primary_eq_runPrimary hr, runPrimary, identifierExpr_eq hl, ha]
      have himport : importSource p = .error d q := (bind_ok_eq rfl).trans (bind_error_eq hprimary)
      have hpending := pending_of_advance_error ha he
      have htokens : p.pending.tokens = [] ++ [p.lookahead] := by
        rw [hpending]
        rfl
      exact ⟨d, q, himport, .overtaken (by rw [hpending]) htokens rfl hk⟩
  | ok t q =>
      have hprimary : primary p = .ok (.identifier ⟨name, q.finish p.marker⟩) q := by
        rw [primary_eq_runPrimary hr, runPrimary, identifierExpr_eq hl, ha]
      have himport : importSource p =
          .error (q.diagnose (.unsuitableToken p.lookahead.kind "expected a literal import source") p.marker) q :=
        (bind_ok_eq rfl).trans (bind_ok_eq hprimary)
      have hconsumed := consumed_of_advance ha he
      obtain ⟨us, hus⟩ := q.exists_pending
      have htokens : p.pending.tokens = [] ++ p.lookahead :: q.lookahead :: us := by
        rw [hconsumed.pending, Stream.prepend, hus]
        rfl
      refine ⟨_, q, himport, .token htokens rfl ?_ ?_ fun _ => List.cons_ne_nil _ _⟩
      · rw [hl]
        rfl
      · rw [diagnose, hconsumed.source, hk]
        rfl

def behindSource (body : List (Element Unit)) (first : String) (others : List String) : Expr Unit → Progression
  | .literal l => ⟨body, .source first others l.value⟩
  | _ => ⟨body, .fromWord first others⟩

theorem outcome_importSource {body : List (Element Unit)} {first : String} {others : List String} {p : Parser}
    (hp : p.Ready) : Outcome ⟨body, .fromWord first others⟩ (fun l => ⟨body, .source first others l.value⟩) p
      (importSource p) := by
  rcases primary_cases hp with ⟨name, hl, hr⟩ | ⟨c, hl, hr, -⟩ | ⟨hl, hr⟩
  · obtain ⟨d, q, hd, hstops⟩ := stops_importSource hl hr
    rw [hd]
    exact hstops
  · have hliteral : Outcome ⟨body, .fromWord first others⟩ (fun e => behindSource body first others e.erase) p
        (primary p) := by
      rw [primary_eq_runPrimary hr]
      apply outcome_literalExpr hp hl
      rw [Progression.step, hl]
      rfl
    apply outcome_get_bind
    apply hliteral.bind
    intro e q he hq
    rw [primary_eq_runPrimary hr] at he
    obtain ⟨l, rfl⟩ := exists_literal_of_literalExpr he
    exact outcome_pure hq rfl
  · have hk : p.lookahead.kind ≠ .identifier := by
      intro hk
      rw [hp.rules, hk] at hr
      cases hr
    have hconstant : Constant.ofLexeme? p.lookahead.toLexeme = none := by
      unfold Lexeme.primary? at hl
      split at hl
      · cases hl
      · exact Option.map_eq_none_iff.1 hl
    have himport : importSource p = .error p.unexpectedToken p :=
      (bind_ok_eq rfl).trans (bind_error_eq (primary_eq_unexpectedToken hr))
    rw [himport]
    apply stops_unexpectedToken
    · rw [Progression.step, hconstant]
      rfl
    · unfold Progression.complaint
      split
      · exact absurd ‹_› hk
      · rfl

theorem outcome_furtherSpecifier {body : List (Element Unit)} {first : String} {others : List String} {p : Parser}
    (hp : p.Ready) (h : p.atPunctuator ",") : Outcome ⟨body, .specifier first others⟩
      (fun sp => ⟨body, .specifier first (others ++ [sp.id.name])⟩) p (furtherSpecifier p) := by
  have hl := atPunctuator_eq_true.1 h
  have hcomma : Outcome ⟨body, .specifier first others⟩ (fun _ => ⟨body, .comma first others⟩) p (advance p) :=
    outcome_advance hp (by rw [hl]; simp) (by rw [hl]; rfl)
  exact hcomma.bind fun _ q _ hq => outcome_importSpecifier ⟨body, .comma first others⟩
    (fun name => ⟨body, .specifier first (others ++ [name])⟩) hq rfl fun _ => rfl

def amongSpecifiers (body : List (Element Unit)) (first : String) (others : List (ImportSpecifier Span)) :
    Progression :=
  ⟨body, .specifier first (others.map (·.id.name))⟩

theorem outcome_importDeclaration {body : List (Element Unit)} {p : Parser} (hp : p.Ready)
    (hl : p.lookahead.toLexeme = .keyword "import") :
    Outcome ⟨body, .start⟩ (fun e => ⟨body ++ [e.erase], .start⟩) p (importDeclaration p) := by
  apply outcome_get_bind
  apply (outcome_expectKeyword ⟨body, .start⟩ ⟨body, .importWord⟩ hp rfl (fun hne => absurd hl hne)
    fun _ => rfl).bind
  intro _ p1 _ hp1
  apply (outcome_expectPunctuator ⟨body, .importWord⟩ ⟨body, .openBrace⟩ hp1 rfl (fun hne => if_neg hne)
    fun _ => rfl).bind
  intro _ p2 _ hp2
  apply (outcome_importSpecifier ⟨body, .openBrace⟩ (fun name => ⟨body, .specifier name []⟩) hp2 rfl
    fun _ => rfl).bind
  intro first p3 _ hp3
  have hitem : ∀ others q, q.Ready → q.atPunctuator "," = true → Outcome (amongSpecifiers body first.id.name others)
      (fun sp => amongSpecifiers body first.id.name (others ++ [sp])) q (furtherSpecifier q) := by
    intro others q hq hmore
    have ho := @outcome_furtherSpecifier body first.id.name (others.map (·.id.name)) q hq hmore
    simpa [amongSpecifiers] using ho
  apply (outcome_repeatWhile (amongSpecifiers body first.id.name) hitem [] hp3).bind
  intro others p4 hloop hp4
  have hcomma := atPunctuator_eq_false.1 (not_more_of_repeatWhile hloop)
  let names := others.map (·.id.name)
  have hclose : Outcome ⟨body, .specifier first.id.name names⟩ (fun _ => ⟨body, .closeBrace first.id.name names⟩) p4
      (expectPunctuator "\x7d" p4) := by
    refine outcome_expectPunctuator _ _ hp4 rfl (fun hne => ?_) fun _ => rfl
    simp only [Progression.step, hcomma, hne, if_false]
  apply hclose.bind
  intro _ p5 _ hp5
  apply (outcome_expectKeyword ⟨body, .closeBrace first.id.name names⟩ ⟨body, .fromWord first.id.name names⟩ hp5 rfl
    (fun hne => if_neg hne) fun _ => rfl).bind
  intro _ p6 _ hp6
  apply (outcome_importSource hp6).bind
  intro source p7 _ hp7
  apply (outcome_expectPunctuator ⟨body, .source first.id.name names source.value⟩
    (Progression.close ⟨body, .start⟩ (.importDeclaration
      ⟨(first.id.name :: names).map bareSpecifier, ⟨source.value, ()⟩, ()⟩)) hp7 rfl
    (fun hne => if_neg hne) fun _ => rfl).bind
  intro _ p8 _ hp8
  apply outcome_get_bind
  apply outcome_pure hp8
  change Progression.close ⟨body, .start⟩ (.importDeclaration ⟨(first :: others).map ImportSpecifier.erase, _, _⟩) = _
  rw [map_erase_specifiers]
  rfl

/-! ## Variables -/

theorem outcome_optionalMark {body : List (Element Unit)} {name type : String} {p : Parser} (hp : p.Ready) :
    Outcome ⟨body, .type name type⟩
      (fun optional => ⟨body, if optional then .question name type else .type name type⟩) p (optionalMark p) := by
  apply outcome_get_bind
  split
  · rename_i h
    have hl := atPunctuator_eq_true.1 h
    have hmark : Outcome ⟨body, .type name type⟩ (fun _ => ⟨body, .question name type⟩) p (advance p) :=
      outcome_advance hp (by rw [hl]; simp) (by rw [hl]; rfl)
    exact hmark.bind fun _ q _ hq => outcome_pure hq rfl
  · exact outcome_pure hp rfl

theorem not_atPunctuator_of_optionalMark {p p' : Parser} (h : optionalMark p = .ok false p') :
    p'.atPunctuator "?" = false := by
  obtain ⟨_, q, hq, h⟩ := bind_eq_ok h
  cases hq
  split at h
  · obtain ⟨_, r, -, h⟩ := bind_eq_ok h
    cases h
  · rename_i hmark
    cases h
    simpa using hmark

theorem outcome_variableDeclaration {body : List (Element Unit)} {p : Parser} (hp : p.Ready)
    (hl : p.lookahead.toLexeme = .keyword "let") :
    Outcome ⟨body, .start⟩ (fun e => ⟨body ++ [e.erase], .start⟩) p (variableDeclaration p) := by
  apply outcome_get_bind
  apply (outcome_expectKeyword ⟨body, .start⟩ ⟨body, .letWord⟩ hp rfl (fun hne => absurd hl hne)
    fun _ => rfl).bind
  intro _ p1 _ hp1
  apply (outcome_identifier ⟨body, .letWord⟩ (fun name => ⟨body, .name name⟩) hp1 rfl
    fun _ => rfl).bind
  intro id p2 _ hp2
  apply (outcome_expectPunctuator ⟨body, .name id.name⟩ ⟨body, .colon id.name⟩ hp2 rfl (fun hne => if_neg hne)
    fun _ => rfl).bind
  intro _ p3 _ hp3
  apply (outcome_identifier ⟨body, .colon id.name⟩ (fun type => ⟨body, .type id.name type⟩) hp3 rfl
    fun _ => rfl).bind
  intro type p4 _ hp4
  apply (outcome_optionalMark hp4).bind
  intro optional p5 hmark hp5
  have hequals : Outcome ⟨body, if optional then .question id.name type.name else .type id.name type.name⟩
      (fun _ => ⟨body, .equals id.name type.name optional⟩) p5 (expectPunctuator "=" p5) := by
    cases optional with
    | true => exact outcome_expectPunctuator _ _ hp5 rfl (fun hne => if_neg hne) fun _ => rfl
    | false =>
        have hquestion := atPunctuator_eq_false.1 (not_atPunctuator_of_optionalMark hmark)
        refine outcome_expectPunctuator _ _ hp5 rfl (fun hne => ?_) fun _ => rfl
        simp only [Progression.step, hquestion, hne, if_false, Bool.false_eq_true]
  apply hequals.bind
  intro _ p6 _ hp6
  apply (outcome_primary ⟨body, .equals id.name type.name optional⟩
    (fun e => ⟨body, .value id.name type.name optional e⟩) hp6 rfl fun _ => rfl).bind
  intro init p7 _ hp7
  apply (outcome_expectPunctuator ⟨body, .value id.name type.name optional init.erase⟩
    (Progression.close ⟨body, .start⟩ (.variableDeclaration
      ⟨⟨id.name, ()⟩, ⟨type.name, ()⟩, optional, init.erase, ()⟩)) hp7 rfl
    (fun hne => if_neg hne) fun _ => rfl).bind
  intro _ p8 _ hp8
  exact outcome_get_bind (outcome_pure hp8 rfl)

/-! ## Programs -/

theorem elementRule_eq_expression {l : Lexeme} (hc : l.kind ≠ .comment) (hi : l ≠ .keyword "import")
    (hl : l ≠ .keyword "let") : elementRule .standard l = .expression := by
  unfold elementRule
  split
  · exact absurd ‹_› hc
  · rename_i word hk hv
    obtain ⟨kind, value⟩ := l
    cases hk
    cases hv
    have himport : (word == "import") = false := beq_eq_false_iff_ne.2 fun h => hi (h ▸ rfl)
    have hlet : (word == "let") = false := beq_eq_false_iff_ne.2 fun h => hl (h ▸ rfl)
    simp [Rules.statement?, Rules.standard, List.lookup_cons, himport, hlet]
  · rfl

theorem outcome_element {body : List (Element Unit)} {p : Parser} (hp : p.Ready) (h : p.hasTokens) :
    Outcome ⟨body, .start⟩ (fun e => ⟨body ++ [e.erase], .start⟩) p (element p) := by
  apply outcome_get_bind
  rw [hp.rules]
  have he : p.lookahead.kind ≠ .endOfFile := by simpa [hasTokens] using h
  by_cases hc : p.lookahead.kind = .comment
  · have hrule : elementRule .standard p.lookahead.toLexeme = .comment := by
      rw [elementRule, hc]
    rw [hrule]
    exact outcome_comment hp hc
  by_cases hi : p.lookahead.toLexeme = .keyword "import"
  · rw [hi]
    exact outcome_importDeclaration hp hi
  by_cases hl : p.lookahead.toLexeme = .keyword "let"
  · rw [hl]
    exact outcome_variableDeclaration hp hl
  have hrule : elementRule .standard p.lookahead.toLexeme = .expression :=
    elementRule_eq_expression hc hi hl
  rw [hrule]
  exact outcome_expressionStatement hp (Progression.begin_eq_primary? _ he hc hi hl)

def behindElements (es : List (Element Span)) : Progression :=
  ⟨es.map Element.erase, .start⟩

theorem outcome_program {p : Parser} (hp : p.Ready) :
    Outcome ⟨[], .start⟩ (fun program => ⟨program.erase.body, .start⟩) p (program p) := by
  apply outcome_get_bind
  have hitem : ∀ es q, q.Ready → q.hasTokens = true →
      Outcome (behindElements es) (fun e => behindElements (es ++ [e])) q (element q) := by
    intro es q hq hmore
    have ho := @outcome_element (es.map Element.erase) q hq hmore
    simpa [behindElements] using ho
  exact (outcome_repeatWhile behindElements hitem [] hp).bind fun es q _ hq =>
    outcome_get_bind (outcome_pure hq rfl)

theorem not_hasTokens_of_program {p p' : Parser} {program : Program Span} (h : Parser.program p = .ok program p') :
    p'.hasTokens = false := by
  obtain ⟨_, q, -, h⟩ := bind_eq_ok h
  obtain ⟨es, r, hloop, h⟩ := bind_eq_ok h
  obtain ⟨_, t, ht, h⟩ := bind_eq_ok h
  cases ht
  cases h
  exact not_more_of_repeatWhile hloop

end Parser

end DeclScript
