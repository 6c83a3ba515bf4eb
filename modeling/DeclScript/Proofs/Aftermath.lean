import DeclScript.Proofs.Buffer
import DeclScript.Proofs.Standing
import DeclScript.Proofs.Faults

set_option autoImplicit false

/-!
# What a failure leaves behind

A step that fails returns at once, so the parser it leaves shows where it failed. With any tables of rules there are
four ways to fail, and a step that succeeds has only advanced with success. With the rules of the language one of the
four cannot happen, and the lookahead that is left can be told from the diagnostic.
-/

namespace DeclScript

namespace Parser

variable {α : Type}

/-! ## Advancing with success -/

/-- Advancing some number of times, each time with success, leads from one parser to the other. -/
def Proceeds : Parser → Parser → Prop :=
  Relation.ReflTransGen fun p q => advance p = .ok p.lookahead q

theorem proceeds_of_advance {p q : Parser} {t : Token} (h : advance p = .ok t q) : p.Proceeds q := by
  obtain rfl := (advance_eq_ok h).1
  exact .single h

theorem Proceeds.ready {p q : Parser} (h : p.Proceeds q) (hp : p.Ready) : q.Ready := by
  induction h with
  | refl => exact hp
  | tail _ hstep ih => exact ready_of_advance hstep ih

theorem advance_eq_error {p q : Parser} {d : Diagnostic} (h : advance p = .error d q) :
    Scanner.nextToken p.scanner = .error d q.scanner ∧ q.lookahead = p.lookahead ∧ q.rules = p.rules := by
  unfold advance at h
  split at h
  · cases h
  · cases h
    exact ⟨by assumption, rfl, rfl⟩

/-! ## Ways to fail -/

/-- A step at `p` fails with `d`, and this parser is left. -/
inductive Fails (p : Parser) (d : Diagnostic) : Parser → Prop
  /-- The lookahead is rejected. -/
  | refused {q : Parser} (h : p.Proceeds q) (hd : d = q.unexpectedToken) : Fails p d q
  /-- An identifier was consumed as the source of an import. -/
  | unsuitable {q r : Parser} (h : p.Proceeds q) (hr : advance q = .ok q.lookahead r)
      (hk : q.lookahead.kind = .identifier)
      (hd : d = r.diagnose (.unsuitableToken .identifier "expected a literal import source") q.lookahead.span.start) :
      Fails p d r
  /-- What was consumed by the rule for literals is none. -/
  | mistaken {q r : Parser} (h : p.Proceeds q) (hr : advance q = .ok q.lookahead r)
      (hrule : q.rules.primary? q.lookahead.kind = some .literal)
      (hl : Constant.ofLexeme? q.lookahead.toLexeme = none)
      (hd : d = r.diagnose (.unexpectedToken q.lookahead.kind) q.lookahead.span.start) : Fails p d r
  /-- No token could be scanned to take the place of the lookahead. -/
  | stuck {q r : Parser} (h : p.Proceeds q) (hr : advance q = .error d r) : Fails p d r

theorem Fails.prepend {p q r : Parser} {d : Diagnostic} (hq : p.Proceeds q) (h : q.Fails d r) : p.Fails d r := by
  cases h with
  | refused h hd => exact .refused (hq.trans h) hd
  | unsuitable h hr hk hd => exact .unsuitable (hq.trans h) hr hk hd
  | mistaken h hr hrule hl hd => exact .mistaken (hq.trans h) hr hrule hl hd
  | stuck h hr => exact .stuck (hq.trans h) hr

/-- What a step at `p` does is accounted for. -/
def Accounts (m : ParseM α) (p : Parser) : Prop :=
  match m p with
  | .ok _ q => p.Proceeds q
  | .error d q => p.Fails d q

theorem Accounts.proceeds {m : ParseM α} {p q : Parser} {a : α} (h : Accounts m p) (hm : m p = .ok a q) :
    p.Proceeds q := by
  rwa [Accounts, hm] at h

theorem Accounts.fails {m : ParseM α} {p q : Parser} {d : Diagnostic} (h : Accounts m p) (hm : m p = .error d q) :
    p.Fails d q := by
  rwa [Accounts, hm] at h

theorem accounts_of_ok {m : ParseM α} {p q : Parser} {a : α} (hm : m p = .ok a q) (h : p.Proceeds q) :
    Accounts m p := by
  rwa [Accounts, hm]

theorem accounts_of_error {m : ParseM α} {p q : Parser} {d : Diagnostic} (hm : m p = .error d q) (h : p.Fails d q) :
    Accounts m p := by
  rwa [Accounts, hm]

theorem accounts_advance (p : Parser) : Accounts advance p := by
  cases h : advance p with
  | ok t q => exact accounts_of_ok h (proceeds_of_advance h)
  | error d q => exact accounts_of_error h (.stuck .refl h)

theorem compositional_accounts : Compositional fun m p => Accounts m p where
  pure _ _ := Relation.ReflTransGen.refl
  bind := by
    intro α β m f p hm hf
    cases h : m p with
    | error d q => exact accounts_of_error (bind_error_eq h) (hm.fails h)
    | ok a q =>
        have hq := hm.proceeds h
        have hbind : (m >>= f) p = f a q := bind_ok_eq h
        cases hr : f a q with
        | ok b r => exact accounts_of_ok (hbind.trans hr) (hq.trans ((hf a q h).proceeds hr))
        | error d r => exact accounts_of_error (hbind.trans hr) (((hf a q h).fails hr).prepend hq)
  observe _ h := h
  advance := accounts_advance
  expectThat test p := by
    cases h : test p.lookahead with
    | true =>
        rw [Accounts, expectThat_eq_advance h]
        exact accounts_advance p
    | false => exact accounts_of_error (expectThat_eq_error h) (.refused .refl rfl)

/-! ### Primary expressions -/

theorem accounts_literalExpr {p : Parser} (hrule : p.rules.primary? p.lookahead.kind = some .literal) :
    Accounts literalExpr p := by
  cases h : advance p with
  | error d q => exact accounts_of_error ((bind_ok_eq rfl).trans (bind_error_eq h)) (.stuck .refl h)
  | ok t q =>
      obtain rfl := (advance_eq_ok h).1
      have heq : literalExpr p = _ := (bind_ok_eq rfl).trans (bind_ok_eq h)
      cases hl : Constant.ofLexeme? p.lookahead.toLexeme with
      | some value =>
          rw [hl] at heq
          exact accounts_of_ok heq (.single h)
      | none =>
          rw [hl] at heq
          exact accounts_of_error heq (.mistaken .refl h hrule hl rfl)

theorem accounts_primary (p : Parser) : Accounts primary p := by
  cases h : p.rules.primary? p.lookahead.kind with
  | none => exact accounts_of_error (primary_eq_unexpectedToken h) (.refused .refl rfl)
  | some rule =>
      rw [Accounts, primary_eq_runPrimary h]
      cases rule with
      | identifier => exact compositional_accounts.identifierExpr p
      | literal => exact accounts_literalExpr h

theorem identifier_eq_ok {p q : Parser} {id : Identifier Span} (h : identifier p = .ok id q) :
    p.lookahead.kind = .identifier ∧ advance p = .ok p.lookahead q ∧ id.mark = q.finish p.marker := by
  obtain ⟨_, _, hget, h⟩ := bind_eq_ok h
  cases hget
  obtain ⟨t, r, ht, h⟩ := bind_eq_ok h
  cases h
  unfold expect expectThat at ht
  split at ht
  · rename_i hk
    obtain rfl := (advance_eq_ok ht).1
    exact ⟨by simpa using hk, ht, rfl⟩
  · cases ht

/-- A primary expression is a literal, or the lookahead is an identifier that it starts with. -/
theorem primary_eq_ok {p q : Parser} {e : Expr Span} (h : primary p = .ok e q) : (∃ l, e = .literal l) ∨
    p.lookahead.kind = .identifier ∧ advance p = .ok p.lookahead q ∧ e.mark.start = p.lookahead.span.start ∧
      ∃ id, e = .identifier id := by
  cases hrule : p.rules.primary? p.lookahead.kind with
  | none =>
      rw [primary_eq_unexpectedToken hrule] at h
      cases h
  | some rule =>
      rw [primary_eq_runPrimary hrule] at h
      cases rule with
      | literal => exact .inl (exists_literal_of_literalExpr h)
      | identifier =>
          obtain ⟨id, r, hid, h⟩ := bind_eq_ok h
          cases h
          obtain ⟨hk, hadvance, hmark⟩ := identifier_eq_ok hid
          refine .inr ⟨hk, hadvance, ?_, id, rfl⟩
          rw [Expr.mark, hmark]
          rfl

theorem accounts_importSource (p : Parser) : Accounts importSource p := by
  cases h : primary p with
  | error d q => exact accounts_of_error ((bind_ok_eq rfl).trans (bind_error_eq h)) ((p.accounts_primary).fails h)
  | ok e q =>
      have heq : importSource p = _ := (bind_ok_eq rfl).trans (bind_ok_eq h)
      rcases primary_eq_ok h with ⟨l, rfl⟩ | ⟨hk, hadvance, hstart, id, rfl⟩
      · exact accounts_of_ok heq (p.accounts_primary.proceeds h)
      · refine accounts_of_error heq (.unsuitable .refl hadvance hk ?_)
        rw [hstart, hk]

theorem pervasive_accounts : Pervasive fun m p => Accounts m p where
  toCompositional := compositional_accounts
  primary := accounts_primary
  importSource := accounts_importSource
  element _ h := h _

/-! ## Diagnostics and the lookahead -/

/-- What the diagnostic `d` of a step at `q` says about the parser `r` that the step left. -/
structure SpeaksOf (d : Diagnostic) (q r : Parser) : Prop where
  unexpectedToken : ∀ kind, d.cause = .unexpectedToken kind →
    r.lookahead.kind = kind ∧ r.lookahead.span.start = d.position
  -- The lookahead came right behind the identifier that is blamed.
  unsuitableToken : ∀ kind reason, d.cause = .unsuitableToken kind reason → ∃ m, q.Proceeds m ∧
    m.lookahead.kind = .identifier ∧ m.lookahead.span.start = d.position ∧
    Scanner.nextToken m.scanner = .ok r.lookahead r.scanner
  -- The lookahead could not be consumed, because nothing could be scanned behind it.
  scanning : d.cause.isScanning → ∃ m, q.Proceeds m ∧ Scanner.nextToken m.scanner = .error d r.scanner ∧
    r.lookahead = m.lookahead

theorem Fails.speaksOf {p r : Parser} {d : Diagnostic} (h : p.Fails d r) (hp : p.Ready) : SpeaksOf d p r := by
  cases h with
  | refused h hd =>
      subst hd
      refine ⟨?_, ?_, ?_⟩
      · intro kind hkind
        cases hkind
        exact ⟨rfl, rfl⟩
      · intro kind reason hcause
        cases hcause
      · intro hscanning
        cases hscanning
  | @unsuitable q r h hr hk hd =>
      subst hd
      refine ⟨?_, ?_, ?_⟩
      · intro kind hcause
        cases hcause
      · intro kind reason _
        exact ⟨q, h, hk, rfl, (advance_eq_ok hr).2.2⟩
      · intro hscanning
        cases hscanning
  | mistaken h hr hrule hl hd =>
      -- By the rules of the language only tokens that are literals are consumed as such.
      rcases primary_cases (h.ready hp) with ⟨name, -, hr⟩ | ⟨c, hc, -⟩ | ⟨-, hr⟩
      · cases hr.symm.trans hrule
      · cases hl.symm.trans hc
      · cases hr.symm.trans hrule
  | @stuck q r h hr =>
      obtain ⟨hn, hlookahead, -⟩ := advance_eq_error hr
      have hscanning := Scanner.isScanning_of_nextToken hn
      refine ⟨?_, ?_, fun _ => ⟨q, h, hn, hlookahead⟩⟩
      · intro kind hcause
        rw [hcause] at hscanning
        cases hscanning
      · intro kind reason hcause
        rw [hcause] at hscanning
        cases hscanning

/-! ## Commands that fail -/

theorem Advances.ready {p q : Parser} (h : Advances p q) (hp : p.Ready) : q.Ready := by
  induction h with
  | refl => exact hp
  | @tail q r _ hstep ih =>
      rw [hstep]
      cases ha : advance q with
      | ok t q' =>
          rw [leftBy_of_ok ha]
          exact ready_of_advance ha ih
      | error d q' =>
          rw [leftBy_of_error ha]
          obtain ⟨-, hlookahead, hrules⟩ := advance_eq_error ha
          exact ⟨hrules.trans ih.rules, hlookahead ▸ ih.scanned⟩

theorem ready_runAll {p : Parser} (hp : p.Ready) {commands : List Command}
    (hc : ∀ c ∈ commands, c.registers = false) : (p.runAll commands).Ready := by
  induction commands generalizing p with
  | nil => exact hp
  | cons command commands ih =>
      have hstep := (p.advances_run (hc command (by simp))).ready hp
      exact ih hstep fun c hmem => hc c (List.mem_cons_of_mem _ hmem)

/-- Whether the command expects a token or runs a production. The rule for literals is left out: called by itself, it
consumes any token before it looks at it. -/
def Command.demands : Command → Bool
  | .expect _ | .expectKeyword _ | .expectPunctuator _ => true
  | .produce production => production != .primaryBy .literal
  | _ => false

theorem fails_of_answer {p : Parser} {m : ParseM α} {reply : α → Reply} {d : Diagnostic} (hm : Accounts m p)
    (hreply : ∀ a, reply a ≠ .diagnostic d) (h : (p.answer (return reply (← m))).1 = .diagnostic d) :
    p.Fails d (p.answer (return reply (← m))).2 := by
  cases hp : m p with
  | ok a q =>
      rw [answer, bind_ok_eq hp] at h
      exact absurd h (hreply a)
  | error d' q =>
      rw [answer, bind_error_eq hp] at h ⊢
      cases h
      exact hm.fails hp

theorem fails_of_run {p : Parser} {command : Command} {d : Diagnostic} (hc : command.demands)
    (h : (p.run command).1 = .diagnostic d) : p.Fails d (p.run command).2 := by
  cases command with
  | expect kind => exact fails_of_answer (compositional_accounts.expectThat _ p) nofun h
  | expectKeyword text => exact fails_of_answer (compositional_accounts.expectThat _ p) nofun h
  | expectPunctuator text => exact fails_of_answer (compositional_accounts.expectThat _ p) nofun h
  | produce production => exact fails_of_answer (pervasive_accounts.produce (bne_iff_ne.1 hc) p) nofun h
  | _ => cases hc

end Parser

/-- The parser was just set up, with the rules of the language, on a scanner of the source. -/
def Source.Opens (s : Source) (p : Parser) : Prop :=
  p.rules = .standard ∧ ∃ commands, Scanner.nextToken (s.scanner.runAll commands) = .ok p.lookahead p.scanner

theorem Source.opens_parser {s : Source} {p : Parser} (h : s.parser = .ok p) : s.Opens p := by
  unfold parser at h
  split at h
  · rename_i t scanner hn
    cases h
    exact ⟨rfl, [], hn⟩
  · cases h

theorem Source.Opens.ready {s : Source} {p : Parser} (h : s.Opens p) : p.Ready := by
  obtain ⟨hrules, commands, hn⟩ := h
  exact ⟨hrules, (Scanner.pulls_of_nextToken hn).scanned⟩

/-- As long as no rules are registered, the tables never change, and what a failure says fits the parser it leaves: a
token that is not expected is still the lookahead, an identifier that is no source of an import was right before it, and
a lookahead behind which nothing can be scanned stays. -/
theorem failure_speaks_of_lookahead (s : Source) (p : Parser) (hp : s.Opens p) (commands : List Parser.Command)
    (hc : ∀ c ∈ commands, c.registers = false) (command : Parser.Command) (hd : command.demands) :
    let q := p.runAll commands
    let r := (q.run command).2
    q.rules = p.rules ∧ r.rules = q.rules ∧
      ∀ d, (q.run command).1 = .diagnostic d → Parser.SpeaksOf d q r := by
  intro q r
  have hq : q.Ready := Parser.ready_runAll hp.ready hc
  have hregisters : command.registers = false := by
    cases command with
    | setStatement => cases hd
    | setPrimary => cases hd
    | _ => rfl
  have hr : r.Ready := (q.advances_run hregisters).ready hq
  refine ⟨hq.rules.trans hp.1.symm, hr.rules.trans hq.rules.symm, ?_⟩
  intro d h
  exact (Parser.fails_of_run hd h).speaksOf hq

/-- Two productions fail behind the first token, each a little further on in the text. The third gets over it. -/
theorem failure_speaks_of_lookahead_again : ∃ p d r, Source.parser ⟨"a ''; b", "shell"⟩ = .ok p ∧
    (p.runAll [.produce .element, .produce .element]).run (.produce .element) = (.diagnostic d, r) ∧
    d.cause = .unexpectedToken .identifier ∧ d.position = ⟨6, 0, 6⟩ ∧
    Parser.SpeaksOf d (p.runAll [.produce .element, .produce .element]) r ∧
    r.lookahead.kind = .identifier ∧ r.lookahead.span.start = d.position := by
  have hrun : (Source.parser ⟨"a ''; b", "shell"⟩).toOption.map (fun p =>
      ((p.runAll [.produce .element, .produce .element]).run (.produce .element)).1) =
        some (.diagnostic ⟨.unexpectedToken .identifier, ⟨6, 0, 6⟩, "shell", "a ''; b"⟩) := by
    decide +kernel
  cases hp : Source.parser ⟨"a ''; b", "shell"⟩ with
  | error d =>
      rw [hp] at hrun
      cases hrun
  | ok p =>
      rw [hp] at hrun
      have hreply := Option.some.inj hrun
      obtain ⟨-, -, h⟩ := failure_speaks_of_lookahead _ p (Source.opens_parser hp)
        [.produce .element, .produce .element] (by decide) (.produce .element) rfl
      have hspeaks := h _ hreply
      exact ⟨p, _, _, rfl, Prod.ext hreply rfl, rfl, rfl, hspeaks, hspeaks.unexpectedToken _ rfl⟩

end DeclScript
