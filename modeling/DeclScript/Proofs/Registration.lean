import DeclScript.Proofs.Buffer

set_option autoImplicit false

/-!
# Registrations that change nothing

A statement rule is looked up only for a keyword, and a keyword that starts no statement of the language is rejected by
every rule in the same way. The rule for identifiers rejects every other token just as if there were no rule. Tables
that differ in such entries alone lead every production to the same answer and, but for the tables, to the same parser.
-/

namespace DeclScript

/-! ## Tables that are alike -/

namespace Rules

/-- No primary expression starts with a token of this kind: at most the rule for identifiers looks at it. -/
def Refuses (r : Rules) (kind : Kind) : Prop :=
  kind ≠ .identifier ∧ r.primary? kind ≠ some .literal

/-- The tables differ only in entries that lead to a rejection. -/
structure Alike (r r' : Rules) : Prop where
  primary : ∀ kind, r'.primary? kind = r.primary? kind ∨ r.Refuses kind ∧ r'.Refuses kind
  statement : ∀ keyword, keyword = "let" ∨ keyword = "import" → r'.statement? keyword = r.statement? keyword
  keyword : r.Refuses .keyword ∧ r'.Refuses .keyword

theorem alike_standard : standard.Alike standard where
  primary _ := .inl rfl
  statement _ _ := rfl
  keyword := ⟨⟨by decide, by decide⟩, ⟨by decide, by decide⟩⟩

theorem Alike.setStatement {r r' : Rules} (h : r.Alike r') {keyword : String} (hlet : keyword ≠ "let")
    (himport : keyword ≠ "import") (rule : StatementRule) : r.Alike (r'.setStatement keyword rule) where
  primary := h.primary
  statement := by
    intro word hword
    have hne : word ≠ keyword := by
      rintro rfl
      exact hword.elim hlet himport
    rw [statement?_setStatement, if_neg hne]
    exact h.statement word hword
  keyword := h.keyword

theorem Refuses.setPrimary {r : Rules} {kind : Kind} (h : r.Refuses kind) (key : Kind) :
    (r.setPrimary key .identifier).Refuses kind := by
  refine ⟨h.1, ?_⟩
  rw [primary?_setPrimary]
  split
  · simp
  · exact h.2

theorem Alike.setPrimary {r r' : Rules} (h : r.Alike r') {key : Kind}
    (hkey : r.primary? key = some .identifier ∨ r.Refuses key) : r.Alike (r'.setPrimary key .identifier) where
  primary := by
    intro kind
    rcases h.primary kind with heq | ⟨hr, hr'⟩
    · rw [primary?_setPrimary]
      by_cases hk : kind = key
      · subst hk
        rw [if_pos rfl]
        rcases hkey with hkey | hkey
        · exact .inl hkey.symm
        · exact .inr ⟨hkey, hkey.1, by simp [primary?_setPrimary]⟩
      · rw [if_neg hk]
        exact .inl heq
    · exact .inr ⟨hr, hr'.setPrimary key⟩
  statement := h.statement
  keyword := ⟨h.keyword.1, h.keyword.2.setPrimary key⟩

end Rules

namespace Parser

variable {α : Type}

/-! ## Tokens that every rule rejects -/

theorem primary_of_refuses {p : Parser} (h : p.rules.Refuses p.lookahead.kind) :
    primary p = .error p.unexpectedToken p := by
  cases hrule : p.rules.primary? p.lookahead.kind with
  | none => exact primary_eq_unexpectedToken hrule
  | some rule =>
      rw [primary_eq_runPrimary hrule]
      cases rule with
      | literal => exact absurd hrule h.2
      | identifier =>
          have hexpect : expect .identifier p = .error p.unexpectedToken p :=
            expectThat_eq_error (beq_eq_false_iff_ne.2 h.1)
          have hidentifier : identifier p = .error p.unexpectedToken p := (bind_ok_eq rfl).trans (bind_error_eq hexpect)
          exact bind_error_eq hidentifier

theorem expectKeyword_eq_error {p : Parser} {word text : String} (hl : p.lookahead.toLexeme = ⟨.keyword, .text word⟩)
    (hne : word ≠ text) : expectKeyword text p = .error p.unexpectedToken p := by
  apply expectThat_eq_error
  rw [← Bool.not_eq_true, Lexeme.is_eq_true, hl]
  simpa using hne

/-- A keyword that starts no statement of the language is rejected, whatever rule it is given to. -/
theorem runStatement_of_keyword {p : Parser} {word : String} (hl : p.lookahead.toLexeme = ⟨.keyword, .text word⟩)
    (hlet : word ≠ "let") (himport : word ≠ "import") (hr : p.rules.Refuses .keyword) (rule : StatementRule) :
    runStatement rule p = .error p.unexpectedToken p := by
  have hk : p.lookahead.kind = .keyword := by rw [hl]
  cases rule with
  | comment =>
      have hexpect : expect .comment p = .error p.unexpectedToken p := expectThat_eq_error (by rw [hk]; rfl)
      exact (bind_ok_eq rfl).trans (bind_error_eq hexpect)
  | expression =>
      have hprimary : primary p = .error p.unexpectedToken p := primary_of_refuses (hk ▸ hr)
      have hchain : callChain p = .error p.unexpectedToken p := (bind_ok_eq rfl).trans (bind_error_eq hprimary)
      exact bind_error_eq hchain
  | importDeclaration => exact (bind_ok_eq rfl).trans (bind_error_eq (expectKeyword_eq_error hl himport))
  | variableDeclaration => exact (bind_ok_eq rfl).trans (bind_error_eq (expectKeyword_eq_error hl hlet))

theorem elementRule_cases {r r' : Rules} (h : r.Alike r') (l : Lexeme) : elementRule r' l = elementRule r l ∨
    ∃ word, l = ⟨.keyword, .text word⟩ ∧ word ≠ "let" ∧ word ≠ "import" := by
  unfold elementRule
  split
  · exact .inl rfl
  · rename_i word hk hv
    by_cases hword : word = "let" ∨ word = "import"
    · rw [h.statement word hword]
      exact .inl rfl
    · obtain ⟨kind, value⟩ := l
      cases hk
      cases hv
      exact .inr ⟨word, rfl, fun hlet => hword (.inl hlet), fun himport => hword (.inr himport)⟩
  · exact .inl rfl

/-! ## Two runs beside each other -/

/-- The same result, with other tables in the parser. -/
def retabled (rules : Rules) : EStateM.Result Diagnostic Parser α → EStateM.Result Diagnostic Parser α
  | .ok a p => .ok a { p with rules }
  | .error d p => .error d { p with rules }

/-- At `p`, the step keeps the tables, and it does the same with tables that are alike. -/
def Indifferent (rules : Rules) (m : ParseM α) (p : Parser) : Prop :=
  p.rules.Alike rules → (leftBy m p).rules = p.rules ∧ m { p with rules } = retabled rules (m p)

theorem indifferent_of_error {rules : Rules} {m : ParseM α} {p : Parser} {d : Diagnostic} (h : m p = .error d p)
    (h' : m { p with rules } = .error d { p with rules }) : Indifferent rules m p := by
  intro _
  rw [leftBy_of_error h, h, h']
  exact ⟨rfl, rfl⟩

theorem indifferent_advance (rules : Rules) (p : Parser) : Indifferent rules advance p := by
  intro _
  unfold leftBy advance
  cases Scanner.nextToken p.scanner with
  | ok t s => exact ⟨rfl, rfl⟩
  | error d s => exact ⟨rfl, rfl⟩

theorem compositional_indifferent (rules : Rules) : Compositional fun m p => Indifferent rules m p where
  pure _ _ _ := ⟨rfl, rfl⟩
  bind := by
    intro α β m f p hm hf halike
    obtain ⟨hrules, heq⟩ := hm halike
    cases h : m p with
    | error d q =>
        rw [leftBy_of_error h] at hrules
        rw [h] at heq
        rw [leftBy_of_error (bind_error_eq h), bind_error_eq h, bind_error_eq heq]
        exact ⟨hrules, rfl⟩
    | ok a q =>
        rw [leftBy_of_ok h] at hrules
        rw [h] at heq
        have hnext := hf a q h (hrules.symm ▸ halike)
        rw [leftBy, bind_ok_eq h, bind_ok_eq heq]
        exact ⟨hnext.1.trans hrules, hnext.2⟩
  observe := by
    intro α f p hf h halike
    have hsame : (get >>= f) { p with rules } = f p { p with rules } := by
      rw [← hf rules]
      rfl
    rw [hsame]
    exact h halike
  advance := indifferent_advance rules
  expectThat test p := by
    cases h : test p.lookahead with
    | true =>
        rw [Indifferent, leftBy, expectThat_eq_advance h, @expectThat_eq_advance { p with rules } test h]
        exact indifferent_advance rules p
    | false => exact indifferent_of_error (expectThat_eq_error h) (expectThat_eq_error h)

theorem indifferent_literalExpr (rules : Rules) (p : Parser) : Indifferent rules literalExpr p := by
  have h := compositional_indifferent rules
  refine h.observe (fun _ => rfl) (h.bind (h.advance p) fun t q _ => ?_)
  split
  · exact h.observe (fun _ => rfl) (h.pure _ _)
  · exact h.observe (fun _ => rfl) (indifferent_of_error rfl rfl)

theorem indifferent_primary (rules : Rules) (p : Parser) : Indifferent rules primary p := by
  intro halike
  rcases halike.primary p.lookahead.kind with heq | ⟨hr, hr'⟩
  · cases hrule : p.rules.primary? p.lookahead.kind with
    | none =>
        exact indifferent_of_error (primary_eq_unexpectedToken hrule)
          (@primary_eq_unexpectedToken { p with rules } (heq.trans hrule)) halike
    | some rule =>
        rw [leftBy, primary_eq_runPrimary hrule, @primary_eq_runPrimary { p with rules } rule (heq.trans hrule)]
        cases rule with
        | identifier => exact (compositional_indifferent rules).identifierExpr p halike
        | literal => exact indifferent_literalExpr rules p halike
  · exact indifferent_of_error (primary_of_refuses hr) (@primary_of_refuses { p with rules } hr') halike

theorem indifferent_importSource (rules : Rules) (p : Parser) : Indifferent rules importSource p := by
  have h := compositional_indifferent rules
  refine h.observe (fun _ => rfl) (h.bind (indifferent_primary rules p) fun e q _ => ?_)
  cases e with
  | literal l => exact h.pure _ _
  | identifier id => exact h.observe (fun _ => rfl) (indifferent_of_error rfl rfl)
  | call callee args mark => exact h.observe (fun _ => rfl) (indifferent_of_error rfl rfl)

theorem indifferent_element {rules : Rules} {p : Parser} (h : ∀ rule, Indifferent rules (runStatement rule) p) :
    Indifferent rules element p := by
  intro halike
  rcases elementRule_cases halike p.lookahead.toLexeme with heq | ⟨word, hl, hlet, himport⟩
  · have hsame : element { p with rules } =
        runStatement (elementRule p.rules p.lookahead.toLexeme) { p with rules } := by
      rw [← heq]
      rfl
    rw [hsame]
    exact h _ halike
  · exact indifferent_of_error (runStatement_of_keyword hl hlet himport halike.keyword.1 _)
      (@runStatement_of_keyword { p with rules } word hl hlet himport halike.keyword.2 _) halike

theorem pervasive_indifferent (rules : Rules) : Pervasive fun m p => Indifferent rules m p where
  toCompositional := compositional_indifferent rules
  primary := indifferent_primary rules
  importSource := indifferent_importSource rules
  element _ := indifferent_element

theorem answer_retabled {rules : Rules} {step : ParseM Reply} {p : Parser} (h : Indifferent rules step p)
    (halike : p.rules.Alike rules) :
    Parser.answer { p with rules } step = ((p.answer step).1, { (p.answer step).2 with rules }) := by
  have heq := (h halike).2
  unfold answer
  rw [heq]
  cases step p with
  | ok reply q => rfl
  | error d q => rfl

/-! ## Commands that register -/

/-- Whether the command registers a rule that cannot matter: a statement rule for a word that starts no statement of the
language, or the rule for identifiers for tokens that are no literals. -/
def Command.harmless : Command → Bool
  | .setStatement keyword _ => keyword != "let" && keyword != "import"
  | .setPrimary kind rule =>
      rule == .identifier && [.comment, .keyword, .identifier, .punctuator, .endOfFile].contains kind
  | _ => false

theorem alike_run {p : Parser} {command : Command} (hc : command.harmless) (h : Rules.standard.Alike p.rules) :
    ∃ rules, Rules.standard.Alike rules ∧ (p.run command).2 = { p with rules } := by
  cases command with
  | setStatement keyword rule =>
      have hword : keyword ≠ "let" ∧ keyword ≠ "import" := by simpa [Command.harmless] using hc
      exact ⟨_, h.setStatement hword.1 hword.2 rule, rfl⟩
  | setPrimary kind rule =>
      obtain ⟨rfl, hkind⟩ : rule = .identifier ∧ kind ∈ [.comment, .keyword, .identifier, .punctuator, .endOfFile] := by
        simpa [Command.harmless] using hc
      have hkey : Rules.standard.primary? kind = some .identifier ∨ Rules.standard.Refuses kind := by
        unfold Rules.Refuses
        revert kind
        decide
      exact ⟨_, h.setPrimary hkey, rfl⟩
  | _ => cases hc

theorem alike_runAll {p : Parser} {commands : List Command} (hc : ∀ c ∈ commands, c.harmless)
    (h : Rules.standard.Alike p.rules) :
    ∃ rules, Rules.standard.Alike rules ∧ p.runAll commands = { p with rules } := by
  induction commands generalizing p with
  | nil => exact ⟨p.rules, h, rfl⟩
  | cons command commands ih =>
      obtain ⟨rules, hrules, hrun⟩ := alike_run (hc command (by simp)) h
      change ∃ rules, _ ∧ ((p.run command).2).runAll commands = _
      rw [hrun]
      exact ih (fun c hmem => hc c (List.mem_cons_of_mem _ hmem)) hrules

end Parser

/-- Registrations that cannot matter do not matter: the whole program is answered with the same tree or the same
diagnostic as without them, and the parser it leaves differs in its tables alone. -/
theorem harmless_registrations (s : Source) (p : Parser) (hp : s.parser = .ok p)
    (registrations : List Parser.Command) (h : ∀ c ∈ registrations, c.harmless) :
    let q := p.runAll registrations
    (q.run (.produce .program)).1 = (p.run (.produce .program)).1 ∧
      (q.run (.produce .program)).2 = { (p.run (.produce .program)).2 with rules := q.rules } := by
  intro q
  have hstandard : p.rules = .standard := (Source.stream_eq_pending hp).2.2.rules
  have hp' : Rules.standard.Alike p.rules := by
    rw [hstandard]
    exact Rules.alike_standard
  obtain ⟨rules, halike, hq⟩ := Parser.alike_runAll h hp'
  have hindifferent := Parser.pervasive_indifferent rules
  have hprogram : Parser.Indifferent rules (return Parser.Reply.node (← Parser.produce .program)) p :=
    hindifferent.bind (hindifferent.produce (by decide) p) fun _ r _ => hindifferent.pure _ r
  have hanswer := Parser.answer_retabled hprogram (hstandard ▸ halike)
  have hrun : q.run (.produce .program) = _ := (congrArg (·.run (.produce .program)) hq).trans hanswer
  have hrules : q.rules = rules := congrArg Parser.rules hq
  rw [hrun, hrules]
  exact ⟨rfl, rfl⟩

/-- The keyword behind the declaration starts no statement. Now it has a rule as a statement and another one as a
primary expression, but it is rejected as before. -/
theorem harmless_registrations_from : ∃ p d, Source.parser ⟨"let x: T = 1;\nfrom;", "shell"⟩ = .ok p ∧
    (p.run (.produce .program)).1 = .diagnostic d ∧ d.position = ⟨14, 1, 0⟩ ∧
    ((p.runAll [.setStatement "from" .importDeclaration, .setPrimary .keyword .identifier,
      .setPrimary .endOfFile .identifier]).run (.produce .program)).1 = .diagnostic d := by
  have hrun : (Source.parser ⟨"let x: T = 1;\nfrom;", "shell"⟩).toOption.map (fun p =>
      (p.run (.produce .program)).1) =
        some (.diagnostic ⟨.unexpectedToken .keyword, ⟨14, 1, 0⟩, "shell", "from;"⟩) := by
    decide +kernel
  cases hp : Source.parser ⟨"let x: T = 1;\nfrom;", "shell"⟩ with
  | error d =>
      rw [hp] at hrun
      cases hrun
  | ok p =>
      rw [hp] at hrun
      have hreply := Option.some.inj hrun
      obtain ⟨hsame, -⟩ := harmless_registrations _ p hp [.setStatement "from" .importDeclaration,
        .setPrimary .keyword .identifier, .setPrimary .endOfFile .identifier] (by decide)
      exact ⟨p, _, rfl, hreply, rfl, hsame.trans hreply⟩

end DeclScript
