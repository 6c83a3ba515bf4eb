import DeclScript.Grammar.Session
import DeclScript.Proofs.Following
import DeclScript.Proofs.Productions
import Mathlib.Logic.Relation

set_option autoImplicit false

/-!
# The buffer of a parser

Between the scanner and the productions there is a buffer of one token. A parser is changed only by advancing: every
production, with any tables of rules and whether it succeeds or not, leaves the parser as some number of advances would.
If the whole source can be scanned, the buffer therefore runs through its tokens one by one, and stays at the last.
-/

namespace DeclScript

namespace Parser

variable {α β : Type}

/-! ## Productions only advance -/

/-- The parser that a step leaves, whether it succeeds or not. -/
def leftBy (m : ParseM α) (p : Parser) : Parser :=
  match m p with
  | .ok _ q => q
  | .error _ q => q

theorem leftBy_of_ok {m : ParseM α} {p q : Parser} {a : α} (h : m p = .ok a q) : leftBy m p = q := by
  rw [leftBy, h]

theorem leftBy_of_error {m : ParseM α} {p q : Parser} {d : Diagnostic} (h : m p = .error d q) : leftBy m p = q := by
  rw [leftBy, h]

/-- Advancing some number of times, with or without success, leads from one parser to the other. -/
def Advances : Parser → Parser → Prop :=
  Relation.ReflTransGen fun p q => q = leftBy advance p

def OnlyAdvances (m : ParseM α) : Prop :=
  ∀ p, Advances p (leftBy m p)

theorem advances_bind {m : ParseM α} {f : α → ParseM β} {p : Parser} (hm : Advances p (leftBy m p))
    (hf : ∀ a q, m p = .ok a q → Advances q (leftBy (f a) q)) : Advances p (leftBy (m >>= f) p) := by
  cases h : m p with
  | ok a q =>
      have hbind : leftBy (m >>= f) p = leftBy (f a) q := by
        rw [leftBy, bind_ok_eq h, leftBy]
      rw [hbind]
      rw [leftBy_of_ok h] at hm
      exact hm.trans (hf a q h)
  | error d q =>
      rw [leftBy_of_error (bind_error_eq h)]
      rwa [leftBy_of_error h] at hm

theorem compositional_advances : Compositional fun m p => Advances p (leftBy m p) where
  pure _ _ := .refl
  bind := advances_bind
  observe _ h := h
  advance _ := .single rfl
  expectThat test p := by
    cases h : test p.lookahead with
    | true =>
        rw [leftBy, expectThat_eq_advance h]
        exact .single rfl
    | false =>
        rw [leftBy_of_error (expectThat_eq_error h)]
        exact .refl

theorem onlyAdvances_literalExpr : OnlyAdvances literalExpr := by
  intro p
  refine compositional_advances.observe (fun _ => rfl) (advances_bind (.single rfl) fun t q _ => ?_)
  split
  · exact .refl
  · exact .refl

theorem onlyAdvances_primary : OnlyAdvances primary := by
  intro p
  refine advances_bind .refl fun _ _ hget => ?_
  cases hget
  cases p.rules.primary? p.lookahead.kind with
  | none => exact .refl
  | some rule =>
      cases rule with
      | identifier => exact compositional_advances.identifierExpr p
      | literal => exact onlyAdvances_literalExpr p

theorem onlyAdvances_importSource : OnlyAdvances importSource := by
  intro p
  refine advances_bind .refl fun _ _ hget => ?_
  cases hget
  refine advances_bind (onlyAdvances_primary p) fun e r _ => ?_
  cases e with
  | literal l => exact .refl
  | identifier id => exact .refl
  | call callee args mark => exact .refl

theorem pervasive_advances : Pervasive fun m p => Advances p (leftBy m p) where
  toCompositional := compositional_advances
  primary := onlyAdvances_primary
  importSource := onlyAdvances_importSource
  element _ h := h _

theorem onlyAdvances_produce (production : Production) : OnlyAdvances (produce production) := by
  intro p
  by_cases h : production = .primaryBy .literal
  · subst h
    exact advances_bind (onlyAdvances_literalExpr p) fun _ _ _ => .refl
  · exact pervasive_advances.produce h p

/-! ## What a command does -/

/-- The parser after all commands in turn. -/
def runAll (p : Parser) (commands : List Command) : Parser :=
  commands.foldl (fun p command => (p.run command).2) p

theorem runAll_append (p : Parser) (commands more : List Command) :
    p.runAll (commands ++ more) = (p.runAll commands).runAll more :=
  List.foldl_append

theorem answer_snd (p : Parser) (step : ParseM Reply) : (p.answer step).2 = leftBy step p := by
  unfold answer leftBy
  cases step p <;> rfl

/-- The command asks or registers something, or it expects a token that is not there. -/
def Idles (p : Parser) : Command → Prop
  | .advance | .produce _ => False
  | .expect kind => p.lookahead.kind ≠ kind
  | .expectKeyword text => p.lookahead.toLexeme ≠ ⟨.keyword, .text text⟩
  | .expectPunctuator text => p.lookahead.toLexeme ≠ ⟨.punctuator, .text text⟩
  | _ => True

theorem answer_expectThat {p : Parser} {test : Token → Bool} (h : test p.lookahead = false) :
    p.answer (return .token (← expectThat test)) = (.diagnostic p.unexpectedToken, p) := by
  rw [answer, bind_error_eq (expectThat_eq_error h)]

theorem run_of_idles {p : Parser} {command : Command} (h : p.Idles command) :
    (p.run command).2.scanner = p.scanner ∧ (p.run command).2.lookahead = p.lookahead := by
  have hlexeme {kind : Kind} {text : String} (h : p.lookahead.toLexeme ≠ ⟨kind, .text text⟩) :
      p.lookahead.is kind text = false := by
    rwa [← Bool.not_eq_true, Lexeme.is_eq_true]
  cases command with
  | advance => cases h
  | produce => cases h
  | expect kind =>
      have hrun : p.run (.expect kind) = (.diagnostic p.unexpectedToken, p) :=
        answer_expectThat (beq_eq_false_iff_ne.2 h)
      rw [hrun]
      exact ⟨rfl, rfl⟩
  | expectKeyword text =>
      have hrun : p.run (.expectKeyword text) = (.diagnostic p.unexpectedToken, p) := answer_expectThat (hlexeme h)
      rw [hrun]
      exact ⟨rfl, rfl⟩
  | expectPunctuator text =>
      have hrun : p.run (.expectPunctuator text) = (.diagnostic p.unexpectedToken, p) := answer_expectThat (hlexeme h)
      rw [hrun]
      exact ⟨rfl, rfl⟩
  | _ => exact ⟨rfl, rfl⟩

/-- Whether the command changes the tables of rules. -/
def Command.registers : Command → Bool
  | .setStatement .. | .setPrimary .. => true
  | _ => false

theorem advances_run (p : Parser) {command : Command} (h : command.registers = false) :
    Advances p (p.run command).2 := by
  have hanswer {α : Type} {m : ParseM α} (reply : α → Reply) (hm : Advances p (leftBy m p)) :
      Advances p (p.answer (return reply (← m))).2 := by
    rw [answer_snd]
    exact advances_bind hm fun _ _ _ => .refl
  cases command with
  | advance => exact hanswer .token (.single rfl)
  | expect kind => exact hanswer .token (compositional_advances.expectThat _ p)
  | expectKeyword text => exact hanswer .token (compositional_advances.expectThat _ p)
  | expectPunctuator text => exact hanswer .token (compositional_advances.expectThat _ p)
  | produce production => exact hanswer .node (onlyAdvances_produce production p)
  | setStatement => cases h
  | setPrimary => cases h
  | _ => exact .refl

theorem run_cases (p : Parser) (command : Command) :
    Advances p (p.run command).2 ∨ ∃ rules, (p.run command).2 = { p with rules } := by
  cases hr : command.registers with
  | false => exact .inl (p.advances_run hr)
  | true =>
      cases command with
      | setStatement => exact .inr ⟨_, rfl⟩
      | setPrimary => exact .inr ⟨_, rfl⟩
      | _ => cases hr

/-! ## The buffer among the tokens -/

/-- The place of the lookahead among the tokens `ts`. -/
def index (ts : List Token) (p : Parser) : Nat :=
  ts.idxOf p.lookahead

end Parser

/-- The end of the file can be pulled again from where it leaves the scanner. -/
theorem Scanner.Pulls.again {s s' : Scanner} {t : Token} (h : s.Pulls t s') (he : t.kind = .endOfFile) :
    s'.Pulls t s' := by
  cases h with
  | lexeme hr hb hs => exact absurd he hs.kind_ne_endOfFile
  | endOfFile hb =>
      have hend := @Pulls.endOfFile { s with position := s.position.after s.rest, rest := [] } (by simp)
      rwa [Position.after_nil] at hend

namespace Parser

/-- The lookahead was pulled from a scanner, and from the token `i` of `ts` on all tokens are ahead. -/
structure Buffers (ts : List Token) (i : Nat) (p : Parser) : Prop where
  pulled : ∃ s : Scanner, s.Pulls p.lookahead p.scanner
  pending : p.pending = ⟨ts.drop i, none⟩

namespace Buffers

variable {ts : List Token} {i : Nat} {p : Parser}

theorem of_pulls {s : Scanner} (hs : s.Pulls p.lookahead p.scanner) (hdrain : s.drain = ⟨ts.drop i, none⟩) :
    Buffers ts i p :=
  ⟨⟨s, hs⟩, (drain_eq_pending (Scanner.nextToken_of_pulls hs)).symm.trans hdrain⟩

theorem token (h : Buffers ts i p) : ts[i]? = some p.lookahead := by
  obtain ⟨us, hus⟩ := p.exists_pending
  rw [h.pending] at hus
  rw [← List.head?_drop]
  exact congrArg List.head? hus

theorem lt_length (h : Buffers ts i p) : i < ts.length :=
  (List.getElem?_eq_some_iff.1 h.token).1

theorem length_of_endOfFile (h : Buffers ts i p) (he : p.lookahead.kind = .endOfFile) : ts.length = i + 1 := by
  have hpending : ts.drop i = [p.lookahead] :=
    congrArg Stream.tokens (h.pending.symm.trans (pending_eq_single he))
  have hlength := congrArg List.length hpending
  simp only [List.length_drop, List.length_singleton] at hlength
  omega

theorem drain (h : Buffers ts i p) (he : p.lookahead.kind ≠ .endOfFile) :
    p.scanner.drain = ⟨ts.drop (i + 1), none⟩ := by
  have hpending := (pending_eq_cons he).symm.trans h.pending
  generalize p.scanner.drain = stream at hpending
  obtain ⟨tokens, fault⟩ := stream
  obtain ⟨htokens, rfl⟩ := Stream.mk.inj hpending
  rw [← List.tail_drop, ← htokens]
  rfl

/-- Advancing succeeds, gives the lookahead and moves on by one token unless there is none. -/
theorem advance (h : Buffers ts i p) : ∃ q, Parser.advance p = .ok p.lookahead q ∧
    Buffers ts (min (i + 1) (ts.length - 1)) q := by
  have hok {t : Token} {s : Scanner} (hn : Scanner.nextToken p.scanner = .ok t s) :
      Parser.advance p = .ok p.lookahead { p with scanner := s, lookahead := t } := by
    rw [Parser.advance, hn]
  by_cases he : p.lookahead.kind = .endOfFile
  · obtain ⟨s, hs⟩ := h.pulled
    have hlength := h.length_of_endOfFile he
    have hmin : min (i + 1) (ts.length - 1) = i := by omega
    rw [hmin]
    exact ⟨p, hok (Scanner.nextToken_of_pulls (hs.again he)), h⟩
  · have hdrain := h.drain he
    cases hn : Scanner.nextToken p.scanner with
    | error d s =>
        rw [Scanner.drain_of_error hn] at hdrain
        cases congrArg Stream.fault hdrain
    | ok t s =>
        have hq : Buffers ts (i + 1) { p with scanner := s, lookahead := t } :=
          of_pulls (Scanner.pulls_of_nextToken hn) hdrain
        have hlt := hq.lt_length
        have hmin : min (i + 1) (ts.length - 1) = i + 1 := by omega
        rw [hmin]
        exact ⟨_, hok hn, hq⟩

theorem advances {q : Parser} (h : Buffers ts i p) (hq : Advances p q) : ∃ j, i ≤ j ∧ Buffers ts j q := by
  induction hq with
  | refl => exact ⟨i, Nat.le_refl i, h⟩
  | tail _ hstep ih =>
      obtain ⟨j, hj, hb⟩ := ih
      obtain ⟨r, hr, hb'⟩ := hb.advance
      rw [hstep, leftBy_of_ok hr]
      have hlt := hb.lt_length
      exact ⟨_, by omega, hb'⟩

theorem run (h : Buffers ts i p) (command : Command) : ∃ j, i ≤ j ∧ Buffers ts j (p.run command).2 := by
  rcases p.run_cases command with hadvances | ⟨rules, hrules⟩
  · exact h.advances hadvances
  · rw [hrules]
    exact ⟨i, Nat.le_refl i, h.pulled, h.pending⟩

theorem runAll (h : Buffers ts i p) (commands : List Command) : ∃ j, i ≤ j ∧ Buffers ts j (p.runAll commands) := by
  induction commands generalizing i p with
  | nil => exact ⟨i, Nat.le_refl i, h⟩
  | cons command commands ih =>
      obtain ⟨j, hj, hb⟩ := h.run command
      obtain ⟨k, hk, hb'⟩ := ih hb
      exact ⟨k, Nat.le_trans hj hk, hb'⟩

theorem index (h : Buffers ts i p) (hts : ts.Nodup) : p.index ts = i := by
  obtain ⟨hlt, hget⟩ := List.getElem?_eq_some_iff.1 h.token
  rw [Parser.index, ← hget, hts.idxOf_getElem i hlt]

end Buffers

end Parser

namespace Source

theorem nodup_tokens {s : Source} {ts : List Token} (h : s.tokens = .ok ts) : ts.Nodup := by
  have hlaid := s.laid_stream
  rw [tokens_eq_ok_iff.1 h] at hlaid
  refine hlaid.pairwise.imp ?_
  rintro t u ⟨hlt, -⟩ rfl
  exact Nat.lt_irrefl _ hlt

theorem exists_buffers {s : Source} {ts : List Token} (h : s.tokens = .ok ts) :
    ∃ p, s.parser = .ok p ∧ Parser.Buffers ts 0 p := by
  have hdrain : s.scanner.drain = ⟨ts, none⟩ := tokens_eq_ok_iff.1 h
  unfold parser
  cases hn : s.scanner.nextToken with
  | error d s' =>
      rw [Scanner.drain_of_error hn] at hdrain
      cases congrArg Stream.fault hdrain
  | ok t s' => exact ⟨_, rfl, .of_pulls (Scanner.pulls_of_nextToken hn) hdrain⟩

end Source

/-- The buffer of a parser for a source with the tokens `ts` starts at the first of them and holds the token at its
index, which no command lowers; the scanner stands right behind that token. Advancing hands it out and goes to the next
one, if there is one. What asks, registers or does not match changes neither scanner nor buffer. -/
theorem buffer_in_step (s : Source) (ts : List Token) (h : s.tokens = .ok ts) :
    ∃ p, s.parser = .ok p ∧ p.index ts = 0 ∧ ∀ commands,
      let q := p.runAll commands
      ts[q.index ts]? = some q.lookahead ∧ q.scanner.position = q.lookahead.span.stop ∧
      (∀ more, q.index ts ≤ (p.runAll (commands ++ more)).index ts) ∧
      (∃ r, q.run .advance = (.token q.lookahead, r) ∧ r.index ts = min (q.index ts + 1) (ts.length - 1)) ∧
      ∀ command, q.Idles command →
        (q.run command).2.scanner = q.scanner ∧ (q.run command).2.lookahead = q.lookahead := by
  have hts := Source.nodup_tokens h
  obtain ⟨p, hp, hb⟩ := Source.exists_buffers h
  refine ⟨p, hp, hb.index hts, fun commands => ?_⟩
  obtain ⟨i, -, hq⟩ := hb.runAll commands
  have hi := hq.index hts
  refine ⟨?_, ?_, ?_, ?_, fun command => Parser.run_of_idles⟩
  · rw [hi]
    exact hq.token
  · obtain ⟨s', hs'⟩ := hq.pulled
    exact hs'.position
  · intro more
    obtain ⟨j, hij, hr⟩ := hq.runAll more
    rw [hi, Parser.runAll_append, hr.index hts]
    exact hij
  · obtain ⟨r, hadvance, hr⟩ := hq.advance
    refine ⟨r, ?_, ?_⟩
    · rw [Parser.run, Parser.answer, Parser.bind_ok_eq hadvance]
      rfl
    · rw [hi]
      exact hr.index hts

/-- The import fails at its source, which is an identifier, but the buffer is already behind it. -/
theorem buffer_in_step_import : ∃ ts p q r, Source.tokens ⟨"import \x7b a \x7d from b 'é'", "shell"⟩ = .ok ts ∧
    Source.parser ⟨"import \x7b a \x7d from b 'é'", "shell"⟩ = .ok p ∧ p.runAll [.produce .element] = q ∧
    q.index ts = 6 ∧ q.scanner.position = q.lookahead.span.stop ∧
    q.run .advance = (.token q.lookahead, r) ∧ r.index ts = 7 := by
  have hok : (Source.tokens ⟨"import \x7b a \x7d from b 'é'", "shell"⟩).toOption.map List.length = some 8 := by
    decide +kernel
  have hindex : ((Source.tokens ⟨"import \x7b a \x7d from b 'é'", "shell"⟩).toOption.bind fun ts =>
      (Source.parser ⟨"import \x7b a \x7d from b 'é'", "shell"⟩).toOption.map fun p =>
        (p.runAll [.produce .element]).index ts) = some 6 := by
    decide +kernel
  cases ht : Source.tokens ⟨"import \x7b a \x7d from b 'é'", "shell"⟩ with
  | error d =>
      rw [ht] at hok
      cases hok
  | ok ts =>
      obtain ⟨p, hp, -, h⟩ := buffer_in_step _ ts ht
      obtain ⟨-, hposition, -, ⟨r, hadvance, hr⟩, -⟩ := h [.produce .element]
      rw [ht] at hok hindex
      rw [hp] at hindex
      have hlength : ts.length = 8 := Option.some.inj hok
      have hq : (p.runAll [.produce .element]).index ts = 6 := Option.some.inj hindex
      rw [hq, hlength] at hr
      exact ⟨ts, p, _, r, rfl, hp, rfl, hq, hposition, hadvance, hr⟩

end DeclScript
