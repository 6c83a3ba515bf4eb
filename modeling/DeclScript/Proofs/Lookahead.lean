import DeclScript.Grammar.Program
import DeclScript.Proofs.Layout

set_option autoImplicit false

/-!
# The tokens ahead of a parser

Scanning and parsing are interleaved, with one token between them. Seen from the parser there is one stream ahead, which
starts with the lookahead; consuming a token takes it off the front of this stream.
-/

namespace DeclScript

def Stream.prepend (ts : List Token) (s : Stream) : Stream :=
  ⟨ts ++ s.tokens, s.fault⟩

theorem Stream.prepend_prepend (ts us : List Token) (s : Stream) :
    (s.prepend us).prepend ts = s.prepend (ts ++ us) := by
  simp [prepend]

/-- The token is the end of the file or has a spelling. -/
def Token.Scanned (t : Token) : Prop :=
  t.toLexeme = ⟨.endOfFile, .none⟩ ∨ ∃ word, t.Spells word

theorem Token.Scanned.exists_text {t : Token} (h : t.Scanned) (he : t.kind ≠ .endOfFile)
    (hn : t.kind ≠ .numericLiteral) : ∃ text, t.toLexeme = ⟨t.kind, .text text⟩ := by
  rcases h with h | ⟨word, h⟩
  · exact absurd (congrArg Lexeme.kind h) he
  · generalize t.toLexeme = l at *
    cases h with
    | number => exact absurd rfl hn
    | _ => exact ⟨_, rfl⟩

theorem Token.Scanned.primary {t : Token} (h : t.Scanned) : (∃ name, t.toLexeme = ⟨.identifier, .text name⟩) ∨
    (∃ c, Constant.ofLexeme? t.toLexeme = some c) ∨ t.kind ∈ [.comment, .keyword, .punctuator, .endOfFile] := by
  rcases h with h | ⟨word, h⟩
  · exact .inr (.inr (by rw [h]; decide))
  · generalize t.toLexeme = l at *
    cases h with
    | comment => exact .inr (.inr (by simp))
    | reserved h =>
        rcases kind_of_reserved h with rfl | rfl | rfl
        · exact .inr (.inr (by simp))
        · exact .inr (.inl ⟨_, rfl⟩)
        · exact .inr (.inl ⟨_, rfl⟩)
    | identifier => exact .inl ⟨_, rfl⟩
    | punctuator => exact .inr (.inr (by simp))
    | number => exact .inr (.inl ⟨_, rfl⟩)
    | @character c h => exact .inr (.inl ⟨.character c, by simp [Constant.ofLexeme?]⟩)
    | string => exact .inr (.inl ⟨_, rfl⟩)

theorem Scanner.Pulls.scanned {s s' : Scanner} {t : Token} (h : s.Pulls t s') : t.Scanned := by
  cases h with
  | lexeme hr hb hs => exact .inr ⟨_, hs⟩
  | endOfFile => exact .inl rfl

theorem Scanner.Pulls.source {s s' : Scanner} {t : Token} (h : s.Pulls t s') : s'.source = s.source := by
  cases h <;> rfl

namespace Parser

/-- The stream ahead. The end of the file stands in it once, although it can be pulled again. -/
def pending (p : Parser) : Stream :=
  if p.lookahead.kind = .endOfFile then ⟨[p.lookahead], none⟩ else .cons p.lookahead p.scanner.drain

theorem pending_eq_cons {p : Parser} (h : p.lookahead.kind ≠ .endOfFile) :
    p.pending = p.scanner.drain.prepend [p.lookahead] := by
  rw [pending, if_neg h]
  rfl

theorem pending_eq_single {p : Parser} (h : p.lookahead.kind = .endOfFile) : p.pending = ⟨[p.lookahead], none⟩ := by
  rw [pending, if_pos h]

theorem exists_pending (p : Parser) : ∃ us, p.pending.tokens = [] ++ p.lookahead :: us := by
  by_cases h : p.lookahead.kind = .endOfFile
  · exact ⟨[], by rw [pending_eq_single h]; rfl⟩
  · exact ⟨p.scanner.drain.tokens, by rw [pending_eq_cons h]; rfl⟩

theorem drain_eq_pending {s : Scanner} {p : Parser} (h : Scanner.nextToken s = .ok p.lookahead p.scanner) :
    s.drain = p.pending := by
  by_cases he : p.lookahead.kind = .endOfFile
  · rw [pending_eq_single he, Scanner.drain_of_endOfFile h he]
  · rw [pending_eq_cons he, Scanner.drain_of_ok h he]
    rfl

/-- The parser went from `p` to `p'` by consuming the tokens `ts`. -/
structure Consumed (p : Parser) (ts : List Token) (p' : Parser) : Prop where
  pending : p.pending = p'.pending.prepend ts
  source : p'.scanner.source = p.scanner.source

theorem Consumed.refl (p : Parser) : Consumed p [] p :=
  ⟨rfl, rfl⟩

theorem Consumed.trans {p q r : Parser} {ts us : List Token} (h : Consumed p ts q) (h' : Consumed q us r) :
    Consumed p (ts ++ us) r where
  pending := by rw [h.pending, h'.pending, Stream.prepend_prepend]
  source := h'.source.trans h.source

/-- A parser with the rules of the language and a lookahead that came from a scanner. -/
structure Ready (p : Parser) : Prop where
  rules : p.rules = .standard
  scanned : p.lookahead.Scanned

theorem consumed_of_advance {p p' : Parser} {t : Token} (h : advance p = .ok t p')
    (he : p.lookahead.kind ≠ .endOfFile) : Consumed p [p.lookahead] p' := by
  obtain ⟨-, -, hn⟩ := advance_eq_ok h
  refine ⟨?_, (Scanner.pulls_of_nextToken hn).source⟩
  rw [pending_eq_cons he, drain_eq_pending hn]

theorem ready_of_advance {p p' : Parser} {t : Token} (h : advance p = .ok t p') (hp : p.Ready) : p'.Ready := by
  obtain ⟨-, hr, hn⟩ := advance_eq_ok h
  exact ⟨hr.trans hp.rules, (Scanner.pulls_of_nextToken hn).scanned⟩

theorem pending_of_advance_error {p p' : Parser} {d : Diagnostic} (h : advance p = .error d p')
    (he : p.lookahead.kind ≠ .endOfFile) : p.pending = ⟨[p.lookahead], some d⟩ := by
  unfold advance at h
  split at h
  · cases h
  · rename_i d' s' hn
    cases h
    rw [pending_eq_cons he, Scanner.drain_of_error hn]
    rfl

end Parser

namespace Source

theorem stream_eq_pending {s : Source} {p : Parser} (h : s.parser = .ok p) :
    s.stream = p.pending ∧ p.scanner.source = s ∧ p.Ready := by
  unfold parser at h
  split at h
  · rename_i t scanner hn
    cases h
    have hpulls := Scanner.pulls_of_nextToken hn
    exact ⟨Parser.drain_eq_pending hn, hpulls.source, rfl, hpulls.scanned⟩
  · cases h

theorem stream_eq_fault {s : Source} {d : Diagnostic} (h : s.parser = .error d) : s.stream = ⟨[], some d⟩ := by
  unfold parser at h
  split at h
  · cases h
  · rename_i d' scanner hn
    cases h
    exact Scanner.drain_of_error hn

end Source

end DeclScript
