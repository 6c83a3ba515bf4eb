import DeclScript.Proofs.Following

set_option autoImplicit false

/-!
# What the parser accepts

Parsing a text is reading its stream of tokens beside the recognizer, from the empty program to the end of the file. A
text is therefore parsed exactly when it can be scanned and its lexemes are a program.
-/

namespace DeclScript

open Progression

theorem Token.Scanned.eq_endOfFile {t : Token} (h : t.Scanned) (he : t.kind = .endOfFile) :
    t.toLexeme = .endOfFile := by
  rcases h with h | ⟨word, h⟩
  · exact h
  · exact absurd he h.kind_ne_endOfFile

namespace Source

theorem parse_eq_program {s : Source} {p : Parser} (h : s.parser = .ok p) :
    s.parse = match Parser.program p with
      | .ok program _ => .ok program
      | .error d _ => .error d := by
  unfold parse
  rw [h]
  rfl

/-- A text that parses was read from its first token to the end of the file. -/
theorem exists_program_of_parse {s : Source} {program : Program Span} (h : s.parse = .ok program) :
    ∃ p q, p.Ready ∧ s.stream = p.pending ∧ Parser.program p = .ok program q ∧
      q.lookahead.kind = .endOfFile := by
  cases hp : s.parser with
  | error d =>
      unfold parse at h
      rw [hp] at h
      cases h
  | ok p =>
      rw [parse_eq_program hp] at h
      obtain ⟨hstream, -, hready⟩ := stream_eq_pending hp
      cases hprogram : Parser.program p with
      | error d q =>
          rw [hprogram] at h
          cases h
      | ok tree q =>
          rw [hprogram] at h
          cases h
          have hkind : q.lookahead.kind = .endOfFile := by
            simpa [Parser.hasTokens] using Parser.not_hasTokens_of_program hprogram
          exact ⟨p, q, hready, hstream, hprogram, hkind⟩

theorem tokens_of_consumed {s : Source} {p q : Parser} {ts : List Token} (hstream : s.stream = p.pending)
    (h : Parser.Consumed p ts q) (hkind : q.lookahead.kind = .endOfFile) : s.tokens = .ok (ts ++ [q.lookahead]) := by
  rw [tokens_eq_ok_iff, hstream, h.pending, Parser.pending_eq_single hkind]
  rfl

theorem run_of_parse_eq_ok {s : Source} {program : Program Span} (h : s.parse = .ok program) :
    ∃ ts, s.tokens = .ok ts ∧ run ⟨[], .start⟩ (lexemes ts) = some ⟨program.erase.body, .ended⟩ := by
  obtain ⟨p, q, hready, hstream, hprogram, hkind⟩ := exists_program_of_parse h
  have ho := Parser.outcome_program hready
  rw [hprogram] at ho
  obtain ⟨hq, ts, hconsumed, hrun⟩ := ho
  refine ⟨ts ++ [q.lookahead], tokens_of_consumed hstream hconsumed hkind, ?_⟩
  have hl : lexemes [q.lookahead] = [.endOfFile] := congrArg (· :: []) (hq.scanned.eq_endOfFile hkind)
  rw [lexemes_append, run_append, hrun, hl]
  rfl

theorem stops_of_parse_eq_error {s : Source} {d : Diagnostic} (h : s.parse = .error d) :
    Stops s s.stream ⟨[], .start⟩ d := by
  cases hp : s.parser with
  | error d' =>
      unfold parse at h
      rw [hp] at h
      cases h
      rw [stream_eq_fault hp]
      exact .fault rfl rfl
  | ok p =>
      rw [parse_eq_program hp] at h
      obtain ⟨hstream, hsource, hready⟩ := stream_eq_pending hp
      have ho := Parser.outcome_program hready
      cases hprogram : Parser.program p with
      | ok tree q =>
          rw [hprogram] at h
          cases h
      | error d' q =>
          rw [hprogram] at h ho
          cases h
          change Stops p.scanner.source p.pending _ _ at ho
          rwa [hsource, ← hstream] at ho

theorem isProgram_of_parse {s : Source} {program : Program Span} (h : s.parse = .ok program) :
    ∃ ts, s.tokens = .ok ts ∧ IsProgram (lexemes ts) program.erase := by
  obtain ⟨ts, ht, hr⟩ := run_of_parse_eq_ok h
  exact ⟨ts, ht, isProgram_iff_run.2 hr⟩

theorem parse_of_isProgram {s : Source} {ts : List Token} {tree : Program Unit} (ht : s.tokens = .ok ts)
    (h : IsProgram (lexemes ts) tree) : ∃ program, s.parse = .ok program ∧ program.erase = tree := by
  have hr := isProgram_iff_run.1 h
  cases hp : s.parse with
  | ok program =>
      obtain ⟨us, hu, hrun⟩ := run_of_parse_eq_ok hp
      rw [ht] at hu
      cases hu
      rw [hr] at hrun
      obtain ⟨body, mark⟩ := tree
      cases hrun
      exact ⟨program, rfl, rfl⟩
  | error d =>
      have hstops := stops_of_parse_eq_error hp
      rw [tokens_eq_ok_iff.1 ht] at hstops
      cases hstops with
      | token htokens hrun hs hd =>
          have hts := congrArg lexemes htokens
          rw [lexemes_append] at hts
          rw [hts] at hr
          cases (run_eq_none _ hrun hs).symm.trans hr
      | fault hf => cases hf
      | overtaken hf => cases hf

end Source

/-- A text is parsed exactly when its tokens derive a program, and then to the tree of the derivation. -/
theorem parse_iff_isProgram (s : Source) (tree : Program Unit) :
    (∃ program, s.parse = .ok program ∧ program.erase = tree) ↔
      ∃ ts, s.tokens = .ok ts ∧ IsProgram (lexemes ts) tree := by
  constructor
  · rintro ⟨program, h, rfl⟩
    exact Source.isProgram_of_parse h
  · rintro ⟨ts, ht, h⟩
    exact Source.parse_of_isProgram ht h

end DeclScript
