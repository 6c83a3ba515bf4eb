import DeclScript.Proofs.Breakage
import DeclScript.Proofs.Rejection

set_option autoImplicit false

/-!
# Texts that cannot be scanned

A failure to scan cuts the stream of tokens short. The parser, which scans as it goes, then either comes to this failure
or stops before it, at a token that no program goes on with. It stops at such a token whenever there is one, except in
one place: an identifier where an import's source belongs is consumed before it is rejected, so a failure to scan what
stands behind it is reported instead.
-/

namespace DeclScript

open Progression

/-! ## Causes of failures to scan -/

theorem Breaks.isScanning {text : List Char} {n : Nat} {cause : Cause} (h : Breaks text n cause) :
    cause.isScanning := by
  cases h <;> rfl

theorem Scanner.isScanning_of_nextToken {s s' : Scanner} {d : Diagnostic} (h : nextToken s = .error d s') :
    d.cause.isScanning := by
  obtain ⟨n, hbreaks, -, -⟩ := breaks_of_nextToken h
  exact hbreaks.isScanning

theorem Scanner.isScanning_of_drain {s : Scanner} {d : Diagnostic} (h : s.drain.fault = some d) :
    d.cause.isScanning := by
  fun_induction drain s with
  | case1 s d' s' hn =>
      cases h
      exact isScanning_of_nextToken hn
  | case2 => cases h
  | case3 s t s' hn he hlt ih => exact ih h

/-! ## The failure that is reported -/

namespace Source

theorem tokens_eq_error_iff {s : Source} {e : Diagnostic} : s.tokens = .error e ↔ s.stream.fault = some e := by
  unfold tokens Stream.collect
  cases s.stream.fault <;> simp

theorem isScanning_of_tokens {s : Source} {e : Diagnostic} (h : s.tokens = .error e) : e.cause.isScanning :=
  Scanner.isScanning_of_drain (s := s.scanner) (tokens_eq_error_iff.1 h)

theorem exists_parse_eq_error {s : Source} {e : Diagnostic} (h : s.tokens = .error e) :
    ∃ d, s.parse = .error d := by
  cases hp : s.parse with
  | error d => exact ⟨d, rfl⟩
  | ok program =>
      obtain ⟨ts, ht, -⟩ := run_of_parse_eq_ok hp
      cases h.symm.trans ht

end Source

theorem Viable.of_append {ls ms : List Lexeme} (h : Viable (ls ++ ms)) : Viable ls := by
  obtain ⟨more, program, h⟩ := h
  rw [List.append_assoc] at h
  exact ⟨ms ++ more, program, h⟩

theorem Obstructs.not_viable_tokens {ts : List Token} {k : Nat} {t : Token} (h : Obstructs ts k t) :
    ¬ Viable (lexemes ts) := by
  intro hv
  rw [← List.take_append_drop (k + 1) ts, lexemes_append] at hv
  exact h.not_viable hv.of_append

theorem Rejects.isScanning_eq_false {ts : List Token} {d : Diagnostic} {k : Nat} {t : Token} (h : Rejects ts d k t) :
    d.cause.isScanning = false := by
  rcases h.kind with h | h <;> rw [h] <;> rfl

/-- The last token that could be scanned is an identifier in the place of an import's source. -/
structure Overtaken (ts : List Token) (k : Nat) (t : Token) : Prop where
  last : k + 1 = ts.length
  identifier : t.kind = .identifier
  source : AwaitsSource (lexemes (ts.take k))

/-- A failed parse reports the failure to scan or the token that obstructs the tokens scanned before it. -/
inductive Reported (ts : List Token) (fault : Option Diagnostic) (d : Diagnostic) : Prop
  | rejected {k : Nat} {t : Token} (h : Rejects ts d k t) (ho : ¬ Overtaken ts k t)
  | fault (hf : fault = some d) (hv : Viable (lexemes ts))
  | overtaken {k : Nat} {t : Token} (hf : fault = some d) (h : Obstructs ts k t) (ho : Overtaken ts k t)

theorem step_fromWord_identifier {body : List (Element Unit)} {first : String} {others : List String} {l : Lexeme}
    (h : l.kind = .identifier) : step ⟨body, .fromWord first others⟩ l = none := by
  obtain ⟨kind, value⟩ := l
  cases h
  cases value <;> rfl

theorem Source.reported_of_parse {s : Source} {d : Diagnostic} (h : s.parse = .error d) :
    Reported s.stream.tokens s.stream.fault d := by
  cases stops_of_parse_eq_error h with
  | fault hf hr => exact .fault hf (viable_iff_run.2 ⟨_, hr⟩)
  | @token s' us vs t htokens hr hs hd hu =>
      have hrejects := @rejects_of_stuck us vs t s' hr s hs
      rw [htokens, hd]
      refine .rejected hrejects fun ho => ?_
      -- The identifier was consumed before it was rejected, so the stream goes on behind it.
      have hcomplaint : s'.complaint t.kind = .unsuitableToken t.kind "expected a literal import source" :=
        hrejects.unsuitable_iff.2 ⟨ho.identifier, ho.source⟩
      have hvs : vs ≠ [] := hu (by rw [hcomplaint]; simp)
      have hpos := List.length_pos_iff.2 hvs
      have hlast := ho.last
      simp only [List.length_append, List.length_cons] at hlast
      omega
  | @overtaken body first others us t hf htokens hr ht =>
      rw [htokens]
      refine .overtaken hf (obstructs_of_stuck hr (step_fromWord_identifier ht)) ⟨by simp, ht, ?_⟩
      rw [List.take_left, awaitsSource_iff_phase hr]
      exact ⟨first, others, rfl⟩

/-- On a text that cannot be scanned, parsing fails with the failure to scan or at a token scanned before it, and with
the failure to scan if nothing is wrong with these tokens. No other failure to scan is ever reported. -/
theorem parse_agrees_with_scanning (s : Source) :
    (∀ e, s.tokens = .error e → ∃ d, s.parse = .error d ∧
      (d = e ∨ d.cause.isScanning = false ∧ ∃ t ∈ s.stream.tokens, d.position = t.span.start) ∧
      (Viable (lexemes s.stream.tokens) → d = e)) ∧
    ∀ d, s.parse = .error d → d.cause.isScanning = true → s.tokens = .error d := by
  constructor
  · intro e he
    obtain ⟨d, hd⟩ := Source.exists_parse_eq_error he
    have hf := Source.tokens_eq_error_iff.1 he
    have heq : ∀ d', s.stream.fault = some d' → d' = e := fun d' hf' => Option.some.inj (hf'.symm.trans hf)
    refine ⟨d, hd, ?_⟩
    cases Source.reported_of_parse hd with
    | @rejected k t h ho =>
        have ht : t ∈ s.stream.tokens := List.mem_of_getElem? h.token
        exact ⟨.inr ⟨h.isScanning_eq_false, t, ht, h.position⟩, fun hv => absurd hv h.not_viable_tokens⟩
    | fault hf' => exact ⟨.inl (heq d hf'), fun _ => heq d hf'⟩
    | overtaken hf' => exact ⟨.inl (heq d hf'), fun _ => heq d hf'⟩
  · intro d hd hscan
    rw [Source.tokens_eq_error_iff]
    cases Source.reported_of_parse hd with
    | rejected h =>
        rw [h.isScanning_eq_false] at hscan
        cases hscan
    | fault hf => exact hf
    | overtaken hf => exact hf

theorem parse_agrees_with_scanning_second_line :
    Source.tokens ⟨"# é\nlet x: T = 'é", "shell"⟩ =
      .error ⟨.malformedCharacter "end of file", ⟨17, 1, 13⟩, "shell", "let x: T = 'é"⟩ ∧
    Source.parse ⟨"# é\nlet x: T = 'é", "shell"⟩ =
      .error ⟨.malformedCharacter "end of file", ⟨17, 1, 13⟩, "shell", "let x: T = 'é"⟩ := by
  have he : Source.tokens ⟨"# é\nlet x: T = 'é", "shell"⟩ =
    .error ⟨.malformedCharacter "end of file", ⟨17, 1, 13⟩, "shell", "let x: T = 'é"⟩ := by decide +kernel
  have hv : Viable (lexemes (Source.stream ⟨"# é\nlet x: T = 'é", "shell"⟩).tokens) :=
    viable_iff_run.2 (Option.isSome_iff_exists.1 (by decide +kernel))
  obtain ⟨d, hd, -, heq⟩ := (parse_agrees_with_scanning _).1 _ he
  exact ⟨he, by rw [hd, heq hv]⟩

/-- If the tokens scanned before a failure are obstructed, the obstructing token is rejected, unless it was overtaken:
then the failure to scan hides it. -/
theorem parse_of_obstructed (s : Source) (e : Diagnostic) (he : s.tokens = .error e)
    (hv : ¬ Viable (lexemes s.stream.tokens)) :
    ∃ k t d, Obstructs s.stream.tokens k t ∧ s.parse = .error d ∧
      (¬ Overtaken s.stream.tokens k t → Rejects s.stream.tokens d k t ∧ d.cause.isScanning = false ∧ d ≠ e) ∧
      (Overtaken s.stream.tokens k t → d = e) := by
  obtain ⟨d, hd⟩ := Source.exists_parse_eq_error he
  have hf := Source.tokens_eq_error_iff.1 he
  cases Source.reported_of_parse hd with
  | @rejected k t h ho =>
      refine ⟨k, t, d, h.toObstructs, hd, fun _ => ⟨h, h.isScanning_eq_false, ?_⟩, fun hover => absurd hover ho⟩
      rintro rfl
      have hscan := Source.isScanning_of_tokens he
      rw [h.isScanning_eq_false] at hscan
      cases hscan
  | fault hf' hv' => exact absurd hv' hv
  | @overtaken k t hf' h ho =>
      exact ⟨k, t, d, h, hd, fun hno => absurd ho hno, fun _ => Option.some.inj (hf'.symm.trans hf)⟩

theorem parse_of_obstructed_second_line : ∃ k t,
    Source.tokens ⟨"# é\nlet x = 'é", "shell"⟩ =
      .error ⟨.malformedCharacter "end of file", ⟨14, 1, 10⟩, "shell", "let x = 'é"⟩ ∧
    Source.parse ⟨"# é\nlet x = 'é", "shell"⟩ =
      .error ⟨.unexpectedToken .punctuator, ⟨10, 1, 6⟩, "shell", "let x = 'é"⟩ ∧
    Rejects (Source.stream ⟨"# é\nlet x = 'é", "shell"⟩).tokens
      ⟨.unexpectedToken .punctuator, ⟨10, 1, 6⟩, "shell", "let x = 'é"⟩ k t := by
  have he : Source.tokens ⟨"# é\nlet x = 'é", "shell"⟩ =
    .error ⟨.malformedCharacter "end of file", ⟨14, 1, 10⟩, "shell", "let x = 'é"⟩ := by decide +kernel
  have hp : Source.parse ⟨"# é\nlet x = 'é", "shell"⟩ =
    .error ⟨.unexpectedToken .punctuator, ⟨10, 1, 6⟩, "shell", "let x = 'é"⟩ := by decide +kernel
  have hstuck : run ⟨[], .start⟩ (lexemes (Source.stream ⟨"# é\nlet x = 'é", "shell"⟩).tokens) = none :=
    Option.isNone_iff_eq_none.1 (by decide +kernel)
  have hv : ¬ Viable (lexemes (Source.stream ⟨"# é\nlet x = 'é", "shell"⟩).tokens) := by
    rw [viable_iff_run, hstuck]
    simp
  obtain ⟨k, t, d, -, hd, hno, hover⟩ := parse_of_obstructed _ _ he hv
  obtain rfl := Except.error.inj (hp.symm.trans hd)
  have ho : ¬ Overtaken (Source.stream ⟨"# é\nlet x = 'é", "shell"⟩).tokens k t := by
    intro ho
    cases hover ho
  exact ⟨k, t, he, hp, (hno ho).1⟩

/-- The identifier is no source of an import, but the character behind it is reported. -/
theorem parse_hides_obstruction :
    ¬ Viable (lexemes (Source.stream ⟨"import \x7b a \x7d from b @", "shell"⟩).tokens) ∧
    Source.tokens ⟨"import \x7b a \x7d from b @", "shell"⟩ =
      .error ⟨.unexpectedCharacter '@', ⟨20, 0, 20⟩, "shell", "import \x7b a \x7d from b @"⟩ ∧
    Source.parse ⟨"import \x7b a \x7d from b @", "shell"⟩ =
      .error ⟨.unexpectedCharacter '@', ⟨20, 0, 20⟩, "shell", "import \x7b a \x7d from b @"⟩ := by
  have hstuck : run ⟨[], .start⟩ (lexemes (Source.stream ⟨"import \x7b a \x7d from b @", "shell"⟩).tokens) = none :=
    Option.isNone_iff_eq_none.1 (by decide +kernel)
  refine ⟨?_, by decide +kernel, by decide +kernel⟩
  rw [viable_iff_run, hstuck]
  simp

end DeclScript
