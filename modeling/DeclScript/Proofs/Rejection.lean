import DeclScript.Proofs.Acceptance

set_option autoImplicit false

/-!
# What the parser rejects

A text that can be scanned but not parsed has a first token behind which no program goes on. The diagnostic stands at
this token, carries its kind, and comes with a reason only for an identifier in the place of an import's source.
-/

namespace DeclScript

open Progression

/-- A program can start with the first `k` tokens of `ts`, but not with the next one, `t`, as well. -/
structure Obstructs (ts : List Token) (k : Nat) (t : Token) : Prop where
  token : ts[k]? = some t
  viable : Viable (lexemes (ts.take k))
  not_viable : ¬ Viable (lexemes (ts.take (k + 1)))

/-- The diagnostic `d` says that `t` obstructs `ts`. -/
structure Rejects (ts : List Token) (d : Diagnostic) (k : Nat) (t : Token) : Prop extends Obstructs ts k t where
  position : d.position = t.span.start
  kind : d.cause = .unexpectedToken t.kind ∨
    d.cause = .unsuitableToken t.kind "expected a literal import source"
  unsuitable_iff : d.cause = .unsuitableToken t.kind "expected a literal import source" ↔
    t.kind = .identifier ∧ AwaitsSource (lexemes (ts.take k))

/-- The diagnostic `d` blames `t`, which stands behind `k` tokens of `ts` that a program can start with. -/
structure Blames (ts : List Token) (d : Diagnostic) (k : Nat) (t : Token) : Prop where
  token : ts[k]? = some t
  position : d.position = t.span.start
  viable : Viable (lexemes (ts.take k))
  not_viable : ¬ Viable (lexemes (ts.take (k + 1)))
  -- If `t` is the end of the file, a program cannot end there.
  incomplete : k + 1 = ts.length → ∀ body, ¬ IsBody (lexemes (ts.take k)) body
  kind : d.cause = .unexpectedToken t.kind ∨
    d.cause = .unsuitableToken t.kind "expected a literal import source"
  unsuitable_iff : d.cause = .unsuitableToken t.kind "expected a literal import source" ↔
    t.kind = .identifier ∧ AwaitsSource (lexemes (ts.take k))

theorem complaint_cases (s : Progression) (kind : Kind) :
    (∃ first others, s.phase = .fromWord first others ∧ kind = .identifier ∧
      s.complaint kind = .unsuitableToken kind "expected a literal import source") ∨
    ((∀ first others, s.phase = .fromWord first others → kind ≠ .identifier) ∧
      s.complaint kind = .unexpectedToken kind) := by
  unfold complaint
  split
  · exact .inl ⟨_, _, ‹_›, rfl, rfl⟩
  · rename_i hne
    exact .inr ⟨fun first others hp hk => hne first others hp hk, rfl⟩

theorem Source.last_eq_endOfFile {s : Source} {us : List Token} {t : Token} (h : s.tokens = .ok (us ++ [t])) :
    t.toLexeme = .endOfFile := by
  obtain ⟨before, s', htokens, -, -, -⟩ := exists_endOfFile h
  obtain ⟨-, ht⟩ := List.append_inj' htokens rfl
  cases ht
  rfl

theorem not_isBody_of_step_endOfFile {s : Progression} {ls : List Lexeme} (hr : run ⟨[], .start⟩ ls = some s)
    (hs : s.step .endOfFile = none) (body : List (Element Unit)) : ¬ IsBody ls body := by
  intro hb
  rw [run_isBody [] hb] at hr
  cases hr
  cases hs

section Stuck

variable {us vs : List Token} {t : Token} {s' : Progression} (hr : run ⟨[], .start⟩ (lexemes us) = some s')
include hr

theorem awaitsSource_iff_phase : AwaitsSource (lexemes us) ↔ ∃ first others, s'.phase = .fromWord first others := by
  rw [awaitsSource_iff_run]
  constructor
  · rintro ⟨body, first, others, h⟩
    rw [hr] at h
    cases h
    exact ⟨first, others, rfl⟩
  · rintro ⟨first, others, hp⟩
    obtain ⟨body, phase⟩ := s'
    cases hp
    exact ⟨body, first, others, hr⟩

theorem obstructs_of_stuck (hs : s'.step t.toLexeme = none) : Obstructs (us ++ t :: vs) us.length t := by
  have htake : (us ++ t :: vs).take us.length = us := List.take_left
  have htake' : (us ++ t :: vs).take (us.length + 1) = us ++ [t] := by
    rw [← List.singleton_append, ← List.append_assoc]
    exact List.take_left' (by simp)
  have hstuck : run ⟨[], .start⟩ (lexemes (us ++ [t])) = none := by
    rw [lexemes_append]
    exact run_eq_none [] hr hs
  constructor
  case token => simp
  case viable =>
    rw [htake]
    exact viable_iff_run.2 ⟨s', hr⟩
  case not_viable =>
    rw [htake', viable_iff_run, hstuck]
    rintro ⟨s'', h⟩
    cases h

theorem rejects_of_stuck (s : Source) (hs : s'.step t.toLexeme = none) :
    Rejects (us ++ t :: vs) (s.diagnose (s'.complaint t.kind) t.span.start) us.length t := by
  have htake : (us ++ t :: vs).take us.length = us := List.take_left
  refine ⟨obstructs_of_stuck hr hs, rfl, ?_, ?_⟩
  · rcases complaint_cases s' t.kind with ⟨_, _, _, _, h⟩ | ⟨_, h⟩
    · exact .inr h
    · exact .inl h
  · rw [htake, awaitsSource_iff_phase hr]
    rcases complaint_cases s' t.kind with ⟨first, others, hp, hk, h⟩ | ⟨hne, h⟩
    · exact ⟨fun _ => ⟨hk, first, others, hp⟩, fun _ => h⟩
    · constructor
      · intro hc
        cases h.symm.trans hc
      · rintro ⟨hk, first, others, hp⟩
        exact absurd hk (hne first others hp)

end Stuck

theorem blames_of_stuck {s : Source} {us vs : List Token} {t : Token} {s' : Progression}
    (ht : s.tokens = .ok (us ++ t :: vs)) (hr : run ⟨[], .start⟩ (lexemes us) = some s')
    (hs : s'.step t.toLexeme = none) :
    Blames (us ++ t :: vs) (s.diagnose (s'.complaint t.kind) t.span.start) us.length t := by
  have hrejects := @rejects_of_stuck us vs t s' hr s hs
  constructor
  case token => exact hrejects.token
  case position => exact hrejects.position
  case viable => exact hrejects.viable
  case not_viable => exact hrejects.not_viable
  case incomplete =>
    intro hlast
    have hvs : vs = [] := by
      rw [List.length_append, List.length_cons] at hlast
      exact List.eq_nil_of_length_eq_zero (by omega)
    subst hvs
    rw [Source.last_eq_endOfFile ht] at hs
    rw [List.take_left]
    exact not_isBody_of_step_endOfFile hr hs
  case kind => exact hrejects.kind
  case unsuitable_iff => exact hrejects.unsuitable_iff

/-- A text that can be scanned and not parsed is rejected at its first token that no program can go on with. -/
theorem parse_error_blames (s : Source) (ts : List Token) (d : Diagnostic) (ht : s.tokens = .ok ts)
    (hd : s.parse = .error d) : d.cause.isScanning = false ∧ ∃ k t, Blames ts d k t := by
  have hstops := Source.stops_of_parse_eq_error hd
  rw [Source.tokens_eq_ok_iff.1 ht] at hstops
  obtain ⟨k, t, hb⟩ : ∃ k t, Blames ts d k t := by
    cases hstops with
    | fault hf => cases hf
    | overtaken hf => cases hf
    | @token s' us vs t htokens hr hs hc =>
        cases htokens
        cases hc
        exact ⟨us.length, t, blames_of_stuck ht hr hs⟩
  refine ⟨?_, k, t, hb⟩
  rcases hb.kind with h | h <;> rw [h] <;> rfl

theorem parse_error_blames_second_line :
    ∃ ts k t, Source.tokens ⟨"# é\nimport \x7ba\x7d from b;", "shell"⟩ = .ok ts ∧
      Blames ts ⟨.unsuitableToken .identifier "expected a literal import source", ⟨20, 1, 16⟩, "shell",
        "import \x7ba\x7d from b;"⟩ k t := by
  have hok : (Source.tokens ⟨"# é\nimport \x7ba\x7d from b;", "shell"⟩).isOk = true := by decide +kernel
  have hd : Source.parse ⟨"# é\nimport \x7ba\x7d from b;", "shell"⟩ = .error ⟨.unsuitableToken .identifier
    "expected a literal import source", ⟨20, 1, 16⟩, "shell", "import \x7ba\x7d from b;"⟩ := by decide +kernel
  cases ht : Source.tokens ⟨"# é\nimport \x7ba\x7d from b;", "shell"⟩ with
  | error d =>
      rw [ht] at hok
      cases hok
  | ok ts =>
      obtain ⟨-, k, t, hb⟩ := parse_error_blames _ ts _ ht hd
      exact ⟨ts, k, t, rfl, hb⟩

end DeclScript
