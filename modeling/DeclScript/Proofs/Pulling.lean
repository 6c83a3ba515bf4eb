import DeclScript.Proofs.Standing

set_option autoImplicit false

/-!
# Two ways to pull tokens

Tokens are pulled by `nextToken`, or through `next`, which sets an end mark and heeds it. Both move the scanner alike, and
the end mark makes no difference to what is read there. Whoever takes turns between the two ways gets what one would get
by pulling with `nextToken` alone. Only `next` falls silent, and then it leaves the scanner as it is.
-/

namespace DeclScript

/-- The tokens, and the failure if there is one. -/
def Stream.items (s : Stream) : List (Except Diagnostic Token) :=
  s.tokens.map .ok ++ s.fault.toList.map .error

namespace Scanner

/-- What was pulled, if anything was. -/
def Reply.result? : Reply → Option (Except Diagnostic Token)
  | .token result => some result
  | .next result => result
  | _ => none

/-- Whether this is what `next` gives last: the end of the file or a failure. -/
def Reply.closes : Reply → Bool
  | .next (some (.ok t)) => t.kind == .endOfFile
  | .next (some (.error _)) => true
  | _ => false

def results (steps : List (Reply × Scanner)) : List (Except Diagnostic Token) :=
  steps.filterMap (·.1.result?)

/-- What `n` pulls in a row give. -/
def pulled (s : Scanner) (n : Nat) : List (Except Diagnostic Token) :=
  results (s.session (List.replicate n .nextToken))

/-- The tokens up to the first end of the file are collected, or the failure that comes before it. -/
inductive Collects : List (Except Diagnostic Token) → Except Diagnostic (List Token) → Prop
  | endOfFile {before : List Token} {last : Token} (hb : ∀ t ∈ before, t.kind ≠ .endOfFile)
      (hl : last.kind = .endOfFile) : Collects (before.map .ok ++ [.ok last]) (.ok (before ++ [last]))
  | failure {before : List Token} (d : Diagnostic) (hb : ∀ t ∈ before, t.kind ≠ .endOfFile) :
      Collects (before.map .ok ++ [.error d]) (.error d)

/-! ## The end mark -/

/-- The scanner with another end mark. -/
def marked (s : Scanner) (ended : Bool) : Scanner :=
  { s with ended }

def markResult (ended : Bool) :
    EStateM.Result Diagnostic Scanner Token → EStateM.Result Diagnostic Scanner Token
  | .ok t s => .ok t (s.marked ended)
  | .error d s => .error d (s.marked ended)

/-- Reading neither looks at the end mark nor changes it. -/
theorem readToken_marked (s : Scanner) (ended : Bool) :
    (s.marked ended).readToken = markResult ended s.readToken := by
  have hrest : (s.marked ended).rest = s.rest := rfl
  unfold readToken
  rw [hrest]
  cases s.rest with
  | nil => rfl
  | cons c cs =>
      simp only
      cases (readLexeme c cs).outcome <;> rfl

theorem nextToken_marked (s : Scanner) (ended : Bool) :
    nextToken (s.marked ended) = markResult ended (nextToken s) :=
  s.skipBlanks.readToken_marked ended

theorem run_of_nextToken_ok {s s' : Scanner} {t : Token} (h : nextToken s = .ok t s') :
    s.run .nextToken = (.token (.ok t), s') := by
  simp only [run, h]

theorem run_of_nextToken_error {s s' : Scanner} {d : Diagnostic} (h : nextToken s = .error d s') :
    s.run .nextToken = (.token (.error d), s') := by
  simp only [run, h]

/-- Pulling gives a token or a failure, the same under every end mark, and leaves the end mark alone. -/
theorem exists_pull (s : Scanner) : ∃ result s', s.run .nextToken = (.token result, s') ∧ s'.ended = s.ended ∧
    ∀ ended, (s.marked ended).run .nextToken = (.token result, s'.marked ended) := by
  have hself : nextToken s = markResult s.ended (nextToken s) := s.nextToken_marked s.ended
  cases hn : nextToken s with
  | ok t s' =>
      rw [hn] at hself
      injection hself with _ hs'
      refine ⟨.ok t, s', run_of_nextToken_ok hn, by rw [hs']; rfl, fun ended => run_of_nextToken_ok ?_⟩
      rw [nextToken_marked, hn]
      rfl
  | error d s' =>
      rw [hn] at hself
      injection hself with _ hs'
      refine ⟨.error d, s', run_of_nextToken_error hn, by rw [hs']; rfl, fun ended => run_of_nextToken_error ?_⟩
      rw [nextToken_marked, hn]
      rfl

/-- Through `next` comes what pulling gives, unless the end mark is set. -/
theorem run_next {s s' : Scanner} {result : Except Diagnostic Token} (h : s.run .nextToken = (.token result, s'))
    (he : s.ended = false) :
    s.run .next = (.next (some result), s'.marked (Reply.next (some result)).closes) := by
  cases hn : nextToken s with
  | ok t u =>
      cases (run_of_nextToken_ok hn).symm.trans h
      simp only [run, next, he, hn, Bool.false_eq_true, if_false]
      rfl
  | error d u =>
      cases (run_of_nextToken_error hn).symm.trans h
      simp only [run, next, he, hn, Bool.false_eq_true, if_false]
      rfl

theorem run_next_of_ended {s : Scanner} (he : s.ended = true) : s.run .next = (.next none, s) := by
  simp only [run, next, he, if_true]

/-- A call that skips no bytes pulls as `nextToken` does, or pulls nothing and does nothing. -/
theorem run_cases (s : Scanner) {command : Command} (h : ∀ n, command ≠ .skipBytes n) :
    ((s.run command).1.result? = none ∧ (s.run command).2 = s) ∨
    ∃ result s' ended, s.run .nextToken = (.token result, s') ∧ (s.run command).1.result? = some result ∧
      (s.run command).2 = s'.marked ended := by
  obtain ⟨result, s', hpull, -⟩ := s.exists_pull
  cases command with
  | nextToken => exact .inr ⟨result, s', s'.ended, hpull, by rw [hpull]; rfl, by rw [hpull]; rfl⟩
  | next =>
      cases he : s.ended with
      | true =>
          rw [run_next_of_ended he]
          exact .inl ⟨rfl, rfl⟩
      | false =>
          rw [run_next hpull he]
          exact .inr ⟨result, s', _, hpull, rfl, rfl⟩
  | skipBytes n => exact absurd rfl (h n)
  | _ => exact .inl ⟨rfl, rfl⟩

theorem ended_run (s : Scanner) (command : Command) :
    (s.run command).2.ended = (s.ended || (s.run command).1.closes) := by
  obtain ⟨result, s', hpull, hended, -⟩ := s.exists_pull
  cases command with
  | nextToken =>
      rw [hpull, hended]
      exact (Bool.or_false _).symm
  | next =>
      cases he : s.ended with
      | true =>
          rw [run_next_of_ended he, he]
          rfl
      | false =>
          rw [run_next hpull he]
          rfl
  | skipBytes n =>
      simp only [run, skipBytes?]
      cases charsInBytes? n s.rest <;> simp [Reply.closes]
  | _ => exact (Bool.or_false _).symm

/-! ## Sessions -/

theorem pulled_succ {s s' : Scanner} {result : Except Diagnostic Token} (h : s.run .nextToken = (.token result, s'))
    (n : Nat) : s.pulled (n + 1) = result :: s'.pulled n := by
  simp only [pulled, List.replicate_succ, session, h]
  rfl

theorem pulled_marked (s : Scanner) (ended : Bool) (n : Nat) : (s.marked ended).pulled n = s.pulled n := by
  induction n generalizing s with
  | zero => rfl
  | succ n ih =>
      obtain ⟨result, s', hpull, -, hmarked⟩ := s.exists_pull
      rw [pulled_succ hpull, pulled_succ (hmarked ended), ih]

/-- The results of a session come from pulls in a row. -/
theorem results_session (s : Scanner) {commands : List Command} (h : ∀ n, .skipBytes n ∉ commands) :
    results (s.session commands) = s.pulled (results (s.session commands)).length := by
  induction commands generalizing s with
  | nil => rfl
  | cons command commands ih =>
      have hcommand : ∀ n, command ≠ .skipBytes n := fun n hn => h n (hn ▸ List.mem_cons_self)
      have htail : ∀ n, .skipBytes n ∉ commands := fun n hn => h n (List.mem_cons_of_mem command hn)
      have ih := ih (s.run command).2 htail
      rcases s.run_cases hcommand with ⟨hnone, hs⟩ | ⟨result, s', ended, hpull, hsome, hs⟩
      · have hresults : results (s.session (command :: commands)) = results ((s.run command).2.session commands) :=
          List.filterMap_cons_none hnone
        rw [hs] at hresults ih
        rw [hresults, ← ih]
      · have hresults : results (s.session (command :: commands)) =
            result :: results ((s.run command).2.session commands) := List.filterMap_cons_some hsome
        rw [hs] at hresults ih
        rw [pulled_marked] at ih
        rw [hresults, List.length_cons, pulled_succ hpull, ← ih]

/-- The end mark is set once an answer of `next` was its last. -/
theorem ended_runAll (s : Scanner) (commands : List Command) : (s.runAll commands).ended = true ↔
    s.ended = true ∨ ∃ step ∈ s.session commands, step.1.closes := by
  induction commands generalizing s with
  | nil => simp [runAll, session]
  | cons command commands ih =>
      have ih := ih (s.run command).2
      rw [ended_run, Bool.or_eq_true, or_assoc] at ih
      simp only [session, List.exists_mem_cons_iff]
      exact ih

/-! ## Collecting -/

/-- What calls of `next` in a row give is the stream, and nothing behind it. -/
theorem results_next (s : Scanner) (n : Nat) :
    results (s.session (List.replicate n .next)) = s.stream.items.take n := by
  induction n generalizing s with
  | zero => rfl
  | succ n ih =>
      have ih := ih (s.run .next).2
      rw [List.replicate_succ, session]
      cases hn : s.next with
      | mk item s' =>
          have hrun : s.run .next = (.next item, s') := by rw [run, hn]
          rw [hrun] at ih ⊢
          cases item with
          | none =>
              obtain ⟨hstream, rfl⟩ := stream_of_next_none hn
              rw [hstream] at ih ⊢
              exact ih.trans (List.take_nil.trans List.take_nil.symm)
          | some result =>
              cases result with
              | ok t =>
                  rw [stream_of_next_token hn]
                  exact congrArg (.ok t :: ·) ih
              | error d =>
                  obtain ⟨hstream, hstream'⟩ := stream_of_next_failure hn
                  rw [hstream'] at ih
                  rw [hstream]
                  exact congrArg (.error d :: ·) ih

/-- What is drained is what pulls in a row give up to the first end of the file or failure. -/
theorem collects_drain (s : Scanner) : ∃ n, Collects (s.pulled n) s.drain.collect := by
  suffices h : ∃ before : List Token, (∀ t ∈ before, t.kind ≠ .endOfFile) ∧
      ((∃ last, last.kind = .endOfFile ∧ s.drain = ⟨before ++ [last], none⟩ ∧
        s.pulled (before.length + 1) = before.map .ok ++ [.ok last]) ∨
      ∃ d, s.drain = ⟨before, some d⟩ ∧ s.pulled (before.length + 1) = before.map .ok ++ [.error d]) by
    obtain ⟨before, hb, ⟨last, hl, hdrain, hpulled⟩ | ⟨d, hdrain, hpulled⟩⟩ := h
    · refine ⟨before.length + 1, ?_⟩
      rw [hdrain, hpulled]
      exact .endOfFile hb hl
    · refine ⟨before.length + 1, ?_⟩
      rw [hdrain, hpulled]
      exact .failure d hb
  fun_induction drain s with
  | case1 s d s' hn => exact ⟨[], by simp, .inr ⟨d, rfl, pulled_succ (run_of_nextToken_error hn) 0⟩⟩
  | case2 s t s' hn he => exact ⟨[], by simp, .inl ⟨t, he, rfl, pulled_succ (run_of_nextToken_ok hn) 0⟩⟩
  | case3 s t s' hn he hlt ih =>
      have hpull := run_of_nextToken_ok hn
      obtain ⟨before, hb, ih⟩ := ih
      have hbefore : ∀ u ∈ t :: before, u.kind ≠ .endOfFile := by
        intro u hu
        rcases List.mem_cons.1 hu with rfl | hu
        · exact he
        · exact hb u hu
      refine ⟨t :: before, hbefore, ?_⟩
      rcases ih with ⟨last, hl, hdrain, hpulled⟩ | ⟨d, hdrain, hpulled⟩
      · refine .inl ⟨last, hl, by rw [hdrain]; rfl, ?_⟩
        rw [List.length_cons, pulled_succ hpull, hpulled]
        rfl
      · refine .inr ⟨d, by rw [hdrain]; rfl, ?_⟩
        rw [List.length_cons, pulled_succ hpull, hpulled]
        rfl

end Scanner

/-- Calls of `nextToken` and `next` in any order, with other calls between that skip no bytes, give what calls of
`nextToken` alone give. After any calls, `next` gives nothing exactly when the end of the file or a failure came through
it before, and it does nothing then; collecting gives nothing in this case, and otherwise what pulling on would give. -/
theorem next_shares_stream (s : Source) (commands : List Scanner.Command) :
    ((∀ n, .skipBytes n ∉ commands) → Scanner.results (s.scanner.session commands) =
      s.scanner.pulled (Scanner.results (s.scanner.session commands)).length) ∧
    (∀ t, (s.scanner.runAll commands).run .next = (.next none, t) ↔
      t = s.scanner.runAll commands ∧ ∃ step ∈ s.scanner.session commands, step.1.closes) ∧
    ∃ result, (s.scanner.runAll commands).run .collect = (.tokens result, s.scanner.runAll commands) ∧
      ((∃ step ∈ s.scanner.session commands, step.1.closes) → result = .ok []) ∧
      ((∀ step ∈ s.scanner.session commands, ¬ step.1.closes) →
        ∃ n, Scanner.Collects ((s.scanner.runAll commands).pulled n) result) := by
  have hended := s.scanner.ended_runAll commands
  have hstart : s.scanner.ended = false := rfl
  simp only [hstart, Bool.false_eq_true, false_or] at hended
  generalize s.scanner.runAll commands = t at hended ⊢
  refine ⟨s.scanner.results_session, ?_, t.stream.collect, rfl, ?_, ?_⟩
  · intro u
    rw [← hended]
    cases he : t.ended with
    | true => simp [Scanner.run_next_of_ended he, eq_comm]
    | false =>
        obtain ⟨result, t', hpull, -⟩ := t.exists_pull
        simp [Scanner.run_next hpull he]
  · intro hcloses
    rw [Scanner.stream, if_pos (hended.2 hcloses)]
    rfl
  · intro hopen
    have he : ¬ t.ended = true := by
      rw [hended]
      rintro ⟨step, hstep, hcloses⟩
      exact hopen step hstep hcloses
    rw [Scanner.stream, if_neg he]
    exact t.collects_drain

/-- A failure that came through `nextToken` does not close `next`, which goes on to the end of the file. Before the
failure, collecting gives it. -/
theorem next_shares_stream_failure : ∃ s t u d e, s = Source.scanner ⟨"a '", "shell"⟩ ∧
    t = s.runAll [.next, .nextToken, .next] ∧ u = s.runAll [.next] ∧
    d.cause = .malformedCharacter "end of file" ∧ e.kind = .endOfFile ∧
    Scanner.results (s.session [.next, .nextToken, .next]) =
      [.ok ⟨⟨.identifier, .text "a"⟩, ⟨⟨0, 0, 0⟩, ⟨1, 0, 1⟩⟩⟩, .error d, .ok e] ∧
    s.pulled 3 = [.ok ⟨⟨.identifier, .text "a"⟩, ⟨⟨0, 0, 0⟩, ⟨1, 0, 1⟩⟩⟩, .error d, .ok e] ∧
    t.run .next = (.next none, t) ∧ t.run .collect = (.tokens (.ok []), t) ∧
    u.run .collect = (.tokens (.error d), u) ∧ ∃ n, Scanner.Collects (u.pulled n) (.error d) := by
  have hresults : Scanner.results (Scanner.session (Source.scanner ⟨"a '", "shell"⟩) [.next, .nextToken, .next]) =
      [.ok ⟨⟨.identifier, .text "a"⟩, ⟨⟨0, 0, 0⟩, ⟨1, 0, 1⟩⟩⟩,
        .error ⟨.malformedCharacter "end of file", ⟨3, 0, 3⟩, "shell", "a '"⟩,
        .ok ⟨⟨.endOfFile, .none⟩, ⟨⟨3, 0, 3⟩, ⟨3, 0, 3⟩⟩⟩] := by
    rfl
  have hcloses : ∃ step ∈ Scanner.session (Source.scanner ⟨"a '", "shell"⟩) [.next, .nextToken, .next],
      step.1.closes := ⟨_, List.mem_cons_of_mem _ (List.mem_cons_of_mem _ List.mem_cons_self), rfl⟩
  have hopen : ∀ step ∈ Scanner.session (Source.scanner ⟨"a '", "shell"⟩) [.next], ¬ step.1.closes := by
    intro step hstep
    obtain rfl := List.mem_singleton.1 hstep
    exact Bool.false_ne_true
  have hfailure : Scanner.run (Scanner.runAll (Source.scanner ⟨"a '", "shell"⟩) [.next]) .collect =
      (.tokens (.error ⟨.malformedCharacter "end of file", ⟨3, 0, 3⟩, "shell", "a '"⟩),
        Scanner.runAll (Source.scanner ⟨"a '", "shell"⟩) [.next]) := by
    have hcollected : Stream.collect (Scanner.stream (Scanner.runAll (Source.scanner ⟨"a '", "shell"⟩) [.next])) =
        .error ⟨.malformedCharacter "end of file", ⟨3, 0, 3⟩, "shell", "a '"⟩ := by
      decide +kernel
    rw [Scanner.run, hcollected]
  obtain ⟨hpulled, hnext, closed, hcollect, hclosed, -⟩ :=
    next_shares_stream ⟨"a '", "shell"⟩ [.next, .nextToken, .next]
  obtain ⟨-, -, result, hcollect', -, hcollects⟩ := next_shares_stream ⟨"a '", "shell"⟩ [.next]
  have hpulled := hpulled (by simp)
  rw [hresults] at hpulled
  cases hclosed hcloses
  cases hcollect'.symm.trans hfailure
  exact ⟨_, _, _, _, _, rfl, rfl, rfl, rfl, rfl, hresults, hpulled.symm, (hnext _).2 ⟨rfl, hcloses⟩, hcollect,
    hfailure, hcollects hopen⟩

end DeclScript
