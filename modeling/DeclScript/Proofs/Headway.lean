import DeclScript.Proofs.Aftermath

set_option autoImplicit false

/-!
# Productions make headway

The lookahead starts before the place that the scanner has come to, unless it is the end of the file, and the next token
starts at that place or behind it. So consuming a token moves the lookahead forward. A production that succeeds has
consumed a token, whatever the tables of rules are and whatever failed before, and so a loop cannot go round more often
than there are characters.
-/

namespace DeclScript

theorem Scanner.MovesTo.offset_le {s t : Scanner} (h : s.MovesTo t) : s.position.offset ≤ t.position.offset := by
  obtain ⟨n, ended, rfl⟩ := h
  simp only [skip_position, Position.after_offset]
  omega

theorem Scanner.MovesTo.rest {s t : Scanner} (h : s.MovesTo t) (hs : s.rest = []) : t.rest = [] := by
  obtain ⟨n, ended, rfl⟩ := h
  simp [hs]

namespace Parser

variable {α : Type} {s : Source} {p q : Parser}

/-! ## Where the lookahead stands -/

/-- The scanner stands in the source, behind the start of the lookahead. Behind the end of the file, nothing is left. -/
structure Placed (s : Source) (p : Parser) : Prop where
  stands : ∃ before, p.scanner.Stands s before
  start_le : p.marker.offset ≤ p.scanner.position.offset
  start_lt : p.lookahead.kind ≠ .endOfFile → p.marker.offset < p.scanner.position.offset
  rest : p.lookahead.kind = .endOfFile → p.scanner.rest = []

namespace Placed

theorem of_nextToken {t : Scanner} {before : List Char} (ht : t.Stands s before)
    (h : Scanner.nextToken t = .ok p.lookahead p.scanner) : p.Placed s := by
  obtain ⟨-, hle, hlt, hrest⟩ := (Scanner.pulls_of_nextToken h).start
  rcases t.movesTo_of_nextToken with ⟨u, t', hn, hm⟩ | ⟨cause, t', hn, -⟩
  · cases hn.symm.trans h
    obtain ⟨more, hstands⟩ := ht.move hm
    exact ⟨⟨_, hstands⟩, hle, hlt, hrest⟩
  · cases hn.symm.trans h

theorem withRules (h : p.Placed s) (rules : Rules) : Placed s { p with rules } :=
  ⟨h.stands, h.start_le, h.start_lt, h.rest⟩

theorem start_le_length (h : p.Placed s) : p.marker.offset ≤ s.text.length := by
  obtain ⟨before, hstands⟩ := h.stands
  have hle := h.start_le
  rw [hstands.position, offset_after] at hle
  rw [← String.length_toList, hstands.text, List.length_append]
  omega

theorem advance_ok {t : Token} (h : p.Placed s) (ha : advance p = .ok t q) :
    q.Placed s ∧ p.scanner.position.offset ≤ q.marker.offset := by
  obtain ⟨-, -, hn⟩ := advance_eq_ok ha
  obtain ⟨before, hstands⟩ := h.stands
  exact ⟨of_nextToken hstands hn, (Scanner.pulls_of_nextToken hn).start.1⟩

/-- A failure moves the scanner, but away from the lookahead. -/
theorem advance_error {d : Diagnostic} (h : p.Placed s) (ha : advance p = .error d q) : q.Placed s := by
  obtain ⟨hn, hlookahead, -⟩ := advance_eq_error ha
  rcases p.scanner.movesTo_of_nextToken with ⟨u, t', hn', -⟩ | ⟨cause, t', hn', hm⟩
  · cases hn'.symm.trans hn
  · cases hn'.symm.trans hn
    obtain ⟨before, hstands⟩ := h.stands
    obtain ⟨more, hmore⟩ := hstands.move hm
    have hle := hm.offset_le
    have hmarker : q.marker = p.marker := by rw [marker, hlookahead, marker]
    refine ⟨⟨_, hmore⟩, ?_, ?_, ?_⟩
    · rw [hmarker]
      exact h.start_le.trans hle
    · rw [hmarker, hlookahead]
      exact fun he => Nat.lt_of_lt_of_le (h.start_lt he) hle
    · rw [hlookahead]
      exact fun he => hm.rest (h.rest he)

theorem advances (h : p.Placed s) (hq : Advances p q) : q.Placed s := by
  induction hq with
  | refl => exact h
  | @tail q r _ hstep ih =>
      rw [hstep]
      cases ha : advance q with
      | ok t q' =>
          rw [leftBy_of_ok ha]
          exact (ih.advance_ok ha).1
      | error d q' =>
          rw [leftBy_of_error ha]
          exact ih.advance_error ha

theorem runAll (h : p.Placed s) (commands : List Command) : (p.runAll commands).Placed s := by
  induction commands generalizing p with
  | nil => exact h
  | cons command commands ih =>
      rcases p.run_cases command with hadvances | ⟨rules, hrules⟩
      · exact ih (h.advances hadvances)
      · have hrun : (p.run command).2.Placed s := hrules ▸ h.withRules rules
        exact ih hrun

/-! ## Moving forward -/

theorem proceeds (h : p.Placed s) (hq : p.Proceeds q) : q.Placed s ∧ p.marker.offset ≤ q.marker.offset := by
  induction hq with
  | refl => exact ⟨h, Nat.le_refl _⟩
  | @tail q r _ hstep ih =>
      obtain ⟨hplaced, hle⟩ := ih
      obtain ⟨hnext, hmove⟩ := hplaced.advance_ok hstep
      have := hplaced.start_le
      exact ⟨hnext, by omega⟩

/-- Who proceeds and becomes lighter has consumed a token first, and not the end of the file. -/
theorem lt_of_weight (h : p.Placed s) (hq : p.Proceeds q) (hw : q.weight < p.weight) :
    p.lookahead.kind ≠ .endOfFile ∧ p.marker.offset < q.marker.offset := by
  have he : p.lookahead.kind ≠ .endOfFile := by
    intro he
    simp only [weight, h.rest he, he, if_true, List.length_nil] at hw
    omega
  refine ⟨he, ?_⟩
  rcases Relation.ReflTransGen.cases_head hq with rfl | ⟨r, hstep, hr⟩
  · exact absurd hw (Nat.lt_irrefl _)
  · obtain ⟨hplaced, hmove⟩ := h.advance_ok hstep
    have hlt := h.start_lt he
    have hle := (hplaced.proceeds hr).2
    omega

end Placed

theorem proceeds_of_literalExpr {e : Expr Span} (h : literalExpr p = .ok e q) : p.Proceeds q := by
  obtain ⟨_, _, hget, h⟩ := bind_eq_ok h
  cases hget
  obtain ⟨t, r, ht, h⟩ := bind_eq_ok h
  cases hv : Constant.ofLexeme? t.toLexeme with
  | some value =>
      rw [hv] at h
      cases h
      exact proceeds_of_advance ht
  | none =>
      rw [hv] at h
      cases h

theorem progresses_produce {production : Production} (h : production ≠ .program) :
    Progresses (produce production) := by
  cases production with
  | program => exact absurd rfl h
  | element => exact progresses_element.bind fun _ => steady_pure _
  | statementBy rule => exact (progresses_runStatement rule).bind fun _ => steady_pure _
  | importSpecifier => exact progresses_importSpecifier.bind fun _ => steady_pure _
  | primary => exact progresses_primary.bind fun _ => steady_pure _
  | primaryBy rule => exact (progresses_runPrimary rule).bind fun _ => steady_pure _
  | identifier => exact progresses_identifier.bind fun _ => steady_pure _
  | callChain => exact progresses_callChain.bind fun _ => steady_pure _
  | arguments => exact progresses_arguments.bind fun _ => steady_pure _
  | argument => exact progresses_argument.bind fun _ => steady_pure _

theorem proceeds_of_produce {production : Production} {node : Node Span} (h : produce production p = .ok node q) :
    p.Proceeds q := by
  by_cases hl : production = .primaryBy .literal
  · subst hl
    obtain ⟨e, r, he, h⟩ := bind_eq_ok h
    cases h
    exact proceeds_of_literalExpr he
  · exact (pervasive_accounts.produce hl p).proceeds h

/-! ## Loops -/

/-- Items are read one after the other, as long as there are more. -/
inductive Rounds (more : Parser → Bool) (item : ParseM α) : Parser → List α → Parser → Prop
  | nil (p : Parser) : Rounds more item p [] p
  | cons {p q r : Parser} {a : α} {as : List α} (hmore : more p) (ha : item p = .ok a q)
      (h : Rounds more item q as r) : Rounds more item p (a :: as) r

/-- A loop that starts at `p` goes round at most `bound` times. Then it stops by itself or at an item that fails. -/
structure Ends (more : Parser → Bool) (item : ParseM α) (progress : Progresses item) (bound : Nat) (p : Parser) :
    Prop where
  bounded : ∀ as q, Rounds more item p as q → as.length ≤ bound
  stops : ∃ as q, Rounds more item p as q ∧
    (more q = false ∧ repeatWhile more item progress p = .ok as q ∨
      more q ∧ ∃ d r, item q = .error d r ∧ repeatWhile more item progress p = .error d r)

theorem repeatWhile_of_not_more {more : Parser → Bool} {item : ParseM α} (progress : Progresses item)
    (h : more p = false) : repeatWhile more item progress p = .ok [] p := by
  rw [repeatWhile, if_neg (by simp [h])]

theorem repeatWhile_of_more {more : Parser → Bool} {item : ParseM α} (progress : Progresses item) (h : more p) :
    repeatWhile more item progress p = (do
      let a ← item
      let as ← repeatWhile more item progress
      return a :: as) p := by
  nth_rewrite 1 [repeatWhile_eq]
  apply (bind_ok_eq rfl).trans
  rw [if_pos h]

theorem exists_rounds (more : Parser → Bool) {item : ParseM α} (progress : Progresses item) (p : Parser) :
    ∃ as q, Rounds more item p as q ∧
      (more q = false ∧ repeatWhile more item progress p = .ok as q ∨
        more q ∧ ∃ d r, item q = .error d r ∧ repeatWhile more item progress p = .error d r) := by
  induction hw : p.weight using Nat.strongRecOn generalizing p with
  | ind n ih =>
      cases hmore : more p with
      | false => exact ⟨[], p, .nil p, .inl ⟨hmore, repeatWhile_of_not_more progress hmore⟩⟩
      | true =>
          have hloop := repeatWhile_of_more progress hmore
          cases ha : item p with
          | error d r => exact ⟨[], p, .nil p, .inr ⟨hmore, d, r, ha, hloop.trans (bind_error_eq ha)⟩⟩
          | ok a q =>
              obtain ⟨as, r, hrounds, hrest⟩ := ih _ (hw ▸ progress ha) q rfl
              refine ⟨a :: as, r, .cons hmore ha hrounds, ?_⟩
              rcases hrest with ⟨hstop, hq⟩ | ⟨hr, d, r', herror, hq⟩
              · exact .inl ⟨hstop, hloop.trans ((bind_ok_eq ha).trans (bind_ok_eq hq))⟩
              · exact .inr ⟨hr, d, r', herror, hloop.trans ((bind_ok_eq ha).trans (bind_error_eq hq))⟩

theorem rounds_of_repeatWhile {more : Parser → Bool} {item : ParseM α} {progress : Progresses item} {as : List α}
    (h : repeatWhile more item progress p = .ok as q) : Rounds more item p as q :=
  repeatWhile_induction (motive := Rounds more item) (fun p _ => .nil p)
    (fun _ _ _ _ _ hmore ha hrest => .cons hmore ha hrest) h

theorem Placed.rounds {more : Parser → Bool} {item : ParseM α} {as : List α} (h : p.Placed s)
    (hr : Rounds more item p as q) (progress : Progresses item) (hitem : ∀ p, Accounts item p) :
    q.Placed s ∧ p.marker.offset + as.length ≤ q.marker.offset := by
  induction hr with
  | nil => exact ⟨h, Nat.le_refl _⟩
  | @cons p q r a as _ ha _ ih =>
      have hproceeds := (hitem p).proceeds ha
      have hlt := (h.lt_of_weight hproceeds (progress ha)).2
      obtain ⟨hplaced, hle⟩ := ih (h.proceeds hproceeds).1
      refine ⟨hplaced, ?_⟩
      rw [List.length_cons]
      omega

theorem Placed.ends (h : p.Placed s) (more : Parser → Bool) {item : ParseM α} (progress : Progresses item)
    (hitem : ∀ p, Accounts item p) : Ends more item progress s.text.length p where
  bounded := by
    intro as q hr
    obtain ⟨hplaced, hle⟩ := h.rounds hr progress hitem
    have := hplaced.start_le_length
    omega
  stops := exists_rounds more progress p

end Parser

theorem Source.Opens.placed {s : Source} {p : Parser} (h : s.Opens p) : p.Placed s := by
  obtain ⟨-, commands, hn⟩ := h
  obtain ⟨before, hstands⟩ := Scanner.exists_stands s commands
  exact .of_nextToken hstands hn

/-- Whatever was done with a parser and whatever its tables are, a production that succeeds, the whole program apart,
did not start at the end of the file and has moved the lookahead forward. So every loop of the productions ends, after
no more rounds than the source has characters, and this bounds the elements of a program. -/
theorem productions_make_headway (s : Source) (p : Parser) (hp : s.Opens p) (commands : List Parser.Command)
    (rules : Rules) :
    let q : Parser := { p.runAll commands with rules }
    (∀ production node r, production ≠ .program → Parser.produce production q = .ok node r →
      q.lookahead.kind ≠ .endOfFile ∧ q.lookahead.span.start.offset < r.lookahead.span.start.offset) ∧
    Parser.Ends (·.hasTokens) Parser.element Parser.progresses_element s.text.length q ∧
    Parser.Ends (·.atPunctuator ",") Parser.furtherSpecifier Parser.progresses_furtherSpecifier s.text.length q ∧
    (∀ start, Parser.Ends (·.atPunctuator "(") (Parser.callTail start) (Parser.progresses_callTail start)
      s.text.length q) ∧
    Parser.Ends (!·.atPunctuator ")") Parser.argument Parser.progresses_argument s.text.length q ∧
    ∀ program r, Parser.program q = .ok program r → program.body.length ≤ s.text.length := by
  intro q
  have hq : q.Placed s := (hp.placed.runAll commands).withRules rules
  have helements := hq.ends (·.hasTokens) Parser.progresses_element Parser.pervasive_accounts.anyElement
  have h := Parser.compositional_accounts
  refine ⟨?_, helements, hq.ends _ _ h.furtherSpecifier, fun start => hq.ends _ _ (h.callTail start),
    hq.ends _ _ h.argument, ?_⟩
  · intro production node r hne hr
    exact hq.lt_of_weight (Parser.proceeds_of_produce hr) (Parser.progresses_produce hne hr)
  · intro program r hr
    obtain ⟨_, _, hget, hr⟩ := Parser.bind_eq_ok hr
    cases hget
    obtain ⟨body, r, hbody, hr⟩ := Parser.bind_eq_ok hr
    cases hr
    exact helements.bounded _ _ (Parser.rounds_of_repeatWhile hbody)

/-- Two elements fail behind the first token, and the scanner gets over what it cannot read. With tables that know next
to nothing, the name is then read and the lookahead moves on. -/
theorem productions_make_headway_again : ∃ p node r, Source.parser ⟨"a ''; b", "shell"⟩ = .ok p ∧
    let q : Parser := { p.runAll [.produce .element, .produce .element] with
      rules := ⟨[("from", .comment)], [(.keyword, .literal)]⟩ }
    Parser.produce .identifier q = .ok node r ∧ q.lookahead.kind ≠ .endOfFile ∧
      q.lookahead.span.start.offset < r.lookahead.span.start.offset ∧ r.lookahead.span.start.offset = 6 := by
  let answer (p : Parser) := Parser.produce .identifier
    { p.runAll [.produce .element, .produce .element] with rules := ⟨[("from", .comment)], [(.keyword, .literal)]⟩ }
  have hrun : (Source.parser ⟨"a ''; b", "shell"⟩).toOption.map (fun p =>
      match answer p with
      | .ok _ r => some r.lookahead.span.start.offset
      | .error _ _ => none) = some (some 6) := by
    decide +kernel
  cases hp : Source.parser ⟨"a ''; b", "shell"⟩ with
  | error d =>
      rw [hp] at hrun
      cases hrun
  | ok p =>
      rw [hp] at hrun
      have hoffset := Option.some.inj hrun
      cases hanswer : answer p with
      | error d r =>
          simp only [hanswer] at hoffset
          cases hoffset
      | ok node r =>
          simp only [hanswer] at hoffset
          obtain ⟨hproduce, -⟩ := productions_make_headway _ p (Source.opens_parser hp)
            [.produce .element, .produce .element] ⟨[("from", .comment)], [(.keyword, .literal)]⟩
          obtain ⟨hkind, hlt⟩ := hproduce .identifier node r (by decide) hanswer
          exact ⟨p, node, r, rfl, hanswer, hkind, hlt, Option.some.inj hoffset⟩

end DeclScript
