import DeclScript.Proofs.Layout

set_option autoImplicit false

/-!
# What later text cannot change

Whether a lexeme ends can be seen from the next character alone. A token with a character behind it is therefore
settled: whatever text follows this character, the token is read as it is. So two texts that start alike have the same
tokens up to the last character that they share, and what goes wrong behind it, in one of them or in both, takes none of
these tokens away.
-/

namespace DeclScript

/-! ## One character of lookahead -/

/-- Punctuators grow one character at a time: what they start with are punctuators too. -/
theorem take_mem_punctuators {p : List Char} (hp : p ∈ punctuators) (n : Nat) : p.take (n + 1) ∈ punctuators := by
  have all : ∀ p ∈ punctuators, ∀ n < p.length, p.take (n + 1) ∈ punctuators := by decide
  rcases Nat.lt_or_ge n p.length with hn | hn
  · exact all p hp n hn
  · rwa [List.take_of_length_le (Nat.le_succ_of_le hn)]

/-- What stands behind the next character makes no difference to where a lexeme ends. -/
theorem Lexeme.Ends.congr {l : Lexeme} {word rest : List Char} {c : Char} (h : l.Ends word (c :: rest))
    (other : List Char) : l.Ends word (c :: other) := by
  obtain ⟨kind, value⟩ := l
  cases kind with
  | punctuator =>
      intro p hp hprefix
      by_contra hlong
      -- a longer punctuator starts with the one that the next character makes
      have hshort : p.take (word.length + 1) = word ++ [c] := by
        have hlength : (p.take (word.length + 1)).length = (word ++ [c]).length := by
          rw [List.length_append, List.length_singleton, List.length_take]
          omega
        have hfront : p.take (word.length + 1) <+: word ++ [c] :=
          List.prefix_of_prefix_length_le ((List.take_prefix _ p).trans hprefix) ⟨other, by simp⟩ hlength.le
        exact hfront.eq_of_length hlength
      have hle := h (word ++ [c]) (hshort ▸ take_mem_punctuators hp word.length) ⟨rest, by simp⟩
      rw [List.length_append, List.length_singleton] at hle
      omega
  | _ => exact h

/-! ## Two scanners before texts that start alike -/

namespace Scanner

/-- The scanners stand at the same place before the text `common`, behind which their texts may differ. -/
structure Shares (common : List Char) (s t : Scanner) : Prop where
  position : s.position = t.position
  left : common <+: s.rest
  right : common <+: t.rest

variable {common : List Char} {s s' t : Scanner} {token : Token}

theorem Shares.symm (h : Shares common s t) : Shares common t s :=
  ⟨h.position.symm, h.right, h.left⟩

/-- What one scanner pulls before the last shared character, the other one pulls too. -/
theorem Shares.pulls (h : Shares common s t) (hp : s.Pulls token s') (he : token.kind ≠ .endOfFile)
    (hstop : token.span.stop.offset < s.position.offset + common.length) : ∃ t' common', t.Pulls token t' ∧
      Shares common' s' t' ∧ s'.position.offset + common'.length = s.position.offset + common.length := by
  cases hp with
  | endOfFile => exact absurd rfl he
  | @lexeme l blanks word rest hr hb hs hends =>
      obtain ⟨v, hv⟩ := h.left
      obtain ⟨w, hw⟩ := h.right
      simp only [Position.after_offset] at hstop
      have hsplit : blanks ++ word ++ rest = common ++ v := by rw [hv, hr, List.append_assoc]
      -- the text behind the token starts with a character that is shared
      obtain ⟨more, hcommon, hrest⟩ : ∃ more, common = blanks ++ word ++ more ∧ rest = more ++ v := by
        rcases List.append_eq_append_iff.1 hsplit with ⟨more, hcommon, hrest⟩ | ⟨more, hword, -⟩
        · exact ⟨more, hcommon, hrest⟩
        · rw [hword, List.length_append] at hstop
          omega
      cases more with
      | nil =>
          rw [hcommon, List.append_nil] at hstop
          omega
      | cons c more =>
          rw [hrest] at hends
          have hr' : t.rest = blanks ++ (word ++ (c :: more ++ w)) := by
            rw [← hw, hcommon]
            simp
          have hpulls := Pulls.lexeme hr' hb hs (hends.congr (more ++ w))
          rw [← h.position] at hpulls
          refine ⟨_, c :: more, hpulls, ⟨rfl, ?_, List.prefix_append _ w⟩, ?_⟩
          · rw [hrest]
            exact List.prefix_append _ v
          · simp only [hcommon, Position.after_offset, List.length_append]
            omega

end Scanner

/-! ## Settled tokens -/

/-- The token ends before the place `n`, and it is not the end of the file. -/
def Token.endsBefore (n : Nat) (t : Token) : Bool :=
  t.kind != .endOfFile && t.span.stop.offset < n

theorem Token.endsBefore_eq_true {n : Nat} {t : Token} :
    t.endsBefore n = true ↔ t.kind ≠ .endOfFile ∧ t.span.stop.offset < n := by
  simp [endsBefore]

/-- The tokens of a stream that end before the place `n`. -/
def Stream.endingBefore (n : Nat) (s : Stream) : List Token :=
  s.tokens.filter (Token.endsBefore n)

namespace Scanner

variable {n : Nat} {s s' : Scanner} {token : Token}

theorem Pulls.le_stop (h : s.Pulls token s') : s.position.offset ≤ token.span.stop.offset := by
  obtain ⟨hstart, hstop, -⟩ := h.start
  rw [h.position] at hstop
  exact hstart.trans hstop

theorem le_stop_of_drain (s : Scanner) : ∀ t ∈ s.drain.tokens, s.position.offset ≤ t.span.stop.offset := by
  fun_induction drain s with
  | case1 => simp
  | case2 s t s' hn he =>
      intro u hu
      obtain rfl := List.mem_singleton.1 hu
      exact (pulls_of_nextToken hn).le_stop
  | case3 s t s' hn he hlt ih =>
      have hp := pulls_of_nextToken hn
      rw [hp.position] at ih
      intro u hu
      rcases List.mem_cons.1 hu with rfl | hu
      · exact hp.le_stop
      · exact hp.le_stop.trans (ih u hu)

theorem endingBefore_of_pulls (hp : s.Pulls token s') (ht : token.endsBefore n) :
    s.drain.endingBefore n = token :: s'.drain.endingBefore n := by
  rw [drain_of_ok (nextToken_of_pulls hp) (Token.endsBefore_eq_true.1 ht).1]
  exact List.filter_cons_of_pos ht

/-- If the next token does not end before a place, no token does. -/
theorem endingBefore_eq_nil (h : ∀ token s', s.Pulls token s' → token.endsBefore n = false) :
    s.drain.endingBefore n = [] := by
  cases hn : nextToken s with
  | error d s' =>
      rw [drain_of_error hn]
      rfl
  | ok token s' =>
      have hp := pulls_of_nextToken hn
      have ht := h token s' hp
      by_cases he : token.kind = .endOfFile
      · rw [drain_of_endOfFile hn he]
        exact List.filter_cons_of_neg (by simp [ht])
      · rw [drain_of_ok hn he]
        refine List.filter_eq_nil_iff.2 ?_
        intro u hu hends
        rcases List.mem_cons.1 hu with rfl | hu
        · rw [ht] at hends
          cases hends
        · have hle := s'.le_stop_of_drain u hu
          rw [hp.position] at hle
          have hlt := (Token.endsBefore_eq_true.1 hends).2
          have hsettled : token.endsBefore n := Token.endsBefore_eq_true.2 ⟨he, Nat.lt_of_le_of_lt hle hlt⟩
          rw [ht] at hsettled
          cases hsettled

/-- Scanners before texts that start alike go on side by side as long as their tokens end before the last shared
character. -/
theorem Shares.endingBefore_eq {common : List Char} {s t : Scanner} (h : Shares common s t)
    (hn : n = s.position.offset + common.length) : s.drain.endingBefore n = t.drain.endingBefore n := by
  induction hm : common.length using Nat.strongRecOn generalizing common s t with
  | ind m ih =>
      by_cases hnext : ∃ token s', s.Pulls token s' ∧ token.endsBefore n
      · obtain ⟨token, s', hp, ht⟩ := hnext
        obtain ⟨he, hstop⟩ := Token.endsBefore_eq_true.1 ht
        obtain ⟨t', common', hp', h', hlength⟩ := h.pulls hp he (hn ▸ hstop)
        obtain ⟨hstart, -, hforward, -⟩ := hp.start
        have hforward := hforward he
        rw [endingBefore_of_pulls hp ht, endingBefore_of_pulls hp' ht,
          ih common'.length (by omega) h' (hn.trans hlength.symm) rfl]
      · have hnone : ∀ token s', s.Pulls token s' → token.endsBefore n = false := by
          intro token s' hp
          rw [Bool.eq_false_iff]
          exact fun ht => hnext ⟨token, s', hp, ht⟩
        have hnone' : ∀ token t', t.Pulls token t' → token.endsBefore n = false := by
          intro token t' hp'
          rw [Bool.eq_false_iff]
          intro ht
          obtain ⟨he, hstop⟩ := Token.endsBefore_eq_true.1 ht
          obtain ⟨s', -, hp, -⟩ := h.symm.pulls hp' he (by rwa [← h.position, ← hn])
          exact hnext ⟨token, s', hp, ht⟩
        rw [endingBefore_eq_nil hnone, endingBefore_eq_nil hnone']

end Scanner

/-- Two texts that start with `u` have the same tokens as far as these end before the last character of `u`, whether or
not the rest of either text can be scanned. -/
theorem stream_settled (u v w file file' : String) :
    (Source.stream ⟨u ++ v, file⟩).endingBefore u.toList.length =
      (Source.stream ⟨u ++ w, file'⟩).endingBefore u.toList.length := by
  have hshares : Scanner.Shares u.toList (Source.scanner ⟨u ++ v, file⟩) (Source.scanner ⟨u ++ w, file'⟩) := by
    refine ⟨rfl, ?_, ?_⟩
    · simp [Source.scanner]
    · simp [Source.scanner]
  exact hshares.endingBefore_eq (Nat.zero_add _).symm

/-- A token that ends with the shared text may still go on. -/
example : (Source.stream ⟨">" ++ ">", "shell"⟩).endingBefore 2 ≠
    (Source.stream ⟨">" ++ "", "shell"⟩).endingBefore 2 := by
  decide +kernel

end DeclScript
