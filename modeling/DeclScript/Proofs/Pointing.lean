import DeclScript.Proofs.Acceptance
import DeclScript.Proofs.Standing

set_option autoImplicit false

/-!
# Where diagnostics point

A diagnostic carries a position, which the scanner counted as it went, and the text of a line, which is looked up in the
source by its number. The two belong together: the line is the one that the position lies on, and the column is a place
in it.
-/

namespace DeclScript

/-! ## Lines -/

/-- The whole line of the text that holds the place behind `n` characters, without its line feed. -/
def IsLineAt (text : List Char) (n : Nat) (line : List Char) : Prop :=
  ∃ above below, text = above ++ (line ++ below) ∧ '\n' ∉ line ∧ (∀ c, above.getLast? = some c → c = '\n') ∧
    (∀ c, below.head? = some c → c = '\n') ∧ above.length ≤ n ∧ n ≤ above.length + line.length

theorem lineFeed_not_mem_lastLine (cs : List Char) : '\n' ∉ lastLine cs := by
  intro h
  cases List.mem_rtakeWhile_imp h

/-- A text is its last line, behind nothing or behind a line feed. -/
theorem exists_lastLine (cs : List Char) : cs = lastLine cs ∨ ∃ above, cs = above ++ '\n' :: lastLine cs := by
  induction cs using List.reverseRecOn with
  | nil => exact .inl rfl
  | append_singleton cs c ih =>
      rw [lastLine_concat]
      by_cases h : c = '\n'
      · exact .inr ⟨cs, by rw [if_pos h, h]⟩
      · rw [if_neg h]
        rcases ih with ih | ⟨above, ih⟩
        · exact .inl (congrArg (· ++ [c]) ih)
        · refine .inr ⟨above, ?_⟩
          rw [← List.cons_append, ← List.append_assoc, ← ih]

/-- The line that a place lies on is found by counting the line feeds before it. -/
theorem lineAt_count (before behind : List Char) : lineAt (before.count '\n') (before ++ behind) =
    lastLine before ++ behind.takeWhile (· != '\n') := by
  have hlast := lineFeed_not_mem_lastLine before
  have hzero : lineAt 0 (lastLine before ++ behind) = lastLine before ++ behind.takeWhile (· != '\n') := by
    rw [lineAt_zero, List.takeWhile_append_of_pos (bne_of_not_mem hlast)]
  rcases exists_lastLine before with h | ⟨above, h⟩
  · have hcount : before.count '\n' = 0 := by
      rw [h]
      exact List.count_eq_zero.2 hlast
    rw [hcount]
    nth_rewrite 1 [h]
    exact hzero
  · have hcount : before.count '\n' = 0 + above.count '\n' + 1 := by
      rw [h, List.count_append, List.count_cons_self, List.count_eq_zero.2 hlast]
      omega
    rw [hcount]
    nth_rewrite 1 [h]
    rw [List.append_assoc, List.cons_append, lineAt_append, hzero]

theorem isLineAt (before behind : List Char) :
    IsLineAt (before ++ behind) before.length (lastLine before ++ behind.takeWhile (· != '\n')) := by
  obtain ⟨below, hbehind, hrun, hbelow⟩ := exists_run (· != '\n') behind
  have hline : '\n' ∉ lastLine before ++ behind.takeWhile (· != '\n') := by
    intro hmem
    rcases List.mem_append.1 hmem with hmem | hmem
    · exact lineFeed_not_mem_lastLine before hmem
    · cases hrun _ hmem
  have hend : ∀ c, below.head? = some c → c = '\n' := by simpa using hbelow
  rcases exists_lastLine before with h | ⟨above, h⟩
  · refine ⟨[], below, ?_, hline, by simp, hend, Nat.zero_le _, ?_⟩
    · rw [List.nil_append, List.append_assoc, ← hbehind, ← h]
    · rw [List.length_append, ← h]
      simp
  · have hlength := congrArg List.length h
    refine ⟨above ++ ['\n'], below, ?_, hline, by simp, hend, ?_, ?_⟩
    · nth_rewrite 1 [h]
      rw [List.append_assoc (lastLine before), ← hbehind]
      simp
    · simp at hlength ⊢
      omega
    · simp at hlength ⊢
      omega

/-! ## Diagnostics -/

/-- The diagnostic names a place of the source, with the line that the place lies on and the file of the source. -/
structure Diagnostic.PointsInto (d : Diagnostic) (s : Source) : Prop where
  place : ∃ before behind, s.text.toList = before ++ behind ∧ d.position.Counts before
  line : IsLineAt s.text.toList d.position.offset d.lineText.toList
  column_le : d.position.column ≤ d.lineText.toList.length
  -- The column is the index of the character that stands at the place,
  character : d.position.column < d.lineText.toList.length →
    d.lineText.toList[d.position.column]? = s.text.toList[d.position.offset]?
  -- or the line ends there.
  lineEnd : d.position.column = d.lineText.toList.length →
    s.text.toList[d.position.offset]? = some '\n' ∨ d.position.offset = s.text.toList.length
  file : d.file = s.file

theorem Source.lineText_diagnose {s : Source} {before behind : List Char} (h : s.text.toList = before ++ behind)
    (cause : Cause) : (s.diagnose cause (Position.after {} before)).lineText.toList =
      lastLine before ++ behind.takeWhile (· != '\n') := by
  rw [diagnose, Source.line, String.toList_ofList, (Position.counts_after before).line, h, lineAt_count]

theorem Source.pointsInto_diagnose {s : Source} {before behind : List Char} (h : s.text.toList = before ++ behind)
    (cause : Cause) : (s.diagnose cause (Position.after {} before)).PointsInto s := by
  have hcounts := Position.counts_after before
  have hline := lineText_diagnose h cause
  have htext : s.text.toList[before.length]? = behind[0]? := by
    rw [h, List.getElem?_append_right (Nat.le_refl _), Nat.sub_self]
  refine ⟨⟨before, behind, h, hcounts⟩, ?_, ?_, ?_, ?_, rfl⟩
  · change IsLineAt _ (Position.after {} before).offset _
    rw [hline, hcounts.offset, h]
    exact isLineAt before behind
  · change (Position.after {} before).column ≤ _
    rw [hline, hcounts.column, List.length_append]
    omega
  · change (Position.after {} before).column < _ → _[(Position.after {} before).column]? =
      _[(Position.after {} before).offset]?
    rw [hline, hcounts.column, hcounts.offset, htext, List.getElem?_append_right (Nat.le_refl _), Nat.sub_self]
    intro hlt
    cases behind with
    | nil => simp at hlt
    | cons c behind =>
        by_cases hc : c = '\n'
        · simp [hc] at hlt
        · simp [hc]
  · change (Position.after {} before).column = _ → _[(Position.after {} before).offset]? = _ ∨
      (Position.after {} before).offset = _
    rw [hline, hcounts.column, hcounts.offset, htext]
    intro heq
    cases behind with
    | nil => exact .inr (by rw [h, List.append_nil])
    | cons c behind =>
        by_cases hc : c = '\n'
        · exact .inl (by simp [hc])
        · simp [hc] at heq

namespace Scanner

theorem Stands.pointsInto_of_nextToken {t u : Scanner} {s : Source} {before : List Char} {d : Diagnostic}
    (h : t.Stands s before) (hd : nextToken t = .error d u) : d.PointsInto s := by
  rcases t.movesTo_of_nextToken with ⟨token, u', hn, -⟩ | ⟨cause, u', hn, hm⟩
  · cases hn.symm.trans hd
  · cases hn.symm.trans hd
    obtain ⟨more, hu⟩ := h.move hm
    rw [h.source, hu.position]
    exact Source.pointsInto_diagnose hu.text cause

/-- What ends the tokens of a scanner is the failure of a scanner that stands further on. -/
theorem Stands.exists_fault {t : Scanner} {s : Source} {before : List Char} {d : Diagnostic}
    (h : t.Stands s before) (hd : t.drain.fault = some d) :
    ∃ u before' v, u.Stands s before' ∧ nextToken u = .error d v := by
  fun_induction drain t generalizing before with
  | case1 t d' u hn =>
      cases hd
      exact ⟨t, before, u, h, hn⟩
  | case2 => cases hd
  | case3 t token u hn he hlt ih =>
      rcases t.movesTo_of_nextToken with ⟨token', u', hn', hm⟩ | ⟨cause, u', hn', -⟩
      · cases hn'.symm.trans hn
        obtain ⟨more, hu⟩ := h.move hm
        exact ih hu hd
      · cases hn'.symm.trans hn

theorem Stands.pointsInto_of_drain {t : Scanner} {s : Source} {before : List Char} {d : Diagnostic}
    (h : t.Stands s before) (hd : t.drain.fault = some d) : d.PointsInto s := by
  obtain ⟨u, before', v, hu, hn⟩ := h.exists_fault hd
  exact hu.pointsInto_of_nextToken hn

theorem fault_of_collect {t : Scanner} {d : Diagnostic} (hd : t.stream.collect = .error d) :
    t.drain.fault = some d := by
  unfold stream at hd
  split at hd
  · cases hd
  · unfold Stream.collect at hd
    split at hd
    · cases hd
    · cases hd
      assumption

theorem Stands.pointsInto_of_collect {t : Scanner} {s : Source} {before : List Char} {d : Diagnostic}
    (h : t.Stands s before) (hd : t.stream.collect = .error d) : d.PointsInto s :=
  h.pointsInto_of_drain (fault_of_collect hd)

end Scanner

theorem Laid.exists_before {read rest : List Char} {ts : List Token} {t : Token} (h : Laid read rest ts)
    (ht : t ∈ ts) : ∃ before behind, read ++ rest = before ++ behind ∧
      (∀ c, behind.head? = some c → isBlank c = false) ∧ t.span.start = Position.after {} before := by
  obtain ⟨ts, us, rfl⟩ := List.append_of_mem ht
  obtain ⟨read', rest', htext, h⟩ := h.drop
  obtain ⟨gap, rest'', rfl, -, hfirst, hstart⟩ := h.exists_gap
  exact ⟨read' ++ gap, rest'', by rw [← htext, List.append_assoc], hfirst, hstart⟩

theorem Source.pointsInto_of_stream {s : Source} {d : Diagnostic} (h : s.stream.fault = some d) : d.PointsInto s :=
  (Scanner.stands_scanner s).pointsInto_of_drain h

theorem Source.pointsInto_of_parse {s : Source} {d : Diagnostic} (h : s.parse = .error d) : d.PointsInto s := by
  cases stops_of_parse_eq_error h with
  | @token s' ts us t hp hr hs hd hu =>
      have hmem : t ∈ s.stream.tokens := by simp [hp]
      obtain ⟨before, behind, htext, -, hstart⟩ := s.laid_stream.exists_before hmem
      rw [hd, hstart]
      exact pointsInto_diagnose htext _
  | fault hf => exact pointsInto_of_stream hf
  | overtaken hf => exact pointsInto_of_stream hf

/-- The diagnostics that come out of scanning or parsing a source. -/
inductive Source.Reports (s : Source) (d : Diagnostic) : Prop
  | nextToken {commands : List Scanner.Command} {t : Scanner}
      (h : Scanner.nextToken (s.scanner.runAll commands) = .error d t)
  | collect {commands : List Scanner.Command} (h : (s.scanner.runAll commands).stream.collect = .error d)
  | tokens (h : s.tokens = .error d)
  | parser (h : s.parser = .error d)
  | parse (h : s.parse = .error d)

/-- Whatever is reported about a text points into it and shows the line it points to. A text without a file goes by the
name `shell`. -/
theorem reports_point (text : String) (file : Option String) (d : Diagnostic)
    (h : Source.Reports ⟨text, file.getD defaultFile⟩ d) :
    d.PointsInto ⟨text, file.getD defaultFile⟩ ∧ d.file = file.getD "shell" := by
  have hpoints : d.PointsInto ⟨text, file.getD defaultFile⟩ := by
    cases h with
    | @nextToken commands t h =>
        obtain ⟨before, hs⟩ := Scanner.exists_stands ⟨text, file.getD defaultFile⟩ commands
        exact hs.pointsInto_of_nextToken h
    | @collect commands h =>
        obtain ⟨before, hs⟩ := Scanner.exists_stands ⟨text, file.getD defaultFile⟩ commands
        exact hs.pointsInto_of_collect h
    | tokens h => exact (Scanner.stands_scanner _).pointsInto_of_collect h
    | parser h =>
        apply Source.pointsInto_of_stream
        rw [Source.stream_eq_fault h]
    | parse h => exact Source.pointsInto_of_parse h
  exact ⟨hpoints, hpoints.file⟩

/-- The text ends inside a character literal that holds a line feed, below a string of two lines. -/
theorem reports_point_third_line : ∃ d t, Scanner.nextToken ((Source.scanner ⟨"\"é\n\" '\n", "shell"⟩).runAll
      [.nextToken]) = .error d t ∧ d.position = ⟨7, 2, 0⟩ ∧ d.lineText = "" ∧
    d.PointsInto ⟨"\"é\n\" '\n", "shell"⟩ ∧ d.file = "shell" := by
  have h : Scanner.nextToken ((Source.scanner ⟨"\"é\n\" '\n", "shell"⟩).runAll [.nextToken]) =
      .error ⟨.malformedCharacter "end of file", ⟨7, 2, 0⟩, "shell", ""⟩
        ⟨⟨"\"é\n\" '\n", "shell"⟩, ⟨7, 2, 0⟩, [], false⟩ := by
    rfl
  exact ⟨_, _, h, rfl, rfl, reports_point "\"é\n\" '\n" none _ (.nextToken h)⟩

end DeclScript
