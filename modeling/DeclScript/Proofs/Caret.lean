import DeclScript.Diagnostic.Report
import DeclScript.Proofs.Breakage
import DeclScript.Proofs.Pointing

set_option autoImplicit false

/-!
# Carets

A report shows the line of a diagnostic without the spaces it starts with, and a caret below. The caret stands under the
place of the diagnostic unless the place is one of these spaces. Tokens and most failures to scan lie at a character
that is not blank, or at the end of the text. A space is to blame only where a character literal should have been
closed, and it belongs to the spaces its line starts with only if the literal holds the line feed before it.
-/

namespace DeclScript

/-! ## Reports -/

namespace Diagnostic

variable {d : Diagnostic} {number shown trimmed : List Char} {removed dashes : Nat}

/-- The report ends in the line, behind its number, and below it a caret behind dashes. Of the text of the line, the
spaces it starts with and the white space it ends in are left out. -/
structure Draws (d : Diagnostic) (number shown trimmed : List Char) (removed dashes : Nat) : Prop where
  report : ∃ above, d.report.toList = above ++ '\n' :: (number ++ [' ', '|', ' '] ++ shown) ++
    '\n' :: (List.replicate number.length ' ' ++ [' ', '|', ' '] ++ List.replicate dashes '-' ++ ['^'])
  oneLine : '\n' ∉ number ++ shown
  number : String.ofList number = (d.position.line + 1).repr
  lineText : d.lineText.toList = List.replicate removed ' ' ++ (shown ++ trimmed)
  -- All the spaces in front and all the white space at the end are left out.
  first : ∀ c, (shown ++ trimmed).head? = some c → c ≠ ' '
  last : ∀ c, shown.getLast? = some c → isWhiteSpace c = false
  trimmed : ∀ c ∈ trimmed, isWhiteSpace c

/-- The caret stands under the character that the column counts to, or the line ends before both. -/
theorem Draws.character (h : d.Draws number shown trimmed removed dashes)
    (hcolumn : dashes + removed = d.position.column) :
    (number ++ [' ', '|', ' '] ++ (shown ++ trimmed))[number.length + 3 + dashes]? =
      d.lineText.toList[d.position.column]? := by
  have hshown : (number ++ [' ', '|', ' '] ++ (shown ++ trimmed))[number.length + 3 + dashes]? =
      (shown ++ trimmed)[dashes]? := by
    rw [List.getElem?_append_right (by simp)]
    simp
  have hline : (List.replicate removed ' ' ++ (shown ++ trimmed))[dashes + removed]? = (shown ++ trimmed)[dashes]? := by
    rw [List.getElem?_append_right (by simp)]
    simp
  rw [hshown, h.lineText, ← hcolumn, hline]

theorem lineFeed_not_mem_lineNumber (d : Diagnostic) : '\n' ∉ d.lineNumber := by
  intro hmem
  have hdigit := Nat.isDigit_of_mem_toDigits (by decide) (by decide) hmem
  cases hdigit

theorem exists_indentation (d : Diagnostic) : ∃ behind, d.lineText.toList.drop d.indentation = behind ∧
    d.lineText.toList = List.replicate d.indentation ' ' ++ behind ∧ ∀ c, behind.head? = some c → c ≠ ' ' := by
  obtain ⟨behind, hline, hrun, hbehind⟩ := exists_run (· == ' ') d.lineText.toList
  have hspaces : d.lineText.toList.takeWhile (· == ' ') = List.replicate d.indentation ' ' :=
    List.eq_replicate_iff.2 ⟨rfl, by simpa using hrun⟩
  rw [hspaces] at hline
  refine ⟨behind, ?_, hline, by simpa using hbehind⟩
  rw [hline]
  exact List.drop_left' (by simp)

theorem report_eq (d : Diagnostic) : ∃ above, d.report.toList =
    above ++ '\n' :: (d.lineNumber ++ [' ', '|', ' '] ++ d.shownLine) ++ '\n' :: (d.gutter ++ ' ' :: d.caret) :=
  ⟨(d.heading ++ "\n" ++ ("-> " ++ d.file) ++ "\n").toList ++ d.gutter, by
    simp [report, reportLines, String.intercalate_cons_cons]⟩

theorem draws (d : Diagnostic) (h : '\n' ∉ d.lineText.toList) : ∃ trimmed,
    d.Draws d.lineNumber d.shownLine trimmed d.indentation (d.position.column - d.indentation) := by
  obtain ⟨behind, hdrop, hline, hfirst⟩ := d.exists_indentation
  have hshown := trimEnd_append behind
  refine ⟨(behind.reverse.takeWhile isWhiteSpace).reverse, ?_, ?_, rfl, ?_, ?_, ?_, ?_⟩
  · obtain ⟨above, habove⟩ := d.report_eq
    refine ⟨above, habove.trans ?_⟩
    rw [gutter, caret, List.leftpad, List.leftpad]
    simp [List.replicate_succ']
  · intro hmem
    rcases List.mem_append.1 hmem with hmem | hmem
    · exact d.lineFeed_not_mem_lineNumber hmem
    · have hbehind : '\n' ∈ behind := by
        rw [← hshown]
        rw [shownLine, hdrop] at hmem
        exact List.mem_append_left _ hmem
      rw [hline] at h
      exact h (List.mem_append_right _ hbehind)
  · rw [shownLine, hdrop, hshown]
    exact hline
  · rw [shownLine, hdrop, hshown]
    exact hfirst
  · intro c hc
    exact isWhiteSpace_of_getLast?_trimEnd hc
  · intro c hc
    exact List.mem_takeWhile_imp (List.mem_reverse.1 hc)

/-- A space at the start of a line is found instead of the quote that closes a character literal. -/
def Misplaced (d : Diagnostic) : Prop :=
  d.cause = .malformedCharacter "\" \"" ∧ d.position.column = 0

end Diagnostic

/-! ## Places inside the indentation -/

theorem length_lt_takeWhile_append_iff (p : Char → Bool) (cs ds : List Char) :
    cs.length < ((cs ++ ds).takeWhile p).length ↔ (∀ c ∈ cs, p c) ∧ ∃ c, ds.head? = some c ∧ p c := by
  induction cs with
  | nil =>
      cases ds with
      | nil => simp
      | cons d ds => by_cases h : p d <;> simp [h]
  | cons c cs ih => by_cases h : p c <;> simp [h, ih]

/-- A place lies inside the indentation if nothing but spaces stands before it on its line and a space stands there. -/
theorem Source.column_lt_indentation_iff {s : Source} {before behind : List Char}
    (h : s.text.toList = before ++ behind) (cause : Cause) :
    (s.diagnose cause (Position.after {} before)).position.column <
        (s.diagnose cause (Position.after {} before)).indentation ↔
      (∀ c ∈ lastLine before, c = ' ') ∧ behind.head? = some ' ' := by
  have hcolumn : (s.diagnose cause (Position.after {} before)).position.column = (lastLine before).length :=
    Position.after_column before
  have hhead : (∃ c, (behind.takeWhile (· != '\n')).head? = some c ∧ (c == ' ') = true) ↔
      behind.head? = some ' ' := by
    cases behind with
    | nil => simp
    | cons c behind =>
        by_cases hc : c = '\n'
        · simp [hc]
        · simp [hc]
  rw [hcolumn, Diagnostic.indentation, lineText_diagnose h, length_lt_takeWhile_append_iff, hhead]
  simp

namespace Breaks

variable {text : List Char} {n : Nat} {cause : Cause}

/-- A space is to blame only if it stands where a character literal should have been closed. -/
theorem exists_of_space (h : Breaks text n cause) (hcause : cause = .malformedCharacter "\" \"") :
    ∃ c cs, text = '\x27' :: c :: ' ' :: cs ∧ n = 2 := by
  cases h with
  | @longCharacter c d cs =>
      have hfound : ['"', d, '"'] = ['"', ' ', '"'] := String.ofList_injective (Cause.malformedCharacter.inj hcause)
      obtain rfl : d = ' ' := by simpa using hfound
      exact ⟨c, cs, rfl, rfl⟩
  | _ => simp at hcause

theorem head?_drop_eq_space_iff (h : Breaks text n cause) (hfirst : ∀ c, text.head? = some c → isBlank c = false) :
    (text.drop n).head? = some ' ' ↔ cause = .malformedCharacter "\" \"" := by
  constructor
  · intro hspace
    cases h with
    | longCharacter =>
        cases hspace
        rfl
    | string => simp at hspace
    | number => cases hfirst ' ' hspace
    | other => cases hfirst ' ' hspace
    | _ => cases hspace
  · intro hcause
    obtain ⟨c, cs, rfl, rfl⟩ := h.exists_of_space hcause
    rfl

end Breaks

/-! ## Diagnostics -/

/-- The diagnostic is about the source, and its place lies inside the indentation of its line only as it may. -/
structure Diagnostic.Aims (d : Diagnostic) (s : Source) : Prop where
  eq_diagnose : d = s.diagnose d.cause d.position
  misplaced_iff : d.Misplaced ↔ d.position.column < d.indentation

theorem Diagnostic.Aims.lineFeed_not_mem {d : Diagnostic} {s : Source} (h : d.Aims s) : '\n' ∉ d.lineText.toList := by
  rw [h.eq_diagnose, Source.diagnose, Source.line, String.toList_ofList]
  exact lineFeed_not_mem_lineAt _ _

theorem Scanner.Stands.aims_of_nextToken {t u : Scanner} {s : Source} {before : List Char} {d : Diagnostic}
    (h : t.Stands s before) (hd : nextToken t = .error d u) : d.Aims s := by
  obtain ⟨n, hbreaks, hu, heq⟩ := breaks_of_nextToken hd
  obtain ⟨before', hskipped⟩ : ∃ before', t.skipBlanks.Stands s before' := ⟨_, h.skip _⟩
  have hstands : u.Stands s (before' ++ t.ahead.take n) := by
    have hahead : t.ahead = t.skipBlanks.rest := t.skipBlanks_rest.symm
    rw [hu, hahead]
    exact hskipped.skip n
  have hrest : u.rest = t.ahead.drop n := by
    rw [hu, skip_rest, skipBlanks_rest]
    rfl
  have hspace := hbreaks.head?_drop_eq_space_iff fun _ => isBlank_of_head?_ahead
  rw [h.source, hstands.position] at heq
  have hiff := Source.column_lt_indentation_iff hstands.text d.cause
  rw [← heq, hrest, hspace] at hiff
  have hposition : d.position = Position.after {} (before' ++ t.ahead.take n) := congrArg Diagnostic.position heq
  refine ⟨hposition ▸ heq, ?_⟩
  rw [hiff, Diagnostic.Misplaced, hposition, Position.after_column, and_comm]
  apply and_congr_left
  intro hcause
  obtain ⟨c, cs, hahead, rfl⟩ := hbreaks.exists_of_space hcause
  -- the quote that opens the literal stands on the line unless the literal holds a line feed
  have hlast : lastLine (before' ++ t.ahead.take 2) =
      if c = '\n' then [] else lastLine before' ++ ['\x27'] ++ [c] := by
    have htake : before' ++ t.ahead.take 2 = before' ++ ['\x27'] ++ [c] := by simp [hahead]
    rw [htake, lastLine_concat, lastLine_concat]
    simp
  rw [hlast]
  by_cases hc : c = '\n'
  · simp [hc]
  · rw [if_neg hc]
    refine iff_of_false (by simp) fun hspaces => ?_
    cases hspaces '\x27' (by simp)

theorem Scanner.Stands.aims_of_drain {t : Scanner} {s : Source} {before : List Char} {d : Diagnostic}
    (h : t.Stands s before) (hd : t.drain.fault = some d) : d.Aims s := by
  obtain ⟨u, before', v, hu, hn⟩ := h.exists_fault hd
  exact hu.aims_of_nextToken hn

namespace Source

variable {s : Source} {d : Diagnostic}

/-- A token starts at a character that is not blank, or the text ends. -/
theorem aims_of_token {t : Token} {cause : Cause} (ht : t ∈ s.stream.tokens) (hc : cause.isScanning = false) :
    (s.diagnose cause t.span.start).Aims s := by
  obtain ⟨before, behind, htext, hfirst, hstart⟩ := s.laid_stream.exists_before ht
  rw [hstart]
  refine ⟨rfl, iff_of_false ?_ ?_⟩
  · rintro ⟨hcause, -⟩
    obtain rfl : cause = .malformedCharacter "\" \"" := hcause
    cases hc
  · rw [column_lt_indentation_iff htext]
    rintro ⟨-, hspace⟩
    cases hfirst ' ' hspace

theorem aims_of_stream (h : s.stream.fault = some d) : d.Aims s :=
  (Scanner.stands_scanner s).aims_of_drain h

theorem aims_of_parse (h : s.parse = .error d) : d.Aims s := by
  cases stops_of_parse_eq_error h with
  | @token s' ts us t hp hr hs hd hu =>
      rw [hd]
      apply aims_of_token
      · simp [hp]
      · unfold Progression.complaint
        split <;> rfl
  | fault hf => exact aims_of_stream hf
  | overtaken hf => exact aims_of_stream hf

theorem Reports.aims (h : s.Reports d) : d.Aims s := by
  cases h with
  | @nextToken commands t h =>
      obtain ⟨before, hs⟩ := Scanner.exists_stands s commands
      exact hs.aims_of_nextToken h
  | @collect commands h =>
      obtain ⟨before, hs⟩ := Scanner.exists_stands s commands
      exact hs.aims_of_drain (Scanner.fault_of_collect h)
  | tokens h => exact aims_of_stream (Scanner.fault_of_collect h)
  | parser h => exact aims_of_stream (by rw [stream_eq_fault h])
  | parse h => exact aims_of_parse h

end Source

/-- Whatever is reported about a source, the report ends in its line and a caret. The dashes before the caret and the
spaces that were taken from the line are as many as the column counts, so the caret stands under the place, unless the
place is a space that was taken away: then the caret stands under the first character that is left. -/
theorem caret_under_place (s : Source) (d : Diagnostic) (h : s.Reports d) (hcolumn : d.position.column < 65535) :
    ∃ number shown trimmed removed dashes, d.Draws number shown trimmed removed dashes ∧ dashes < 65535 ∧
      (¬ d.Misplaced → dashes + removed = d.position.column ∧
        (number ++ [' ', '|', ' '] ++ (shown ++ trimmed))[number.length + 3 + dashes]? =
          d.lineText.toList[d.position.column]?) ∧
      (d.Misplaced → dashes = 0 ∧ d.position.column < removed) := by
  have haims := h.aims
  obtain ⟨trimmed, hdraws⟩ := d.draws haims.lineFeed_not_mem
  refine ⟨_, _, trimmed, _, _, hdraws, by omega, ?_, ?_⟩
  · intro hno
    have hle := Nat.le_of_not_lt fun hlt => hno (haims.misplaced_iff.2 hlt)
    have hsum := Nat.sub_add_cancel hle
    exact ⟨hsum, hdraws.character hsum⟩
  · intro hmisplaced
    have hlt := haims.misplaced_iff.1 hmisplaced
    exact ⟨Nat.sub_eq_zero_of_le hlt.le, hlt⟩

/-- Behind an indentation, two of its spaces and two dashes make up the column. -/
theorem caret_under_place_indented : ∃ d number shown trimmed removed dashes,
    Source.parse ⟨"a;\n  b é", "shell"⟩ = .error d ∧ d.Draws number shown trimmed removed dashes ∧
    dashes + removed = 4 ∧
    (number ++ [' ', '|', ' '] ++ (shown ++ trimmed))[number.length + 3 + dashes]? = some 'é' := by
  have hp : Source.parse ⟨"a;\n  b é", "shell"⟩ =
      .error ⟨.unexpectedCharacter 'é', ⟨7, 1, 4⟩, "shell", "  b é"⟩ := by
    decide +kernel
  obtain ⟨number, shown, trimmed, removed, dashes, hdraws, -, hplace, -⟩ :=
    caret_under_place _ _ (.parse hp) (by decide)
  obtain ⟨hsum, hcharacter⟩ := hplace fun h => by cases h.1
  exact ⟨_, number, shown, trimmed, removed, dashes, hp, hdraws, hsum, hcharacter⟩

/-- The space below the line feed is to blame, but it is taken from the line, and the caret stands under the character
behind it. -/
theorem caret_beside_place : ∃ d, Source.tokens ⟨"'\n x", "shell"⟩ = .error d ∧
    Source.parse ⟨"'\n x", "shell"⟩ = .error d ∧ d.position.column < 65535 ∧
    d.lineText.toList[d.position.column]? = some ' ' ∧
    d.report = "Error: MalformedCharacterLiteral (Character literals hold exactly one character, like 'a')\n" ++
      "-> shell\n  |\n2 | x\n  | ^" ∧
    ∀ number shown trimmed removed dashes, d.Draws number shown trimmed removed dashes →
      dashes + removed ≠ d.position.column := by
  refine ⟨⟨.malformedCharacter "\" \"", ⟨2, 1, 0⟩, "shell", " x"⟩, by decide +kernel, by decide +kernel, by decide,
    rfl, by decide +kernel, ?_⟩
  intro number shown trimmed removed dashes h hcolumn
  obtain ⟨-, rfl⟩ := Nat.add_eq_zero_iff.1 hcolumn
  have hline : [' ', 'x'] = shown ++ trimmed := h.lineText
  exact h.first ' ' (by rw [← hline]; rfl) rfl

end DeclScript
