import DeclScript.Token.Session
import Mathlib.Data.List.DropRight

set_option autoImplicit false

/-!
# Where a scanner stands

A scanner keeps the text that is left and a position. Whatever is done with it, the text that is left stays an end of
the source, and the position counts the characters, the line feeds and the last line of what was read.
-/

namespace DeclScript

/-! ## Counting -/

/-- The characters behind the last line feed. -/
def lastLine (cs : List Char) : List Char :=
  cs.rtakeWhile (· != '\n')

/-- The position counts the text `before` it. -/
structure Position.Counts (p : Position) (before : List Char) : Prop where
  offset : p.offset = before.length
  line : p.line = before.count '\n'
  column : p.column = (lastLine before).length

theorem lastLine_concat (cs : List Char) (c : Char) :
    lastLine (cs ++ [c]) = if c = '\n' then [] else lastLine cs ++ [c] := by
  rw [lastLine, List.rtakeWhile_concat]
  by_cases h : c = '\n' <;> simp [h, lastLine]

theorem Position.after_column (cs : List Char) : (Position.after {} cs).column = (lastLine cs).length := by
  induction cs using List.reverseRecOn with
  | nil => rfl
  | append_singleton cs c ih =>
      rw [after_append, lastLine_concat]
      by_cases h : c = '\n'
      · simp [step, h]
      · simp [step, h, ih]

theorem Position.counts_after (cs : List Char) : (Position.after {} cs).Counts cs where
  offset := by rw [after_offset, Nat.zero_add]
  line := by rw [after_line, Nat.zero_add]
  column := after_column cs

namespace Scanner

/-! ## What a command does -/

/-- The scanner after all commands in turn. -/
def runAll (s : Scanner) (commands : List Command) : Scanner :=
  commands.foldl (fun s command => (s.run command).2) s

/-- The scanner `t` is `s` some characters further, whatever their end marks are. -/
def MovesTo (s t : Scanner) : Prop :=
  ∃ n ended, t = { s.skip n with ended }

theorem MovesTo.refl (s : Scanner) : s.MovesTo s :=
  ⟨0, s.ended, rfl⟩

theorem skip_skip (s : Scanner) (m n : Nat) : (s.skip m).skip n = s.skip (m + n) := by
  simp [skip, List.take_add, Position.after_append]

theorem MovesTo.trans {s t u : Scanner} (h : s.MovesTo t) (h' : t.MovesTo u) : s.MovesTo u := by
  obtain ⟨m, ended, rfl⟩ := h
  obtain ⟨n, ended', rfl⟩ := h'
  exact ⟨m + n, ended', by rw [← skip_skip]; rfl⟩

theorem movesTo_skip (s : Scanner) (n : Nat) : s.MovesTo (s.skip n) :=
  ⟨n, s.ended, rfl⟩

theorem movesTo_of_readToken (s : Scanner) : (∃ t s', s.readToken = .ok t s' ∧ s.MovesTo s') ∨
    ∃ cause s', s.readToken = .error (s.source.diagnose cause s'.position) s' ∧ s.MovesTo s' := by
  unfold readToken
  split
  · exact .inl ⟨_, _, rfl, .refl s⟩
  · rename_i c cs hr
    dsimp only
    cases ho : (readLexeme c cs).outcome with
    | ok l => exact .inl ⟨_, _, rfl, s.movesTo_skip _⟩
    | error cause => exact .inr ⟨_, _, rfl, s.movesTo_skip _⟩

/-- The next token is read or not, but the scanner has only moved, and a failure is diagnosed where it stands. -/
theorem movesTo_of_nextToken (s : Scanner) : (∃ t s', nextToken s = .ok t s' ∧ s.MovesTo s') ∨
    ∃ cause s', nextToken s = .error (s.source.diagnose cause s'.position) s' ∧ s.MovesTo s' := by
  have hblanks : s.MovesTo s.skipBlanks := s.movesTo_skip _
  rcases s.skipBlanks.movesTo_of_readToken with ⟨t, s', h, hm⟩ | ⟨cause, s', h, hm⟩
  · exact .inl ⟨t, s', h, hblanks.trans hm⟩
  · exact .inr ⟨cause, s', h, hblanks.trans hm⟩

theorem movesTo_run (s : Scanner) (command : Command) : s.MovesTo (s.run command).2 := by
  cases command with
  | nextToken =>
      rcases s.movesTo_of_nextToken with ⟨t, s', h, hm⟩ | ⟨cause, s', h, hm⟩
      · simpa [run, h] using hm
      · simpa [run, h] using hm
  | next =>
      simp only [run, next]
      split
      · exact .refl s
      · rcases s.movesTo_of_nextToken with ⟨t, s', h, n, ended, rfl⟩ | ⟨cause, s', h, n, ended, rfl⟩
        · rw [h]
          exact ⟨n, t.kind == .endOfFile, rfl⟩
        · rw [h]
          exact ⟨n, true, rfl⟩
  | skipBytes n =>
      simp only [run, skipBytes?]
      cases charsInBytes? n s.rest with
      | none => exact .refl s
      | some k => exact s.movesTo_skip k
  | _ => exact .refl s

theorem movesTo_runAll (s : Scanner) (commands : List Command) : s.MovesTo (s.runAll commands) := by
  induction commands generalizing s with
  | nil => exact .refl s
  | cons command commands ih => exact (s.movesTo_run command).trans (ih _)

/-! ## Where it stands -/

/-- The scanner stands behind the text `before` of the source. -/
structure Stands (t : Scanner) (s : Source) (before : List Char) : Prop where
  source : t.source = s
  text : s.text.toList = before ++ t.rest
  position : t.position = Position.after {} before

theorem stands_scanner (s : Source) : s.scanner.Stands s [] :=
  ⟨rfl, rfl, rfl⟩

theorem Stands.skip {t : Scanner} {s : Source} {before : List Char} (h : t.Stands s before) (n : Nat) :
    (t.skip n).Stands s (before ++ t.rest.take n) where
  source := h.source
  text := by rw [skip_rest, List.append_assoc, List.take_append_drop, h.text]
  position := by rw [skip_position, Position.after_append, h.position]

theorem Stands.move {t u : Scanner} {s : Source} {before : List Char} (h : t.Stands s before) (hm : t.MovesTo u) :
    ∃ more, u.Stands s (before ++ more) := by
  obtain ⟨n, ended, rfl⟩ := hm
  have hskip := h.skip n
  exact ⟨_, hskip.source, hskip.text, hskip.position⟩

theorem exists_stands (s : Source) (commands : List Command) : ∃ before,
    (s.scanner.runAll commands).Stands s before :=
  (stands_scanner s).move (movesTo_runAll _ _)

end Scanner

end DeclScript
