import DeclScript.Proofs.Pointing
import DeclScript.Proofs.Relocation
import DeclScript.Tree.Outline
import Mathlib.Data.Prod.Lex

set_option autoImplicit false

/-!
# The order of places

Every character of a text moves the offset on, and it moves line and column on, too: a line feed leads to a later line,
and any other character to a later column of the same line. Of two places in a text, one is reached from the other by
reading on, so offsets order them as lines and columns do. The positions that come up when a text is scanned and parsed
are places in it. A tree has no positions but those of its tokens, since it is moved along with them.
-/

namespace DeclScript

namespace Position

/-- Line and column, compared by the line first. -/
def lineColumn (p : Position) : Nat ×ₗ Nat :=
  toLex (p.line, p.column)

theorem lineColumn_lt_step (p : Position) (c : Char) : p.lineColumn < (p.step c).lineColumn := by
  rw [lineColumn, lineColumn, Prod.Lex.toLex_lt_toLex, step]
  split
  · exact .inl (Nat.lt_succ_self p.line)
  · exact .inr ⟨rfl, Nat.lt_succ_self p.column⟩

theorem lineColumn_le_after (p : Position) (cs : List Char) : p.lineColumn ≤ (p.after cs).lineColumn := by
  induction cs generalizing p with
  | nil => exact le_refl _
  | cons c cs ih => exact (p.lineColumn_lt_step c).le.trans (ih (p.step c))

theorem lineColumn_lt_after (p : Position) {cs : List Char} (h : cs ≠ []) :
    p.lineColumn < (p.after cs).lineColumn := by
  cases cs with
  | nil => exact absurd rfl h
  | cons c cs => exact (p.lineColumn_lt_step c).trans_le ((p.step c).lineColumn_le_after cs)

/-- What comes later by the offset comes later by line and column, and the other way round. -/
theorem after_le_iff (p : Position) (cs : List Char) :
    (p.after cs).offset ≤ p.offset ↔ (p.after cs).lineColumn ≤ p.lineColumn := by
  cases cs with
  | nil => exact iff_of_true (Nat.le_refl _) (le_refl _)
  | cons c cs =>
      have hlt := p.lineColumn_lt_after (List.cons_ne_nil c cs)
      refine iff_of_false ?_ hlt.not_ge
      rw [after_offset, List.length_cons]
      omega

theorem le_after_iff (p : Position) (cs : List Char) :
    p.offset ≤ (p.after cs).offset ↔ p.lineColumn ≤ (p.after cs).lineColumn := by
  refine iff_of_true ?_ (p.lineColumn_le_after cs)
  rw [after_offset]
  exact Nat.le_add_right _ _

end Position

/-! ## Places in a text -/

/-- The position counts some front of the text. -/
def Source.HasPlace (s : Source) (p : Position) : Prop :=
  ∃ before behind, s.text.toList = before ++ behind ∧ p = Position.after {} before

theorem Position.Counts.eq_after {p : Position} {before : List Char} (h : p.Counts before) :
    p = Position.after {} before := by
  have hafter := Position.counts_after before
  obtain ⟨offset, line, column⟩ := p
  rw [Position.mk.injEq]
  exact ⟨h.offset.trans hafter.offset.symm, h.line.trans hafter.line.symm, h.column.trans hafter.column.symm⟩

namespace Source.HasPlace

variable {s : Source} {p q : Position}

/-- Of two places, one is reached from the other by reading on. -/
theorem total (hp : s.HasPlace p) (hq : s.HasPlace q) :
    (∃ cs, q = p.after cs) ∨ ∃ cs, p = q.after cs := by
  obtain ⟨before, behind, htext, rfl⟩ := hp
  obtain ⟨before', behind', htext', rfl⟩ := hq
  rcases List.prefix_or_prefix_of_prefix ⟨behind, htext.symm⟩ ⟨behind', htext'.symm⟩ with ⟨cs, h⟩ | ⟨cs, h⟩
  · exact .inl ⟨cs, by rw [← h, Position.after_append]⟩
  · exact .inr ⟨cs, by rw [← h, Position.after_append]⟩

theorem le_iff (hp : s.HasPlace p) (hq : s.HasPlace q) : p.offset ≤ q.offset ↔ p.lineColumn ≤ q.lineColumn := by
  rcases hp.total hq with ⟨cs, rfl⟩ | ⟨cs, rfl⟩
  · exact p.le_after_iff cs
  · exact q.after_le_iff cs

theorem eq_of_offset (hp : s.HasPlace p) (hq : s.HasPlace q) (h : p.offset = q.offset) : p = q := by
  have hnil : ∀ {p : Position} {cs : List Char}, (p.after cs).offset = p.offset → p.after cs = p := by
    intro p cs h
    rw [Position.after_offset, Nat.add_eq_left, List.length_eq_zero_iff] at h
    rw [h, Position.after_nil]
  rcases hp.total hq with ⟨cs, rfl⟩ | ⟨cs, rfl⟩
  · exact (hnil h.symm).symm
  · exact hnil h

end Source.HasPlace

/-! ## Positions of trees -/

/-- The row with its node moved. -/
def OutlineRow.relocate (f : Position → Position) (row : OutlineRow Span) : OutlineRow Span :=
  { row with mark := row.mark.relocate f }

section Outline

variable (f : Position → Position)

theorem Argument.outline_relocate (a : Argument Span) (depth : Nat) :
    (a.relocate f).outline depth = (a.outline depth).map (OutlineRow.relocate f) := rfl

theorem ImportSpecifier.outline_relocate (sp : ImportSpecifier Span) (depth : Nat) :
    (sp.relocate f).outline depth = (sp.outline depth).map (OutlineRow.relocate f) := rfl

theorem Expr.outline_relocate (e : Expr Span) (depth : Nat) :
    (e.relocate f).outline depth = (e.outline depth).map (OutlineRow.relocate f) := by
  induction e generalizing depth with
  | identifier id => rfl
  | literal l => rfl
  | call callee args mark ih =>
      simp only [Expr.relocate, Expr.outline, ih, List.flatMap_map, Argument.outline_relocate, List.map_cons,
        List.map_append, List.map_flatMap]
      rfl

theorem Element.outline_relocate (e : Element Span) (depth : Nat) :
    (e.relocate f).outline depth = (e.outline depth).map (OutlineRow.relocate f) := by
  cases e with
  | comment c => rfl
  | importDeclaration d =>
      simp only [Element.relocate, Element.outline, List.flatMap_map, ImportSpecifier.outline_relocate, List.map_cons,
        List.map_append, List.map_flatMap]
      rfl
  | variableDeclaration d =>
      simp only [Element.relocate, Element.outline, Expr.outline_relocate, List.map_cons, List.map_append]
      rfl
  | expression e => exact e.outline_relocate f depth

theorem Program.outline_relocate (program : Program Span) :
    (program.relocate f).outline = program.outline.map (OutlineRow.relocate f) := by
  simp only [Program.relocate, Program.outline, List.flatMap_map, Element.outline_relocate, List.map_cons,
    List.map_flatMap]
  rfl

end Outline

/-- Both ends of the span have the property. -/
def Span.Both (P : Position → Prop) (span : Span) : Prop :=
  P span.start ∧ P span.stop

theorem Span.relocate_eq_self_iff {f : Position → Position} {span : Span} :
    span.relocate f = span ↔ span.Both fun p => f p = p := by
  obtain ⟨start, stop⟩ := span
  simp [relocate, Both]

/-- What holds of the positions of the tokens holds of all positions in the tree. -/
theorem MarkedProgram.both {P : Position → Prop} {ts : List Token} {program : Program Span}
    (h : MarkedProgram ts program) (hts : ∀ t ∈ ts, t.span.Both P) : ∀ row ∈ program.outline, row.mark.Both P := by
  classical
  -- to move just the positions without the property leaves the tokens where they are, and so the tree
  let f (p : Position) : Position := if P p then p else { p with offset := p.offset + 1 }
  have hfix : ∀ p, f p = p ↔ P p := by
    intro p
    by_cases hp : P p
    · simp [f, hp]
    · refine iff_of_false ?_ hp
      intro he
      have hoffset := congrArg Position.offset he
      simp [f, hp] at hoffset
  have hspan : ∀ span : Span, span.relocate f = span ↔ span.Both P := by
    intro span
    rw [Span.relocate_eq_self_iff, Span.Both, Span.Both, hfix, hfix]
  have htokens : ts.map (Token.relocate f) = ts := by
    refine (List.map_congr_left fun t ht => ?_).trans (List.map_id ts)
    rw [Token.relocate, (hspan t.span).2 (hts t ht)]
    rfl
  have hmoved := h.relocate f
  rw [htokens] at hmoved
  have houtline := Program.outline_relocate f program
  rw [← h.unique hmoved] at houtline
  intro row hrow
  have hself := List.map_inj_left.1 (houtline.symm.trans (List.map_id program.outline).symm) row hrow
  exact (hspan row.mark).1 (congrArg OutlineRow.mark hself)

/-! ## The positions that come up -/

theorem Laid.exists_before_stop {read rest : List Char} {ts : List Token} {t : Token} (h : Laid read rest ts)
    (ht : t ∈ ts) : ∃ before behind, read ++ rest = before ++ behind ∧ t.span.stop = Position.after {} before := by
  obtain ⟨ts, us, rfl⟩ := List.append_of_mem ht
  obtain ⟨read', rest', htext, h⟩ := h.drop
  rw [← htext]
  cases h with
  | endOfFile hb hp => exact ⟨read' ++ rest', [], (List.append_nil _).symm, hp⟩
  | @cons _ blanks word rest _ _ hb hs hstart hstop h => exact ⟨read' ++ blanks ++ word, rest, by simp, hstop⟩

namespace Source

/-- The positions in the tokens of a source, in its tree, and in what is reported when it is scanned or parsed. -/
inductive Mentions (s : Source) : Position → Prop
  | tokenStart {t : Token} (ht : t ∈ s.stream.tokens) : Mentions s t.span.start
  | tokenStop {t : Token} (ht : t ∈ s.stream.tokens) : Mentions s t.span.stop
  | nodeStart {program : Program Span} {row : OutlineRow Span} (h : s.parse = .ok program)
      (hrow : row ∈ program.outline) : Mentions s row.mark.start
  | nodeStop {program : Program Span} {row : OutlineRow Span} (h : s.parse = .ok program)
      (hrow : row ∈ program.outline) : Mentions s row.mark.stop
  | scanning {d : Diagnostic} (h : s.tokens = .error d) : Mentions s d.position
  | parsing {d : Diagnostic} (h : s.parse = .error d) : Mentions s d.position

variable {s : Source}

theorem both_of_token {t : Token} (ht : t ∈ s.stream.tokens) : t.span.Both s.HasPlace := by
  obtain ⟨before, behind, htext, -, hstart⟩ := s.laid_stream.exists_before ht
  obtain ⟨before', behind', htext', hstop⟩ := s.laid_stream.exists_before_stop ht
  exact ⟨⟨before, behind, htext, hstart⟩, before', behind', htext', hstop⟩

theorem both_of_node {program : Program Span} {row : OutlineRow Span} (h : s.parse = .ok program)
    (hrow : row ∈ program.outline) : row.mark.Both s.HasPlace := by
  obtain ⟨ts, hts, hmarked⟩ := marked_of_parse h
  refine hmarked.both (fun t ht => both_of_token ?_) row hrow
  rwa [tokens_eq_ok_iff.1 hts]

theorem hasPlace_of_pointsInto {d : Diagnostic} (h : d.PointsInto s) : s.HasPlace d.position := by
  obtain ⟨before, behind, htext, hcounts⟩ := h.place
  exact ⟨before, behind, htext, hcounts.eq_after⟩

theorem Mentions.hasPlace {p : Position} (h : s.Mentions p) : s.HasPlace p := by
  cases h with
  | tokenStart ht => exact (both_of_token ht).1
  | tokenStop ht => exact (both_of_token ht).2
  | nodeStart h hrow => exact (both_of_node h hrow).1
  | nodeStop h hrow => exact (both_of_node h hrow).2
  | scanning h => exact hasPlace_of_pointsInto ((Scanner.stands_scanner s).pointsInto_of_collect h)
  | parsing h => exact hasPlace_of_pointsInto (pointsInto_of_parse h)

end Source

/-- Whatever positions come up when a source is scanned and parsed, their offsets order them as lines and columns do. In
particular a position is known by its offset, and by its line and column. -/
theorem positions_ordered (s : Source) (p q : Position) (hp : s.Mentions p) (hq : s.Mentions q) :
    (p.offset ≤ q.offset ↔ toLex (p.line, p.column) ≤ toLex (q.line, q.column)) ∧
    (p.offset = q.offset → p = q) ∧ (p.line = q.line → p.column = q.column → p.offset = q.offset) := by
  have hp := hp.hasPlace
  have hq := hq.hasPlace
  refine ⟨hp.le_iff hq, hp.eq_of_offset hq, ?_⟩
  intro hline hcolumn
  have heq : p.lineColumn = q.lineColumn := by rw [Position.lineColumn, Position.lineColumn, hline, hcolumn]
  exact Nat.le_antisymm ((hp.le_iff hq).2 heq.le) ((hq.le_iff hp).2 heq.ge)

/-- A string goes on in the second line: its tree starts in a later column than its token ends in. -/
theorem positions_ordered_string : ∃ s p q, s = Source.mk "let x: T = \"ü\n\";" "shell" ∧ p = Position.mk 11 0 11 ∧
    q = Position.mk 15 1 1 ∧ s.Mentions p ∧ s.Mentions q ∧
    (p.offset ≤ q.offset ↔ toLex (p.line, p.column) ≤ toLex (q.line, q.column)) ∧
    (q.offset ≤ p.offset ↔ toLex (q.line, q.column) ≤ toLex (p.line, p.column)) := by
  have hparse : Source.parse ⟨"let x: T = \"ü\n\";", "shell"⟩ = .ok ⟨[.variableDeclaration ⟨⟨"x", ⟨4, 0, 4⟩, ⟨5, 0, 5⟩⟩,
      ⟨"T", ⟨7, 0, 7⟩, ⟨9, 0, 9⟩⟩, false, .literal ⟨.string "ü\n", ⟨11, 0, 11⟩, ⟨15, 1, 1⟩⟩, ⟨0, 0, 0⟩, ⟨16, 1, 2⟩⟩],
      ⟨0, 0, 0⟩, ⟨16, 1, 2⟩⟩ := by
    decide +kernel
  have htoken : Token.mk ⟨.stringLiteral, .text "ü\n"⟩ ⟨⟨11, 0, 11⟩, ⟨15, 1, 1⟩⟩ ∈
      (Source.stream ⟨"let x: T = \"ü\n\";", "shell"⟩).tokens := by
    decide +kernel
  have hp : Source.Mentions ⟨"let x: T = \"ü\n\";", "shell"⟩ ⟨11, 0, 11⟩ :=
    @Source.Mentions.nodeStart _ _ ⟨2, .literal, ⟨⟨11, 0, 11⟩, ⟨15, 1, 1⟩⟩, some (Constant.string "ü\n").display⟩ hparse
      (by simp [Program.outline, Element.outline, Expr.outline, Literal.outline])
  have hq : Source.Mentions ⟨"let x: T = \"ü\n\";", "shell"⟩ ⟨15, 1, 1⟩ := .tokenStop htoken
  exact ⟨_, _, _, rfl, rfl, rfl, hp, hq, (positions_ordered _ _ _ hp hq).1, (positions_ordered _ _ _ hq hp).1⟩

end DeclScript
