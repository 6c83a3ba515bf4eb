import DeclScript.Proofs.Acceptance
import DeclScript.Proofs.Writing

set_option autoImplicit false

/-!
# Writing and parsing

Parsing undoes writing a well-formed tree. Only well-formed trees come out of the parser, since everything in them was
spelled somewhere in the text, so a parsed tree can always be written and parsed again.
-/

namespace DeclScript

def Lexeme.Written (l : Lexeme) : Prop :=
  ∃ word, l.Spells word

namespace Lexeme.Written

theorem isName {name : String} (h : Written (.identifier name)) : isName name := by
  obtain ⟨word, h⟩ := h
  cases h with
  | reserved h => rcases kind_of_reserved h with hk | hk | hk <;> cases hk
  | identifier h => exact h

theorem comment {text : String} (h : Written (.comment text)) : '\n' ∉ text.toList := by
  obtain ⟨word, h⟩ := h
  cases h with
  | comment h => exact h
  | reserved h => rcases kind_of_reserved h with hk | hk | hk <;> cases hk

theorem constant {l : Lexeme} {c : Constant} (h : l.Written) (hc : l.Writes c) : c.WellFormed := by
  obtain ⟨word, h⟩ := h
  cases hc with
  | string text =>
      cases h with
      | reserved h => rcases kind_of_reserved h with hk | hk | hk <;> cases hk
      | string h => exact h
  | character c =>
      generalize ht : String.ofList [c] = text at h
      cases h with
      | reserved h => rcases kind_of_reserved h with hk | hk | hk <;> cases hk
      | @character d h =>
          cases String.ofList_injective ht
          exact h
  | numeric => trivial
  | null => trivial
  | boolean => trivial

end Lexeme.Written

/-! ## Derived trees are well formed -/

section Derived

variable {ls : List Lexeme}

theorem IsPrimary.wellFormed {l : Lexeme} {e : Expr Unit} (h : IsPrimary l e) (hl : l.Written) :
    e.isCall = false ∧ e.WellFormed := by
  cases h with
  | identifier name => exact ⟨rfl, hl.isName⟩
  | literal h => exact ⟨rfl, hl.constant h⟩

theorem IsChain.wellFormed {e : Expr Unit} (h : IsChain ls e) (hl : ∀ l ∈ ls, l.Written) : e.WellFormed := by
  induction h with
  | primary h => exact (h.wellFormed (hl _ List.mem_cons_self)).2
  | @call ls e h names ih =>
      refine ⟨ih fun l hmem => hl l (List.mem_append_left _ hmem), ?_⟩
      intro a ha
      obtain ⟨name, hname, rfl⟩ := List.mem_map.1 ha
      exact (hl (.identifier name) (by simp [hname])).isName

theorem IsElement.wellFormed {e : Element Unit} (h : IsElement ls e) (hl : ∀ l ∈ ls, l.Written) : e.WellFormed := by
  cases h with
  | comment text => exact (hl _ List.mem_cons_self).comment
  | importDeclaration first others h =>
      refine ⟨by simp, ?_, (hl _ (by simp)).constant h⟩
      intro sp hsp
      obtain ⟨name, hname, rfl⟩ := List.mem_map.1 hsp
      have hmem : Lexeme.identifier name ∈ importNames first others := by
        rcases List.mem_cons.1 hname with rfl | hname
        · simp [importNames]
        · simp [importNames, hname]
      exact (hl (.identifier name) (by simp [importHead, hmem])).isName
  | variableDeclaration name type optional h =>
      have hname : Lexeme.identifier name ∈ variableHead name type optional := by simp [variableHead]
      have htype : Lexeme.identifier type ∈ variableHead name type optional := by simp [variableHead]
      refine ⟨(hl _ (List.mem_append_left _ hname)).isName, (hl _ (List.mem_append_left _ htype)).isName, ?_⟩
      exact h.wellFormed (hl _ (by simp))
  | expression h => exact h.wellFormed fun l hmem => hl l (List.mem_append_left _ hmem)

theorem IsBody.wellFormed {es : List (Element Unit)} (h : IsBody ls es) (hl : ∀ l ∈ ls, l.Written) :
    ∀ e ∈ es, e.WellFormed := by
  induction h with
  | nil => simp
  | cons h _ ih =>
      intro e he
      rcases List.mem_cons.1 he with rfl | he
      · exact h.wellFormed fun l hmem => hl l (List.mem_append_left _ hmem)
      · exact ih (fun l hmem => hl l (List.mem_append_right _ hmem)) e he

end Derived

theorem Source.written_of_tokens {s : Source} {ts : List Token} {body : List Lexeme} (h : s.tokens = .ok ts)
    (hts : lexemes ts = body ++ [.endOfFile]) : ∀ l ∈ body, l.Written := by
  have hlaid := s.laid_stream
  rw [tokens_eq_ok_iff.1 h] at hlaid
  obtain ⟨before, s', rfl, hbefore, -, -⟩ := exists_endOfFile h
  rw [lexemes_append] at hts
  obtain ⟨rfl, -⟩ := List.append_inj' hts rfl
  intro l hl
  obtain ⟨t, ht, rfl⟩ := List.mem_map.1 hl
  exact ⟨_, (hlaid.spells (List.mem_append_left _ ht) (hbefore t ht)).2⟩

theorem Source.wellFormed_of_parse {s : Source} {program : Program Span} (h : s.parse = .ok program) :
    program.erase.WellFormed := by
  obtain ⟨ts, ht, body, hts, hbody⟩ := isProgram_of_parse h
  exact hbody.wellFormed (written_of_tokens ht hts)

theorem Program.WellFormed.parse {tree : Program Unit} (h : tree.WellFormed) (file : String) :
    ∃ program, Source.parse ⟨tree.spelling, file⟩ = .ok program ∧ program.erase = tree := by
  obtain ⟨ts, ht, hp⟩ := h.tokens file
  exact Source.parse_of_isProgram ht hp

/-- A well-formed tree is parsed from its spelling, and every parsed tree is well formed. -/
theorem parse_spelling_roundTrip :
    (∀ (tree : Program Unit) (file : String), tree.WellFormed →
      ∃ program, Source.parse ⟨tree.spelling, file⟩ = .ok program ∧ program.erase = tree) ∧
    (∀ (s : Source) (program : Program Span), s.parse = .ok program → program.erase.WellFormed ∧
      ∀ file, ∃ again, Source.parse ⟨program.erase.spelling, file⟩ = .ok again ∧ again.erase = program.erase) := by
  constructor
  · intro tree file h
    exact h.parse file
  · intro s program h
    have hw := Source.wellFormed_of_parse h
    exact ⟨hw, fun file => hw.parse file⟩

theorem parse_spelling_roundTrip_lines : ∃ program,
    Source.parse ⟨"# é\nimport \x7b a, b \x7d from \"\n\";\nlet x: T? = 18446744073709551615;\nf(a b)();\n", "shell"⟩ =
      .ok program ∧
    program.erase = ⟨[.comment ⟨" é", ()⟩,
      .importDeclaration ⟨[⟨⟨"a", ()⟩, ()⟩, ⟨⟨"b", ()⟩, ()⟩], ⟨.string "\n", ()⟩, ()⟩,
      .variableDeclaration ⟨⟨"x", ()⟩, ⟨"T", ()⟩, true, .literal ⟨.numeric 18446744073709551615, ()⟩, ()⟩,
      .expression (.call (.call (.identifier ⟨"f", ()⟩) [⟨⟨"a", ()⟩, ()⟩, ⟨⟨"b", ()⟩, ()⟩] ()) [] ())], ()⟩ ∧
    ∃ again, Source.parse ⟨program.erase.spelling, "shell"⟩ = .ok again ∧ again.erase = program.erase := by
  have hw : Program.WellFormed ⟨[.comment ⟨" é", ()⟩,
      .importDeclaration ⟨[⟨⟨"a", ()⟩, ()⟩, ⟨⟨"b", ()⟩, ()⟩], ⟨.string "\n", ()⟩, ()⟩,
      .variableDeclaration ⟨⟨"x", ()⟩, ⟨"T", ()⟩, true, .literal ⟨.numeric 18446744073709551615, ()⟩, ()⟩,
      .expression (.call (.call (.identifier ⟨"f", ()⟩) [⟨⟨"a", ()⟩, ()⟩, ⟨⟨"b", ()⟩, ()⟩] ()) [] ())], ()⟩ := by
    decide +kernel
  obtain ⟨program, hp, he⟩ := parse_spelling_roundTrip.1 _ "shell" hw
  exact ⟨program, hp, he, (parse_spelling_roundTrip.2 _ program hp).2 "shell"⟩

end DeclScript
