import DeclScript.Proofs.Nesting

set_option autoImplicit false

/-!
# Leaves and their texts

The nodes without children are identifiers, literals and comments. Each of them was read from one token, so the text
that its span covers is the spelling of this token with the blanks behind it.
-/

namespace DeclScript

/-- A node without children. -/
inductive Leaf (Mark : Type) where
  | identifier (id : Identifier Mark)
  | literal (literal : Literal Mark)
  | comment (comment : Comment Mark)

section Collect

variable {Mark : Type}

def Leaf.mark : Leaf Mark → Mark
  | .identifier id => id.mark
  | .literal l => l.mark
  | .comment c => c.mark

def Expr.leaves : Expr Mark → List (Leaf Mark)
  | .identifier id => [.identifier id]
  | .literal l => [.literal l]
  | .call callee args _ => callee.leaves ++ args.map fun a => .identifier a.id

def Element.leaves : Element Mark → List (Leaf Mark)
  | .comment c => [.comment c]
  | .importDeclaration d => d.specifiers.map (fun sp => .identifier sp.id) ++ [.literal d.source]
  | .variableDeclaration d => .identifier d.id :: .identifier d.valueType :: d.init.leaves
  | .expression e => e.leaves

/-- All leaves, in the order of the text. -/
def Program.leaves (program : Program Mark) : List (Leaf Mark) :=
  program.body.flatMap Element.leaves

end Collect

/-! ## Spellings of leaves -/

/-- The texts that write a constant. Only numbers have more than one. -/
def Constant.SpelledBy : Constant → List Char → Prop
  | .string text, word => word = '"' :: (text.toList ++ ['"'])
  | .numeric n, word => word ≠ [] ∧ (∀ d ∈ word, d.isDigit) ∧ Nat.ofDigitChars 10 word 0 = n.toNat
  | .character c, word => word = ['\x27', c, '\x27']
  | .boolean true, word => word = "true".toList
  | .boolean false, word => word = "false".toList
  | .null, word => word = "null".toList

namespace Leaf

variable {Mark : Type}

def SpelledBy : Leaf Mark → List Char → Prop
  | .identifier id, word => word = id.name.toList
  | .literal l, word => l.value.SpelledBy word
  | .comment c, word => word = '#' :: c.text.toList

def IsOf : Leaf Mark → Lexeme → Prop
  | .identifier id, l => l = .identifier id.name
  | .literal constant, l => l.Writes constant.value
  | .comment c, l => l = .comment c.text

end Leaf

theorem Lexeme.Spells.constant {l : Lexeme} {word : List Char} {c : Constant} (h : l.Spells word) (hc : l.Writes c) :
    c.SpelledBy word := by
  cases hc with
  | string text =>
      cases h with
      | reserved h => rcases kind_of_reserved h with hk | hk | hk <;> cases hk
      | string => rfl
  | numeric n =>
      cases h with
      | number hne hd hn => exact ⟨hne, hd, hn⟩
  | character c =>
      generalize ht : String.ofList [c] = text at h
      cases h with
      | reserved h => rcases kind_of_reserved h with hk | hk | hk <;> cases hk
      | character =>
          cases String.ofList_injective ht
          rfl
  | null value =>
      cases h with
      | reserved h =>
          have hnull : ∀ e ∈ reservedWords, e.2 = .nullLiteral → e.1 = "null" := by decide
          exact congrArg String.toList (hnull _ h rfl)
  | boolean text =>
      cases h with
      | reserved h =>
          have hboolean : ∀ e ∈ reservedWords, e.2 = .booleanLiteral → e.1 = "true" ∨ e.1 = "false" := by decide
          rcases hboolean _ h rfl with rfl | rfl <;> rfl

theorem Leaf.spelledBy_of_spells {Mark : Type} {leaf : Leaf Mark} {l : Lexeme} {word : List Char} (h : leaf.IsOf l)
    (hs : l.Spells word) : leaf.SpelledBy word := by
  cases leaf with
  | identifier id =>
      cases h
      cases hs with
      | reserved h => rcases kind_of_reserved h with hk | hk | hk <;> cases hk
      | identifier => rfl
  | literal constant => exact hs.constant h
  | comment c =>
      cases h
      cases hs with
      | comment => rfl
      | reserved h => rcases kind_of_reserved h with hk | hk | hk <;> cases hk

/-! ## The token of a leaf -/

/-- The leaf was read from one of the tokens `ts`, and its span ends where the next of them starts. -/
def Leaf.ReadFrom (ts : List Token) (leaf : Leaf Span) : Prop :=
  ∃ t next, [t, next] <:+: ts ∧ leaf.IsOf t.toLexeme ∧ leaf.mark = extent [t] next

theorem Leaf.ReadFrom.mono {ts us : List Token} {leaf : Leaf Span} (h : leaf.ReadFrom ts) (hts : ts <:+: us) :
    leaf.ReadFrom us := by
  obtain ⟨t, next, hpair, h⟩ := h
  exact ⟨t, next, hpair.trans hts, h⟩

theorem MarkedPrimary.readFrom {t next : Token} {e : Expr Span} (h : MarkedPrimary t next e) :
    ∀ leaf ∈ e.leaves, leaf.ReadFrom [t, next] := by
  intro leaf hleaf
  cases h with
  | identifier h =>
      cases List.mem_singleton.1 hleaf
      exact ⟨t, next, List.infix_rfl, h, rfl⟩
  | literal h =>
      cases List.mem_singleton.1 hleaf
      exact ⟨t, next, List.infix_rfl, h, rfl⟩

theorem MarkedArguments.readFrom {close : Token} {ts : List Token} {args : List (Argument Span)}
    (h : MarkedArguments close ts args) : ∀ a ∈ args, Leaf.ReadFrom (ts ++ [close]) (.identifier a.id) := by
  induction h with
  | nil => simp
  | @cons t ts name args h _ ih =>
      intro a ha
      rcases List.mem_cons.1 ha with rfl | ha
      · exact ⟨t, ts.headD close, part_upTo [t] ts close, h, rfl⟩
      · exact (ih a ha).mono ⟨[t], [], by simp⟩

theorem MarkedChain.readFrom {ts : List Token} {next : Token} {e : Expr Span} (h : MarkedChain ts next e) :
    ∀ leaf ∈ e.leaves, leaf.ReadFrom (ts ++ [next]) := by
  induction h with
  | primary h => exact h.readFrom
  | @call ts us op close next e args h hopen ha hclose ih =>
      intro leaf hleaf
      rcases List.mem_append.1 hleaf with hleaf | hleaf
      · exact (ih leaf hleaf).mono ⟨[], us ++ [close, next], by simp⟩
      · obtain ⟨a, hmem, rfl⟩ := List.mem_map.1 hleaf
        exact (ha.readFrom a hmem).mono ⟨ts ++ [op], [next], by simp⟩

theorem MarkedSpecifiers.readFrom {close : Token} {ts : List Token} {specifiers : List (ImportSpecifier Span)}
    (h : MarkedSpecifiers close ts specifiers) :
    ∀ sp ∈ specifiers, Leaf.ReadFrom (ts ++ [close]) (.identifier sp.id) := by
  induction h with
  | nil => simp
  | @cons comma t ts name specifiers hc h _ ih =>
      intro sp hsp
      rcases List.mem_cons.1 hsp with rfl | hsp
      · exact ⟨t, ts.headD close, (part_upTo [t] ts close).trans ⟨[comma], [], by simp⟩, h, rfl⟩
      · exact (ih sp hsp).mono ⟨[comma, t], [], by simp⟩

theorem MarkedElement.readFrom {ts : List Token} {next : Token} {e : Element Span} (h : MarkedElement ts next e) :
    ∀ leaf ∈ e.leaves, leaf.ReadFrom (ts ++ [next]) := by
  intro leaf hleaf
  cases h with
  | @comment t _ text h =>
      cases List.mem_singleton.1 hleaf
      exact ⟨t, next, List.infix_rfl, h, rfl⟩
  | @importDeclaration word op t close behind source semicolon _ ts name specifiers c hword hopen ht hs hclose hfrom hc
      hsemicolon =>
      rcases List.mem_append.1 hleaf with hleaf | hleaf
      · obtain ⟨sp, hsp, rfl⟩ := List.mem_map.1 hleaf
        rcases List.mem_cons.1 hsp with rfl | hsp
        · exact ⟨t, ts.headD close, (part_upTo [t] ts close).trans ⟨[word, op], [behind, source, semicolon, next],
            by simp⟩, ht, rfl⟩
        · exact (hs.readFrom sp hsp).mono ⟨[word, op, t], [behind, source, semicolon, next], by simp⟩
      · cases List.mem_singleton.1 hleaf
        exact ⟨source, semicolon, ⟨[word, op, t] ++ ts ++ [close, behind], [next], by simp⟩, hc, rfl⟩
  | @variableDeclaration word id colon type equals init semicolon _ ts name typeName optional e hword hid hcolon htype
      hmark hequals hinit hsemicolon =>
      rcases List.mem_cons.1 hleaf with rfl | hleaf
      · exact ⟨id, colon, ⟨[word], type :: ts ++ [equals, init, semicolon, next], by simp⟩, hid, rfl⟩
      rcases List.mem_cons.1 hleaf with rfl | hleaf
      · exact ⟨type, ts.headD equals, (part_upTo [type] ts equals).trans ⟨[word, id, colon], [init, semicolon, next],
          by simp⟩, htype, rfl⟩
      · exact (hinit.readFrom leaf hleaf).mono ⟨[word, id, colon, type] ++ ts ++ [equals], [next], by simp⟩
  | @expression ts semicolon _ e h hsemicolon => exact (h.readFrom leaf hleaf).mono ⟨[], [next], by simp⟩

theorem MarkedBody.readFrom {last : Token} {ts : List Token} {es : List (Element Span)} (h : MarkedBody last ts es) :
    ∀ e ∈ es, ∀ leaf ∈ e.leaves, leaf.ReadFrom (ts ++ [last]) := by
  induction h with
  | nil => simp
  | @cons ts us e es h _ ih =>
      intro f hf leaf hleaf
      rcases List.mem_cons.1 hf with rfl | hf
      · exact (h.readFrom leaf hleaf).mono (part_upTo ts us last)
      · exact (ih f hf leaf hleaf).mono ⟨ts, [], by simp⟩

theorem MarkedProgram.readFrom {ts : List Token} {program : Program Span} (h : MarkedProgram ts program) :
    ∀ leaf ∈ program.leaves, leaf.ReadFrom ts := by
  intro leaf hleaf
  cases h with
  | intro hbody hlast =>
      obtain ⟨e, he, hleaf⟩ := List.mem_flatMap.1 hleaf
      exact hbody.readFrom e he leaf hleaf

theorem Laid.spells_leaf {text : List Char} {ts : List Token} {leaf : Leaf Span} (h : Laid [] text ts)
    (hleaf : leaf.ReadFrom ts) : leaf.mark.stop.offset ≤ text.length ∧ ∃ word blanks, leaf.SpelledBy word ∧
      (∀ c ∈ blanks, isBlank c) ∧
      stretch text leaf.mark.start.offset leaf.mark.stop.offset = word ++ blanks := by
  obtain ⟨t, next, ⟨before, behind, rfl⟩, hof, hmark⟩ := hleaf
  rw [List.append_assoc] at h
  obtain ⟨read, rest, htext, h⟩ := h.drop
  obtain ⟨hle, word, blanks, hs, hb, hstretch⟩ := h.spells_to_next
  rw [htext] at hle hstretch
  rw [hmark]
  exact ⟨hle, word, blanks, Leaf.spelledBy_of_spells hof hs, hb, hstretch⟩

/-- The span of each leaf of a parsed tree covers a spelling of the leaf, with nothing but blanks behind it. -/
theorem parse_leaves_spelled (s : Source) (program : Program Span) (h : s.parse = .ok program) :
    ∀ leaf ∈ program.leaves, leaf.mark.stop.offset ≤ s.text.toList.length ∧ ∃ word blanks,
      stretch s.text.toList leaf.mark.start.offset leaf.mark.stop.offset = word ++ blanks ∧ leaf.SpelledBy word ∧
      ∀ c ∈ blanks, c = ' ' ∨ c = '\n' := by
  intro leaf hleaf
  obtain ⟨ts, ht, hmarked⟩ := Source.marked_of_parse h
  obtain ⟨hle, word, blanks, hs, hb, hstretch⟩ := (Source.laid_tokens ht).spells_leaf (hmarked.readFrom leaf hleaf)
  exact ⟨hle, word, blanks, hstretch, hs, fun c hc => eq_of_isBlank (hb c hc)⟩

theorem parse_leaves_spelled_string :
    Source.parse ⟨"# é\nlet x: T = \"ü\n\" \n;", "shell"⟩ = .ok ⟨[.comment ⟨" é", ⟨0, 0, 0⟩, ⟨4, 1, 0⟩⟩,
      .variableDeclaration ⟨⟨"x", ⟨8, 1, 4⟩, ⟨9, 1, 5⟩⟩, ⟨"T", ⟨11, 1, 7⟩, ⟨13, 1, 9⟩⟩, false,
        .literal ⟨.string "ü\n", ⟨15, 1, 11⟩, ⟨21, 3, 0⟩⟩, ⟨4, 1, 0⟩, ⟨22, 3, 1⟩⟩], ⟨0, 0, 0⟩, ⟨22, 3, 1⟩⟩ ∧
    ∃ word blanks, stretch "# é\nlet x: T = \"ü\n\" \n;".toList 15 21 = word ++ blanks ∧
      word = '"' :: ("ü\n".toList ++ ['"']) ∧ ∀ c ∈ blanks, c = ' ' ∨ c = '\n' := by
  have hp : Source.parse ⟨"# é\nlet x: T = \"ü\n\" \n;", "shell"⟩ = .ok ⟨[.comment ⟨" é", ⟨0, 0, 0⟩, ⟨4, 1, 0⟩⟩,
      .variableDeclaration ⟨⟨"x", ⟨8, 1, 4⟩, ⟨9, 1, 5⟩⟩, ⟨"T", ⟨11, 1, 7⟩, ⟨13, 1, 9⟩⟩, false,
        .literal ⟨.string "ü\n", ⟨15, 1, 11⟩, ⟨21, 3, 0⟩⟩, ⟨4, 1, 0⟩, ⟨22, 3, 1⟩⟩], ⟨0, 0, 0⟩, ⟨22, 3, 1⟩⟩ := by
    decide +kernel
  have hleaves := parse_leaves_spelled _ _ hp
  exact ⟨hp, (hleaves (.literal ⟨.string "ü\n", ⟨15, 1, 11⟩, ⟨21, 3, 0⟩⟩)
    (by simp [Program.leaves, Element.leaves, Expr.leaves])).2⟩

end DeclScript
