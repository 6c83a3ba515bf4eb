import DeclScript.Proofs.Language
import DeclScript.Proofs.Layout
import Mathlib.Data.List.Infix

set_option autoImplicit false

/-!
# Trees written out

A bare tree is well formed when all that it holds can be written down: names are names, texts stay inside their
delimiters, and the value of a variable is no call. The spelling of a program gives each element a line of its own, and
it is scanned into lexemes that the grammar derives the program from.
-/

namespace DeclScript

/-! ## Well-formed trees -/

def Constant.WellFormed : Constant → Prop
  | .string text => '"' ∉ text.toList
  | .character c => c ≠ '\x27'
  | .numeric _ | .boolean _ | .null => True

/-- Nothing is asked of the innermost callee, which cannot be anything but an identifier or a literal. -/
def Expr.WellFormed : Expr Unit → Prop
  | .identifier id => isName id.name
  | .literal l => l.value.WellFormed
  | .call callee args _ => callee.WellFormed ∧ ∀ a ∈ args, isName a.id.name

def Expr.isCall : Expr Unit → Bool
  | .call .. => true
  | _ => false

def Element.WellFormed : Element Unit → Prop
  | .comment c => '\n' ∉ c.text.toList
  | .importDeclaration d =>
      d.specifiers ≠ [] ∧ (∀ sp ∈ d.specifiers, isName sp.id.name) ∧ d.source.value.WellFormed
  | .variableDeclaration d =>
      isName d.id.name ∧ isName d.valueType.name ∧ d.init.isCall = false ∧ d.init.WellFormed
  | .expression e => e.WellFormed

def Program.WellFormed (program : Program Unit) : Prop :=
  ∀ e ∈ program.body, e.WellFormed

instance Constant.decidableWellFormed : (c : Constant) → Decidable c.WellFormed
  | .string text => inferInstanceAs (Decidable ('"' ∉ text.toList))
  | .character c => inferInstanceAs (Decidable (c ≠ '\x27'))
  | .numeric _ | .boolean _ | .null => .isTrue trivial

instance Expr.decidableWellFormed : (e : Expr Unit) → Decidable e.WellFormed
  | .identifier id => inferInstanceAs (Decidable (isName id.name = true))
  | .literal l => inferInstanceAs (Decidable l.value.WellFormed)
  | .call callee args _ =>
      have := decidableWellFormed callee
      inferInstanceAs (Decidable (callee.WellFormed ∧ ∀ a ∈ args, isName a.id.name = true))

instance Element.decidableWellFormed : (e : Element Unit) → Decidable e.WellFormed
  | .comment c => inferInstanceAs (Decidable ('\n' ∉ c.text.toList))
  | .importDeclaration d => inferInstanceAs (Decidable
      (d.specifiers ≠ [] ∧ (∀ sp ∈ d.specifiers, isName sp.id.name = true) ∧ d.source.value.WellFormed))
  | .variableDeclaration d => inferInstanceAs (Decidable
      (isName d.id.name = true ∧ isName d.valueType.name = true ∧ d.init.isCall = false ∧ d.init.WellFormed))
  | .expression e => inferInstanceAs (Decidable e.WellFormed)

instance (program : Program Unit) : Decidable program.WellFormed :=
  inferInstanceAs (Decidable (∀ e ∈ program.body, e.WellFormed))

/-! ## Spellings of trees -/

theorem map_bareArgument (args : List (Argument Unit)) : (args.map (·.id.name)).map bareArgument = args := by
  rw [List.map_map]
  exact List.map_id args

theorem map_bareSpecifier (specifiers : List (ImportSpecifier Unit)) :
    (specifiers.map (·.id.name)).map bareSpecifier = specifiers := by
  rw [List.map_map]
  exact List.map_id specifiers

def Constant.spelling : Constant → String
  | .string text => "\"" ++ text ++ "\""
  | .numeric n => n.toNat.repr
  | .character c => String.ofList ['\x27', c, '\x27']
  | .boolean true => "true"
  | .boolean false => "false"
  | .null => "null"

def Expr.spelling : Expr Unit → String
  | .identifier id => id.name
  | .literal l => l.value.spelling
  | .call callee args _ => String.join [callee.spelling, "(", " ".intercalate (args.map (·.id.name)), ")"]

def ImportDeclaration.spelling (d : ImportDeclaration Unit) : String :=
  String.join ["import \x7b ", ", ".intercalate (d.specifiers.map (·.id.name)), " \x7d from ",
    d.source.value.spelling, ";"]

def VariableDeclaration.spelling (d : VariableDeclaration Unit) : String :=
  String.join ["let ", d.id.name, ": ", d.valueType.name, if d.optional then "?" else "", " = ", d.init.spelling, ";"]

def Element.spelling : Element Unit → String
  | .comment c => "#" ++ c.text
  | .importDeclaration d => d.spelling
  | .variableDeclaration d => d.spelling
  | .expression e => e.spelling ++ ";"

/-- One line for each element. -/
def Program.spelling (program : Program Unit) : String :=
  String.join (program.body.map fun e => e.spelling ++ "\n")

/-! ## Texts and their lexemes -/

/-- The lexemes that a text spells, with blanks before, between and behind them. -/
inductive Scans : List Char → List Lexeme → Prop
  | blanks {blanks : List Char} (hb : ∀ c ∈ blanks, isBlank c) : Scans blanks []
  | cons {l : Lexeme} {blanks word rest : List Char} {ls : List Lexeme} (hb : ∀ c ∈ blanks, isBlank c)
      (hs : l.Spells word) (he : l.Ends word rest) (h : Scans rest ls) : Scans (blanks ++ (word ++ rest)) (l :: ls)

namespace Scans

variable {rest : List Char} {ls : List Lexeme}

theorem blank {c : Char} (hc : isBlank c) (h : Scans rest ls) : Scans (c :: rest) ls := by
  cases h with
  | blanks hb => exact .blanks (by simpa [hc] using hb)
  | @cons l blanks word rest ls hb hs he h =>
      have hb' : ∀ d ∈ c :: blanks, isBlank d := by simpa [hc] using hb
      exact .cons hb' hs he h

theorem lexeme {l : Lexeme} {word : List Char} (hs : l.Spells word) (he : l.Ends word rest) (h : Scans rest ls) :
    Scans (word ++ rest) (l :: ls) :=
  @cons l [] word rest ls (by simp) hs he h

def Closed (rest : List Char) : Prop :=
  ∀ c, rest.head? = some c → c.isAlphanum = false

theorem closed_cons {c : Char} (h : c.isAlphanum = false) : Closed (c :: rest) := by
  intro d hd
  cases hd
  exact h

theorem name {name : String} (hn : isName name) (hr : Closed rest) (h : Scans rest ls) :
    Scans (name.toList ++ rest) (.identifier name :: ls) :=
  lexeme (.identifier hn) hr h

theorem keyword {word : String} (hw : (word, .keyword) ∈ reservedWords) (hr : Closed rest) (h : Scans rest ls) :
    Scans (word.toList ++ rest) (.keyword word :: ls) :=
  lexeme (.reserved hw) hr h

/-- No other punctuator starts with the character, which is one itself. -/
def standsAlone (c : Char) : Bool :=
  punctuators.contains [c] && punctuators.all fun p => p.head? != some c || p == [c]

def loneMarks : List Char :=
  ['(', ')', ',', ':', ';', '?', '\x7b', '\x7d']

theorem standsAlone_of_mem {c : Char} (h : c ∈ loneMarks) : standsAlone c := by
  have all : loneMarks.all standsAlone = true := by decide
  exact List.all_eq_true.1 all c h

theorem mark (text : String) (c : Char) (ht : text.toList = [c]) (hc : c ∈ loneMarks) (h : Scans rest ls) :
    Scans (c :: rest) (.punctuator text :: ls) := by
  have hc := standsAlone_of_mem hc
  simp only [standsAlone, Bool.and_eq_true, List.contains_iff_mem, List.all_eq_true] at hc
  have hs : Lexeme.Spells (.punctuator text) text.toList := .punctuator (ht ▸ hc.1)
  rw [ht] at hs
  refine lexeme hs ?_ h
  intro p hp hpre
  cases p with
  | nil => simp
  | cons d p =>
      rw [List.singleton_append, List.cons_prefix_cons] at hpre
      have hlone := hc.2 (d :: p) hp
      obtain rfl : p = [] := by simpa [hpre.1] using hlone
      simp

theorem equals (h : Scans rest ls) : Scans ('=' :: ' ' :: rest) (.punctuator "=" :: ls) := by
  -- The blank keeps the equals sign from becoming a longer punctuator.
  have hmem : "=".toList ∈ punctuators := by decide
  have hmax : ∀ p ∈ punctuators, p.take 2 <+: ['=', ' '] → p.length ≤ 1 := by decide
  refine @lexeme (' ' :: rest) ls (.punctuator "=") ['='] (.punctuator hmem) ?_ (h.blank rfl)
  intro p hp hpre
  exact hmax p hp (List.IsPrefix.take hpre 2)

theorem constant {c : Constant} (hc : c.WellFormed) (hr : Closed rest) (h : Scans rest ls) :
    ∃ l, l.Writes c ∧ Scans (c.spelling.toList ++ rest) (l :: ls) := by
  cases c with
  | string text =>
      refine ⟨_, .string text, ?_⟩
      have hs : ("\"" ++ text ++ "\"").toList = '"' :: (text.toList ++ ['"']) := by simp
      rw [Constant.spelling, hs]
      exact lexeme (.string hc) trivial h
  | numeric n =>
      refine ⟨_, .numeric n, ?_⟩
      have hd : ∀ d ∈ n.toNat.repr.toList, d.isDigit := by
        intro d hd
        rw [Nat.toList_repr] at hd
        exact Nat.isDigit_of_mem_toDigits (by decide) (by decide) hd
      have hn : Nat.ofDigitChars 10 n.toNat.repr.toList 0 = n.toNat := by
        rw [Nat.toList_repr]
        exact Nat.ofDigitChars_toDigits (by decide) (by decide)
      have hne : n.toNat.repr.toList ≠ [] := by
        rw [Nat.toList_repr]
        exact Nat.toDigits_ne_nil
      refine lexeme (.number hne hd hn) ?_ h
      intro d hd
      have hd := hr d hd
      simp only [Char.isAlphanum, Bool.or_eq_false_iff] at hd
      exact hd.2
  | character d =>
      refine ⟨_, .character d, ?_⟩
      rw [Constant.spelling, String.toList_ofList]
      exact lexeme (.character hc) trivial h
  | boolean b =>
      cases b with
      | true => exact ⟨_, .boolean "true", lexeme (.reserved (by decide)) hr h⟩
      | false => exact ⟨_, .boolean "false", lexeme (.reserved (by decide)) hr h⟩
  | null => exact ⟨_, .null (.text "null"), lexeme (.reserved (by decide)) hr h⟩

theorem primary {e : Expr Unit} (hcall : e.isCall = false) (he : e.WellFormed) (hr : Closed rest)
    (h : Scans rest ls) : ∃ l, IsPrimary l e ∧ Scans (e.spelling.toList ++ rest) (l :: ls) := by
  cases e with
  | identifier id => exact ⟨_, .identifier id.name, h.name he hr⟩
  | literal l =>
      obtain ⟨l', hl, hs⟩ := h.constant he hr
      exact ⟨l', .literal hl, hs⟩
  | call => cases hcall

theorem arguments {names : List String} (hn : ∀ name ∈ names, isName name) (h : Scans rest ls) :
    Scans ((" ".intercalate names).toList ++ ')' :: rest)
      (names.map .identifier ++ .punctuator ")" :: ls) := by
  have hclose : Scans (')' :: rest) (.punctuator ")" :: ls) := h.mark ")" ')' rfl (by decide)
  induction names with
  | nil => simpa using hclose
  | cons first names ih =>
      have hfirst : isName first := hn first (by simp)
      have ih := ih fun name hname => hn name (by simp [hname])
      cases names with
      | nil => simpa using hclose.name hfirst (closed_cons rfl)
      | cons second names =>
          have hs := (ih.blank (c := ' ') rfl).name hfirst (closed_cons rfl)
          simpa [String.intercalate_cons_cons] using hs

theorem specifiers {first : String} {others : List String} (hn : ∀ name ∈ first :: others, isName name)
    (h : Scans rest ls) : Scans ((", ".intercalate (first :: others)).toList ++ ' ' :: rest)
      (.identifier first :: ((others.flatMap fun name => [.punctuator ",", .identifier name]) ++ ls)) := by
  induction others generalizing first with
  | nil => simpa using (h.blank (c := ' ') rfl).name (hn first (by simp)) (closed_cons rfl)
  | cons second others ih =>
      have ih := @ih second fun name hname => hn name (List.mem_cons_of_mem first hname)
      have hcomma := (ih.blank (c := ' ') rfl).mark "," ',' rfl (by decide)
      have hs := hcomma.name (hn first (by simp)) (closed_cons rfl)
      simpa [String.intercalate_cons_cons] using hs

theorem chain {e : Expr Unit} (he : e.WellFormed) (hr : Closed rest) (h : Scans rest ls) :
    ∃ ms, IsChain ms e ∧ Scans (e.spelling.toList ++ rest) (ms ++ ls) := by
  -- A call is written behind its callee, which is read with the arguments as the rest.
  induction e generalizing rest ls with
  | identifier id =>
      obtain ⟨l, hl, hs⟩ := h.primary rfl he hr
      exact ⟨[l], .primary hl, hs⟩
  | literal c =>
      obtain ⟨l, hl, hs⟩ := h.primary rfl he hr
      exact ⟨[l], .primary hl, hs⟩
  | call callee args mark ih =>
      have hn : ∀ name ∈ args.map (·.id.name), isName name := by
        simpa using he.2
      have hopen := (h.arguments hn).mark "(" '(' rfl (by decide)
      obtain ⟨ms, hms, hs⟩ := ih he.1 (closed_cons rfl) hopen
      have hcall := hms.call (args.map (·.id.name))
      rw [map_bareArgument] at hcall
      refine ⟨_, hcall, ?_⟩
      simpa [Expr.spelling] using hs

theorem importDeclaration {d : ImportDeclaration Unit} (hd : (Element.importDeclaration d).WellFormed)
    (h : Scans rest ls) : ∃ ms, IsElement ms (.importDeclaration d) ∧
      Scans (d.spelling.toList ++ rest) (ms ++ ls) := by
  obtain ⟨specifiers, ⟨c, mark⟩, mark'⟩ := d
  obtain ⟨hne, hn, hc⟩ := hd
  cases specifiers with
  | nil => exact absurd rfl hne
  | cons first others =>
      have hn : ∀ name ∈ first.id.name :: others.map (·.id.name), isName name := by
        simpa using hn
      have hsemicolon := h.mark ";" ';' rfl (by decide)
      obtain ⟨l, hl, hsource⟩ := hsemicolon.constant hc (closed_cons rfl)
      have hfrom : Scans ("from".toList ++ ' ' :: (c.spelling.toList ++ ';' :: rest)) _ :=
        (hsource.blank (c := ' ') rfl).keyword (by decide) (closed_cons rfl)
      have hclose := (hfrom.blank (c := ' ') rfl).mark "\x7d" '\x7d' rfl (by decide)
      have hopen := ((hclose.specifiers hn).blank (c := ' ') rfl).mark "\x7b" '\x7b' rfl (by decide)
      have himport : Scans ("import".toList ++ ' ' :: _) _ :=
        (hopen.blank (c := ' ') rfl).keyword (by decide) (closed_cons rfl)
      have hd := IsElement.importDeclaration first.id.name (others.map (·.id.name)) hl
      have hs : (first.id.name :: others.map (·.id.name)).map bareSpecifier = first :: others :=
        map_bareSpecifier (first :: others)
      rw [hs] at hd
      refine ⟨_, hd, ?_⟩
      simpa [ImportDeclaration.spelling, importHead, importNames] using himport

theorem variableDeclaration {d : VariableDeclaration Unit} (hd : (Element.variableDeclaration d).WellFormed)
    (h : Scans rest ls) : ∃ ms, IsElement ms (.variableDeclaration d) ∧
      Scans (d.spelling.toList ++ rest) (ms ++ ls) := by
  obtain ⟨⟨name, mark⟩, ⟨type, mark'⟩, optional, init, mark''⟩ := d
  obtain ⟨hname, htype, hcall, hinit⟩ := hd
  have hsemicolon := h.mark ";" ';' rfl (by decide)
  obtain ⟨l, hl, hvalue⟩ := hsemicolon.primary hcall hinit (closed_cons rfl)
  have hequals := hvalue.equals.blank (c := ' ') rfl
  refine ⟨_, .variableDeclaration name type optional hl, ?_⟩
  cases optional with
  | false =>
      have hcolon := ((hequals.name htype (closed_cons rfl)).blank (c := ' ') rfl).mark ":" ':' rfl (by decide)
      have hlet : Scans ("let".toList ++ ' ' :: _) _ :=
        ((hcolon.name hname (closed_cons rfl)).blank (c := ' ') rfl).keyword (by decide) (closed_cons rfl)
      simpa [VariableDeclaration.spelling, variableHead] using hlet
  | true =>
      have hmark := hequals.mark "?" '?' rfl (by decide)
      have hcolon := ((hmark.name htype (closed_cons rfl)).blank (c := ' ') rfl).mark ":" ':' rfl (by decide)
      have hlet : Scans ("let".toList ++ ' ' :: _) _ :=
        ((hcolon.name hname (closed_cons rfl)).blank (c := ' ') rfl).keyword (by decide) (closed_cons rfl)
      simpa [VariableDeclaration.spelling, variableHead] using hlet

theorem element {e : Element Unit} (he : e.WellFormed) (h : Scans rest ls) :
    ∃ ms, IsElement ms e ∧ Scans (e.spelling.toList ++ '\n' :: rest) (ms ++ ls) := by
  have hline := h.blank (c := '\n') rfl
  cases e with
  | comment c =>
      -- Only a comment needs the line feed behind its element.
      refine ⟨_, .comment c.text, ?_⟩
      have hs : ("#" ++ c.text).toList = '#' :: c.text.toList := by simp
      rw [Element.spelling, hs]
      exact lexeme (.comment he) (by simp [Lexeme.Ends]) hline
  | importDeclaration d => exact hline.importDeclaration he
  | variableDeclaration d => exact hline.variableDeclaration he
  | expression e =>
      have hsemicolon := hline.mark ";" ';' rfl (by decide)
      obtain ⟨ms, hms, hs⟩ := hsemicolon.chain he (closed_cons rfl)
      refine ⟨_, .expression hms, ?_⟩
      simpa [Element.spelling] using hs

theorem body {es : List (Element Unit)} (hes : ∀ e ∈ es, e.WellFormed) :
    ∃ ms, IsBody ms es ∧ Scans (es.flatMap fun e => e.spelling.toList ++ ['\n']) ms := by
  induction es with
  | nil => exact ⟨[], .nil, .blanks (by simp)⟩
  | cons e es ih =>
      obtain ⟨ms, hms, hs⟩ := ih fun e' he' => hes e' (List.mem_cons_of_mem e he')
      obtain ⟨ls, hls, hs'⟩ := hs.element (hes e List.mem_cons_self)
      refine ⟨ls ++ ms, .cons hls hms, ?_⟩
      simpa using hs'

theorem drain (h : Scans rest ls) {s : Scanner} (hs : s.rest = rest) :
    ∃ ts, s.drain = ⟨ts, none⟩ ∧ lexemes ts = ls ++ [.endOfFile] := by
  induction h generalizing s with
  | blanks hb =>
      subst hs
      have hn := Scanner.nextToken_of_pulls (.endOfFile hb)
      exact ⟨_, Scanner.drain_of_endOfFile hn rfl, rfl⟩
  | @cons l blanks word rest ls hb hspells he h ih =>
      have hn := Scanner.nextToken_of_pulls (.lexeme hs hb hspells he)
      obtain ⟨ts, hdrain, hts⟩ := @ih { s with position := s.position.after (blanks ++ word), rest } rfl
      have hcons := Scanner.drain_of_ok hn hspells.kind_ne_endOfFile
      rw [hdrain] at hcons
      exact ⟨_, hcons, congrArg (l :: ·) hts⟩

end Scans

theorem Program.WellFormed.tokens {program : Program Unit} (h : program.WellFormed) (file : String) :
    ∃ ts, Source.tokens ⟨program.spelling, file⟩ = .ok ts ∧ IsProgram (lexemes ts) program := by
  obtain ⟨ms, hms, hs⟩ := Scans.body h
  have hrest : program.spelling.toList = program.body.flatMap fun e => e.spelling.toList ++ ['\n'] := by
    simp [Program.spelling, List.flatMap_map]
  rw [← hrest] at hs
  obtain ⟨ts, hdrain, hts⟩ := hs.drain (s := Source.scanner ⟨program.spelling, file⟩) rfl
  exact ⟨ts, Source.tokens_eq_ok_iff.2 hdrain, ms, hts, hms⟩

end DeclScript
