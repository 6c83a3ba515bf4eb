import DeclScript.Tree.Basic

set_option autoImplicit false

/-!
# The language

Which sequences of lexemes are programs, and which bare tree each of them has. The rules are stated over kinds and
values alone: neither spans nor the tables of the parser take part.
-/

namespace DeclScript

/-! ## Bare trees -/

section Bare

variable {Mark : Type}

def Identifier.erase (id : Identifier Mark) : Identifier Unit := ⟨id.name, ()⟩

def Literal.erase (literal : Literal Mark) : Literal Unit := ⟨literal.value, ()⟩

def Argument.erase (argument : Argument Mark) : Argument Unit := ⟨argument.id.erase, ()⟩

def Expr.erase : Expr Mark → Expr Unit
  | .identifier id => .identifier id.erase
  | .literal l => .literal l.erase
  | .call callee arguments _ => .call callee.erase (arguments.map Argument.erase) ()

def ImportSpecifier.erase (specifier : ImportSpecifier Mark) : ImportSpecifier Unit := ⟨specifier.id.erase, ()⟩

def Element.erase : Element Mark → Element Unit
  | .comment c => .comment ⟨c.text, ()⟩
  | .importDeclaration d => .importDeclaration ⟨d.specifiers.map ImportSpecifier.erase, d.source.erase, ()⟩
  | .variableDeclaration d =>
      .variableDeclaration ⟨d.id.erase, d.valueType.erase, d.optional, d.init.erase, ()⟩
  | .expression e => .expression e.erase

def Program.erase (program : Program Mark) : Program Unit := ⟨program.body.map Element.erase, ()⟩

end Bare

def bareArgument (name : String) : Argument Unit := ⟨⟨name, ()⟩, ()⟩

def bareSpecifier (name : String) : ImportSpecifier Unit := ⟨⟨name, ()⟩, ()⟩

theorem map_erase_arguments {Mark : Type} (args : List (Argument Mark)) :
    args.map Argument.erase = (args.map (·.id.name)).map bareArgument := by
  rw [List.map_map]
  rfl

theorem map_erase_specifiers {Mark : Type} (specifiers : List (ImportSpecifier Mark)) :
    specifiers.map ImportSpecifier.erase = (specifiers.map (·.id.name)).map bareSpecifier := by
  rw [List.map_map]
  rfl

/-! ## Lexemes of the grammar -/

namespace Lexeme

abbrev comment (text : String) : Lexeme := ⟨.comment, .text text⟩
abbrev keyword (text : String) : Lexeme := ⟨.keyword, .text text⟩
abbrev identifier (name : String) : Lexeme := ⟨.identifier, .text name⟩
abbrev punctuator (text : String) : Lexeme := ⟨.punctuator, .text text⟩
abbrev endOfFile : Lexeme := ⟨.endOfFile, .none⟩

/-- The literals and what they stand for. -/
inductive Writes : Lexeme → Constant → Prop
  | string (text : String) : Writes ⟨.stringLiteral, .text text⟩ (.string text)
  | numeric (n : UInt64) : Writes ⟨.numericLiteral, .number n⟩ (.numeric n)
  | character (c : Char) : Writes ⟨.characterLiteral, .text (String.ofList [c])⟩ (.character c)
  | null (value : Value) : Writes ⟨.nullLiteral, value⟩ .null
  | boolean (text : String) : Writes ⟨.booleanLiteral, .text text⟩ (.boolean (text == "true"))

end Lexeme

/-! ## The grammar -/

inductive IsPrimary : Lexeme → Expr Unit → Prop
  | identifier (name : String) : IsPrimary (.identifier name) (.identifier ⟨name, ()⟩)
  | literal {l : Lexeme} {c : Constant} (h : l.Writes c) : IsPrimary l (.literal ⟨c, ()⟩)

/-- Each list of arguments calls everything to its left. -/
inductive IsChain : List Lexeme → Expr Unit → Prop
  | primary {l : Lexeme} {e : Expr Unit} (h : IsPrimary l e) : IsChain [l] e
  | call {ls : List Lexeme} {e : Expr Unit} (h : IsChain ls e) (names : List String) :
      IsChain (ls ++ (.punctuator "(" :: (names.map .identifier ++ [.punctuator ")"])))
        (.call e (names.map bareArgument) ())

def importNames (first : String) (others : List String) : List Lexeme :=
  [.keyword "import", .punctuator "\x7b", .identifier first] ++
    others.flatMap fun name => [.punctuator ",", .identifier name]

/-- An import up to the place of its source. -/
def importHead (first : String) (others : List String) : List Lexeme :=
  importNames first others ++ [.punctuator "\x7d", .keyword "from"]

def variableHead (name type : String) (optional : Bool) : List Lexeme :=
  [.keyword "let", .identifier name, .punctuator ":", .identifier type] ++
    (if optional then [.punctuator "?"] else []) ++ [.punctuator "="]

inductive IsElement : List Lexeme → Element Unit → Prop
  | comment (text : String) : IsElement [.comment text] (.comment ⟨text, ()⟩)
  | importDeclaration (first : String) (others : List String) {l : Lexeme} {c : Constant} (h : l.Writes c) :
      IsElement (importHead first others ++ [l, .punctuator ";"])
        (.importDeclaration ⟨(first :: others).map bareSpecifier, ⟨c, ()⟩, ()⟩)
  | variableDeclaration (name type : String) (optional : Bool) {l : Lexeme} {e : Expr Unit} (h : IsPrimary l e) :
      IsElement (variableHead name type optional ++ [l, .punctuator ";"])
        (.variableDeclaration ⟨⟨name, ()⟩, ⟨type, ()⟩, optional, e, ()⟩)
  | expression {ls : List Lexeme} {e : Expr Unit} (h : IsChain ls e) :
      IsElement (ls ++ [.punctuator ";"]) (.expression e)

inductive IsBody : List Lexeme → List (Element Unit) → Prop
  | nil : IsBody [] []
  | cons {ls ms : List Lexeme} {e : Element Unit} {es : List (Element Unit)} (h : IsElement ls e)
      (hs : IsBody ms es) : IsBody (ls ++ ms) (e :: es)

/-- The lexemes are the program with the given tree. -/
def IsProgram (ls : List Lexeme) (program : Program Unit) : Prop :=
  ∃ body, ls = body ++ [.endOfFile] ∧ IsBody body program.body

/-- The lexemes can be continued to a program. -/
def Viable (ls : List Lexeme) : Prop :=
  ∃ more program, IsProgram (ls ++ more) program

/-- What can follow the lexemes is the source of an import. -/
def AwaitsSource (ls : List Lexeme) : Prop :=
  ∃ before es first others, IsBody before es ∧ ls = before ++ importHead first others

theorem IsBody.snoc {ls ms : List Lexeme} {es : List (Element Unit)} {e : Element Unit} (hs : IsBody ls es)
    (h : IsElement ms e) : IsBody (ls ++ ms) (es ++ [e]) := by
  induction hs with
  | nil => simpa using IsBody.cons h .nil
  | cons hf _ ih =>
      rw [List.append_assoc]
      exact .cons hf ih

theorem Constant.ofLexeme?_eq_some_iff {l : Lexeme} {c : Constant} : ofLexeme? l = some c ↔ l.Writes c := by
  constructor
  · intro h
    fun_cases ofLexeme? l with
    | case1 text =>
        cases h
        exact .string text
    | case2 n =>
        cases h
        exact .numeric n
    | case3 text d hd =>
        rw [ofLexeme?, hd] at h
        cases h
        have ht : text = String.ofList [d] := by rw [← hd, String.ofList_toList]
        rw [ht]
        exact .character d
    | case4 text hne =>
        simp_all [ofLexeme?]
    | case5 value =>
        cases h
        exact .null value
    | case6 text =>
        cases h
        exact .boolean text
    | case7 => simp_all [ofLexeme?]
  · rintro (_ | _ | _ | _ | _) <;> simp [ofLexeme?]

end DeclScript
