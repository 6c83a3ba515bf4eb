import DeclScript.Grammar.Session

set_option autoImplicit false

/-!
# What all productions have in common

Productions are put together from few steps: they look at the parser, consume the lookahead or reject it, run one after
the other, and repeat. Only the choice of a rule looks at the tables. A property of steps that is kept by putting them
together is therefore shown once for the choices, and then holds of every production.
-/

namespace DeclScript

namespace Parser

theorem expectThat_eq_advance {p : Parser} {test : Token → Bool} (h : test p.lookahead) :
    expectThat test p = advance p :=
  if_pos h

theorem expectThat_eq_error {p : Parser} {test : Token → Bool} (h : test p.lookahead = false) :
    expectThat test p = .error p.unexpectedToken p :=
  if_neg (by simp [h])

/-- A property of running a step at a parser that holds of the simplest steps, and of steps that run one after the
other. -/
structure Compositional (P : ∀ {α : Type}, ParseM α → Parser → Prop) : Prop where
  pure {α : Type} (a : α) (p : Parser) : P (pure a) p
  bind {α β : Type} {m : ParseM α} {f : α → ParseM β} {p : Parser} (hm : P m p)
    (hf : ∀ a q, m p = .ok a q → P (f a) q) : P (m >>= f) p
  -- What is seen of the parser has nothing to do with its tables.
  observe {α : Type} {f : Parser → ParseM α} {p : Parser} (hf : ∀ rules, f { p with rules } = f p) (h : P (f p) p) :
    P (get >>= f) p
  advance (p : Parser) : P advance p
  expectThat (test : Token → Bool) (p : Parser) : P (expectThat test) p

/-- Such a property that also holds where a rule is chosen, and where an import's source is judged by the tree that was
made of it. -/
structure Pervasive (P : ∀ {α : Type}, ParseM α → Parser → Prop) : Prop extends Compositional P where
  primary (p : Parser) : P primary p
  importSource (p : Parser) : P importSource p
  element (p : Parser) (h : ∀ rule, P (runStatement rule) p) : P element p

namespace Compositional

variable {P : ∀ {α : Type}, ParseM α → Parser → Prop} (h : Compositional P)
include h

theorem repeatWhile {α : Type} {more : Parser → Bool} {item : ParseM α} (progress : Progresses item)
    (hmore : ∀ p rules, more { p with rules } = more p) (hitem : ∀ p, P item p) (p : Parser) :
    P (repeatWhile more item progress) p := by
  -- An item that succeeds lowers the weight, so the rest of the loop falls under the induction hypothesis.
  induction hw : p.weight using Nat.strongRecOn generalizing p with
  | ind n ih =>
      rw [repeatWhile_eq]
      refine h.observe (fun rules => by rw [hmore]) ?_
      split
      · refine h.bind (hitem p) fun a q ha => ?_
        exact h.bind (ih _ (hw ▸ progress ha) q rfl) fun as r _ => h.pure (a :: as) r
      · exact h.pure [] p

/-- A node that covers what one step consumes. -/
theorem spanned {α β : Type} {m : ParseM α} (make : α → Span → β) (hm : ∀ p, P m p) (p : Parser) :
    P (do
      let start := (← get).marker
      let a ← m
      return make a ((← get).finish start)) p :=
  h.observe (fun _ => rfl) (h.bind (hm p) fun _ _ _ => h.observe (fun _ => rfl) (h.pure _ _))

theorem identifier (p : Parser) : P identifier p :=
  h.spanned (fun token : Token => Identifier.mk token.value.display) (h.expectThat _) p

theorem identifierExpr (p : Parser) : P identifierExpr p :=
  h.bind (h.identifier p) fun _ _ _ => h.pure _ _

theorem argument (p : Parser) : P argument p :=
  h.spanned Argument.mk h.identifier p

theorem arguments (p : Parser) : P arguments p :=
  h.bind (h.expectThat _ p) fun _ q _ =>
    h.bind (h.repeatWhile _ (fun _ _ => rfl) h.argument q) fun _ r _ =>
    h.bind (h.expectThat _ r) fun _ _ _ => h.pure _ _

theorem callTail (start : Position) (p : Parser) : P (callTail start) p :=
  h.bind (h.arguments p) fun _ _ _ => h.observe (fun _ => rfl) (h.pure _ _)

theorem comment (p : Parser) : P comment p :=
  h.spanned (fun (token : Token) mark => Element.comment ⟨token.value.display, mark⟩) (h.expectThat _) p

theorem importSpecifier (p : Parser) : P importSpecifier p :=
  h.spanned ImportSpecifier.mk h.identifier p

theorem furtherSpecifier (p : Parser) : P furtherSpecifier p :=
  h.bind (h.advance p) fun _ q _ => h.importSpecifier q

theorem optionalMark (p : Parser) : P optionalMark p := by
  refine h.observe (fun _ => rfl) ?_
  split
  · exact h.bind (h.advance p) fun _ _ _ => h.pure _ _
  · exact h.pure _ _

end Compositional

namespace Pervasive

variable {P : ∀ {α : Type}, ParseM α → Parser → Prop} (h : Pervasive P)
include h

theorem callChain (p : Parser) : P callChain p :=
  h.observe (fun _ => rfl) <|
    h.bind (h.primary p) fun _ q _ =>
    h.bind (h.repeatWhile _ (fun _ _ => rfl) (h.callTail _) q) fun _ _ _ => h.pure _ _

theorem expressionStatement (p : Parser) : P expressionStatement p :=
  h.bind (h.callChain p) fun _ q _ => h.bind (h.expectThat _ q) fun _ _ _ => h.pure _ _

theorem importDeclaration (p : Parser) : P importDeclaration p :=
  h.observe (fun _ => rfl) <|
    h.bind (h.expectThat _ p) fun _ p1 _ =>
    h.bind (h.expectThat _ p1) fun _ p2 _ =>
    h.bind (h.importSpecifier p2) fun _ p3 _ =>
    h.bind (h.repeatWhile _ (fun _ _ => rfl) h.furtherSpecifier p3) fun _ p4 _ =>
    h.bind (h.expectThat _ p4) fun _ p5 _ =>
    h.bind (h.expectThat _ p5) fun _ p6 _ =>
    h.bind (h.importSource p6) fun _ p7 _ =>
    h.bind (h.expectThat _ p7) fun _ _ _ => h.observe (fun _ => rfl) (h.pure _ _)

theorem variableDeclaration (p : Parser) : P variableDeclaration p :=
  h.observe (fun _ => rfl) <|
    h.bind (h.expectThat _ p) fun _ p1 _ =>
    h.bind (h.identifier p1) fun _ p2 _ =>
    h.bind (h.expectThat _ p2) fun _ p3 _ =>
    h.bind (h.identifier p3) fun _ p4 _ =>
    h.bind (h.optionalMark p4) fun _ p5 _ =>
    h.bind (h.expectThat _ p5) fun _ p6 _ =>
    h.bind (h.primary p6) fun _ p7 _ =>
    h.bind (h.expectThat _ p7) fun _ _ _ => h.observe (fun _ => rfl) (h.pure _ _)

theorem runStatement (rule : StatementRule) (p : Parser) : P (runStatement rule) p := by
  cases rule with
  | comment => exact h.comment p
  | expression => exact h.expressionStatement p
  | importDeclaration => exact h.importDeclaration p
  | variableDeclaration => exact h.variableDeclaration p

theorem anyElement (p : Parser) : P Parser.element p :=
  h.element p fun rule => h.runStatement rule p

theorem program (p : Parser) : P program p :=
  h.spanned Program.mk (h.repeatWhile progresses_element (fun _ _ => rfl) h.anyElement) p

/-- The rule for literals is left out: called by itself, it consumes what is no literal before it rejects it. -/
theorem produce {production : Production} (hne : production ≠ .primaryBy .literal) (p : Parser) :
    P (produce production) p := by
  cases production with
  | program => exact h.bind (h.program p) fun _ _ _ => h.pure _ _
  | element => exact h.bind (h.anyElement p) fun _ _ _ => h.pure _ _
  | statementBy rule => exact h.bind (h.runStatement rule p) fun _ _ _ => h.pure _ _
  | importSpecifier => exact h.bind (h.importSpecifier p) fun _ _ _ => h.pure _ _
  | primary => exact h.bind (h.primary p) fun _ _ _ => h.pure _ _
  | primaryBy rule =>
      cases rule with
      | identifier => exact h.bind (h.identifierExpr p) fun _ _ _ => h.pure _ _
      | literal => exact absurd rfl hne
  | identifier => exact h.bind (h.identifier p) fun _ _ _ => h.pure _ _
  | callChain => exact h.bind (h.callChain p) fun _ _ _ => h.pure _ _
  | arguments => exact h.bind (h.arguments p) fun _ _ _ => h.pure _ _
  | argument => exact h.bind (h.argument p) fun _ _ _ => h.pure _ _

end Pervasive

end Parser

end DeclScript
