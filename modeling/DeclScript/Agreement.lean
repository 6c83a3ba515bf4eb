import DeclScript.Grammar.Program
import DeclScript.Token.Stream

set_option autoImplicit false

/-!
# Agreement of two texts

Two texts agree in their tokens, or in their trees, when both are read with the same result or fail with the same
diagnostic.
-/

namespace DeclScript

/-- Whether two results are the same success or the same failure. -/
def agree {ε α : Type} [DecidableEq ε] [DecidableEq α] : Except ε α → Except ε α → Bool
  | .ok a, .ok b => a = b
  | .error d, .error e => d = e
  | _, _ => false

theorem agree_eq_true {ε α : Type} [DecidableEq ε] [DecidableEq α] {x y : Except ε α} :
    agree x y = true ↔ x = y := by
  cases x <;> cases y <;> simp [agree]

def Source.sameTokens (s t : Source) : Bool :=
  agree s.tokens t.tokens

def Source.sameTree (s t : Source) : Bool :=
  agree s.parse t.parse

end DeclScript
