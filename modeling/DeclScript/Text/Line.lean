set_option autoImplicit false

/-!
# Lines of a text

Only a line feed ends a line, and it belongs to no line.
-/

namespace DeclScript

/-- The text of the line with the given number, counted from zero. A line that the text does not have is empty. -/
def lineAt : Nat → List Char → List Char
  | _, [] => []
  | 0, c :: cs => if c = '\n' then [] else c :: lineAt 0 cs
  | n + 1, c :: cs => if c = '\n' then lineAt n cs else lineAt (n + 1) cs

@[simp] theorem lineAt_nil (n : Nat) : lineAt n [] = [] := by
  cases n <;> rfl

theorem lineAt_zero (cs : List Char) : lineAt 0 cs = cs.takeWhile (· != '\n') := by
  induction cs with
  | nil => rfl
  | cons c cs ih => by_cases h : c = '\n' <;> simp [lineAt, h, ih]

/-- Lines below a line feed are counted from it. -/
theorem lineAt_append (n : Nat) (above cs : List Char) :
    lineAt (n + above.count '\n' + 1) (above ++ '\n' :: cs) = lineAt n cs := by
  induction above with
  | nil => simp [lineAt]
  | cons c above ih => by_cases h : c = '\n' <;> simp [lineAt, h, ← Nat.add_assoc, ih]

theorem lineFeed_not_mem_lineAt (n : Nat) (cs : List Char) : '\n' ∉ lineAt n cs := by
  induction cs generalizing n with
  | nil => simp
  | cons c cs ih =>
      cases n with
      | zero =>
          by_cases h : c = '\n'
          · simp [lineAt, h]
          · simp [lineAt, h, ih, Ne.symm h]
      | succ n => by_cases h : c = '\n' <;> simp [lineAt, h, ih]

end DeclScript
