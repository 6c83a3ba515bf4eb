set_option autoImplicit false

/-!
# Positions and spans

A position is a place between two characters. It counts characters, finished lines and the characters of the current
line, all from zero; a line feed ends a line wherever it stands.
-/

namespace DeclScript

structure Position where
  offset : Nat := 0
  line : Nat := 0
  column : Nat := 0
deriving DecidableEq

/-- A half-open stretch of text. -/
structure Span where
  start : Position
  stop : Position
deriving DecidableEq

namespace Position

/-- The place behind the character `c` that stands at `p`. -/
def step (p : Position) (c : Char) : Position :=
  if c = '\n' then ⟨p.offset + 1, p.line + 1, 0⟩ else ⟨p.offset + 1, p.line, p.column + 1⟩

/-- The place behind the text `cs` that starts at `p`. -/
def after (p : Position) (cs : List Char) : Position :=
  cs.foldl step p

/-- Positions are shown to people counting from one. -/
def display (p : Position) : String :=
  (p.line + 1).repr ++ ":" ++ (p.column + 1).repr

@[simp] theorem after_nil (p : Position) : p.after [] = p := rfl

@[simp] theorem after_cons (p : Position) (c : Char) (cs : List Char) :
    p.after (c :: cs) = (p.step c).after cs := rfl

theorem after_append (p : Position) (cs ds : List Char) :
    p.after (cs ++ ds) = (p.after cs).after ds := by
  simp [after]

@[simp] theorem step_offset (p : Position) (c : Char) : (p.step c).offset = p.offset + 1 := by
  unfold step; split <;> rfl

theorem after_offset (p : Position) (cs : List Char) :
    (p.after cs).offset = p.offset + cs.length := by
  induction cs generalizing p with
  | nil => simp
  | cons c cs ih => simp [ih]; omega

theorem after_line (p : Position) (cs : List Char) :
    (p.after cs).line = p.line + cs.count '\n' := by
  induction cs generalizing p with
  | nil => simp
  | cons c cs ih =>
      by_cases h : c = '\n'
      · simp [ih, step, h]; omega
      · simp [ih, step, h]

end Position

end DeclScript
