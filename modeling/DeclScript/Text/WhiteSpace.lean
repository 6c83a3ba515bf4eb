set_option autoImplicit false

/-!
# White space

The characters with the Unicode property White_Space.
-/

namespace DeclScript

def isWhiteSpace (c : Char) : Bool :=
  let n := c.toNat
  (0x9 ≤ n && n ≤ 0xd) || n == 0x20 || n == 0x85 || n == 0xa0 || n == 0x1680 || (0x2000 ≤ n && n ≤ 0x200a) ||
    n == 0x2028 || n == 0x2029 || n == 0x202f || n == 0x205f || n == 0x3000

/-- A text without the white space at its end. -/
def trimEnd (cs : List Char) : List Char :=
  (cs.reverse.dropWhile isWhiteSpace).reverse

/-- What trimming takes away is the run of white space at the end. -/
theorem trimEnd_append (cs : List Char) :
    trimEnd cs ++ (cs.reverse.takeWhile isWhiteSpace).reverse = cs := by
  rw [trimEnd, ← List.reverse_append, List.takeWhile_append_dropWhile, List.reverse_reverse]

theorem isWhiteSpace_of_getLast?_trimEnd {cs : List Char} {c : Char} (h : (trimEnd cs).getLast? = some c) :
    isWhiteSpace c = false := by
  rw [trimEnd, List.getLast?_reverse] at h
  have hfirst := List.head?_dropWhile_not isWhiteSpace cs.reverse
  rw [h] at hfirst
  exact hfirst

end DeclScript
