set_option autoImplicit false

/-!
# Classes of characters given by ranges

A class is an ascending list of closed ranges of code points.
-/

namespace DeclScript

/-- Each range starts above the end of the one before it. -/
def ascending : List (Nat × Nat) → Bool
  | [] => true
  | [(lo, hi)] => lo ≤ hi
  | (lo, hi) :: (lo', hi') :: rs => lo ≤ hi && hi < lo' && ascending ((lo', hi') :: rs)

structure CodeRanges where
  ranges : List (Nat × Nat)
  isAscending : ascending ranges

/-- Whether some range holds `n`. The search stops at the first range that starts above it. -/
def search (n : Nat) : List (Nat × Nat) → Bool
  | [] => false
  | (lo, hi) :: rs => lo ≤ n && (n ≤ hi || search n rs)

def CodeRanges.holds (n : Nat) (rs : CodeRanges) : Bool :=
  search n rs.ranges

theorem ascending_tail {r : Nat × Nat} {rs : List (Nat × Nat)} (h : ascending (r :: rs)) : ascending rs := by
  cases rs with
  | nil => rfl
  | cons r' rs =>
      simp only [ascending, Bool.and_eq_true] at h
      exact h.2

theorem le_of_ascending {r r' : Nat × Nat} {rs : List (Nat × Nat)} (h : ascending (r :: rs)) (hr : r' ∈ rs) :
    r.1 ≤ r'.1 := by
  induction rs generalizing r with
  | nil => cases hr
  | cons s rs ih =>
      have hrs : r.1 ≤ s.1 := by
        simp only [ascending, Bool.and_eq_true, decide_eq_true_eq] at h
        omega
      rcases List.mem_cons.1 hr with rfl | hr
      · exact hrs
      · exact Nat.le_trans hrs (ih (ascending_tail h) hr)

/-- No range is missed by stopping early. -/
theorem CodeRanges.holds_iff (n : Nat) (rs : CodeRanges) :
    rs.holds n ↔ ∃ r ∈ rs.ranges, r.1 ≤ n ∧ n ≤ r.2 := by
  obtain ⟨rs, h⟩ := rs
  change search n rs = true ↔ _
  induction rs with
  | nil => simp [search]
  | cons r rs ih =>
      have ih := ih (ascending_tail h)
      simp only [search, Bool.and_eq_true, Bool.or_eq_true, decide_eq_true_eq, ih, List.mem_cons, exists_eq_or_imp]
      constructor
      · rintro ⟨hlo, hhi | hmore⟩
        · exact .inl ⟨hlo, hhi⟩
        · exact .inr hmore
      · rintro (⟨hlo, hhi⟩ | ⟨r', hr', hlo', hhi'⟩)
        · exact ⟨hlo, .inl hhi⟩
        · exact ⟨Nat.le_trans (le_of_ascending h hr') hlo', .inr ⟨r', hr', hlo', hhi'⟩⟩

end DeclScript
