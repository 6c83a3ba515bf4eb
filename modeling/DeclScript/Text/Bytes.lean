set_option autoImplicit false

/-!
# Texts in bytes

A text is stored in UTF-8, so a place given in bytes need not lie between two characters. A slice of a text is defined
only between two places that do.
-/

namespace DeclScript

/-- How many bytes the characters of a text take. -/
def byteLength : List Char → Nat
  | [] => 0
  | c :: cs => c.utf8Size + byteLength cs

/-- How many whole characters the first `n` bytes of a text hold, the text's end cutting the distance short. There is
no answer when the distance ends inside a character. -/
def charsInBytes? : Nat → List Char → Option Nat
  | _, [] => some 0
  | 0, _ :: _ => some 0
  | n + 1, c :: cs =>
      if c.utf8Size ≤ n + 1 then (charsInBytes? (n + 1 - c.utf8Size) cs).map (· + 1) else none

/-- The text from the byte `start` up to the byte `stop`. -/
def slice? (text : String) (start stop : Nat) : Option String :=
  match text.pos? ⟨start⟩, text.pos? ⟨stop⟩ with
  | some i, some j => if i ≤ j then some (text.extract i j) else none
  | _, _ => none

theorem byteLength_eq (cs : List Char) : byteLength cs = (String.ofList cs).utf8ByteSize := by
  induction cs with
  | nil => rfl
  | cons c cs ih => rw [byteLength, ih, String.ofList_cons, String.utf8ByteSize_append, String.utf8ByteSize_singleton]

theorem byteLength_append (cs ds : List Char) : byteLength (cs ++ ds) = byteLength cs + byteLength ds := by
  simp [byteLength_eq, String.ofList_append]

theorem byteLength_pos {cs : List Char} (h : cs ≠ []) : 0 < byteLength cs := by
  cases cs with
  | nil => exact absurd rfl h
  | cons c cs =>
      have := c.utf8Size_pos
      rw [byteLength]
      omega

/-- The bytes of the characters that were counted are the distance asked for, or the whole text. -/
theorem byteLength_take_of_charsInBytes? {n k : Nat} {cs : List Char} (h : charsInBytes? n cs = some k) :
    byteLength (cs.take k) = min n (byteLength cs) := by
  induction cs generalizing n k with
  | nil => simp [byteLength]
  | cons c cs ih =>
      cases n with
      | zero =>
          obtain rfl : 0 = k := by simpa [charsInBytes?] using h
          simp [byteLength]
      | succ n =>
          simp only [charsInBytes?] at h
          split at h
          · obtain ⟨j, hj, rfl⟩ := Option.map_eq_some_iff.1 h
            simp [byteLength, ih hj]; omega
          · simp at h

/-- If there is no answer, no characters take just the bytes of the distance. -/
theorem byteLength_take_ne_of_charsInBytes? {n : Nat} {cs : List Char} (h : charsInBytes? n cs = none) (k : Nat) :
    byteLength (cs.take k) ≠ min n (byteLength cs) := by
  fun_induction charsInBytes? n cs generalizing k with
  | case1 => cases h
  | case2 => cases h
  | case3 n c cs hc ih =>
      have hn := Option.map_eq_none_iff.1 h
      cases k with
      | zero => simp only [List.take_zero, byteLength]; have := c.utf8Size_pos; omega
      | succ k =>
          have := ih hn k
          simp only [List.take_succ_cons, byteLength]
          omega
  | case4 n c cs hc =>
      cases k with
      | zero => simp only [List.take_zero, byteLength]; omega
      | succ k => simp only [List.take_succ_cons, byteLength]; omega

theorem pos?_of_isValid {text : String} {place : String.Pos.Raw} (h : place.IsValid text) :
    text.pos? place = some (text.pos place h) := by
  simp [String.pos?, String.Slice.pos?, String.pos, h]

theorem pos?_of_not_isValid {text : String} {place : String.Pos.Raw} (h : ¬ place.IsValid text) :
    text.pos? place = none := by
  simp [String.pos?, String.Slice.pos?, h]

/-- Between two parts of a text there is a place that splits it into them. -/
theorem exists_splits (front back : String) : ∃ place : (front ++ back).Pos,
    (front ++ back).pos? ⟨front.utf8ByteSize⟩ = some place ∧ place.Splits front back :=
  ⟨_, pos?_of_isValid (String.Pos.Raw.isValid_rawEndPos.append_right back), rfl, rfl⟩

/-- A part of a text is the slice between its ends. -/
theorem slice?_append (front word back : String) :
    slice? (front ++ word ++ back) front.utf8ByteSize (front ++ word).utf8ByteSize = some word := by
  obtain ⟨stop, hstop, hbehind⟩ := exists_splits (front ++ word) back
  have hbefore := exists_splits front (word ++ back)
  rw [← String.append_assoc] at hbefore
  obtain ⟨start, hstart, hbefore⟩ := hbefore
  obtain ⟨hle, hword⟩ := String.copy_slice_eq_iff_splits.2 ⟨front, back, hbefore, hbehind⟩
  rw [slice?, hstart, hstop]
  simp only [hle, if_true, String.extract_eq_copy_slice start stop hle, hword]

theorem slice?_ofList (front word back : List Char) :
    slice? (String.ofList (front ++ word ++ back)) (byteLength front) (byteLength (front ++ word)) =
      some (String.ofList word) := by
  rw [byteLength_eq, byteLength_eq, String.ofList_append, String.ofList_append]
  exact slice?_append _ _ _

theorem slice?_of_not_isValid {text : String} {stop : Nat} (h : ¬ String.Pos.Raw.IsValid text ⟨stop⟩) (start : Nat) :
    slice? text start stop = none := by
  rw [slice?, pos?_of_not_isValid h]
  split <;> simp_all

end DeclScript
