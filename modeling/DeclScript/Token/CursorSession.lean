import DeclScript.Token.Cursor
import DeclScript.Token.Session

set_option autoImplicit false

/-!
# Working a cursor by commands

The commands are those of a scanner. Each scan of a token takes the cursor further unless it is at the end, so
collecting tokens comes to an end.
-/

namespace DeclScript

namespace Cursor

variable {α β : Type}

/-! ## How far a scan gets -/

/-- Success leaves the text as it is and moves the cursor by `n` bytes at least, or to the end of the text. -/
def Reaches (n : Nat) (m : ScanM α) : Prop :=
  ∀ ⦃c a c'⦄, m c = .ok a c' → c'.source = c.source ∧ c.target n ≤ c'.bytes

theorem get_bind (f : Cursor → ScanM β) (c : Cursor) : ((get : ScanM Cursor) >>= f) c = f c c := rfl

theorem bind_of_ok {m : ScanM α} {f : α → ScanM β} {c c' : Cursor} {a : α} (h : m c = .ok a c') :
    (m >>= f) c = f a c' := by
  simp only [bind, EStateM.bind, h]

theorem bind_of_error {m : ScanM α} {f : α → ScanM β} {c c' : Cursor} {halt : Halt} (h : m c = .error halt c') :
    (m >>= f) c = .error halt c' := by
  simp only [bind, EStateM.bind, h]

theorem Reaches.bind {m : ScanM α} {f : α → ScanM β} {k l n : Nat} (hm : Reaches k m) (hf : ∀ a, Reaches l (f a))
    (hn : n ≤ k + l) : Reaches n (m >>= f) := by
  intro c b c'' h
  cases hc : m c with
  | error halt c' =>
      rw [bind_of_error hc] at h
      cases h
  | ok a c' =>
      rw [bind_of_ok hc] at h
      obtain ⟨hsource, hbytes⟩ := hm hc
      obtain ⟨hsource', hbytes'⟩ := hf a h
      refine ⟨hsource'.trans hsource, ?_⟩
      unfold target at *
      rw [hsource] at hbytes'
      omega

theorem Reaches.mono {m : ScanM α} {k n : Nat} (h : Reaches n m) (hk : k ≤ n) : Reaches k m := by
  intro c a c' hm
  obtain ⟨hsource, hbytes⟩ := h hm
  refine ⟨hsource, ?_⟩
  unfold target at *
  omega

theorem reaches_pure (a : α) : Reaches 0 (pure a) := by
  intro c b c' h
  cases h
  exact ⟨rfl, Nat.min_le_left _ _⟩

theorem reaches_get : Reaches 0 (get : ScanM Cursor) := by
  intro c b c' h
  cases h
  exact ⟨rfl, Nat.min_le_left _ _⟩

theorem reaches_throw (halt : Halt) (n : Nat) : Reaches n (throw halt : ScanM α) := by
  intro c b c' h
  cases h

theorem reaches_slice (text : String) (start stop : Nat) : Reaches 0 (slice text start stop) := by
  unfold slice
  cases slice? text start stop with
  | none => exact reaches_throw .crash 0
  | some part => exact reaches_pure part

theorem reaches_remainder : Reaches 0 remainder :=
  reaches_get.bind (fun _ => reaches_slice _ _ _) (Nat.le_refl 0)

theorem reaches_peek? : Reaches 0 peek? :=
  reaches_remainder.bind (fun _ => reaches_pure _) (Nat.le_refl 0)

theorem reaches_advance (n : Nat) : Reaches n (advance n) := by
  intro c a c' h
  rw [advance, get_bind] at h
  cases hc : slice c.source.text c.bytes (c.target n) c with
  | error halt c' =>
      rw [bind_of_error hc] at h
      cases h
  | ok passed c' =>
      rw [bind_of_ok hc] at h
      cases h
      exact ⟨rfl, Nat.le_refl _⟩

theorem reaches_fail (cause : Cause) (n : Nat) : Reaches n (fail cause : ScanM α) := by
  intro c a c' h
  cases h

theorem reaches_skipBlanks : Reaches 0 skipBlanks := by
  refine reaches_remainder.bind (l := 0) (fun text => ?_) (Nat.le_refl 0)
  cases leading? isBlank isBlank text.toList with
  | none => exact reaches_pure ()
  | some blanks => exact (reaches_advance _).mono (Nat.zero_le _)

theorem reaches_comment {word : List Char} (h : word ≠ []) : Reaches 1 (comment word) :=
  (reaches_advance _).bind (fun _ => (reaches_slice _ _ _).bind (fun _ => reaches_pure _) (Nat.le_refl 0))
    (byteLength_pos h)

theorem reaches_word {word : List Char} (h : word ≠ []) : Reaches 1 (Cursor.word word) :=
  (reaches_advance _).bind (fun _ => reaches_pure _) (byteLength_pos h)

theorem reaches_number {digits : List Char} (h : digits ≠ []) : Reaches 1 (number digits) := by
  simp only [number]
  split
  · exact (reaches_advance _).bind (fun _ => reaches_pure _) (byteLength_pos h)
  · exact reaches_fail _ 1

theorem reaches_closeCharacter (c : Char) : Reaches 0 (closeCharacter c) := by
  refine (reaches_advance _).bind (l := 0) (fun _ => reaches_peek?.bind (l := 0) (fun found => ?_) (Nat.le_refl 0))
    (Nat.zero_le _)
  split
  · exact (reaches_advance 1).bind (fun _ => reaches_pure _) (Nat.zero_le _)
  · exact reaches_fail _ 0

theorem reaches_character : Reaches 1 character := by
  refine (reaches_advance 1).bind (l := 0) (fun _ => reaches_peek?.bind (l := 0) (fun found => ?_) (Nat.le_refl 0))
    (Nat.le_refl 1)
  cases found with
  | none => exact reaches_fail _ 0
  | some c =>
      simp only
      split
      · exact reaches_fail _ 0
      · exact reaches_closeCharacter c

theorem reaches_string : Reaches 1 string := by
  refine (reaches_advance 1).bind (l := 0) (fun _ => reaches_remainder.bind (l := 0) (fun text => ?_) (Nat.le_refl 0))
    (Nat.le_refl 1)
  cases find? '"' text.toList with
  | none => exact (reaches_advance _).bind (fun _ => reaches_fail _ 0) (Nat.zero_le _)
  | some length =>
      refine (reaches_slice _ _ _).bind (l := 0) (fun inside => ?_) (Nat.le_refl 0)
      exact (reaches_advance _).bind (fun _ => reaches_pure _) (Nat.zero_le _)

theorem reaches_punctuator {word : List Char} (h : word ≠ []) : Reaches 1 (punctuator word) :=
  (reaches_advance _).bind (fun _ => reaches_pure _) (byteLength_pos h)

theorem leading?_ne_nil {first others : Char → Bool} {cs word : List Char} (h : leading? first others cs = some word) :
    word ≠ [] := by
  rintro rfl
  unfold leading? at h
  split at h
  · cases h
  · split at h <;> cases h

theorem reaches_patterns {p : (List Char → Option (List Char)) × (List Char → ScanM Lexeme)} (hp : p ∈ patterns)
    {cs word : List Char} (h : p.1 cs = some word) : Reaches 1 (p.2 word) := by
  simp only [patterns, List.mem_cons, List.not_mem_nil, or_false] at hp
  rcases hp with rfl | rfl | rfl | rfl | rfl | rfl
  · exact reaches_comment (leading?_ne_nil h)
  · exact reaches_word (leading?_ne_nil h)
  · exact reaches_number (leading?_ne_nil h)
  · exact reaches_character
  · exact reaches_string
  · have hfind : punctuators.find? (·.isPrefixOf cs) = some word := h
    exact reaches_punctuator (punctuator_ne_nil (List.mem_of_find?_eq_some hfind))

theorem reaches_lexeme : Reaches 1 lexeme := by
  refine reaches_remainder.bind (l := 1) (fun text => ?_) (Nat.le_refl 1)
  cases hread : reader? text.toList with
  | none => exact reaches_fail _ 1
  | some read =>
      obtain ⟨p, hp, hmap⟩ := List.exists_of_findSome?_eq_some hread
      obtain ⟨word, hword, rfl⟩ := Option.map_eq_some_iff.1 hmap
      exact reaches_patterns hp hword

/-- A token other than the end of the file takes the cursor further. -/
theorem bytes_lt_of_nextToken {c c' : Cursor} {t : Token} (h : nextToken c = .ok t c') (ht : t.kind ≠ .endOfFile) :
    c'.source = c.source ∧ c.bytes < c'.bytes ∧ c.bytes < c.source.text.utf8ByteSize := by
  have htail : ∀ start, Reaches 1 (do let l ← lexeme; return Token.mk l ⟨start, (← get).position⟩) := fun start =>
    reaches_lexeme.bind (fun _ => reaches_get.bind (fun _ => reaches_pure _) (Nat.le_refl 0)) (Nat.le_refl 1)
  unfold nextToken at h
  cases hc : skipBlanks c with
  | error halt d =>
      rw [bind_of_error hc] at h
      cases h
  | ok u d =>
      rw [bind_of_ok hc, get_bind] at h
      obtain ⟨hsource, hbytes⟩ := reaches_skipBlanks hc
      cases he : d.atEnd with
      | true =>
          rw [he] at h
          cases h
          exact absurd rfl ht
      | false =>
          rw [he] at h
          obtain ⟨hsource', hbytes'⟩ := htail d.position h
          simp only [atEnd, decide_eq_false_iff_not, target] at he hbytes hbytes'
          rw [hsource] at he hbytes'
          exact ⟨hsource'.trans hsource, by omega, by omega⟩

/-! ## Collecting and sessions -/

/-- What `next` still has before it: the bytes ahead, and one more item unless it has ended. -/
def weight (c : Cursor) : Nat :=
  if c.ended then 0 else c.source.text.utf8ByteSize - c.bytes + 1

theorem weight_lt_of_next {c c' : Cursor} {t : Token} (h : next c = .ok (some (.ok t)) c') : c'.weight < c.weight := by
  unfold next at h
  split at h
  · cases h
  · rename_i he
    split at h
    · rename_i token d hn
      cases h
      by_cases ht : t.kind = .endOfFile
      · simp [weight, he, ht]
      · obtain ⟨hsource, hbytes, hlt⟩ := bytes_lt_of_nextToken hn ht
        simp [weight, he, ht, hsource]
        omega
    · cases h
    · cases h

/-- All that `next` gives up to its end, or the failure if there is one. -/
def collect : ScanM (List Token) := fun c =>
  match h : next c with
  | .ok none c' => .ok [] c'
  | .ok (some (.ok t)) c' =>
      have : c'.weight < c.weight := weight_lt_of_next h
      match collect c' with
      | .ok ts c'' => .ok (t :: ts) c''
      | .error halt c'' => .error halt c''
  | .ok (some (.error d)) c' => .error (.failure d) c'
  | .error halt c' => .error halt c'
termination_by c => c.weight

/-- The answer to a command, with the cursor after it. A crash is answered by a refusal. -/
def run (c : Cursor) : Scanner.Command → Scanner.Reply × Cursor
  | .nextToken =>
      match nextToken c with
      | .ok token c' => (.token (.ok token), c')
      | .error (.failure d) c' => (.token (.error d), c')
      | .error .crash c' => (.refused, c')
  | .next =>
      match next c with
      | .ok result c' => (.next result, c')
      | .error _ c' => (.refused, c')
  | .collect =>
      match collect c with
      | .ok tokens _ => (.tokens (.ok tokens), c)
      | .error (.failure d) _ => (.tokens (.error d), c)
      | .error .crash _ => (.refused, c)
  | .position => (.position c.position, c)
  | .peek =>
      match peek? c with
      | .ok character c' => (.character character, c')
      | .error _ c' => (.refused, c')
  | .remainder =>
      match remainder c with
      | .ok text c' => (.text text, c')
      | .error _ c' => (.refused, c')
  | .atEnd => (.truth c.atEnd, c)
  | .skipBytes n =>
      match advance n c with
      | .ok _ c' => (.done, c')
      | .error _ c' => (.refused, c')
  | .diagnose cause position => (.diagnostic (c.source.diagnose cause position), c)

/-- The answers to all commands in turn, each with the cursor after it. -/
def session (c : Cursor) : List Scanner.Command → List (Scanner.Reply × Cursor)
  | [] => []
  | command :: commands =>
      let step := c.run command
      step :: step.2.session commands

end Cursor

end DeclScript
