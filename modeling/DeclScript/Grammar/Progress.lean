import DeclScript.Grammar.Parser

set_option autoImplicit false

/-!
# Progress and repetition

How much a parser has left to read is measured by its weight. No step adds weight, and a step that consumed a token
other than the end of the file took some away, so such a step can be repeated until it stops by itself.
-/

namespace DeclScript

namespace Parser

variable {α β : Type}

/-- The characters not yet scanned, and one more for a lookahead that can be consumed. -/
def weight (p : Parser) : Nat :=
  p.scanner.rest.length + if p.lookahead.kind = .endOfFile then 0 else 1

/-- Success adds no weight. -/
def Steady (m : ParseM α) : Prop :=
  ∀ ⦃p a p'⦄, m p = .ok a p' → p'.weight ≤ p.weight

/-- Success takes weight away. -/
def Progresses (m : ParseM α) : Prop :=
  ∀ ⦃p a p'⦄, m p = .ok a p' → p'.weight < p.weight

theorem Progresses.steady {m : ParseM α} (h : Progresses m) : Steady m :=
  fun _ _ _ hm => Nat.le_of_lt (h hm)

theorem bind_eq_ok {m : ParseM α} {f : α → ParseM β} {p p' : Parser} {b : β} (h : (m >>= f) p = .ok b p') :
    ∃ a q, m p = .ok a q ∧ f a q = .ok b p' := by
  change EStateM.bind m f p = _ at h
  unfold EStateM.bind at h
  split at h
  · exact ⟨_, _, by assumption, h⟩
  · simp at h

theorem steady_pure (a : α) : Steady (pure a) := by
  intro p b p' h
  cases h
  exact Nat.le_refl _

theorem steady_get : Steady (get : ParseM Parser) := by
  intro p b p' h
  cases h
  exact Nat.le_refl _

theorem progresses_throw (d : Diagnostic) : Progresses (throw d : ParseM α) := by
  intro p b p' h
  cases h

theorem Steady.bind {m : ParseM α} {f : α → ParseM β} (hm : Steady m) (hf : ∀ a, Steady (f a)) :
    Steady (m >>= f) := by
  intro p b p' h
  obtain ⟨a, q, ha, hb⟩ := bind_eq_ok h
  exact Nat.le_trans (hf a hb) (hm ha)

theorem Progresses.bind {m : ParseM α} {f : α → ParseM β} (hm : Progresses m) (hf : ∀ a, Steady (f a)) :
    Progresses (m >>= f) := by
  intro p b p' h
  obtain ⟨a, q, ha, hb⟩ := bind_eq_ok h
  exact Nat.lt_of_le_of_lt (hf a hb) (hm ha)

theorem Steady.bind_progresses {m : ParseM α} {f : α → ParseM β} (hm : Steady m) (hf : ∀ a, Progresses (f a)) :
    Progresses (m >>= f) := by
  intro p b p' h
  obtain ⟨a, q, ha, hb⟩ := bind_eq_ok h
  exact Nat.lt_of_lt_of_le (hf a hb) (hm ha)

theorem advance_eq_ok {p p' : Parser} {t : Token} (h : advance p = .ok t p') :
    t = p.lookahead ∧ p'.rules = p.rules ∧ Scanner.nextToken p.scanner = .ok p'.lookahead p'.scanner := by
  unfold advance at h
  split at h
  · cases h
    exact ⟨rfl, rfl, by assumption⟩
  · cases h

theorem steady_advance : Steady advance := by
  intro p t p' h
  have := Scanner.rest_length_of_nextToken (advance_eq_ok h).2.2
  unfold weight
  omega

theorem weight_lt_of_advance {p p' : Parser} {t : Token} (h : advance p = .ok t p')
    (ht : t.kind ≠ .endOfFile) : p'.weight < p.weight := by
  obtain ⟨rfl, -, hs⟩ := advance_eq_ok h
  have := Scanner.rest_length_of_nextToken hs
  simp only [weight, ht, if_false]
  omega

theorem progresses_expectThat {test : Token → Bool} (h : ∀ t, test t → t.kind ≠ .endOfFile) :
    Progresses (expectThat test) := by
  intro p t p' hp
  unfold expectThat at hp
  split at hp
  · rename_i ht
    exact weight_lt_of_advance hp ((advance_eq_ok hp).1 ▸ h _ ht)
  · cases hp

theorem progresses_expect {kind : Kind} (h : kind ≠ .endOfFile) : Progresses (expect kind) :=
  progresses_expectThat fun t ht => by simp_all

theorem progresses_expectKeyword (text : String) : Progresses (expectKeyword text) :=
  progresses_expectThat fun t ht => by simp [Lexeme.is_eq_true.1 ht]

theorem progresses_expectPunctuator (text : String) : Progresses (expectPunctuator text) :=
  progresses_expectThat fun t ht => by simp [Lexeme.is_eq_true.1 ht]

/-- Reads items as long as `more` holds. -/
def repeatWhile (more : Parser → Bool) (item : ParseM α) (progress : Progresses item) : ParseM (List α) := fun p =>
  if more p then
    match h : item p with
    | .ok a p' =>
        have : p'.weight < p.weight := progress h
        match repeatWhile more item progress p' with
        | .ok as p'' => .ok (a :: as) p''
        | .error d p'' => .error d p''
    | .error d p' => .error d p'
  else .ok [] p
termination_by p => p.weight

/-- The equation of repetition in the language of steps. -/
theorem repeatWhile_eq (more : Parser → Bool) (item : ParseM α) (progress : Progresses item) :
    repeatWhile more item progress = do
      if more (← get) then
        let a ← item
        let as ← repeatWhile more item progress
        return a :: as
      else return [] := by
  funext p
  rw [repeatWhile]
  change _ = (if more p then _ else _ : ParseM (List α)) p
  split
  · simp only [bind, EStateM.bind, pure, EStateM.pure]
    split
    · rename_i a q ha
      simp only [ha]
      cases repeatWhile more item progress q <;> rfl
    · rename_i d q ha
      rw [ha]
  · rfl

/-- What holds of an empty loop, and of a loop from what holds behind its first item, holds of every loop that
succeeds. -/
theorem repeatWhile_induction {more : Parser → Bool} {item : ParseM α} {progress : Progresses item}
    {motive : Parser → List α → Parser → Prop} (stop : ∀ p, more p = false → motive p [] p)
    (step : ∀ p a q as p', more p → item p = .ok a q → motive q as p' → motive p (a :: as) p')
    {p p' : Parser} {as : List α} (h : repeatWhile more item progress p = .ok as p') : motive p as p' := by
  induction hw : p.weight using Nat.strongRecOn generalizing p as with
  | ind n ih =>
      rw [repeatWhile_eq] at h
      obtain ⟨_, _, hget, h⟩ := bind_eq_ok h
      cases hget
      split at h
      · rename_i hmore
        obtain ⟨a, q, ha, h⟩ := bind_eq_ok h
        obtain ⟨as', r, has, h⟩ := bind_eq_ok h
        cases h
        exact step p a q as' _ hmore ha (ih _ (hw ▸ progress ha) has rfl)
      · rename_i hmore
        cases h
        exact stop _ (by simpa using hmore)

theorem steady_repeatWhile (more : Parser → Bool) {item : ParseM α} (progress : Progresses item) :
    Steady (repeatWhile more item progress) := by
  intro p as p' h
  refine repeatWhile_induction (motive := fun p _ p' => p'.weight ≤ p.weight) ?_ ?_ h
  · intro p _
    exact Nat.le_refl _
  · intro p a q as p' _ ha ih
    exact Nat.le_trans ih (Nat.le_of_lt (progress ha))

end Parser

end DeclScript
