import DeclScript.Token.Scanner

set_option autoImplicit false

/-!
# Token streams

The tokens of a text in order. A stream closes with the end of the file, or with the failure that cut it short.
-/

namespace DeclScript

structure Stream where
  tokens : List Token
  fault : Option Diagnostic
deriving DecidableEq

namespace Stream

def empty : Stream := ⟨[], none⟩

def cons (t : Token) (s : Stream) : Stream := ⟨t :: s.tokens, s.fault⟩

/-- All tokens, or the failure if there is one. -/
def collect (s : Stream) : Except Diagnostic (List Token) :=
  match s.fault with
  | none => .ok s.tokens
  | some d => .error d

theorem collect_cons (t : Token) (s : Stream) : (Stream.cons t s).collect = s.collect.map (t :: ·) := by
  obtain ⟨tokens, fault⟩ := s
  cases fault <;> rfl

end Stream

namespace Scanner

/-- The tokens from here on, whatever the end mark says. -/
def drain (s : Scanner) : Stream :=
  match h : nextToken s with
  | .error d _ => ⟨[], some d⟩
  | .ok token s' =>
      if he : token.kind = .endOfFile then ⟨[token], none⟩
      else
        have : s'.rest.length < s.rest.length := rest_length_lt_of_nextToken h he
        .cons token s'.drain
termination_by s.rest.length

/-- What `next` would give until it gives nothing more. -/
def stream (s : Scanner) : Stream :=
  if s.ended then .empty else s.drain

theorem drain_of_error {s s' : Scanner} {d : Diagnostic} (h : nextToken s = .error d s') :
    s.drain = ⟨[], some d⟩ := by
  rw [drain]; split <;> simp_all

theorem drain_of_endOfFile {s s' : Scanner} {t : Token} (h : nextToken s = .ok t s') (he : t.kind = .endOfFile) :
    s.drain = ⟨[t], none⟩ := by
  rw [drain]; split <;> simp_all

theorem drain_of_ok {s s' : Scanner} {t : Token} (h : nextToken s = .ok t s') (he : t.kind ≠ .endOfFile) :
    s.drain = .cons t s'.drain := by
  rw [drain]; split <;> simp_all

/-! `next` takes the items of the stream one by one. -/

theorem stream_of_next_none {s s' : Scanner} (h : s.next = (none, s')) : s.stream = .empty ∧ s' = s := by
  unfold next at h
  split at h
  · rename_i he
    cases h
    exact ⟨if_pos he, rfl⟩
  · split at h <;> cases h

theorem stream_of_next_failure {s s' : Scanner} {d : Diagnostic} (h : s.next = (some (.error d), s')) :
    s.stream = ⟨[], some d⟩ ∧ s'.stream = .empty := by
  unfold next at h
  split at h
  · cases h
  · rename_i he
    split at h
    · cases h
    · rename_i hn
      cases h
      rw [stream, if_neg he, drain_of_error hn]
      exact ⟨rfl, rfl⟩

theorem stream_of_next_token {s s' : Scanner} {t : Token} (h : s.next = (some (.ok t), s')) :
    s.stream = .cons t s'.stream := by
  unfold next at h
  split at h
  · cases h
  · rename_i he
    split at h
    · rename_i token u hn
      cases h
      have hended : u.ended = false := by rw [ended_of_nextToken hn, Bool.eq_false_iff.2 he]
      rw [stream, if_neg he]
      by_cases ht : t.kind = .endOfFile
      · rw [drain_of_endOfFile hn ht]
        simp [stream, ht, Stream.cons, Stream.empty]
      · have hu : { u with ended := t.kind == .endOfFile } = u := by
          rw [beq_eq_false_iff_ne.2 ht, ← hended]
        rw [drain_of_ok hn ht, hu, stream, if_neg (by rw [hended]; exact Bool.false_ne_true)]
    · cases h

end Scanner

namespace Source

def stream (s : Source) : Stream :=
  s.scanner.stream

def tokens (s : Source) : Except Diagnostic (List Token) :=
  s.stream.collect

end Source

end DeclScript
