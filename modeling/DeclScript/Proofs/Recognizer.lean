import DeclScript.Proofs.Language

set_option autoImplicit false

/-!
# A recognizer for the language

Between two lexemes of a program it is known which elements are complete and how far the next one has come. This is the
state of a deterministic machine that takes one lexeme at a time. It ends exactly on programs, with their trees, and it
gets stuck exactly where the lexemes read so far can no longer be continued to a program.
-/

namespace DeclScript

/-- How far the element that is being read has come, named for what was read last. -/
inductive Phase where
  | start
  | importWord
  | openBrace
  | specifier (first : String) (others : List String)
  | comma (first : String) (others : List String)
  | closeBrace (first : String) (others : List String)
  | fromWord (first : String) (others : List String)
  | source (first : String) (others : List String) (value : Constant)
  | letWord
  | name (name : String)
  | colon (name : String)
  | type (name type : String)
  | question (name type : String)
  | equals (name type : String) (optional : Bool)
  | value (name type : String) (optional : Bool) (init : Expr Unit)
  | chain (expr : Expr Unit)
  | arguments (callee : Expr Unit) (names : List String)
  | ended

structure Progression where
  body : List (Element Unit) := []
  phase : Phase := .start

def Lexeme.name? : Lexeme → Option String
  | ⟨.identifier, .text name⟩ => some name
  | _ => none

def Lexeme.primary? (l : Lexeme) : Option (Expr Unit) :=
  match l.name? with
  | some name => some (.identifier ⟨name, ()⟩)
  | none => (Constant.ofLexeme? l).map fun c => .literal ⟨c, ()⟩

namespace Progression

def goTo (s : Progression) (phase : Phase) : Progression :=
  { s with phase }

def close (s : Progression) (e : Element Unit) : Progression :=
  ⟨s.body ++ [e], .start⟩

def begin (s : Progression) (l : Lexeme) : Option Progression :=
  if l = .endOfFile then some (s.goTo .ended)
  else if l = .keyword "import" then some (s.goTo .importWord)
  else if l = .keyword "let" then some (s.goTo .letWord)
  else
    match l with
    | ⟨.comment, .text text⟩ => some (s.close (.comment ⟨text, ()⟩))
    | l => l.primary?.map fun e => s.goTo (.chain e)

/-- The state behind the lexeme `l`, if `l` can stand here. -/
def step (s : Progression) (l : Lexeme) : Option Progression :=
  match s.phase with
  | .start => s.begin l
  | .importWord => if l = .punctuator "\x7b" then some (s.goTo .openBrace) else none
  | .openBrace => l.name?.map fun name => s.goTo (.specifier name [])
  | .specifier first others =>
      if l = .punctuator "," then some (s.goTo (.comma first others))
      else if l = .punctuator "\x7d" then some (s.goTo (.closeBrace first others))
      else none
  | .comma first others => l.name?.map fun name => s.goTo (.specifier first (others ++ [name]))
  | .closeBrace first others => if l = .keyword "from" then some (s.goTo (.fromWord first others)) else none
  | .fromWord first others => (Constant.ofLexeme? l).map fun c => s.goTo (.source first others c)
  | .source first others c =>
      if l = .punctuator ";" then
        some (s.close (.importDeclaration ⟨(first :: others).map bareSpecifier, ⟨c, ()⟩, ()⟩))
      else none
  | .letWord => l.name?.map fun name => s.goTo (.name name)
  | .name name => if l = .punctuator ":" then some (s.goTo (.colon name)) else none
  | .colon name => l.name?.map fun type => s.goTo (.type name type)
  | .type name type =>
      if l = .punctuator "?" then some (s.goTo (.question name type))
      else if l = .punctuator "=" then some (s.goTo (.equals name type false))
      else none
  | .question name type => if l = .punctuator "=" then some (s.goTo (.equals name type true)) else none
  | .equals name type optional => l.primary?.map fun e => s.goTo (.value name type optional e)
  | .value name type optional e =>
      if l = .punctuator ";" then
        some (s.close (.variableDeclaration ⟨⟨name, ()⟩, ⟨type, ()⟩, optional, e, ()⟩))
      else none
  | .chain e =>
      if l = .punctuator "(" then some (s.goTo (.arguments e []))
      else if l = .punctuator ";" then some (s.close (.expression e))
      else none
  | .arguments e names =>
      if l = .punctuator ")" then some (s.goTo (.chain (.call e (names.map bareArgument) ())))
      else l.name?.map fun name => s.goTo (.arguments e (names ++ [name]))
  | .ended => none

def run (s : Progression) : List Lexeme → Option Progression
  | [] => some s
  | l :: ls => (s.step l).bind (run · ls)

@[simp] theorem run_nil (s : Progression) : s.run [] = some s := rfl

@[simp] theorem run_cons (s : Progression) (l : Lexeme) (ls : List Lexeme) :
    s.run (l :: ls) = (s.step l).bind (run · ls) := rfl

theorem run_append (s : Progression) (ls ms : List Lexeme) :
    s.run (ls ++ ms) = (s.run ls).bind (run · ms) := by
  induction ls generalizing s with
  | nil => rfl
  | cons l ls ih =>
      rw [List.cons_append, run_cons, run_cons]
      cases s.step l with
      | none => rfl
      | some s' => exact ih s'

theorem run_eq_none {s s' : Progression} {ls : List Lexeme} {l : Lexeme} (ms : List Lexeme)
    (hr : s.run ls = some s') (hs : s'.step l = none) : s.run (ls ++ l :: ms) = none := by
  rw [run_append, hr, Option.bind_some, run_cons, hs, Option.bind_none]

end Progression

theorem Lexeme.name?_eq_some_iff {l : Lexeme} {name : String} : l.name? = some name ↔ l = .identifier name := by
  constructor
  · intro h
    unfold name? at h
    split at h
    · cases h
      rfl
    · cases h
  · rintro rfl
    rfl

theorem Lexeme.primary?_eq_some_iff {l : Lexeme} {e : Expr Unit} : l.primary? = some e ↔ IsPrimary l e := by
  constructor
  · intro h
    unfold primary? at h
    split at h
    · rename_i name hn
      cases h
      rw [name?_eq_some_iff.1 hn]
      exact .identifier name
    · obtain ⟨c, hc, rfl⟩ := Option.map_eq_some_iff.1 h
      exact .literal (Constant.ofLexeme?_eq_some_iff.1 hc)
  · rintro (name | h)
    · rfl
    · have hc := Constant.ofLexeme?_eq_some_iff.2 h
      cases h <;> simp only [primary?, name?, hc, Option.map_some]

/-! ## The machine takes what the grammar derives -/

namespace Progression

theorem begin_eq_primary? {l : Lexeme} (s : Progression) (he : l.kind ≠ .endOfFile) (hc : l.kind ≠ .comment)
    (hi : l ≠ .keyword "import") (hl : l ≠ .keyword "let") :
    s.begin l = l.primary?.map fun e => s.goTo (.chain e) := by
  have hne : l ≠ .endOfFile := fun h => he (congrArg Lexeme.kind h)
  unfold begin
  rw [if_neg hne, if_neg hi, if_neg hl]
  split
  · exact absurd rfl hc
  · rfl

theorem begin_of_isPrimary {l : Lexeme} {e : Expr Unit} (s : Progression) (h : IsPrimary l e) :
    s.begin l = some (s.goTo (.chain e)) := by
  have hk : l.kind ≠ .endOfFile ∧ l.kind ≠ .comment ∧ l.kind ≠ .keyword := by
    cases h with
    | identifier name => simp
    | literal h => cases h <;> simp
  have hw : ∀ word, l ≠ .keyword word := fun word h => hk.2.2 (congrArg Lexeme.kind h)
  rw [begin_eq_primary? s hk.1 hk.2.1 (hw _) (hw _), Lexeme.primary?_eq_some_iff.2 h]
  rfl

theorem run_arguments (body : List (Element Unit)) (e : Expr Unit) (names more : List String) :
    run ⟨body, .arguments e names⟩ (more.map .identifier) = some ⟨body, .arguments e (names ++ more)⟩ := by
  induction more generalizing names with
  | nil => simp
  | cons name more ih =>
      rw [List.map_cons, run_cons]
      change run ⟨body, .arguments e (names ++ [name])⟩ _ = _
      rw [ih, List.append_assoc, List.singleton_append]

theorem run_others (body : List (Element Unit)) (first : String) (others more : List String) :
    run ⟨body, .specifier first others⟩ (more.flatMap fun name => [.punctuator ",", .identifier name]) =
      some ⟨body, .specifier first (others ++ more)⟩ := by
  induction more generalizing others with
  | nil => simp
  | cons name more ih =>
      rw [List.flatMap_cons, run_append]
      change run ⟨body, .specifier first (others ++ [name])⟩ _ = _
      rw [ih, List.append_assoc, List.singleton_append]

theorem run_importHead (body : List (Element Unit)) (first : String) (others : List String) :
    run ⟨body, .start⟩ (importHead first others) = some ⟨body, .fromWord first others⟩ := by
  have hnames : run ⟨body, .start⟩ (importNames first others) = some ⟨body, .specifier first others⟩ := by
    rw [importNames, run_append]
    exact run_others body first [] others
  rw [importHead, run_append, hnames]
  rfl

theorem run_variableHead (body : List (Element Unit)) (name type : String) (optional : Bool) :
    run ⟨body, .start⟩ (variableHead name type optional) = some ⟨body, .equals name type optional⟩ := by
  cases optional <;> rfl

theorem run_isChain {ls : List Lexeme} {e : Expr Unit} (body : List (Element Unit)) (h : IsChain ls e) :
    run ⟨body, .start⟩ ls = some ⟨body, .chain e⟩ := by
  induction h with
  | primary h =>
      rw [run_cons, step, begin_of_isPrimary _ h]
      rfl
  | @call ls e h names ih =>
      rw [run_append, ih]
      change run ⟨body, .arguments e []⟩ (names.map .identifier ++ [.punctuator ")"]) = _
      rw [run_append, run_arguments]
      rfl

theorem run_isElement {ls : List Lexeme} {e : Element Unit} (body : List (Element Unit)) (h : IsElement ls e) :
    run ⟨body, .start⟩ ls = some ⟨body ++ [e], .start⟩ := by
  cases h with
  | comment text => rfl
  | importDeclaration first others h =>
      rw [run_append, run_importHead]
      change run ⟨body, .fromWord first others⟩ _ = _
      rw [run_cons, step, Constant.ofLexeme?_eq_some_iff.2 h]
      rfl
  | variableDeclaration name type optional h =>
      rw [run_append, run_variableHead]
      change run ⟨body, .equals name type optional⟩ _ = _
      rw [run_cons, step, Lexeme.primary?_eq_some_iff.2 h]
      rfl
  | expression h =>
      rw [run_append, run_isChain body h]
      rfl

theorem run_isBody {ls : List Lexeme} {es : List (Element Unit)} (body : List (Element Unit)) (h : IsBody ls es) :
    run ⟨body, .start⟩ ls = some ⟨body ++ es, .start⟩ := by
  induction h generalizing body with
  | nil => simp
  | @cons ls ms e es h _ ih =>
      rw [run_append, run_isElement body h]
      change run ⟨body ++ [e], .start⟩ ms = _
      rw [ih, List.append_assoc, List.singleton_append]

end Progression

/-! ## What the machine took is what the grammar derives -/

/-- The lexemes of the element being read, in each phase. -/
inductive Phase.Reads : Phase → List Lexeme → Prop
  | start : Reads .start []
  | importWord : Reads .importWord [.keyword "import"]
  | openBrace : Reads .openBrace [.keyword "import", .punctuator "\x7b"]
  | specifier (first : String) (others : List String) : Reads (.specifier first others) (importNames first others)
  | comma (first : String) (others : List String) :
      Reads (.comma first others) (importNames first others ++ [.punctuator ","])
  | closeBrace (first : String) (others : List String) :
      Reads (.closeBrace first others) (importNames first others ++ [.punctuator "\x7d"])
  | fromWord (first : String) (others : List String) : Reads (.fromWord first others) (importHead first others)
  | source (first : String) (others : List String) {l : Lexeme} {c : Constant} (h : l.Writes c) :
      Reads (.source first others c) (importHead first others ++ [l])
  | letWord : Reads .letWord [.keyword "let"]
  | name (name : String) : Reads (.name name) [.keyword "let", .identifier name]
  | colon (name : String) : Reads (.colon name) [.keyword "let", .identifier name, .punctuator ":"]
  | type (name type : String) :
      Reads (.type name type) [.keyword "let", .identifier name, .punctuator ":", .identifier type]
  | question (name type : String) : Reads (.question name type)
      [.keyword "let", .identifier name, .punctuator ":", .identifier type, .punctuator "?"]
  | equals (name type : String) (optional : Bool) :
      Reads (.equals name type optional) (variableHead name type optional)
  | value (name type : String) (optional : Bool) {l : Lexeme} {e : Expr Unit} (h : IsPrimary l e) :
      Reads (.value name type optional e) (variableHead name type optional ++ [l])
  | chain {ls : List Lexeme} {e : Expr Unit} (h : IsChain ls e) : Reads (.chain e) ls
  | arguments {ls : List Lexeme} {e : Expr Unit} (h : IsChain ls e) (names : List String) :
      Reads (.arguments e names) (ls ++ (.punctuator "(" :: names.map .identifier))
  | ended : Reads .ended [.endOfFile]

def Progression.Reads (s : Progression) (ls : List Lexeme) : Prop :=
  ∃ before current, ls = before ++ current ∧ IsBody before s.body ∧ s.phase.Reads current

namespace Progression

theorem eq_of_demand {l expected : Lexeme} {s s' : Progression}
    (h : (if l = expected then some s else none) = some s') : l = expected ∧ s = s' :=
  (Option.ite_none_right_eq_some.1 h).imp id Option.some.inj

theorem exists_of_name? {l : Lexeme} {f : String → Progression} {s : Progression} (h : l.name?.map f = some s) :
    ∃ name, l = .identifier name ∧ f name = s := by
  obtain ⟨name, hn, hs⟩ := Option.map_eq_some_iff.1 h
  exact ⟨name, Lexeme.name?_eq_some_iff.1 hn, hs⟩

theorem reads_goTo {s : Progression} {before current : List Lexeme} {phase : Phase} (hb : IsBody before s.body)
    (hr : phase.Reads current) : (s.goTo phase).Reads (before ++ current) :=
  ⟨before, current, rfl, hb, hr⟩

theorem reads_close {s : Progression} {before current : List Lexeme} {e : Element Unit} (hb : IsBody before s.body)
    (he : IsElement current e) : (s.close e).Reads (before ++ current) :=
  ⟨before ++ current, [], (List.append_nil _).symm, hb.snoc he, .start⟩

theorem reads_begin {s s' : Progression} {before : List Lexeme} {l : Lexeme} (hb : IsBody before s.body)
    (h : s.begin l = some s') : s'.Reads (before ++ [l]) := by
  unfold begin at h
  split at h
  · rename_i hl
    subst hl
    cases h
    exact reads_goTo hb .ended
  split at h
  · rename_i hl
    subst hl
    cases h
    exact reads_goTo hb .importWord
  split at h
  · rename_i hl
    subst hl
    cases h
    exact reads_goTo hb .letWord
  split at h
  · cases h
    exact reads_close hb (.comment _)
  · obtain ⟨e, he, rfl⟩ := Option.map_eq_some_iff.1 h
    exact reads_goTo hb (.chain (.primary (Lexeme.primary?_eq_some_iff.1 he)))

theorem reads_step {s s' : Progression} {ls : List Lexeme} {l : Lexeme} (hr : s.Reads ls) (h : s.step l = some s') :
    s'.Reads (ls ++ [l]) := by
  obtain ⟨before, current, rfl, hb, hc⟩ := hr
  obtain ⟨body, phase⟩ := s
  rw [List.append_assoc]
  -- one case for each phase: what `l` adds to the element being read
  cases hc with
  | start => exact reads_begin hb h
  | importWord =>
      obtain ⟨rfl, rfl⟩ := eq_of_demand h
      exact reads_goTo hb .openBrace
  | openBrace =>
      obtain ⟨name, rfl, rfl⟩ := exists_of_name? h
      exact reads_goTo hb (.specifier name [])
  | specifier first others =>
      simp only [step] at h
      split at h
      · rename_i hl
        subst hl
        cases h
        exact reads_goTo hb (.comma first others)
      · obtain ⟨rfl, rfl⟩ := eq_of_demand h
        exact reads_goTo hb (.closeBrace first others)
  | comma first others =>
      obtain ⟨name, rfl, rfl⟩ := exists_of_name? h
      have hs := reads_goTo hb (.specifier first (others ++ [name]))
      simpa [importNames] using hs
  | closeBrace first others =>
      obtain ⟨rfl, rfl⟩ := eq_of_demand h
      rw [List.append_assoc]
      exact reads_goTo hb (.fromWord first others)
  | fromWord first others =>
      obtain ⟨c, hc, rfl⟩ := Option.map_eq_some_iff.1 h
      exact reads_goTo hb (.source first others (Constant.ofLexeme?_eq_some_iff.1 hc))
  | source first others hw =>
      obtain ⟨rfl, rfl⟩ := eq_of_demand h
      rw [List.append_assoc]
      exact reads_close hb (.importDeclaration first others hw)
  | letWord =>
      obtain ⟨name, rfl, rfl⟩ := exists_of_name? h
      exact reads_goTo hb (.name name)
  | name name =>
      obtain ⟨rfl, rfl⟩ := eq_of_demand h
      exact reads_goTo hb (.colon name)
  | colon name =>
      obtain ⟨type, rfl, rfl⟩ := exists_of_name? h
      exact reads_goTo hb (.type name type)
  | type name type =>
      simp only [step] at h
      split at h
      · rename_i hl
        subst hl
        cases h
        exact reads_goTo hb (.question name type)
      · obtain ⟨rfl, rfl⟩ := eq_of_demand h
        exact reads_goTo hb (.equals name type false)
  | question name type =>
      obtain ⟨rfl, rfl⟩ := eq_of_demand h
      exact reads_goTo hb (.equals name type true)
  | equals name type optional =>
      obtain ⟨e, he, rfl⟩ := Option.map_eq_some_iff.1 h
      exact reads_goTo hb (.value name type optional (Lexeme.primary?_eq_some_iff.1 he))
  | value name type optional hp =>
      obtain ⟨rfl, rfl⟩ := eq_of_demand h
      rw [List.append_assoc]
      exact reads_close hb (.variableDeclaration name type optional hp)
  | chain hc =>
      simp only [step] at h
      split at h
      · rename_i hl
        subst hl
        cases h
        exact reads_goTo hb (.arguments hc [])
      · obtain ⟨rfl, rfl⟩ := eq_of_demand h
        exact reads_close hb (.expression hc)
  | arguments hc names =>
      simp only [step] at h
      split at h
      · rename_i hl
        subst hl
        cases h
        have hs := reads_goTo hb (.chain (hc.call names))
        simpa using hs
      · obtain ⟨name, hn, rfl⟩ := Option.map_eq_some_iff.1 h
        obtain rfl := Lexeme.name?_eq_some_iff.1 hn
        have hs := reads_goTo hb (.arguments hc (names ++ [name]))
        simpa using hs
  | ended => cases h

theorem reads_run {s s' : Progression} {ls ms : List Lexeme} (hr : s.Reads ls) (h : s.run ms = some s') :
    s'.Reads (ls ++ ms) := by
  induction ms generalizing s ls with
  | nil =>
      cases h
      rwa [List.append_nil]
  | cons l ms ih =>
      obtain ⟨s1, h1, h⟩ := Option.bind_eq_some_iff.1 h
      have hs := ih (reads_step hr h1) h
      rwa [List.append_assoc, List.singleton_append] at hs

theorem reads_initial : (⟨[], .start⟩ : Progression).Reads [] :=
  ⟨[], [], rfl, .nil, .start⟩

/-! ## Completions -/

def Completable (s : Progression) : Prop :=
  ∃ ls body, s.run ls = some ⟨body, .ended⟩

theorem completable_of_step {s s' : Progression} {l : Lexeme} (h : s.step l = some s') (hc : s'.Completable) :
    s.Completable := by
  obtain ⟨ls, body, hr⟩ := hc
  exact ⟨l :: ls, body, by rw [run_cons, h]; exact hr⟩

theorem completable (s : Progression) : s.Completable := by
  obtain ⟨body, phase⟩ := s
  -- from the last phases of each element back to the first, since every phase leads to a later one
  have start (body) : Completable ⟨body, .start⟩ := ⟨[.endOfFile], body, rfl⟩
  have source (first others c) : Completable ⟨body, .source first others c⟩ :=
    completable_of_step (l := .punctuator ";") rfl (start _)
  have fromWord (first others) : Completable ⟨body, .fromWord first others⟩ :=
    completable_of_step (l := ⟨.nullLiteral, .text "null"⟩) rfl (source first others .null)
  have closeBrace (first others) : Completable ⟨body, .closeBrace first others⟩ :=
    completable_of_step (l := .keyword "from") rfl (fromWord first others)
  have specifier (first others) : Completable ⟨body, .specifier first others⟩ :=
    completable_of_step (l := .punctuator "\x7d") rfl (closeBrace first others)
  have openBrace : Completable ⟨body, .openBrace⟩ :=
    completable_of_step (l := .identifier "a") rfl (specifier "a" [])
  have value (name type optional e) : Completable ⟨body, .value name type optional e⟩ :=
    completable_of_step (l := .punctuator ";") rfl (start _)
  have equals (name type optional) : Completable ⟨body, .equals name type optional⟩ :=
    completable_of_step (l := .identifier "a") rfl (value name type optional _)
  have type (name type) : Completable ⟨body, .type name type⟩ :=
    completable_of_step (l := .punctuator "=") rfl (equals name type false)
  have colon (name) : Completable ⟨body, .colon name⟩ :=
    completable_of_step (l := .identifier "a") rfl (type name "a")
  have name (name) : Completable ⟨body, .name name⟩ :=
    completable_of_step (l := .punctuator ":") rfl (colon name)
  have chain (e) : Completable ⟨body, .chain e⟩ :=
    completable_of_step (l := .punctuator ";") rfl (start _)
  cases phase with
  | start => exact start body
  | importWord => exact completable_of_step (l := .punctuator "\x7b") rfl openBrace
  | openBrace => exact openBrace
  | specifier first others => exact specifier first others
  | comma first others => exact completable_of_step (l := .identifier "a") rfl (specifier first _)
  | closeBrace first others => exact closeBrace first others
  | fromWord first others => exact fromWord first others
  | source first others c => exact source first others c
  | letWord => exact completable_of_step (l := .identifier "a") rfl (name "a")
  | name n => exact name n
  | colon n => exact colon n
  | type n t => exact type n t
  | question n t => exact completable_of_step (l := .punctuator "=") rfl (equals n t true)
  | equals n t optional => exact equals n t optional
  | value n t optional e => exact value n t optional e
  | chain e => exact chain e
  | arguments e names => exact completable_of_step (l := .punctuator ")") rfl (chain _)
  | ended => exact ⟨[], body, rfl⟩

end Progression

/-! ## The language of the machine -/

open Progression

theorem isProgram_iff_run {ls : List Lexeme} {program : Program Unit} :
    IsProgram ls program ↔ run ⟨[], .start⟩ ls = some ⟨program.body, .ended⟩ := by
  constructor
  · rintro ⟨body, rfl, hb⟩
    rw [run_append, run_isBody [] hb]
    rfl
  · intro h
    obtain ⟨before, current, hls, hb, hc⟩ := reads_run reads_initial h
    cases hc
    exact ⟨before, hls, hb⟩

theorem viable_iff_run {ls : List Lexeme} : Viable ls ↔ ∃ s, run ⟨[], .start⟩ ls = some s := by
  constructor
  · rintro ⟨more, program, h⟩
    have hr := isProgram_iff_run.1 h
    rw [run_append] at hr
    obtain ⟨s, hs, -⟩ := Option.bind_eq_some_iff.1 hr
    exact ⟨s, hs⟩
  · rintro ⟨s, hs⟩
    obtain ⟨more, body, hm⟩ := s.completable
    refine ⟨more, ⟨body, ()⟩, isProgram_iff_run.2 ?_⟩
    rw [run_append, hs]
    exact hm

theorem awaitsSource_iff_run {ls : List Lexeme} :
    AwaitsSource ls ↔ ∃ body first others, run ⟨[], .start⟩ ls = some ⟨body, .fromWord first others⟩ := by
  constructor
  · rintro ⟨before, es, first, others, hb, rfl⟩
    refine ⟨es, first, others, ?_⟩
    rw [run_append, run_isBody [] hb]
    exact run_importHead es first others
  · rintro ⟨body, first, others, h⟩
    obtain ⟨before, current, hls, hb, hc⟩ := reads_run reads_initial h
    cases hc
    exact ⟨before, body, first, others, hb, hls⟩

end DeclScript
