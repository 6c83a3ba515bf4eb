import DeclScript.Tree.Constant
import DeclScript.Proofs.Spelling

set_option autoImplicit false

/-!
# Constants are told apart by their display

Between quotes the escapes of characters stand one behind the other without anything between them. They form a prefix
code: an escape that starts like another one is the same. So a quoted text can be read in one way only, and the first
character of a display says which type of constant it shows.
-/

namespace DeclScript

/-! ## Hexadecimal digits -/

theorem digitChar_inj {m n : Nat} (hm : m < 16) (hn : n < 16) (h : m.digitChar = n.digitChar) : m = n := by
  have all : ∀ m < 16, ∀ n < 16, m.digitChar = n.digitChar → m = n := by decide
  exact all m hm n hn h

theorem exists_of_mem_hex {c : Char} {n : Nat} (h : c ∈ Nat.toDigits 16 n) : ∃ d < 16, c = d.digitChar := by
  induction n using Nat.strongRecOn with
  | ind n ih =>
      rcases Nat.lt_or_ge n 16 with hn | hn
      · rw [Nat.toDigits_of_lt_base hn] at h
        exact ⟨n, hn, List.mem_singleton.1 h⟩
      · rw [Nat.toDigits_of_base_le (by decide) hn] at h
        rcases List.mem_append.1 h with h | h
        · exact ih (n / 16) (by omega) h
        · exact ⟨n % 16, by omega, List.mem_singleton.1 h⟩

theorem hex_inj {m n : Nat} (h : Nat.toDigits 16 m = Nat.toDigits 16 n) : m = n := by
  induction m using Nat.strongRecOn generalizing n with
  | ind m ih =>
      rcases Nat.lt_or_ge m 16 with hm | hm <;> rcases Nat.lt_or_ge n 16 with hn | hn
      · rw [Nat.toDigits_of_lt_base hm, Nat.toDigits_of_lt_base hn] at h
        exact digitChar_inj hm hn (List.cons.inj h).1
      · rw [Nat.toDigits_of_lt_base hm, Nat.toDigits_of_base_le (by decide) hn] at h
        simp [List.singleton_eq_append_iff, Nat.toDigits_ne_nil] at h
      · rw [Nat.toDigits_of_base_le (by decide) hm, Nat.toDigits_of_lt_base hn] at h
        simp [List.append_eq_singleton_iff, Nat.toDigits_ne_nil] at h
      · rw [Nat.toDigits_of_base_le (by decide) hm, Nat.toDigits_of_base_le (by decide) hn] at h
        obtain ⟨hfront, hlast⟩ := List.append_inj' h rfl
        have hfront := ih (m / 16) (by omega) hfront
        have hlast := digitChar_inj (by omega) (by omega) (List.cons.inj hlast).1
        omega

/-- Neither the brace that closes an escape nor a line feed is a digit. -/
theorem not_mem_hex (n : Nat) : '\x7d' ∉ Nat.toDigits 16 n ∧ '\n' ∉ Nat.toDigits 16 n := by
  have all : ∀ d < 16, '\x7d' ≠ d.digitChar ∧ '\n' ≠ d.digitChar := by decide
  constructor
  · intro h
    obtain ⟨d, hd, he⟩ := exists_of_mem_hex h
    exact (all d hd).1 he
  · intro h
    obtain ⟨d, hd, he⟩ := exists_of_mem_hex h
    exact (all d hd).2 he

/-! ## Escapes -/

inductive IsQuote : Char → Prop
  | single : IsQuote '\x27'
  | double : IsQuote '"'

/-- The characters that are escaped by one other character behind the backslash, with that character. -/
def shortEscapes (quote : Char) : List (Char × Char) :=
  [('\x00', '0'), ('\t', 't'), ('\r', 'r'), ('\n', 'n'), ('\\', '\\'), (quote, quote)]

/-- The ways to write a character between quotes of the kind `quote`. -/
inductive Escapes (quote c : Char) : List Char → Prop
  | alone (hb : c ≠ '\\') (hq : c ≠ quote) (hn : c ≠ '\n') : Escapes quote c [c]
  | short {mark : Char} (h : (c, mark) ∈ shortEscapes quote) : Escapes quote c ['\\', mark]
  | code : Escapes quote c (codeEscape c)

theorem escapes_escape (quote c : Char) : Escapes quote c (escape quote c) := by
  fun_cases escape quote c with
  | case1 h => exact .short (by simp [shortEscapes, h])
  | case2 _ h => exact .short (by simp [shortEscapes, h])
  | case3 _ _ h => exact .short (by simp [shortEscapes, h])
  | case4 _ _ _ h => exact .short (by simp [shortEscapes, h])
  | case5 _ _ _ _ h =>
      simp only [Bool.or_eq_true, decide_eq_true_eq] at h
      rcases h with rfl | rfl
      · exact .short (by simp [shortEscapes])
      · exact .short (by simp [shortEscapes])
  | case6 _ _ _ hn h _ =>
      simp only [Bool.or_eq_true, decide_eq_true_eq, not_or] at h
      exact .alone h.1 h.2 hn
  | case7 => exact .code

namespace IsQuote

variable {quote : Char}

theorem ne_backslash (h : IsQuote quote) : '\\' ≠ quote := by
  cases h <;> decide

theorem ne_lineFeed (h : IsQuote quote) : '\n' ≠ quote := by
  cases h <;> decide

/-- Short escapes are told apart by their marks, none of which starts a code or a line. -/
theorem short_inj (h : IsQuote quote) {c d mark : Char} (hc : (c, mark) ∈ shortEscapes quote)
    (hd : (d, mark) ∈ shortEscapes quote) : c = d := by
  have all : ∀ e ∈ shortEscapes quote, ∀ f ∈ shortEscapes quote, e.2 = f.2 → e.1 = f.1 := by
    cases h <;> decide
  exact all _ hc _ hd rfl

theorem short_ne (h : IsQuote quote) {c mark : Char} (hc : (c, mark) ∈ shortEscapes quote) :
    mark ≠ 'u' ∧ mark ≠ '\n' := by
  have all : ∀ e ∈ shortEscapes quote, e.2 ≠ 'u' ∧ e.2 ≠ '\n' := by
    cases h <;> decide
  exact all _ hc

end IsQuote

/-- Two runs that the same sign ends are the same if they do not hold the sign. -/
theorem append_cons_inj {sign : Char} {run run' rest rest' : List Char} (hrun : sign ∉ run) (hrun' : sign ∉ run')
    (h : run ++ sign :: rest = run' ++ sign :: rest') : run = run' ∧ rest = rest' := by
  have hfront : run <+: run' := prefix_of_not_mem hrun ⟨sign :: rest, h⟩
  have hfront' : run' <+: run := prefix_of_not_mem hrun' ⟨sign :: rest', h.symm⟩
  obtain rfl := hfront.eq_of_length_le hfront'.length_le
  exact ⟨rfl, (List.cons.inj (List.append_cancel_left h)).2⟩

theorem codeEscape_append_inj {c d : Char} {rest rest' : List Char}
    (h : codeEscape c ++ rest = codeEscape d ++ rest') : c = d ∧ rest = rest' := by
  have hdigits : Nat.toDigits 16 c.toNat ++ '\x7d' :: rest = Nat.toDigits 16 d.toNat ++ '\x7d' :: rest' := by
    simpa [codeEscape] using h
  obtain ⟨hcode, hrest⟩ := append_cons_inj (not_mem_hex _).1 (not_mem_hex _).1 hdigits
  exact ⟨Char.toNat_inj.1 (hex_inj hcode), hrest⟩

namespace Escapes

variable {quote c d : Char} {word word' rest rest' : List Char}

/-- No escape starts like another one: the first character tells whether a character stands for itself, and the second
one whether a code follows. -/
theorem append_inj (hq : IsQuote quote) (h : Escapes quote c word) (h' : Escapes quote d word')
    (he : word ++ rest = word' ++ rest') : c = d ∧ rest = rest' := by
  cases h with
  | alone hb =>
      cases h' with
      | alone => exact List.cons.inj he
      | short => exact absurd (List.cons.inj he).1 hb
      | code => exact absurd (List.cons.inj he).1 hb
  | short hc =>
      cases h' with
      | alone hb => exact absurd (List.cons.inj he).1.symm hb
      | short hd =>
          obtain ⟨rfl, rfl⟩ := List.cons.inj (List.cons.inj he).2
          exact ⟨hq.short_inj hc hd, rfl⟩
      | code => exact absurd (List.cons.inj (List.cons.inj he).2).1 (hq.short_ne hc).1
  | code =>
      cases h' with
      | alone hb => exact absurd (List.cons.inj he).1.symm hb
      | short hd => exact absurd (List.cons.inj (List.cons.inj he).2).1.symm (hq.short_ne hd).1
      | code => exact codeEscape_append_inj he

/-- An escape does not start with the quote, which therefore ends the text. -/
theorem exists_cons (hq : IsQuote quote) (h : Escapes quote c word) : ∃ d more, word = d :: more ∧ d ≠ quote := by
  cases h with
  | alone _ hne => exact ⟨c, [], rfl, hne⟩
  | short => exact ⟨'\\', _, rfl, hq.ne_backslash⟩
  | code => exact ⟨'\\', _, rfl, hq.ne_backslash⟩

theorem lineFeed_not_mem (hq : IsQuote quote) (h : Escapes quote c word) : '\n' ∉ word := by
  cases h with
  | alone _ _ hn => simpa using Ne.symm hn
  | short hc => simpa using (hq.short_ne hc).2.symm
  | code => simpa [codeEscape] using (not_mem_hex c.toNat).2

end Escapes

/-! ## Quoted texts -/

section Quoted

variable {quote : Char} (hq : IsQuote quote)
include hq

theorem escaped_inj {cs ds : List Char}
    (h : cs.flatMap (escape quote) ++ [quote] = ds.flatMap (escape quote) ++ [quote]) : cs = ds := by
  have hopen : ∀ c more, [quote] ≠ escape quote c ++ more := by
    intro c more he
    obtain ⟨d, tail, hword, hne⟩ := (escapes_escape quote c).exists_cons hq
    rw [hword] at he
    exact hne (List.cons.inj he).1.symm
  induction cs generalizing ds with
  | nil =>
      cases ds with
      | nil => rfl
      | cons d ds =>
          rw [List.flatMap_cons, List.append_assoc] at h
          exact absurd h (hopen d _)
  | cons c cs ih =>
      cases ds with
      | nil =>
          rw [List.flatMap_cons, List.append_assoc] at h
          exact absurd h.symm (hopen c _)
      | cons d ds =>
          rw [List.flatMap_cons, List.flatMap_cons, List.append_assoc, List.append_assoc] at h
          obtain ⟨rfl, hrest⟩ := (escapes_escape quote c).append_inj hq (escapes_escape quote d) h
          rw [ih hrest]

theorem quoted_inj {cs ds : List Char} (h : quoted quote cs = quoted quote ds) : cs = ds :=
  escaped_inj hq (List.cons.inj h).2

theorem lineFeed_not_mem_quoted (cs : List Char) : '\n' ∉ quoted quote cs := by
  have hescaped : '\n' ∉ cs.flatMap (escape quote) := by
    intro h
    obtain ⟨c, -, hmem⟩ := List.mem_flatMap.1 h
    exact (escapes_escape quote c).lineFeed_not_mem hq hmem
  simp [quoted, hq.ne_lineFeed, hescaped]

end Quoted

/-! ## Displays -/

namespace Constant

/-- The name of the type of the constants whose display starts with this character. -/
def typeOfFirst (c : Char) : String :=
  if c = '"' then "String"
  else if c = '\x27' then "Character"
  else if c = 'n' then "Null"
  else if c.isDigit then "Numeric"
  else "Boolean"

theorem isDigit_of_mem_display {n : UInt64} {c : Char} (h : c ∈ (numeric n).display.toList) : c.isDigit := by
  rw [display, Nat.repr_eq_ofList_toDigits, String.toList_ofList] at h
  exact Nat.isDigit_of_mem_toDigits (by decide) (by decide) h

/-- The first character of a display tells the type of the constant. -/
theorem exists_first_display (a : Constant) : ∃ c cs, a.display.toList = c :: cs ∧ typeOfFirst c = a.typeName := by
  cases a with
  | string text => exact ⟨'"', _, by rw [display, String.toList_ofList]; rfl, rfl⟩
  | character c => exact ⟨'\x27', _, by rw [display, String.toList_ofList]; rfl, rfl⟩
  | boolean value => cases value <;> exact ⟨_, _, rfl, by decide⟩
  | null => exact ⟨_, _, rfl, rfl⟩
  | numeric n =>
      cases h : (numeric n).display.toList with
      | nil =>
          rw [display, Nat.repr_eq_ofList_toDigits, String.toList_ofList] at h
          exact absurd h Nat.toDigits_ne_nil
      | cons c cs =>
          have hc : c.isDigit := isDigit_of_mem_display (h ▸ List.mem_cons_self)
          have hne : ∀ d : Char, d.isDigit = false → c ≠ d := by
            rintro d hd rfl
            rw [hc] at hd
            cases hd
          refine ⟨c, cs, rfl, ?_⟩
          simp [typeOfFirst, hne '"' rfl, hne '\x27' rfl, hne 'n' rfl, hc, typeName]

theorem typeName_eq_of_display_eq {a b : Constant} (h : a.display = b.display) : a.typeName = b.typeName := by
  obtain ⟨c, cs, ha, hc⟩ := a.exists_first_display
  obtain ⟨d, ds, hb, hd⟩ := b.exists_first_display
  rw [h, hb] at ha
  rw [← hc, ← hd, (List.cons.inj ha).1]

theorem eq_of_display_eq {a b : Constant} (h : a.display = b.display) : a = b := by
  have htype := typeName_eq_of_display_eq h
  cases a with
  | string text =>
      cases b with
      | string text' => exact congrArg string (String.toList_inj.1 (quoted_inj .double (String.ofList_injective h)))
      | _ => simp [typeName] at htype
  | numeric n =>
      cases b with
      | numeric n' =>
          rw [display, display, Nat.repr_eq_ofList_toDigits, Nat.repr_eq_ofList_toDigits] at h
          have hdigits := String.ofList_injective h
          have hn : n.toNat = n'.toNat := by
            rw [← @Nat.ofDigitChars_ten_toDigits n.toNat, hdigits, Nat.ofDigitChars_ten_toDigits]
          exact congrArg numeric (UInt64.toNat_inj.1 hn)
      | _ => simp [typeName] at htype
  | character c =>
      cases b with
      | character c' =>
          have hcs := quoted_inj .single (String.ofList_injective h)
          exact congrArg character (List.cons.inj hcs).1
      | _ => simp [typeName] at htype
  | boolean value =>
      cases b with
      | boolean value' =>
          revert h
          cases value <;> cases value' <;> decide
      | _ => simp [typeName] at htype
  | null =>
      cases b with
      | null => rfl
      | _ => simp [typeName] at htype

theorem lineFeed_not_mem_display (a : Constant) : '\n' ∉ a.display.toList := by
  cases a with
  | string text =>
      rw [display, String.toList_ofList]
      exact lineFeed_not_mem_quoted .double _
  | numeric n =>
      intro h
      cases isDigit_of_mem_display h
  | character c =>
      rw [display, String.toList_ofList]
      exact lineFeed_not_mem_quoted .single _
  | boolean value => cases value <;> decide
  | null => decide

end Constant

/-- Constants with the same display are the same, and each display stands on one line. -/
theorem display_unambiguous (a b : Constant) : (a.display = b.display ↔ a = b) ∧ '\n' ∉ a.display.toList :=
  ⟨⟨Constant.eq_of_display_eq, congrArg Constant.display⟩, a.lineFeed_not_mem_display⟩

/-- A text that looks like an escape is not shown as the character that is written so. -/
example : (Constant.string "\\n").display = "\"\\\\n\"" ∧ (Constant.string "\n").display = "\"\\n\"" := by
  decide +kernel

end DeclScript
