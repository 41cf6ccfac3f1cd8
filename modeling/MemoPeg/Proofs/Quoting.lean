import Mathlib.Data.List.Basic
import MemoPeg.Text.Quoted

/-
  Quoted text can be read back.

  1. **Digits** — a number is known from its digits, and no bracket is among them, so a code ends where
     its bracket does.
  2. **Escapes (`escape_append_inj`)** — an escaped character is known from its front, whatever follows: a
     backslash only ever begins an escape, and the character behind it says which one.
  3. **Literals (`literalString_injective`, `quoteChar_injective`)** — so different texts and different
     characters have different literals.  The long form of NUL does no harm, since no other escape
     begins as it does.

  It is proved of fronts, not of whole texts, since a text is escaped character by character and nothing
  separates them.  There are three ways of writing a character (`Written`), and of two characters that are
  written alike at the front the ways must be the same: this is where a wrong escape would be found out,
  such as a letter for two characters, or a backslash that stands for itself.
-/

namespace MemoPeg

/-- Rows are equal up to the first mark and behind it. -/
theorem append_cons_inj {α : Type} {x : α} : ∀ {as bs cs ds : List α}, x ∉ as → x ∉ bs →
    as ++ x :: cs = bs ++ x :: ds → as = bs ∧ cs = ds
  | [], [], _, _, _, _, h => ⟨rfl, (List.cons.inj h).2⟩
  | [], b :: bs, _, _, _, hb, h => by
    have hx : x = b := (List.cons.inj h).1
    exact absurd (hx ▸ List.mem_cons_self) hb
  | a :: as, [], _, _, ha, _, h => by
    have hx : a = x := (List.cons.inj h).1
    exact absurd (hx ▸ List.mem_cons_self) ha
  | a :: as, b :: bs, _, _, ha, hb, h => by
    obtain ⟨rfl, hrest⟩ := List.cons.inj h
    have has : x ∉ as := fun hmem => ha (List.mem_cons_of_mem a hmem)
    have hbs : x ∉ bs := fun hmem => hb (List.mem_cons_of_mem a hmem)
    obtain ⟨rfl, hcs⟩ := append_cons_inj has hbs hrest
    exact ⟨rfl, hcs⟩

namespace Quoted

/-! ## Digits -/

/-- Digits are different for different values. -/
theorem digitChar_inj {m n : Nat} (hm : m < 16) (hn : n < 16) (h : m.digitChar = n.digitChar) : m = n := by
  have hall : ∀ a b : Fin 16, a.val.digitChar = b.val.digitChar → a = b := by decide
  exact congrArg Fin.val (hall ⟨m, hm⟩ ⟨n, hn⟩ h)

/-- A number is known from its digits. -/
theorem toDigits_injective {base : Nat} (h1 : 1 < base) (h16 : base ≤ 16) {m n : Nat}
    (h : Nat.toDigits base m = Nat.toDigits base n) : m = n := by
  induction m using Nat.strongRecOn generalizing n with
  | ind m ih =>
    have hsteps := (Nat.toDigits_eq_if (n := m) h1).symm.trans
      (h.trans (Nat.toDigits_eq_if (n := n) h1))
    have hpos : 0 < base := by omega
    by_cases hm : m < base <;> by_cases hn : n < base
    · rw [if_pos hm, if_pos hn] at hsteps
      exact digitChar_inj (by omega) (by omega) (List.cons.inj hsteps).1
    · -- One digit is not the end of several.
      rw [if_pos hm, if_neg hn] at hsteps
      have hfront : [] = Nat.toDigits base (n / base) := (List.append_singleton_inj.1 hsteps).1
      exact absurd hfront.symm Nat.toDigits_ne_nil
    · rw [if_neg hm, if_pos hn] at hsteps
      have hfront : Nat.toDigits base (m / base) = [] := (List.append_singleton_inj.1 hsteps).1
      exact absurd hfront Nat.toDigits_ne_nil
    · rw [if_neg hm, if_neg hn] at hsteps
      obtain ⟨hfront, hlast⟩ := List.append_singleton_inj.1 hsteps
      have hsmaller : m / base < m := Nat.div_lt_self (by omega) h1
      have hquotient : m / base = n / base := ih (m / base) hsmaller hfront
      have hmr : m % base < base := Nat.mod_lt m hpos
      have hnr : n % base < base := Nat.mod_lt n hpos
      have hremainder : m % base = n % base := digitChar_inj (by omega) (by omega) hlast
      calc m = base * (m / base) + m % base := (Nat.div_add_mod m base).symm
        _ = base * (n / base) + n % base := by rw [hquotient, hremainder]
        _ = n := Nat.div_add_mod n base

/-- A number is known from its hexadecimal digits. -/
theorem hex_injective {m n : Nat} (h : hex m = hex n) : m = n :=
  toDigits_injective (by decide) (by decide) h

/-- A number is known from how it is written. -/
theorem toString_injective {m n : Nat} (h : toString m = toString n) : m = n :=
  toDigits_injective (by decide) (by decide) (String.ofList_injective h)

/-- Hexadecimal digits are digits. -/
theorem mem_hex {n : Nat} {c : Char} (h : c ∈ hex n) : ∃ k < 16, c = k.digitChar := by
  induction n using Nat.strongRecOn with
  | ind n ih =>
    rw [hex, Nat.toDigits_eq_if (by decide : 1 < 16)] at h
    by_cases hn : n < 16
    · rw [if_pos hn] at h
      exact ⟨n, hn, List.mem_singleton.1 h⟩
    · rw [if_neg hn] at h
      rcases List.mem_append.1 h with hfront | hlast
      · exact ih (n / 16) (by omega) hfront
      · exact ⟨n % 16, Nat.mod_lt n (by decide), List.mem_singleton.1 hlast⟩

/-- A closing brace is no digit, so it ends the digits of a code. -/
theorem not_mem_hex {n : Nat} : '\x7d' ∉ hex n := by
  intro h
  obtain ⟨k, hk, hc⟩ := mem_hex h
  have hall : ∀ a : Fin 16, '\x7d' ≠ a.val.digitChar := by decide
  exact hall ⟨k, hk⟩ hc

/-! ## Escapes -/

/-- The character behind the backslash, if there is a short escape. -/
def short? (quote c : Char) : Option Char :=
  if c = '\x00' then some '0'
  else if c = '\t' then some 't'
  else if c = '\n' then some 'n'
  else if c = '\r' then some 'r'
  else if c = '\\' then some '\\'
  else if c = quote then some quote
  else none

/-- A character is escaped in short form, shown as it is, or written as a code. -/
theorem escape_eq (quote c : Char) :
    escape quote c =
      match short? quote c with
      | some k => ['\\', k]
      | none => if isShown c then [c] else codePoint c := by
  unfold escape
  split
  case h_1 => rfl
  case h_2 => rfl
  case h_3 => rfl
  case h_4 => rfl
  case h_5 => rfl
  case h_6 _ h0 ht hn hr hb =>
    rw [short?, if_neg h0, if_neg ht, if_neg hn, if_neg hr, if_neg hb]
    by_cases hquote : c = quote
    · rw [if_pos hquote, if_pos (beq_iff_eq.2 hquote), hquote]
    · rw [if_neg hquote, if_neg fun h => hquote (beq_iff_eq.1 h)]

variable {quote c d : Char}

/-- A quote is a double or a single one. -/
def IsQuote (quote : Char) : Prop := quote = '"' ∨ quote = '\''

/-- No short escape begins like a code point or like the long form of NUL. -/
theorem short?_ne (hq : IsQuote quote) {k : Char} (h : short? quote c = some k) : k ≠ 'u' ∧ k ≠ 'x' := by
  unfold short? at h
  rcases hq with rfl | rfl <;> split_ifs at h <;> cases h <;> decide

/-- The character that a short escape stands for. -/
def shortFor (k : Char) : Char :=
  if k = '0' then '\x00'
  else if k = 't' then '\t'
  else if k = 'n' then '\n'
  else if k = 'r' then '\r'
  else k

/-- The short form of a character stands for that character. -/
theorem shortFor_eq (hq : IsQuote quote) {k : Char} (h : short? quote c = some k) : shortFor k = c := by
  unfold short? at h
  rcases hq with rfl | rfl <;> split_ifs at h <;> cases h <;> subst_vars <;> rfl

/-- No two characters have one short form. -/
theorem short?_inj (hq : IsQuote quote) {k : Char} (hc : short? quote c = some k)
    (hd : short? quote d = some k) : c = d := (shortFor_eq hq hc).symm.trans (shortFor_eq hq hd)

/-- What has no short escape is no backslash. -/
theorem ne_backslash (h : short? quote c = none) : c ≠ '\\' := by
  rintro rfl
  have hsome : short? quote '\\' = some '\\' := rfl
  rw [hsome] at h
  cases h

/-- The three ways of writing a character. -/
inductive Written (quote : Char) : Char → List Char → Prop
  | short {c k : Char} (h : short? quote c = some k) : Written quote c ['\\', k]
  | shown {c : Char} (h : c ≠ '\\') : Written quote c [c]
  | hidden {c : Char} : Written quote c (codePoint c)

/-- Every character is escaped in one of these ways. -/
theorem escape_written (quote c : Char) : Written quote c (escape quote c) := by
  rw [escape_eq]
  cases hshort : short? quote c with
  | some k => exact .short hshort
  | none =>
    by_cases hshown : isShown c
    · rw [if_pos hshown]
      exact .shown (ne_backslash hshort)
    · rw [if_neg hshown]
      exact .hidden

/-- **An escaped character is known from its front.** -/
theorem Written.append_inj (hq : IsQuote quote) {u v s t : List Char} (hu : Written quote c u)
    (hv : Written quote d v) (h : u ++ s = v ++ t) : c = d ∧ s = t := by
  cases hu with
  | short hc =>
    cases hv with
    | short hd =>
      injection h with _ h
      injection h with hk hrest
      subst hk
      exact ⟨short?_inj hq hc hd, hrest⟩
    | shown hd =>
      injection h with hhead _
      exact absurd hhead.symm hd
    | hidden =>
      injection h with _ h
      injection h with hk _
      exact absurd hk (short?_ne hq hc).1
  | shown hc =>
    cases hv with
    | short hd =>
      injection h with hhead _
      exact absurd hhead hc
    | shown hd =>
      injection h with hhead hrest
      exact ⟨hhead, hrest⟩
    | hidden =>
      injection h with hhead _
      exact absurd hhead hc
  | hidden =>
    cases hv with
    | short hd =>
      injection h with _ h
      injection h with hk _
      exact absurd hk.symm (short?_ne hq hd).1
    | shown hd =>
      injection h with hhead _
      exact absurd hhead.symm hd
    | hidden =>
      -- Both are code points: the closing brace ends the digits.
      have hdigits : hex c.toNat ++ '\x7d' :: s = hex d.toNat ++ '\x7d' :: t := by
        simpa [codePoint] using h
      obtain ⟨hhex, hrest⟩ := append_cons_inj not_mem_hex not_mem_hex hdigits
      exact ⟨Char.toNat_inj.1 (hex_injective hhex), hrest⟩

/-- An escaped character is known from its front. -/
theorem escape_append_inj (hq : IsQuote quote) {s t : List Char}
    (h : escape quote c ++ s = escape quote d ++ t) : c = d ∧ s = t :=
  (escape_written quote c).append_inj hq (escape_written quote d) h

/-! ## Literals -/

/-- Different characters are quoted differently. -/
theorem quoteChar_injective (h : quoteChar c = quoteChar d) : c = d := by
  have hlists := String.ofList_injective h
  rw [List.cons_append, List.cons_append] at hlists
  exact (escape_append_inj (.inr rfl) (List.cons.inj hlists).2).1

/-- In a literal a character is written as elsewhere, or in the long form if it is NUL. -/
theorem literalBody_cons (c : Char) (t : Text) :
    ∃ u, literalBody (c :: t) = u ++ literalBody t ∧
      (u = escape '"' c ∨ (c = '\x00' ∧ u = ['\\', 'x', '0', '0'])) := by
  cases t with
  | nil =>
    refine ⟨escape '"' c, ?_, .inl rfl⟩
    simp only [literalBody]
  | cons d t =>
    by_cases hnul : c = '\x00'
    · subst hnul
      by_cases hoctal : '0' ≤ d ∧ d ≤ '7'
      · exact ⟨_, by rw [literalBody, if_pos hoctal], .inr ⟨rfl, rfl⟩⟩
      · exact ⟨_, by rw [literalBody, if_neg hoctal]; rfl, .inl rfl⟩
    · refine ⟨escape '"' c, ?_, .inl rfl⟩
      rw [literalBody]
      intro _ _ hc
      exact absurd hc hnul

/-- No other character is written as the long form of NUL begins. -/
theorem Written.ne_long (hq : IsQuote quote) {u s t : List Char} (hu : Written quote c u) :
    u ++ s ≠ '\\' :: 'x' :: t := by
  intro h
  cases hu with
  | short hc =>
    injection h with _ h
    injection h with hk _
    exact (short?_ne hq hc).2 hk
  | shown hc =>
    injection h with hhead _
    exact hc hhead
  | hidden =>
    injection h with _ h
    injection h with hk _
    revert hk
    decide

/-- No character is written as nothing. -/
theorem Written.ne_nil {u : List Char} (hu : Written quote c u) : u ≠ [] := by
  cases hu <;> exact List.cons_ne_nil _ _

/-- A text that is not empty is not written as nothing. -/
theorem literalBody_ne_nil (c : Char) (t : Text) : literalBody (c :: t) ≠ [] := by
  obtain ⟨u, hu, hcase⟩ := literalBody_cons c t
  have hne : u ≠ [] := by
    obtain rfl | ⟨-, rfl⟩ := hcase
    · exact (escape_written '"' c).ne_nil
    · exact List.cons_ne_nil _ _
  rw [hu]
  exact List.append_ne_nil_of_left_ne_nil hne _

/-- A text is known from what stands between its quotes. -/
theorem literalBody_injective : ∀ {s t : Text}, literalBody s = literalBody t → s = t
  | [], [], _ => rfl
  | [], d :: t, h => absurd h.symm (literalBody_ne_nil d t)
  | c :: s, [], h => absurd h (literalBody_ne_nil c s)
  | c :: s, d :: t, h => by
    obtain ⟨u, hu, hc⟩ := literalBody_cons c s
    obtain ⟨v, hv, hd⟩ := literalBody_cons d t
    rw [hu, hv] at h
    have hsame : c = d ∧ literalBody s = literalBody t := by
      rcases hc with rfl | ⟨rfl, rfl⟩ <;> rcases hd with rfl | ⟨rfl, rfl⟩
      · exact escape_append_inj (.inl rfl) h
      · exact absurd h ((escape_written '"' c).ne_long (.inl rfl))
      · exact absurd h.symm ((escape_written '"' d).ne_long (.inl rfl))
      · exact ⟨rfl, List.append_cancel_left h⟩
    obtain ⟨rfl, hrest⟩ := hsame
    rw [literalBody_injective hrest]

/-- Different texts have different literals. -/
theorem literalString_injective {s t : String} (h : literalString s = literalString t) : s = t := by
  have hlists := String.ofList_injective h
  rw [List.cons_append, List.cons_append] at hlists
  have hbodies := List.append_cancel_right (List.cons.inj hlists).2
  exact String.toList_inj.1 (literalBody_injective hbodies)

end Quoted

end MemoPeg
