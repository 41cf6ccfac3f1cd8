import Mathlib.Data.List.TakeWhile
import MemoPeg.Operator.Render
import MemoPeg.Proofs.Quoting

/-
  Operators can be read from a text.

  That a text determines its operator is shown by reading it.  The reader is no part of the library's use;
  it exists to say that nothing but what it reads can have been written.

  1. **Parts** — names, numbers and quoted texts end where they say, so that each of them is read from the
     front of a text, whatever follows.
  2. **The reader (`readOperand`, `readRow`, `readAlternatives`)** — a sign stands before an operand, marks
     follow it, a space goes on with a row unless a bar or a closing angle is behind it.
  3. **Fuel (`Reads`)** — the reader goes down with fuel, and what it reads with enough of it is one thing
     only (`Reads.unique`).

  The three functions go down together, as the three places of an operator do: alternatives are rows, the
  elements of rows are operands, and between brackets of an operand there are alternatives again.  Marks
  are read in a loop behind each operand, so they are put on it one by one, the first one innermost.
-/

namespace MemoPeg

/-! ## Parts -/

namespace Quoted

/-- The value of a digit, in a base up to sixteen. -/
def digitValue (c : Char) : Nat :=
  if c.isDigit then c.toNat - '0'.toNat else c.toNat - 'a'.toNat + 10

/-- The number that digits stand for. -/
def numberOf (base : Nat) (digits : List Char) : Nat :=
  digits.foldl (fun n c => base * n + digitValue c) 0

theorem digitValue_digitChar {n : Nat} (hn : n < 16) : digitValue n.digitChar = n := by
  have hall : ∀ a : Fin 16, digitValue a.val.digitChar = a.val := by decide
  exact hall ⟨n, hn⟩

theorem numberOf_toDigits {base : Nat} (h1 : 1 < base) (h16 : base ≤ 16) (n : Nat) :
    numberOf base (Nat.toDigits base n) = n := by
  induction n using Nat.strongRecOn with
  | ind n ih =>
    rw [Nat.toDigits_eq_if h1]
    by_cases hn : n < base
    · rw [if_pos hn]
      show base * 0 + digitValue n.digitChar = n
      rw [digitValue_digitChar (by omega), Nat.mul_zero, Nat.zero_add]
    · have hmod : n % base < base := Nat.mod_lt n (by omega)
      rw [if_neg hn, numberOf, List.foldl_append]
      show base * numberOf base (Nat.toDigits base (n / base)) + digitValue (n % base).digitChar = n
      rw [ih (n / base) (Nat.div_lt_self (by omega) h1), digitValue_digitChar (by omega), Nat.div_add_mod]

/-- The character that is written at the front of a text, and what follows it. -/
def readChar : Text → Option (Char × Text)
  | '\\' :: 'u' :: '\x7b' :: t =>
    let digits := t.takeWhile (· ≠ '\x7d')
    some (Char.ofNat (numberOf 16 digits), (t.dropWhile (· ≠ '\x7d')).tail)
  | '\\' :: k :: t => some (shortFor k, t)
  | c :: t => some (c, t)
  | [] => none

/-- The text that ends at the first quote, and what follows the quote. -/
def readQuoted : Nat → Text → Option (Text × Text)
  | 0, _ => none
  | _ + 1, '"' :: t => some ([], t)
  | n + 1, t => (readChar t).bind fun (c, t) => (readQuoted n t).map fun (s, t) => (c :: s, t)

theorem Written.readChar {quote c : Char} (hq : IsQuote quote) {u : List Char} (hu : Written quote c u)
    (t : Text) : Quoted.readChar (u ++ t) = some (c, t) := by
  cases hu with
  | @short k h =>
    have hk := (short?_ne hq h).1
    rw [List.cons_append, List.cons_append, List.nil_append, Quoted.readChar, shortFor_eq hq h]
    exact fun _ hu _ => hk hu
  | shown h =>
    rw [List.singleton_append, Quoted.readChar]
    · exact fun _ hc _ => h hc
    · exact fun _ _ hc _ => h hc
  | hidden =>
    -- The closing brace is the first one: there is none among the digits.
    have hall : ∀ x ∈ hex c.toNat, decide (x ≠ '\x7d') = true :=
      fun x hx => decide_eq_true fun heq => not_mem_hex (heq ▸ hx)
    have hcode : codePoint c ++ t = '\\' :: 'u' :: '\x7b' :: (hex c.toNat ++ '\x7d' :: t) := by
      simp [codePoint]
    rw [hcode, Quoted.readChar, List.takeWhile_append_of_pos hall, List.dropWhile_append_of_pos hall]
    simp [hex, numberOf_toDigits, Char.ofNat_toNat]

/-- What is written for a character does not begin with the quote around the text. -/
theorem escape_ne_quote (c : Char) (s t : Text) : escape '"' c ++ s ≠ '"' :: t := by
  intro h
  rw [escape_eq] at h
  split at h
  case h_1 => simp at h
  case h_2 hshort =>
    by_cases hshown : isShown c
    · rw [if_pos hshown] at h
      obtain rfl : c = '"' := (List.cons.inj h).1
      revert hshort
      decide
    · rw [if_neg hshown] at h
      simp [codePoint] at h

theorem readQuoted_eq (s t : Text) : ∀ n, s.length < n →
    readQuoted n (s.flatMap (escape '"') ++ '"' :: t) = some (s, t) := by
  induction s with
  | nil =>
    intro n hn
    obtain ⟨n, rfl⟩ : ∃ m, n = m + 1 := ⟨n - 1, by omega⟩
    rfl
  | cons c s ih =>
    intro n hn
    obtain ⟨n, rfl⟩ : ∃ m, n = m + 1 := ⟨n - 1, by omega⟩
    -- What is written for a character does not begin with the quote, so reading goes on.
    have hread := (escape_written '"' c).readChar (.inl rfl) (s.flatMap (escape '"') ++ '"' :: t)
    have hrest := ih n (by simpa using hn)
    rw [List.flatMap_cons, List.append_assoc, readQuoted]
    · simp only [hread, Option.bind_some, hrest, Option.map_some]
    · exact fun t' => escape_ne_quote c _ t'

end Quoted

namespace Operator

/-- The characters of names.  All characters beyond ASCII are taken for such: no sign is among them. -/
def isNameChar (c : Char) : Bool := c.isAlphanum || c == '_' || 128 ≤ c.toNat

/-- A name is not empty, and no sign is in it. -/
def IsName (name : String) : Prop := name.toList ≠ [] ∧ ∀ c ∈ name.toList, isNameChar c

instance (name : String) : Decidable (IsName name) :=
  decidable_of_iff (name.toList ≠ [] ∧ name.toList.all isNameChar = true) (by rw [List.all_eq_true]; rfl)

theorem IsName.front {name : String} (h : IsName name) :
    ∃ c cs, name.toList = c :: cs ∧ isNameChar c := by
  obtain ⟨c, cs, hcs⟩ := List.exists_cons_of_ne_nil h.1
  exact ⟨c, cs, hcs, h.2 c (by rw [hcs]; exact List.mem_cons_self)⟩

/-- No name goes on with this text. -/
def EndsName (t : Text) : Prop := ∀ c ∈ t.head?, isNameChar c = false

/-- The name at the front of a text, and what follows it. -/
def readName (t : Text) : String × Text := (String.ofList (t.takeWhile isNameChar), t.dropWhile isNameChar)

theorem readName_eq {name : String} (hname : IsName name) {t : Text} (ht : EndsName t) :
    readName (name.toList ++ t) = (name, t) := by
  have hend : t.takeWhile isNameChar = [] ∧ t.dropWhile isNameChar = t := by
    cases t with
    | nil => exact ⟨rfl, rfl⟩
    | cons c t =>
      have hc : isNameChar c = false := ht c rfl
      simp [hc]
  unfold readName
  rw [List.takeWhile_append_of_pos hname.2, List.dropWhile_append_of_pos hname.2, hend.1, hend.2,
    List.append_nil, String.ofList_toList]

/-- The number at the front of a text, and what follows it. -/
def readNumber (t : Text) : Nat × Text :=
  (Quoted.numberOf 10 (t.takeWhile Char.isDigit), t.dropWhile Char.isDigit)

theorem readNumber_eq (n : Nat) {c : Char} (hc : c.isDigit = false) (t : Text) :
    readNumber (Nat.toDigits 10 n ++ c :: t) = (n, c :: t) := by
  have hdigits : ∀ x ∈ Nat.toDigits 10 n, x.isDigit :=
    fun x hx => Nat.isDigit_of_mem_toDigits (by decide) (by decide) hx
  unfold readNumber
  rw [List.takeWhile_append_of_pos hdigits, List.dropWhile_append_of_pos hdigits]
  simp [hc, Quoted.numberOf_toDigits]

/-- The bounds of a repetition behind the opening bracket, and what follows the closing one. -/
def readLimits (t : Text) : Option ((Nat × Option Nat) × Text) :=
  match readNumber t with
  | (min, ',' :: ']' :: t) => some ((min, none), t)
  | (min, ',' :: ' ' :: t) =>
    match readNumber t with
    | (max, ']' :: t) => some ((min, some max), t)
    | _ => none
  | _ => none

variable [RegexLibrary]

/-! ## The reader -/

/-- Marks behind an operand: what they are put on, and what follows them. -/
def readMarks : Operator → Nat → Text → Option (Operator × Text)
  | _, 0, _ => none
  | op, n + 1, '?' :: t => readMarks op.optional n t
  | op, n + 1, '*' :: t => readMarks op.star n t
  | op, n + 1, '+' :: t => readMarks op.plus n t
  | op, n + 1, '[' :: t =>
    (readLimits t).bind fun ((min, max), t) => readMarks (.repetition op min max false) n t
  | op, n + 1, ':' :: t => readMarks (.tag op (readName t).1) n (readName t).2
  | op, _ + 1, t => some (op, t)

/-- The next element of a row: behind a space, unless the row ends with it. -/
def nextElement? : Text → Option Text
  | ' ' :: '|' :: _ | ' ' :: '>' :: _ => none
  | ' ' :: t => some t
  | _ => none

/-- The next alternative: behind a bar. -/
def nextAlternative? : Text → Option Text
  | ' ' :: '|' :: ' ' :: t => some t
  | _ => none

/-- Several operators in one, a single one as it is. -/
def several (f : List Operator → Operator) : List Operator → Operator
  | [op] => op
  | ops => f ops

mutual

/-- An operand at the front of a text, and what follows it. -/
def readOperand : Nat → Text → Option (Operator × Text)
  | 0, _ | _ + 1, [] => none
  | n + 1, c :: t =>
    if isNameChar c then readMarks (.call (readName (c :: t)).1 []) n (readName (c :: t)).2
    else
      match c, t with
      | '&', t => (readOperand n t).bind fun (op, t) => some (.ahead op, t)
      | '!', t => (readOperand n t).bind fun (op, t) => some (.notAhead op, t)
      | '.', t => readMarks .any n t
      | '"', t => (Quoted.readQuoted n t).bind fun (s, t) => readMarks (.literal (String.ofList s)) n t
      | '[', lo :: '-' :: hi :: ']' :: t => readMarks (.range (String.ofList [lo]) (String.ofList [hi])) n t
      | '(', t =>
        (readAlternatives n t).bind fun
          | (ops, ')' :: t) => readMarks (several .choice ops) n t
          | _ => none
      | '<', ' ' :: t =>
        (readAlternatives n t).bind fun
          | (ops, ' ' :: '>' :: t) => readMarks (.collect (several .choice ops)) n t
          | _ => none
      | '@', '<' :: ' ' :: t =>
        (readAlternatives n t).bind fun
          | (ops, ' ' :: '>' :: t) => readMarks (.bounds (several .choice ops)) n t
          | _ => none
      | '@', t => readMarks (.direct (readName t).1 []) n (readName t).2
      | _, _ => none

/-- The elements of a row at the front of a text, and what follows them. -/
def readRow : Nat → Text → Option (List Operator × Text)
  | 0, _ => none
  | n + 1, t =>
    (readOperand n t).bind fun (op, t) =>
      match nextElement? t with
      | none => some ([op], t)
      | some next => (readRow n next).bind fun (ops, t) => some (op :: ops, t)

/-- The alternatives at the front of a text, each of them a row, and what follows them. -/
def readAlternatives : Nat → Text → Option (List Operator × Text)
  | 0, _ => none
  | n + 1, t =>
    (readRow n t).bind fun (row, t) =>
      match nextAlternative? t with
      | none => some ([several .sequence row], t)
      | some next =>
        (readAlternatives n next).bind fun (ops, t) => some (several .sequence row :: ops, t)

end

/-- What alternatives stand for, if nothing follows them. -/
def whole : List Operator × Text → Option Operator
  | (ops, []) => some (several .choice ops)
  | _ => none

/-- Reads an operator that is written alone, with so much fuel. -/
def read (n : Nat) (s : String) : Option Operator := (readAlternatives n s.toList).bind whole

end Operator

/-! ## Fuel -/

/-- With enough fuel, this is what is read. -/
def Reads {α : Type} (reader : Nat → Option α) (a : α) : Prop := ∃ m, ∀ n, m ≤ n → reader n = some a

namespace Reads

variable {α β : Type} {reader : Nat → Option α} {a b : α}

theorem const (a : α) : Reads (fun _ => some a) a := ⟨0, fun _ _ => rfl⟩

theorem of_succ (h : Reads (fun n => reader (n + 1)) a) : Reads reader a := by
  obtain ⟨m, hm⟩ := h
  refine ⟨m + 1, fun n hn => ?_⟩
  obtain ⟨k, rfl⟩ : ∃ k, n = k + 1 := ⟨n - 1, by omega⟩
  exact hm k (by omega)

theorem bind {next : Nat → α → Option β} {r : β} (h : Reads reader a) (hnext : Reads (next · a) r) :
    Reads (fun n => (reader n).bind (next n)) r := by
  obtain ⟨m, hm⟩ := h
  obtain ⟨m', hm'⟩ := hnext
  refine ⟨max m m', fun n hn => ?_⟩
  show (reader n).bind (next n) = some r
  rw [hm n (by omega), Option.bind_some]
  exact hm' n (by omega)

/-- Only one thing is read. -/
theorem unique (ha : Reads reader a) (hb : Reads reader b) : a = b := by
  obtain ⟨m, hm⟩ := ha
  obtain ⟨m', hm'⟩ := hb
  exact Option.some.inj ((hm (max m m') (by omega)).symm.trans (hm' (max m m') (by omega)))

end Reads

end MemoPeg
