/-
  Texts and byte offsets.

  1. **Text** — a text is the list of its characters.  A position in it is the number of BYTES that
     the characters before it take in UTF-8, so a character covers one to four positions.
  2. **Boundaries (`IsBoundary`)** — `suffixAt t n` is what remains of `t` from offset `n`.  It exists exactly
     when `n` is a boundary: the text is a part of `n` bytes followed by the rest (`isBoundary_iff`).
  3. **Reading** — `charAt`, `slice` and `literalEnd` all read through `suffixAt`, so none of them
     ever answers with a part of a character.
  4. **Cutting (`cut`)** — for offsets that come from elsewhere and need not be boundaries: the text before and
     from the greatest boundary that is not behind the offset.

  The functions count bytes down along the text; what is proved of them speaks of texts put together, `t =
  s ++ r` with the size of `s`.  Proofs work with the latter: sizes add up, and a part of a part is a
  part.  The empty literal is the one reading that does not look at the text, and so it stands inside
  characters as well.
-/

namespace MemoPeg

/-- A text is the list of its characters. -/
abbrev Text := List Char

namespace Text

/-! ## Length and suffixes -/

/-- The length of a text in bytes. -/
def size : Text → Nat
  | [] => 0
  | c :: t => c.utf8Size + size t

/-- What remains of a text from byte offset `n`; nothing when `n` is not a boundary of it. -/
def suffixAt : Text → Nat → Option Text
  | t, 0 => some t
  | [], _ + 1 => none
  | c :: t, n + 1 => if c.utf8Size ≤ n + 1 then suffixAt t (n + 1 - c.utf8Size) else none

/-- `n` is a boundary of `t`: the text can be cut there. -/
def IsBoundary (t : Text) (n : Nat) : Prop := (suffixAt t n).isSome

instance (t : Text) (n : Nat) : Decidable (IsBoundary t n) :=
  inferInstanceAs (Decidable ((suffixAt t n).isSome = true))

/-- The first `n` bytes of a text; nothing when `n` is not a boundary of it. -/
def takeBytes : Text → Nat → Option Text
  | _, 0 => some []
  | [], _ + 1 => none
  | c :: t, n + 1 =>
    if c.utf8Size ≤ n + 1 then (takeBytes t (n + 1 - c.utf8Size)).map (c :: ·) else none

@[simp] theorem suffixAt_zero (t : Text) : suffixAt t 0 = some t := by
  cases t <;> rfl

@[simp] theorem takeBytes_zero (t : Text) : takeBytes t 0 = some [] := by
  cases t <;> rfl

@[simp] theorem size_nil : size [] = 0 := rfl

@[simp] theorem size_cons (c : Char) (t : Text) : size (c :: t) = c.utf8Size + size t := rfl

/-- Sizes add up. -/
theorem size_append (s t : Text) : size (s ++ t) = size s + size t := by
  induction s with
  | nil => simp
  | cons c s ih => simp [ih, Nat.add_assoc]

/-- A text remains from an offset exactly when what stands before it takes as many bytes. -/
theorem suffixAt_eq_some_iff {t r : Text} {n : Nat} :
    suffixAt t n = some r ↔ ∃ s, t = s ++ r ∧ size s = n := by
  fun_induction suffixAt t n with
  | case1 t =>
    constructor
    · intro h; exact ⟨[], by simp_all⟩
    · rintro ⟨s, rfl, hs⟩
      cases s with
      | nil => rfl
      | cons c s => have := c.utf8Size_pos; simp at hs; omega
  | case2 n =>
    constructor
    · intro h; cases h
    · rintro ⟨s, hs, h⟩
      obtain ⟨rfl, rfl⟩ := List.append_eq_nil_iff.1 hs.symm
      simp at h
  | case3 c t n hc ih =>
    rw [ih]
    constructor
    · rintro ⟨s, rfl, hs⟩
      refine ⟨c :: s, rfl, ?_⟩
      rw [size_cons, hs, Nat.add_sub_cancel' hc]
    · rintro ⟨s, hs, h⟩
      cases s with
      | nil => simp at h
      | cons d s =>
        obtain ⟨rfl, rfl⟩ := List.cons.inj hs
        rw [size_cons] at h
        exact ⟨s, rfl, by omega⟩
  | case4 c t n hc =>
    constructor
    · intro h; cases h
    · rintro ⟨s, hs, h⟩
      cases s with
      | nil => simp at h
      | cons d s =>
        obtain ⟨rfl, rfl⟩ := List.cons.inj hs
        rw [size_cons] at h
        omega

/-- A boundary is where a first part of the text ends. -/
theorem isBoundary_iff {t : Text} {n : Nat} :
    IsBoundary t n ↔ ∃ s r, t = s ++ r ∧ size s = n := by
  unfold IsBoundary
  rw [Option.isSome_iff_exists]
  simp only [suffixAt_eq_some_iff]
  exact exists_comm

/-- The first bytes of a text exist exactly when something goes on from there. -/
theorem takeBytes_eq_some_iff {t s : Text} {n : Nat} :
    takeBytes t n = some s ↔ ∃ r, t = s ++ r ∧ size s = n := by
  fun_induction takeBytes t n generalizing s with
  | case1 t =>
    constructor
    · intro h; cases h; exact ⟨t, rfl, rfl⟩
    · rintro ⟨r, rfl, hs⟩
      cases s with
      | nil => rfl
      | cons c s => have := c.utf8Size_pos; simp at hs; omega
  | case2 n =>
    constructor
    · intro h; cases h
    · rintro ⟨r, hs, h⟩
      obtain ⟨rfl, rfl⟩ := List.append_eq_nil_iff.1 hs.symm
      simp at h
  | case3 c t n hc ih =>
    rw [Option.map_eq_some_iff]
    constructor
    · rintro ⟨u, hu, rfl⟩
      obtain ⟨r, rfl, hs⟩ := ih.1 hu
      refine ⟨r, rfl, ?_⟩
      rw [size_cons]
      omega
    · rintro ⟨r, hs, h⟩
      cases s with
      | nil => simp at h
      | cons d s =>
        obtain ⟨rfl, rfl⟩ := List.cons.inj hs
        rw [size_cons] at h
        exact ⟨s, ih.2 ⟨r, rfl, by omega⟩, rfl⟩
  | case4 c t n hc =>
    constructor
    · intro h; cases h
    · rintro ⟨r, hs, h⟩
      cases s with
      | nil => simp at h
      | cons d s =>
        obtain ⟨rfl, rfl⟩ := List.cons.inj hs
        rw [size_cons] at h
        omega

/-! ## Reading at an offset -/

/-- The character at offset `n`; nothing at the end, past it, or inside a character. -/
def charAt (t : Text) (n : Nat) : Option Char := (suffixAt t n).bind List.head?

/-- The part of a text between two offsets; nothing unless both are boundaries in order. -/
def slice (t : Text) (start stop : Nat) : Option Text :=
  if start ≤ stop then (suffixAt t start).bind (takeBytes · (stop - start)) else none

/-- A slice is the middle of a text. -/
theorem slice_eq_some_iff {t m : Text} {start stop : Nat} :
    slice t start stop = some m ↔
      ∃ s r, t = s ++ m ++ r ∧ size s = start ∧ size s + size m = stop := by
  unfold slice
  split
  case isTrue hle =>
    rw [Option.bind_eq_some_iff]
    constructor
    · rintro ⟨rest, hrest, hm⟩
      obtain ⟨s, rfl, hs⟩ := suffixAt_eq_some_iff.1 hrest
      obtain ⟨r, rfl, hm⟩ := takeBytes_eq_some_iff.1 hm
      exact ⟨s, r, by simp, hs, by omega⟩
    · rintro ⟨s, r, rfl, hs, hm⟩
      exact ⟨m ++ r, suffixAt_eq_some_iff.2 ⟨s, by simp, hs⟩,
        takeBytes_eq_some_iff.2 ⟨r, rfl, by omega⟩⟩
  case isFalse hlt =>
    constructor
    · intro h; cases h
    · rintro ⟨s, r, rfl, hs, hm⟩; omega

/-- Where `literal` ends when it stands at offset `n`.  The empty literal stands at every offset
    that is not past the end, inside a character too; any other needs a boundary. -/
def literalEnd (t : Text) (n : Nat) (literal : Text) : Option Nat :=
  if literal.isEmpty then
    if n ≤ t.size then some n else none
  else
    match suffixAt t n with
    | some rest => if literal.isPrefixOf rest then some (n + literal.size) else none
    | none => none

/-- The text before and from the greatest boundary that is at most `n`. -/
def cut : Text → Nat → Text × Text
  | [], _ => ([], [])
  | c :: t, n =>
    if c.utf8Size ≤ n then
      let (before, after) := cut t (n - c.utf8Size)
      (c :: before, after)
    else ([], c :: t)

/-- Cutting loses nothing. -/
theorem cut_append (t : Text) (n : Nat) : (cut t n).1 ++ (cut t n).2 = t := by
  induction t generalizing n with
  | nil => rfl
  | cons c t ih =>
    unfold cut
    split
    · simp [ih]
    · rfl

end Text

end MemoPeg
