import MemoPeg.Text.CharSet

/-
  Characters as rows of bytes.

  1. **Rows** — a row of byte ranges stands for the characters whose UTF-8 form has its first byte in
     the first range, its second byte in the second, and so on.
  2. **Rows of a range (`rowsOfRange`)** — a range of characters is cut where the length of the form changes
     and where the later bytes do not run through all their values; each piece is one row, and the rows
     come in the order of the characters.

  A range of characters is not one row in general: from U+0080 to U+0800 the forms have two bytes up to the last
  character, which has three, and from U+00BF to U+00C1 the second byte goes over its end.  Cutting at the
  blocks of characters that share all bytes but the last few leaves no other pieces.
-/

namespace MemoPeg.Utf8

/-- A range of bytes, ends included. -/
abbrev ByteRange := Nat × Nat

/-- The bytes of a code point. -/
def bytes (n : Nat) : List Nat :=
  if n < 0x80 then [n]
  else if n < 0x800 then [0xc0 + n / 0x40, 0x80 + n % 0x40]
  else if n < 0x10000 then [0xe0 + n / 0x1000, 0x80 + n / 0x40 % 0x40, 0x80 + n % 0x40]
  else [0xf0 + n / 0x40000, 0x80 + n / 0x1000 % 0x40, 0x80 + n / 0x40 % 0x40, 0x80 + n % 0x40]

/-- A range cut after each of the given code points that it reaches beyond. -/
def cutAfter : List Nat → Nat → Nat → List (Nat × Nat)
  | [], lo, hi => [(lo, hi)]
  | last :: lasts, lo, hi =>
    if lo ≤ last ∧ last < hi then (lo, last) :: cutAfter lasts (last + 1) hi
    else cutAfter lasts lo hi

/-- The last code points that take one, two and three bytes. -/
def lastOfLength : List Nat := [0x7f, 0x7ff, 0xffff]

/-- The part of a range that holds characters. -/
def withoutSurrogates (lo hi : Nat) : List (Nat × Nat) :=
  if lo < 0xe000 ∧ 0xd7ff < hi then
    (if lo ≤ 0xd7ff then [(lo, 0xd7ff)] else []) ++ (if 0xe000 ≤ hi then [(0xe000, hi)] else [])
  else [(lo, hi)]

/-- A range cut into pieces in which every byte but the first runs through one range.  The blocks are
    the numbers of code points that share all bytes but the last one, two or three. -/
def cutAligned : List Nat → Nat → Nat → List (Nat × Nat)
  | [], lo, hi => [(lo, hi)]
  | block :: blocks, lo, hi =>
    if lo / block = hi / block then [(lo, hi)]
    else
      let first := (lo + block - 1) / block * block
      let head := if lo = first then [] else [(lo, first - 1)]
      if first / block = hi / block then head ++ [(first, hi)]
      else
        let last := (hi + 1) / block * block
        let tail := if last = hi + 1 then [] else [(last, hi)]
        head ++ cutAligned blocks first (last - 1) ++ tail

/-- The blocks of code points that share all bytes but the last one, two or three. -/
def blocks : List Nat := [0x40, 0x1000, 0x40000]

/-- The rows of a range of characters. -/
def rowsOfRange (lo hi : Nat) : List (List ByteRange) :=
  (withoutSurrogates lo hi).flatMap fun (lo, hi) =>
    (cutAfter lastOfLength lo hi).flatMap fun (lo, hi) =>
      (if hi < 0x80 then [(lo, hi)] else cutAligned blocks lo hi).map fun (lo, hi) =>
        (bytes lo).zip (bytes hi)

/-- The rows of a set of characters. -/
def rows (s : CharSet) : List (List ByteRange) := s.ranges.flatMap fun (lo, hi) => rowsOfRange lo hi

end MemoPeg.Utf8
