/-
  Sets of characters, as ranges of code points in increasing order.

  1. **Membership (`contains`)** — ranges are looked through from the lowest on, up to the first that starts
     above the character.
  2. **Operations** — union, intersection, difference and complement work range by range.  Ranges
     that touch are joined, so a set has one form, whichever way it was made.
  3. **Surrogates** — the code points between U+D7FF and U+E000 are no characters; the character
     after the one is the other.

  A range is a pair of numbers and nothing holds it to be in order, so a gap can be made that ends before it
  begins.  This happens at the surrogates only.  A difference drops such a gap, a complement reads it as the
  two characters on either side of it.
-/

namespace MemoPeg

/-- A set of characters: ranges of code points, ends included, in increasing order. -/
structure CharSet where
  ranges : List (Nat × Nat)
deriving DecidableEq, Repr

namespace CharSet

/-! ## Membership -/

/-- Some range holds the code point. -/
def rangesContain : List (Nat × Nat) → Nat → Bool
  | [], _ => false
  | (lo, hi) :: ranges, n => if n < lo then false else n ≤ hi || rangesContain ranges n

/-- Membership of a character. -/
def contains (s : CharSet) (c : Char) : Bool := rangesContain s.ranges c.toNat

/-- The set has no members. -/
def isEmpty (s : CharSet) : Bool := s.ranges.isEmpty

/-- All members are ASCII. -/
def isAscii (s : CharSet) : Bool := s.ranges.all fun (_, hi) => hi < 0x80

/-- The only member, if there is just one. -/
def only? (s : CharSet) : Option Char :=
  match s.ranges with
  | [(lo, hi)] => if lo = hi then some (Char.ofNat lo) else none
  | _ => none

/-! ## Making sets -/

/-- The set without members. -/
def none : CharSet := ⟨[]⟩

/-- The greatest code point. -/
def maxCode : Nat := 0x10ffff

/-- The set of all characters. -/
def all : CharSet := ⟨[(0, maxCode)]⟩

/-- The characters from `lo` to `hi`. -/
def range (lo hi : Char) : CharSet := ⟨[(lo.toNat, hi.toNat)]⟩

/-- The set of one character. -/
def single (c : Char) : CharSet := range c c

/-! ## Operations -/

/-- Adds a range, joined with those that it meets or touches. -/
def insertRange (lo hi : Nat) : List (Nat × Nat) → List (Nat × Nat)
  | [] => [(lo, hi)]
  | (a, b) :: ranges =>
    if hi + 1 < a then (lo, hi) :: (a, b) :: ranges
    else if b + 1 < lo then (a, b) :: insertRange lo hi ranges
    else insertRange (min lo a) (max hi b) ranges

/-- A set with more ranges. -/
def insertAll (s : CharSet) (ranges : List (Nat × Nat)) : CharSet :=
  ⟨ranges.foldl (fun rs (lo, hi) => insertRange lo hi rs) s.ranges⟩

/-- The members of either set. -/
def union (s t : CharSet) : CharSet :=
  if s.ranges.length < t.ranges.length then t.insertAll s.ranges else s.insertAll t.ranges

/-- What two lists of ranges have in common. -/
def common (rs ts : List (Nat × Nat)) : List (Nat × Nat) :=
  rs.flatMap fun (a, b) => ts.filterMap fun (c, d) =>
    if max a c ≤ min b d then some (max a c, min b d) else Option.none

/-- The members of both sets. -/
def inter (s t : CharSet) : CharSet := ⟨common s.ranges t.ranges⟩

/-- The character after a character. -/
def following (n : Nat) : Nat := if n = 0xd7ff then 0xe000 else n + 1

/-- The character before a character. -/
def preceding (n : Nat) : Nat := if n = 0xe000 then 0xd7ff else n - 1

/-- The gaps above `last`, the end of the range before. -/
def gapsAfter (last : Nat) : List (Nat × Nat) → List (Nat × Nat)
  | [] => if last < maxCode then [(following last, maxCode)] else []
  | (lo, hi) :: ranges => (following last, preceding lo) :: gapsAfter hi ranges

/-- The gaps between the ranges of a set.  One between ranges that only the surrogates part is empty:
    it ends before it begins. -/
def gaps (s : CharSet) : List (Nat × Nat) :=
  match s.ranges with
  | [] => all.ranges
  | (lo, hi) :: ranges => (if lo = 0 then [] else [(0, preceding lo)]) ++ gapsAfter hi ranges

/-- The members of `s` that are not members of `t`. -/
def diff (s t : CharSet) : CharSet := ⟨common s.ranges t.gaps⟩

/-- The members of just one of two sets. -/
def symmDiff (s t : CharSet) : CharSet := (s.union t).diff (s.inter t)

/-- All characters that are not members.  A gap that ends before it begins is read from its lower end
    on, so the two characters at the surrogates count as outside a set that names them by two
    ranges. -/
def compl (s : CharSet) : CharSet := ⟨s.gaps.map fun (lo, hi) => (min lo hi, max lo hi)⟩

end CharSet

end MemoPeg
