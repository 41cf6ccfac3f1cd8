/-
  Maps from positions: binary tries over the natural numbers.

  1. **Trie** — a node holds the entry of 0 and two maps, one for the odd positions and one for the
     even positions above 0, so that a look-up takes as many steps as the position has binary digits.
     The first holds `n` for `2 n + 1`, the second for `2 n + 2`.
  2. **Law (`find?_alter`)** — what a change does to every look-up: the entry of its position is
     changed, and those of all others are left.  Its proof follows the recursion of the change, and asks in
     each case on which side the other position lies.
  3. **Listing (`toList`)** — all entries, by the shape of the trie and not by position.

  Two maps with the same entries need not be the same trie, since a change makes the nodes on its way whether or
  not there is an entry in the end.
-/

namespace MemoPeg

/-- A map from positions. -/
inductive PosMap (α : Type) where
  | empty
  /-- The entry of 0, the entries of `2 n + 1` and those of `2 n + 2`. -/
  | node (first : Option α) (odd even : PosMap α)
deriving DecidableEq

namespace PosMap

variable {α : Type}

/-- The entry of a position. -/
def find? : PosMap α → Nat → Option α
  | .empty, _ => none
  | .node first _ _, 0 => first
  | .node _ odd even, n + 1 => if n % 2 = 0 then odd.find? (n / 2) else even.find? (n / 2)

/-- Changes the entry of a position. -/
def alter (f : Option α → Option α) (m : PosMap α) (n : Nat) : PosMap α :=
  match m, n with
  | .empty, 0 => .node (f none) .empty .empty
  | .node first odd even, 0 => .node (f first) odd even
  | .empty, n + 1 =>
    if n % 2 = 0 then .node none (alter f .empty (n / 2)) .empty
    else .node none .empty (alter f .empty (n / 2))
  | .node first odd even, n + 1 =>
    if n % 2 = 0 then .node first (alter f odd (n / 2)) even
    else .node first odd (alter f even (n / 2))
termination_by n

/-- All entries. -/
def toList : PosMap α → List α
  | .empty => []
  | .node first odd even => first.toList ++ odd.toList ++ even.toList

/-- A map without entries. -/
@[simp] theorem find?_empty (n : Nat) : (empty : PosMap α).find? n = none := rfl

/-- A change of one entry leaves all others as they are. -/
theorem find?_alter (f : Option α → Option α) (m : PosMap α) (n k : Nat) :
    (m.alter f n).find? k = if n = k then f (m.find? k) else m.find? k := by
  fun_induction alter f m n generalizing k with
  | case1 => cases k <;> simp [find?]
  | case2 => cases k <;> simp [find?]
  | case3 n hn ih =>
    cases k with
    | zero => simp [find?]
    | succ k => by_cases hk : k % 2 = 0 <;> simp [find?, hk, ih] <;> grind
  | case4 n hn ih =>
    cases k with
    | zero => simp [find?]
    | succ k => by_cases hk : k % 2 = 0 <;> simp [find?, hk, ih] <;> grind
  | case5 first odd even n hn ih =>
    cases k with
    | zero => simp [find?]
    | succ k => by_cases hk : k % 2 = 0 <;> simp [find?, hk, ih] <;> grind
  | case6 first odd even n hn ih =>
    cases k with
    | zero => simp [find?]
    | succ k => by_cases hk : k % 2 = 0 <;> simp [find?, hk, ih] <;> grind

end PosMap

end MemoPeg
