/-
  The values that matching produces.

  1. **Values** — a value is a leaf (nothing, a truth value, an integer of 64 bits, a character, a string, a
     pair of offsets), a list, or a named node with children.
  2. **Equality (`same_iff`)** — values are arguments of rules and so part of the keys of the memo table:
     whether an entry is found hangs on whether two values are equal.  Equality is structural.  Values
     nest through lists, so the comparison is written out, one function for values and one for rows
     of them, and both are shown to decide equality in the same recursion.
  3. **Parts** — accessors answer with nothing for values of another kind.  As a truth value, everything
     counts but nothing and `false`: zero, the empty string and the empty list hold.
-/

namespace MemoPeg

/-- What an operator, a rule or an action answers with. -/
inductive Value where
  | nil
  | bool (b : Bool)
  | int (n : Int64)
  | char (c : Char)
  | str (s : String)
  /-- The part of the text between two byte offsets. -/
  | span (start stop : Nat)
  | list (items : List Value)
  /-- A named node of a syntax tree. -/
  | node (name : String) (children : List Value)
deriving Repr, Inhabited

namespace Value

/-! ## Equality -/

mutual

/-- Structural equality of values. -/
def same : Value → Value → Bool
  | .nil, .nil => true
  | .bool a, .bool b => a == b
  | .int a, .int b => a == b
  | .char a, .char b => a == b
  | .str a, .str b => a == b
  | .span a b, .span c d => a == c && b == d
  | .list a, .list b => sameList a b
  | .node m a, .node n b => m == n && sameList a b
  | _, _ => false

/-- Structural equality of rows of values. -/
def sameList : List Value → List Value → Bool
  | [], [] => true
  | a :: as, b :: bs => same a b && sameList as bs
  | _, _ => false

end

mutual

/-- Comparing values decides their equality; by recursion on the first, lists of values along with it. -/
theorem same_iff : (a b : Value) → (same a b = true ↔ a = b)
  | .nil, b => by cases b <;> simp [same]
  | .bool _, b => by cases b <;> simp [same]
  | .int _, b => by cases b <;> simp [same]
  | .char _, b => by cases b <;> simp [same]
  | .str _, b => by cases b <;> simp [same]
  | .span _ _, b => by cases b <;> simp [same]
  | .list as, b => by
    cases b with
    | list bs => simp [same, sameList_iff as bs]
    | _ => simp [same]
  | .node _ as, b => by
    cases b with
    | node _ bs => simp [same, sameList_iff as bs]
    | _ => simp [same]

theorem sameList_iff : (as bs : List Value) → (sameList as bs = true ↔ as = bs)
  | [], bs => by cases bs <;> simp [sameList]
  | a :: as, bs => by
    cases bs with
    | nil => simp [sameList]
    | cons b bs => simp [sameList, same_iff a b, sameList_iff as bs]

end

instance : DecidableEq Value := fun a b => decidable_of_iff _ (same_iff a b)

/-! ## Parts -/

/-- Only nothing and `false` count as false. -/
def holds : Value → Bool
  | .nil | .bool false => false
  | _ => true

/-- The string, if the value is one. -/
def str? : Value → Option String
  | .str s => some s
  | _ => none

/-- The integer, if the value is one. -/
def int? : Value → Option Int64
  | .int n => some n
  | _ => none

/-- The items, if the value is a list. -/
def items? : Value → Option (List Value)
  | .list items => some items
  | _ => none

/-- The items of a list; none for any other value. -/
def items (v : Value) : List Value := v.items?.getD []

/-- The value of an optional integer: nothing when there is none. -/
def ofInt? : Option Int64 → Value
  | some n => .int n
  | none => .nil

end Value

end MemoPeg
