import Std.Data.TreeMap
import MemoPeg.Regex.Basic
import MemoPeg.Regex.Utf8

/-
  How much memory an expression takes as an automaton that reads bytes.

  An expression is accepted only if two automata fit into `maxBytes`: one that reads forwards and
  tells where groups matched, and one that reads backwards.  Neither is built; their states are
  counted in the order in which they would be made.

  1. **States** — a state takes 32 bytes, a link beyond its first takes more: 8 bytes in a state that
     branches on the byte read, 4 bytes in a fork.
  2. **Expressions** — every copy of a repeated body has states of its own.
  3. **Sets** — a set that is not ASCII has a state for every byte of its characters.  States that
     would be equal are shared as far as they are remembered: a state is remembered in a slot that
     its key determines, until another takes the slot.
  4. **Literals** — branches that are all literals share what they begin with.
-/

namespace MemoPeg

/-- The states of an automaton and the bytes of their further links. -/
structure Footprint where
  states : Nat
  links : Nat
deriving DecidableEq, Repr

namespace Footprint

/-- The most bytes that an automaton may take: ten mebibytes. -/
def maxBytes : Nat := 10485760

/-- The bytes of an automaton. -/
def bytes (f : Footprint) : Nat := f.states * 32 + f.links

/-- Adds states with further links; nothing if they do not fit. -/
def add (f : Footprint) (states links : Nat) : Option Footprint :=
  let f : Footprint := ⟨f.states + states, f.links + links⟩
  if f.bytes ≤ maxBytes then some f else none

end Footprint

/-- What a part of an automaton adds to it.  Answers also if the part ends in a fork, which a link
    to what follows makes larger. -/
abbrev Growth := Footprint → Option (Bool × Footprint)

namespace Growth

/-- States that end in a state with one link. -/
def states (n links : Nat) : Growth := fun f => (f.add n links).map (false, ·)

/-- A link from the end of a part. -/
def link (fork : Bool) (f : Footprint) : Footprint :=
  if fork then { f with links := f.links + 4 } else f

/-- A link from the end of the part to what follows, and then states after it.  The states end in a
    fork if `fork`. -/
def followed (part : Growth) (n links : Nat) (fork : Bool) : Growth := fun f => do
  let (ends, f) ← part f
  return (fork, ← (link ends f).add n links)

/-- The parts in a row, after one that ends in a fork or not. -/
def rowAfter (fork : Bool) : List Growth → Growth
  | [], f => some (fork, f)
  | part :: parts, f =>
    match part f with
    | some (next, f) => rowAfter next parts (link fork f)
    | none => none

/-- The parts in a row. -/
def row : List Growth → Growth
  | [], f => states 1 0 f
  | part :: parts, f =>
    match part f with
    | some (fork, f) => rowAfter fork parts f
    | none => none

/-- `n` further copies in a row. -/
def copiesAfter (part : Growth) : Nat → Bool → Growth
  | 0, fork, f => some (fork, f)
  | n + 1, fork, f =>
    match part f with
    | some (next, f) => copiesAfter part n next (link fork f)
    | none => none

/-- `n` copies in a row. -/
def copies (part : Growth) : Nat → Growth
  | 0, f => states 1 0 f
  | n + 1, f =>
    match part f with
    | some (fork, f) => copiesAfter part n fork f
    | none => none

/-- `n` copies each of which may be the last: a fork stands before each of them. -/
def optionalCopies (part : Growth) : Nat → Bool → Growth
  | 0, fork, f => some (false, link fork f)
  | n + 1, fork, f =>
    match (f.add 1 8).bind part with
    | some (next, f) => optionalCopies part n next (link fork f)
    | none => none

/-- A part repeated. -/
def repetition (part : Growth) (reads : Bool) (min : Nat) (max : Option Nat) : Growth :=
  match min, max with
  | 0, some 1 => fun f => do followed part 1 0 false (← f.add 1 8)
  | 0, none =>
    -- The loop of a part that may match nothing is apart from the fork around it.
    if reads then fun f => do
      let (fork, f) ← part (← f.add 1 4)
      return (true, link fork f)
    else followed part 3 16 false
  | min + 1, none => fun f => do
    let (fork, f) ← copies part (min + 1) f
    return (true, ← (link fork f).add 1 4)
  | min, some max =>
    if min = max then copies part min
    else fun f => do
      let (fork, f) ← copies part min f
      optionalCopies part (max - min) fork (← f.add 1 0)

/-- The branches of a choice after the first. -/
def branches : List Growth → Growth
  | [], f => some (false, f)
  | part :: parts, f =>
    match part f with
    | some (fork, f) => branches parts (link fork { f with links := f.links + 4 })
    | none => none

/-- A choice between parts. -/
def choice : List Growth → Growth
  | [] => states 2 0
  | [part] => part
  | first :: second :: parts => fun f => do
    let (fork, f) ← first f
    let (fork', f) ← second f
    branches parts (link fork (link fork' (← f.add 2 8)))

/-! ## Choices between literals -/

/-- Rows of bytes by their first byte, with what follows it in each row, newest first. -/
abbrev Groups := List (Nat × List (List Nat))

/-- Adds a row to the groups. -/
def gather (b : Nat) (rest : List Nat) : Groups → Groups
  | [] => [(b, [rest])]
  | (b', rests) :: groups =>
    if b' = b then (b', rest :: rests) :: groups else (b', rests) :: gather b rest groups

/-- The groups of some rows, newest first.  A row that ends here begins new groups, since it is
    preferred to the rows after it; at the very beginning one such row is as good as many. -/
def groupsOf (rows : List (List Nat)) : List Groups :=
  rows.foldl
    (fun groups row =>
      match row, groups with
      | [], groups => if 1 < groups.length && groups.all (·.isEmpty) then groups else [] :: groups
      | b :: rest, [] => [gather b rest []]
      | b :: rest, g :: groups => gather b rest g :: groups)
    [[]]

/-- The states and the further links for the rows that begin alike, which have at most `depth` bytes
    left: a state for the bytes of each group, and a fork between the groups and the ends. -/
def sharing : Nat → List (List Nat) → Nat × Nat
  | 0, _ => (0, 0)
  | depth + 1, rows =>
    if rows.all (·.isEmpty) then (0, 0)
    else
      let groups := groupsOf rows
      let filled := groups.filter fun g => !g.isEmpty
      let own := (filled.length + 1,
        (filled.map fun g => if g.length = 1 then 0 else 8 * g.length).sum +
          4 * (filled.length + (groups.length - 1)))
      filled.flatten.foldl
        (fun total (_, rests) =>
          let below := sharing depth rests.reverse
          (total.1 + below.1, total.2 + below.2))
        own

/-- A choice between literals, given by their bytes in the order in which they are read. -/
def literals (rows : List (List Nat)) : Growth :=
  let depth := rows.foldl (fun n row => max n row.length) 0
  let (n, links) := sharing depth rows
  states (n + 1) links

/-! ## Sets -/

/-- The states made for a set, and those that are remembered, each in the slot of its key. -/
structure Making where
  footprint : Footprint
  known : Std.TreeMap Nat (List Nat × Nat)

/-- A number that depends on all numbers of a key. -/
def fingerprint (key : List Nat) : UInt64 :=
  key.foldl (fun h n => (h ^^^ n.toUInt64) * 1099511628211) 14695981039346656037

/-- The state of a key: the one that is remembered, or else a new one with further links. -/
def share (slots links : Nat) (key : List Nat) (m : Making) : Option (Nat × Making) :=
  let slot := (fingerprint key).toNat % slots
  let known := m.known.get? slot
  if known.any (·.1 == key) then known.map fun (_, state) => (state, m)
  else
    let state := m.footprint.states
    (m.footprint.add 1 links).map fun f => (state, ⟨f, m.known.insert slot (key, state)⟩)

/-- A state that is not finished: its links so far, each as first byte, last byte and next state, and
    the bytes of the link that leads to the state after it. -/
structure Unfinished where
  links : List Nat
  last : Utf8.ByteRange

/-- How many forward states are remembered. -/
def forwardSlots : Nat := 10000

/-- The links of an unfinished state, the last one leading to `next`. -/
def Unfinished.linksTo (u : Unfinished) (next : Nat) : List Nat := u.links ++ [u.last.1, u.last.2, next]

/-- Finishes a chain of states, each leading to the one after it and the last one to `target`. -/
def finish (target : Nat) : List Unfinished → Making → Option (Nat × Making)
  | [], m => some (target, m)
  | u :: chain, m =>
    match finish target chain m with
    | some (next, m) =>
      let links := u.linksTo next
      share forwardSlots (links.length / 3 * 8) links m
    | none => none

/-- Adds a row to the chain of the row before: what they begin with is shared, and the rest of the
    chain is finished. -/
def addRow (target : Nat) : List Utf8.ByteRange → List Unfinished → Making →
    Option (List Unfinished × Making)
  | range :: row, u :: chain, m =>
    if range = u.last then (addRow target row chain m).map fun (chain, m) => (u :: chain, m)
    else
      (finish target chain m).map fun (next, m) =>
        (⟨u.linksTo next, range⟩ :: row.map (⟨[], ·⟩), m)
  | row, _, m => some (row.map (⟨[], ·⟩), m)

/-- Adds all rows and finishes the chain of the last one. -/
def addRows (target : Nat) : List (List Utf8.ByteRange) → List Unfinished → Making →
    Option (Nat × Making)
  | [], chain, m => finish target chain m
  | row :: rows, chain, m =>
    match addRow target row chain m with
    | some (chain, m) => addRows target rows chain m
    | none => none

/-- A set read forwards, given by its rows. -/
def setForwards (rows : List (List Utf8.ByteRange)) : Growth := fun f => do
  let target := f.states
  let (_, m) ← addRows target rows [] ⟨← f.add 1 0, ∅⟩
  return (false, m.footprint)

/-- How many backward states are remembered. -/
def backwardSlots : Nat := 1000

/-- Adds a row that is read backwards and ends in the state `next`. -/
def addBackwards (next : Nat) : List Utf8.ByteRange → Making → Option Making
  | [], m => some m
  | (lo, hi) :: row, m =>
    match share backwardSlots 0 [next, lo, hi] m with
    | some (state, m) => addBackwards state row m
    | none => none

/-- Adds all rows that are read backwards, each with a link from the fork between them. -/
def addAllBackwards (target : Nat) : List (List Utf8.ByteRange) → Making → Option Making
  | [], m => some m
  | row :: rows, m =>
    match addBackwards target row m with
    | some m => addAllBackwards target rows { m with footprint := link true m.footprint }
    | none => none

/-- A set read backwards, given by its rows. -/
def setBackwards (rows : List (List Utf8.ByteRange)) : Growth := fun f => do
  let m ← addAllBackwards (f.states + 1) rows ⟨← f.add 2 0, ∅⟩
  return (false, m.footprint)

/-- A set of characters.  One that is ASCII needs only one state that reads. -/
def set (backwards : Bool) (s : CharSet) : Growth :=
  if s.isAscii then states 2 (8 * s.ranges.length)
  else if backwards then setBackwards (Utf8.rows s)
  else setForwards (Utf8.rows s)

end Growth

namespace Regex

/-- The bytes of a literal in the order in which they are read. -/
def literalBytes? (backwards : Bool) : Regex → Option (List Nat)
  | .literal cs =>
    let bytes := cs.flatMap fun c => Utf8.bytes c.toNat
    some (if backwards then bytes.reverse else bytes)
  | _ => none

mutual

/-- What an expression adds to an automaton.  Only a forward automaton tells where groups matched. -/
def growth (backwards : Bool) : Regex → Growth
  | .empty | .assertion _ => Growth.states 1 0
  | .literal cs => Growth.states cs.size 0
  | .set s => Growth.set backwards s
  | .repetition r min max _ => Growth.repetition (r.growth backwards) r.reads min max
  | .group _ r =>
    if backwards then r.growth backwards
    else fun f => do Growth.followed (r.growth backwards) 1 0 false (← f.add 1 0)
  | .sequence rs =>
    Growth.row (if backwards then growths backwards rs [] else (growths backwards rs []).reverse)
  | .choice rs =>
    match rs.mapM (literalBytes? backwards) with
    | some rows => Growth.literals rows
    | none => Growth.choice (growths backwards rs []).reverse

/-- What each of some expressions adds, last first, before what is already known. -/
def growths (backwards : Bool) : List Regex → List Growth → List Growth
  | [], known => known
  | r :: rs, known => growths backwards rs (r.growth backwards :: known)

end

/-- The footprint of the automaton of an expression; nothing if it is too large.  Unless matches are
    bound to an end of the text, the automaton begins with a loop over any bytes. -/
def footprint (backwards : Bool) (r : Regex) : Option Footprint := do
  let bound := if backwards then r.closesText else r.opensText
  let whole := if backwards then r else .group 0 r
  let start ← if bound then Footprint.add ⟨0, 0⟩ 1 0 else Footprint.add ⟨0, 0⟩ 3 16
  return (← Growth.followed (whole.growth backwards) 1 0 false start).2

/-- Both automata of an expression fit. -/
def fits (r : Regex) : Bool := (r.footprint false).isSome && (r.footprint true).isSome

end Regex

end MemoPeg
