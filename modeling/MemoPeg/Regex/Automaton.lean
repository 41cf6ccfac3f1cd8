import MemoPeg.Regex.Basic
import MemoPeg.Regex.Library

/-
  Matching: an expression becomes a graph of nodes, and threads walk the graph along the text.

  1. **Graph** — `Regex.attach` adds the nodes of an expression in front of a node that is already
     there, so the walk goes on where the expression ends.  A fork prefers its first branch.
  2. **Threads** — at each place of the text there is a row of threads, each waiting at a node for the
     next character, the most preferred first.  A thread that comes to a node after another has been
     there is dropped: it could only repeat what the other does with preference.
  3. **Match** — where a thread accepts, the threads after it are dropped, since they are less
     preferred; those before it go on, and what they accept later is preferred.
  4. **Search** — a match is looked for at every place of the text in turn (`find`).  What stands
     before the text is out of sight for `^` and `\b`, what stands before a later place is not.
  5. **A part of the text** — a walk only ever reads characters off the text, so where it accepts is a
     boundary (`walk_eq_some`); hence an automaton is a matcher (`Automaton.matcher`).
-/

namespace MemoPeg

/-- A node of the graph of an expression. -/
inductive Node where
  /-- Read a character of the set. -/
  | read (set : CharSet) (next : Nat)
  /-- Go on if the assertion holds. -/
  | check (a : Assertion) (next : Nat)
  /-- Try the first branch, then the second. -/
  | fork (first second : Nat)
  /-- The match ends here. -/
  | accept
deriving DecidableEq, Repr

/-- The graph of an expression and the node where its match begins. -/
structure Automaton where
  nodes : Array Node
  start : Nat
deriving DecidableEq, Repr

namespace Regex

/-- A fork between going round (`again`) and going on (`leave`). -/
def forkNode (greedy : Bool) (again leave : Nat) : Node :=
  if greedy then .fork again leave else .fork leave again

/-- Adds nodes in front of a given node; answers with the node to enter by. -/
abbrev Attach := Nat → Array Node → Nat × Array Node

/-- Adds a node. -/
def addNode (node : Node) (nodes : Array Node) : Nat × Array Node := (nodes.size, nodes.push node)

/-- Parts in a row, given last first. -/
def inRow (parts : List Attach) : Attach := fun next nodes =>
  parts.foldl (fun (next, nodes) part => part next nodes) (next, nodes)

/-- Branches of a choice, given last first: a fork between each of them and those after it. -/
def inChoice (parts : List Attach) : Attach := fun next nodes =>
  match parts with
  | [] => addNode (.read .none next) nodes
  | last :: others =>
    others.foldl
      (fun (second, nodes) part =>
        let (first, nodes) := part next nodes
        addNode (.fork first second) nodes)
      (last next nodes)

/-- `n` copies in a row. -/
def copies (body : Attach) : Nat → Attach
  | 0, next, nodes => (next, nodes)
  | n + 1, next, nodes =>
    let (entry, nodes) := body next nodes
    copies body n entry nodes

/-- Up to `n` copies, each inside the one before, all leaving to the same node. -/
def optionalCopies (body : Attach) (greedy : Bool) (leave : Nat) : Nat → Attach
  | 0, next, nodes => (next, nodes)
  | n + 1, next, nodes =>
    let (entry, nodes) := body next nodes
    optionalCopies body greedy leave n nodes.size (nodes.push (forkNode greedy entry leave))

/-- A loop whose fork comes after the body; entered at the body it runs at least once, entered at
    the fork (the second answer) it may run not at all. -/
def loop (body : Attach) (greedy : Bool) (leave : Nat) (nodes : Array Node) :
    Nat × Nat × Array Node :=
  let fork := nodes.size
  let (entry, nodes) := body fork (nodes.push (.fork leave leave))
  (entry, fork, nodes.setIfInBounds fork (forkNode greedy entry leave))

/-- A body repeated.  A body that may match nothing would loop at the fork before it has run once, so
    it gets a fork around the loop. -/
def inLoop (body : Attach) (reads : Bool) (min : Nat) (max : Option Nat) (greedy : Bool) :
    Attach := fun next nodes =>
  match min, max with
  | min, some max =>
    let (middle, nodes) := optionalCopies body greedy next (max - min) next nodes
    copies body min middle nodes
  | 0, none =>
    let (entry, fork, nodes) := loop body greedy next nodes
    if reads then (fork, nodes) else addNode (forkNode greedy entry next) nodes
  | min + 1, none =>
    let (entry, _, nodes) := loop body greedy next nodes
    copies body min entry nodes

mutual

/-- Adds the nodes of an expression. -/
def attach : Regex → Attach
  | .empty => fun next nodes => (next, nodes)
  | .literal cs => inRow (cs.reverse.map fun c next => addNode (.read (.single c) next))
  | .set s => fun next => addNode (.read s next)
  | .assertion a => fun next => addNode (.check a next)
  | .repetition r min max greedy => inLoop r.attach r.reads min max greedy
  | .group _ r => r.attach
  | .sequence rs => inRow (attaches rs [])
  | .choice rs => inChoice (attaches rs [])

/-- How the nodes of some expressions are added, last first, before what is already known. -/
def attaches : List Regex → List Attach → List Attach
  | [], known => known
  | r :: rs, known => attaches rs (r.attach :: known)

end

/-- The graph of an expression. -/
def automaton (r : Regex) : Automaton :=
  let (start, nodes) := r.attach 0 #[.accept]
  ⟨nodes, start⟩

end Regex

namespace Automaton

/-- The threads at one place of the text. -/
structure Threads where
  /-- For each node the number of the last place where a thread has been there. -/
  visited : Array Nat
  /-- The sets that threads wait to read and the nodes that they go on to, least preferred first. -/
  waiting : List (CharSet × Nat)
  /-- A thread less preferred than those has accepted. -/
  accepted : Bool

/-- A place of the text: its number, and whether an assertion holds there. -/
structure Place where
  number : Nat
  before : Option Char
  after : Option Char

/-- Follows threads from nodes, the most preferred first, until each waits for a character, is
    dropped, or accepts.  Every step but the first ones leaves a node for the first time at this
    place, and a node leads to two others at most. -/
def spread (nodes : Array Node) (place : Place) : Nat → List Nat → Threads → Threads
  | 0, _, ts => ts
  | _, [], ts => ts
  | fuel + 1, i :: stack, ⟨visited, waiting, accepted⟩ =>
    if visited[i]? == some place.number then spread nodes place fuel stack ⟨visited, waiting, accepted⟩
    else
      let visited := visited.setIfInBounds i place.number
      match nodes[i]? with
      | some (.read set next) =>
        spread nodes place fuel stack ⟨visited, (set, next) :: waiting, accepted⟩
      | some (.check a next) =>
        let stack := if a.holds place.before place.after then next :: stack else stack
        spread nodes place fuel stack ⟨visited, waiting, accepted⟩
      | some (.fork first second) =>
        spread nodes place fuel (first :: second :: stack) ⟨visited, waiting, accepted⟩
      | some .accept => ⟨visited, waiting, true⟩
      | none => spread nodes place fuel stack ⟨visited, waiting, accepted⟩

/-- Starts a thread at a node; once a thread has accepted, it is too late. -/
def enter (m : Automaton) (place : Place) (i : Nat) (ts : Threads) : Threads :=
  if ts.accepted then ts else spread m.nodes place (2 * m.nodes.size + 1) [i] ts

/-- The threads after a character: those that waited for it go on. -/
def advance (m : Automaton) (place : Place) (c : Char) : List (CharSet × Nat) → Threads → Threads
  | [], ts => ts
  | (set, next) :: waiting, ts =>
    advance m place c waiting (if set.contains c then m.enter place next ts else ts)

/-- Walks along the text.  `read` are the bytes read so far and `best` those of the preferred match
    that is known so far. -/
def walk (m : Automaton) : Text → Nat → Threads → Option Nat → Option Nat
  | t, read, ⟨visited, waiting, accepted⟩, best =>
    let best := if accepted then some read else best
    match t with
    | [] => best
    | c :: t =>
      if waiting.isEmpty then best
      else
        let read := read + c.utf8Size
        let place : Place := ⟨read + 1, some c, t.head?⟩
        m.walk t read (m.advance place c waiting.reverse ⟨visited, [], false⟩) best

/-- The length in bytes of the preferred match where a text starts, given the character before. -/
def matchLength (m : Automaton) (before : Option Char) (t : Text) : Option Nat :=
  let start : Threads := ⟨Array.replicate m.nodes.size 0, [], false⟩
  m.walk t 0 (m.enter ⟨1, before, t.head?⟩ m.start start) none

/-- The first match in a text that starts at offset `start`, given the character before. -/
def findFrom (m : Automaton) (start : Nat) (before : Option Char) (t : Text) :
    Option (Nat × Nat) :=
  match m.matchLength before t with
  | some length => some (start, start + length)
  | none =>
    match t with
    | [] => none
    | c :: t => m.findFrom (start + c.utf8Size) (some c) t

/-- The first match in a text. -/
def find (m : Automaton) (t : Text) : Option (Nat × Nat) := m.findFrom 0 none t

/-- A walk answers with the match known before it, or with one that ends between two characters. -/
theorem walk_eq_some {m : Automaton} {t : Text} {read n : Nat} {ts : Threads} {best : Option Nat}
    (h : m.walk t read ts best = some n) :
    best = some n ∨ ∃ s r, t = s ++ r ∧ read + Text.size s = n := by
  induction t generalizing read ts best with
  | nil =>
    obtain ⟨visited, waiting, accepted⟩ := ts
    cases accepted with
    | false => exact .inl h
    | true => exact .inr ⟨[], [], rfl, Option.some.inj h⟩
  | cons c t ih =>
    obtain ⟨visited, waiting, accepted⟩ := ts
    have now : (if accepted then some read else best) = some n →
        best = some n ∨ ∃ s r, c :: t = s ++ r ∧ read + Text.size s = n := by
      intro h
      cases accepted with
      | false => exact .inl h
      | true => exact .inr ⟨[], c :: t, rfl, Option.some.inj h⟩
    unfold walk at h
    simp only at h
    split at h
    · exact now h
    · rcases ih h with h | ⟨s, r, rfl, hs⟩
      · exact now h
      · exact .inr ⟨c :: s, r, rfl, by rw [Text.size_cons]; omega⟩

/-- A match ends between two characters. -/
theorem matchLength_eq_some {m : Automaton} {before : Option Char} {t : Text} {n : Nat}
    (h : m.matchLength before t = some n) : ∃ s r, t = s ++ r ∧ Text.size s = n := by
  rcases walk_eq_some h with h | ⟨s, r, ht, hs⟩
  · cases h
  · exact ⟨s, r, ht, by omega⟩

/-- A match found from an offset on is a part of the text from there. -/
theorem findFrom_eq_some {m : Automaton} {offset first last : Nat} {before : Option Char} {t : Text}
    (h : m.findFrom offset before t = some (first, last)) :
    ∃ s u r, t = s ++ u ++ r ∧ offset + Text.size s = first ∧ first + Text.size u = last := by
  induction t generalizing offset before with
  | nil =>
    unfold findFrom at h
    split at h
    case h_1 length hlength =>
      obtain ⟨u, r, ht, hu⟩ := matchLength_eq_some hlength
      cases h
      exact ⟨[], u, r, ht, rfl, by rw [hu]⟩
    case h_2 => cases h
  | cons c t ih =>
    unfold findFrom at h
    split at h
    case h_1 length hlength =>
      obtain ⟨u, r, ht, hu⟩ := matchLength_eq_some hlength
      cases h
      exact ⟨[], u, r, ht, rfl, by rw [hu]⟩
    case h_2 =>
      obtain ⟨s, u, r, rfl, hs, hu⟩ := ih h
      exact ⟨c :: s, u, r, rfl, by rw [Text.size_cons]; omega, hu⟩

/-- An automaton searches texts. -/
def matcher (m : Automaton) : Matcher where
  find := m.find
  find_slice := fun {t start stop} h => by
    obtain ⟨s, u, r, ht, hs, hu⟩ := findFrom_eq_some h
    rw [Option.isSome_iff_exists]
    exact ⟨u, Text.slice_eq_some_iff.2 ⟨s, r, ht, by omega, by omega⟩⟩

end Automaton

end MemoPeg
