import MemoPeg.Text.Basic
import MemoPeg.Text.CharClass
import MemoPeg.Text.Folding

/-
  Regular expressions as trees.

  1. **Assertions** — conditions on the place between two characters.
  2. **Expressions (`Regex`)** — literals, sets, sequences, ordered choices and repetitions.  The order of a
     choice matters: the first way to match wins, not the longest.
  3. **Lengths** — the fewest and the most characters that a match can read.
  4. **Normal form** — `ofSet`, `repeated`, `sequenceOf` and `choiceOf` build the smallest equal tree
     that can be seen from the parts alone: literals that meet are joined, choices between characters
     become sets, and what all branches begin with is taken out of a choice.

  The normal form does not change what an expression matches.  It matters for how much memory the expression is
  taken to need: an expression is refused when it needs too much, and a smaller tree may need less.
-/

namespace MemoPeg

/-! ## Assertions -/

/-- Where word characters begin and end. -/
inductive WordEdge where
  | boundary
  | notBoundary
  | start
  | stop
  | startHalf
  | stopHalf
deriving DecidableEq, Repr

/-- A condition on the place between two characters. -/
inductive Assertion where
  | textStart
  | textEnd
  /-- At the start of a line; with `crlf`, a carriage return ends a line too, and a line feed after
      it belongs to the same line end. -/
  | lineStart (crlf : Bool)
  | lineEnd (crlf : Bool)
  /-- Where a word begins or ends; with `ascii`, only ASCII characters count as word characters. -/
  | word (edge : WordEdge) (ascii : Bool)
deriving DecidableEq, Repr

/-- The edge lies between two characters of which it is known whether they are word characters. -/
def WordEdge.holds (edge : WordEdge) (wordBefore wordAfter : Bool) : Bool :=
  match edge with
  | .boundary => wordBefore != wordAfter
  | .notBoundary => wordBefore == wordAfter
  | .start => !wordBefore && wordAfter
  | .stop => wordBefore && !wordAfter
  | .startHalf => !wordBefore
  | .stopHalf => !wordAfter

/-- Word characters of ASCII. -/
def asciiWordSet : CharSet := ⟨[(0x30, 0x39), (0x41, 0x5a), (0x5f, 0x5f), (0x61, 0x7a)]⟩

/-- The condition holds between the character before (if any) and the one after (if any). -/
def Assertion.holds (a : Assertion) (before after : Option Char) : Bool :=
  match a with
  | .textStart => before.isNone
  | .textEnd => after.isNone
  | .lineStart false => before.all (· == '\n')
  | .lineEnd false => after.all (· == '\n')
  | .lineStart true => before.all fun c => c == '\n' || (c == '\r' && after != some '\n')
  | .lineEnd true => after.all fun c => c == '\r' || (c == '\n' && before != some '\r')
  | .word edge ascii =>
    let inWord (c : Char) : Bool := (if ascii then asciiWordSet else wordSet).contains c
    edge.holds (before.any inWord) (after.any inWord)

/-! ## Expressions -/

/-- A regular expression. -/
inductive Regex where
  | empty
  /-- One or more characters as they stand. -/
  | literal (cs : Text)
  /-- One character of a set. -/
  | set (s : CharSet)
  | assertion (a : Assertion)
  /-- At least `min` and at most `max` times (`none`: no limit), as often as possible when `greedy`
      and as seldom as possible otherwise. -/
  | repetition (body : Regex) (min : Nat) (max : Option Nat) (greedy : Bool)
  /-- A group that reports where it matched; groups are numbered in the order they open. -/
  | group (number : Nat) (body : Regex)
  /-- All parts in order. -/
  | sequence (parts : List Regex)
  /-- The first branch that matches. -/
  | choice (branches : List Regex)

namespace Regex

mutual

/-- Two expressions are the same tree. -/
def same : Regex → Regex → Bool
  | .empty, .empty => true
  | .literal cs, .literal ds => cs == ds
  | .set s, .set t => s == t
  | .assertion a, .assertion b => a == b
  | .repetition r min max greedy, .repetition r' min' max' greedy' =>
    min == min' && max == max' && greedy == greedy' && same r r'
  | .group n r, .group m r' => n == m && same r r'
  | .sequence rs, .sequence rs' => sameAll rs rs'
  | .choice rs, .choice rs' => sameAll rs rs'
  | _, _ => false

/-- Two lists hold the same trees. -/
def sameAll : List Regex → List Regex → Bool
  | [], [] => true
  | r :: rs, r' :: rs' => same r r' && sameAll rs rs'
  | _, _ => false

end

/-! ## Lengths -/

/-- The least of two lengths, once there is a second. -/
def lesser (known : Option Nat) (n : Nat) : Nat := min (known.getD n) n

/-- The greatest of two lengths, once there is a second. -/
def greater (known : Option Nat) (n : Nat) : Nat := max (known.getD n) n

mutual

/-- The fewest characters that a match reads; none if nothing can match. -/
def minLength : Regex → Option Nat
  | .empty | .assertion _ => some 0
  | .literal cs => some cs.length
  | .set s => if s.isEmpty then none else some 1
  | .repetition r min _ _ => r.minLength.map (· * min)
  | .group _ r => r.minLength
  | .sequence rs => minSum 0 rs
  | .choice rs => minOf none rs

/-- The least length of a sequence whose parts so far take `n`. -/
def minSum (n : Nat) : List Regex → Option Nat
  | [] => some n
  | r :: rs =>
    match r.minLength with
    | some m => minSum (n + m) rs
    | none => none

/-- The least length of a choice whose branches so far take `known`; none if a branch never
    matches. -/
def minOf (known : Option Nat) : List Regex → Option Nat
  | [] => known
  | r :: rs =>
    match r.minLength with
    | some n => minOf (some (lesser known n)) rs
    | none => none

end

mutual

/-- The most characters that a match reads; none if there is no limit, or nothing can match. -/
def maxLength : Regex → Option Nat
  | .empty | .assertion _ => some 0
  | .literal cs => some cs.length
  | .set s => if s.isEmpty then none else some 1
  | .repetition r _ max _ =>
    match max, r.maxLength with
    | some max, some n => some (n * max)
    | _, _ => none
  | .group _ r => r.maxLength
  | .sequence rs => maxSum 0 rs
  | .choice rs => maxOf none rs

/-- The greatest length of a sequence whose parts so far take `n`. -/
def maxSum (n : Nat) : List Regex → Option Nat
  | [] => some n
  | r :: rs =>
    match r.maxLength with
    | some m => maxSum (n + m) rs
    | none => none

/-- The greatest length of a choice whose branches so far take `known`; none if a branch has no
    greatest length. -/
def maxOf (known : Option Nat) : List Regex → Option Nat
  | [] => known
  | r :: rs =>
    match r.maxLength with
    | some n => maxOf (some (greater known n)) rs
    | none => none

end

/-- A match reads at least one character. -/
def reads (r : Regex) : Bool := r.minLength.any (0 < ·)

/-- A match reads nothing. -/
def readsNothing (r : Regex) : Bool := r.maxLength == some 0

/-! ## Normal form -/

/-- One character of a set; a set of one character is a literal. -/
def ofSet (s : CharSet) : Regex :=
  match s.only? with
  | some c => .literal [c]
  | none => .set s

/-- A body repeated.  A body that reads nothing need not match more than once. -/
def repeated (body : Regex) (min : Nat) (max : Option Nat) (greedy : Bool) : Regex :=
  let (min, max) :=
    if body.readsNothing then (Nat.min min 1, some ((max.getD 1).min 1)) else (min, max)
  match min, max with
  | 0, some 0 => .empty
  | 1, some 1 => body
  | min, max => .repetition body min max greedy

/-- The parts of an expression in sequence. -/
def parts : Regex → List Regex
  | .empty => []
  | .sequence rs => rs
  | r => [r]

/-- The branches of an expression in order. -/
def branches : Regex → List Regex
  | .choice rs => rs
  | r => [r]

/-- Puts a part before others; a literal before a literal is joined with it. -/
def before : Regex → List Regex → List Regex
  | .literal cs, .literal ds :: rs => .literal (cs ++ ds) :: rs
  | r, rs => r :: rs

/-- All expressions in order. -/
def sequenceOf (rs : List Regex) : Regex :=
  match rs.foldr (fun r rest => r.parts.foldr before rest) [] with
  | [] => .empty
  | [r] => r
  | rs => .sequence rs

/-- The character of an expression that is just one character. -/
def char? : Regex → Option Char
  | .literal [c] => some c
  | _ => none

/-- The set of an expression that is just a set. -/
def set? : Regex → Option CharSet
  | .set s => some s
  | _ => none

/-- A choice between branches that are no choices themselves.  Between characters, or between sets,
    it is a set. -/
def choiceBetween (rs : List Regex) : Regex :=
  match rs with
  | [] => .set .none
  | [r] => r
  | rs =>
    match rs.mapM char?, rs.mapM set? with
    | some cs, _ => ofSet (cs.foldl (fun s c => s.union (.single c)) .none)
    | none, some sets => ofSet (sets.foldl .union .none)
    | none, none => .choice rs

/-- How many parts two sequences begin with in common. -/
def commonLength : List Regex → List Regex → Nat
  | r :: rs, r' :: rs' => if r.same r' then commonLength rs rs' + 1 else 0
  | _, _ => 0

/-- The parts of an expression that is a sequence. -/
def sequence? : Regex → Option (List Regex)
  | .sequence rs => some rs
  | _ => none

/-- The first expression that matches.  What all branches begin with is taken out of the choice; what
    is left of them has no common beginning any more. -/
def choiceOf (rs : List Regex) : Regex :=
  match choiceBetween (rs.flatMap branches) with
  | .choice rs =>
    match rs.mapM sequence? with
    | some (ps :: pss) =>
      let n := pss.foldl (fun n qs => min n (commonLength ps qs)) ps.length
      if n = 0 then .choice rs
      else
        let rests := (ps :: pss).map fun qs => sequenceOf (qs.drop n)
        sequenceOf (ps.take n ++ [choiceBetween (rests.flatMap branches)])
    | _ => .choice rs
  | r => r

/-! ## Ends of the text -/

mutual

/-- Every match begins at the start of the text. -/
def opensText : Regex → Bool
  | .assertion .textStart => true
  | .repetition r min _ _ => 0 < min && r.opensText
  | .group _ r => r.opensText
  | .sequence rs => someOpensText rs
  | .choice rs => allOpenText rs
  | _ => false

/-- A part that nothing is read before holds at the start of the text only. -/
def someOpensText : List Regex → Bool
  | [] => false
  | r :: rs => r.opensText || (r.readsNothing && someOpensText rs)

/-- Every match of every branch begins at the start of the text. -/
def allOpenText : List Regex → Bool
  | [] => true
  | r :: rs => r.opensText && allOpenText rs

end

mutual

/-- Every match ends at the end of the text. -/
def closesText : Regex → Bool
  | .assertion .textEnd => true
  | .repetition r min _ _ => 0 < min && r.closesText
  | .group _ r => r.closesText
  | .sequence rs => someClosesText false rs
  | .choice rs => allCloseText rs
  | _ => false

/-- A part that nothing is read after holds at the end of the text only; `closed` tells whether one
    of the parts so far does. -/
def someClosesText (closed : Bool) : List Regex → Bool
  | [] => closed
  | r :: rs => someClosesText (r.closesText || (r.readsNothing && closed)) rs

/-- Every match of every branch ends at the end of the text. -/
def allCloseText : List Regex → Bool
  | [] => true
  | r :: rs => r.closesText && allCloseText rs

end

end Regex

end MemoPeg
