import MemoPeg.Action.Basic
import MemoPeg.Regex.Library

/-
  Operators: the trees that the bodies of rules are made of.

  1. **Patterns (`Pattern`)** — a written expression together with the matcher that the library of regular
     expressions compiles it to.  An expression that the library refuses is no pattern, so whoever has a
     pattern can match with it.  The source determines the matcher, so two patterns with one source are
     equal (`Pattern.eq_of_source`).
  2. **Operators** — what a rule body can ask of the text: terminals, sequences, ordered choices,
     repetitions, predicates, bindings, actions and calls of rules.
  3. **Names** — calls hold the name of a rule as it is written, and ranges their bounds.  Whether the rule
     exists and the bounds are characters is found out when a grammar is built; a tree alone can be wrong.
  4. **Nodes (`nodes`)** — an operator and everything below it, parents first.  It is the order in which
     checks report and in which actions and patterns are numbered.
-/

namespace MemoPeg

/-! ## Patterns -/

/-- The expression that a pattern matches: its source in a group, at the start of the text. -/
def anchored (source : String) : String := "^(?:" ++ source ++ ")"

variable [RegexLibrary]

/-- A written expression with the matcher that it is compiled to. -/
structure Pattern where
  source : String
  matcher : Matcher
  isCompiled : RegexLibrary.compile (anchored source) = .ok matcher

namespace Pattern

/-- Compiles a pattern, unless the library refuses its expression. -/
def compile (source : String) : Except String Pattern :=
  match h : RegexLibrary.compile (anchored source) with
  | .ok matcher => .ok ⟨source, matcher, h⟩
  | .error message => .error message

/-- The source determines the pattern. -/
theorem eq_of_source {p q : Pattern} (h : p.source = q.source) : p = q := by
  obtain ⟨s, m, hp⟩ := p
  obtain ⟨t, n, hq⟩ := q
  subst h
  obtain rfl : m = n := Except.ok.inj (hp.symm.trans hq)
  rfl

end Pattern

/-! ## Operators -/

/-- What a rule body asks of the text. -/
inductive Operator where
  /-- Any one character. -/
  | any
  | literal (s : String)
  | pattern (p : Pattern)
  /-- One character between two bounds.  The bounds are kept as written, so that bounds of several
      characters can be reported. -/
  | range (lo hi : String)
  | sequence (ops : List Operator)
  /-- The first alternative that matches. -/
  | choice (ops : List Operator)
  /-- At least `min` and at most `max` times (`none`: no limit), as often as possible.  Answers with
      all results if it `captures`, else with the last one. -/
  | repetition (op : Operator) (min : Nat) (max : Option Nat) (captures : Bool)
  /-- Matches where `op` does, reading nothing. -/
  | ahead (op : Operator)
  /-- Matches where `op` does not, reading nothing. -/
  | notAhead (op : Operator)
  /-- Binds the result to a name. -/
  | tag (op : Operator) (name : String)
  | action (a : Action)
  /-- Answers with the text that was read, and binds it to `text`. -/
  | collect (op : Operator)
  /-- Answers with the offsets of the text that was read, and binds them to `bounds`. -/
  | bounds (op : Operator)
  /-- A call through the memo table. -/
  | call (rule : String) (args : List Arg)
  /-- A call past the memo table. -/
  | direct (rule : String) (args : List Arg)
  /-- A call of a rule of a linked grammar. -/
  | foreign (grammar rule : String) (args : List Arg)

namespace Operator

/-! ## Common repetitions -/

/-- Any number of times. -/
def star (op : Operator) : Operator := .repetition op 0 none false

/-- At least once. -/
def plus (op : Operator) : Operator := .repetition op 1 none false

/-- Once or not at all. -/
def optional (op : Operator) : Operator := .repetition op 0 (some 1) false

/-! ## Nodes -/

/-- The operators directly below, in the order of evaluation. -/
def children : Operator → List Operator
  | .sequence ops | .choice ops => ops
  | .repetition op _ _ _ | .ahead op | .notAhead op | .tag op _ | .collect op | .bounds op => [op]
  | .any | .literal _ | .pattern _ | .range _ _ | .action _ | .call _ _ | .direct _ _
  | .foreign _ _ _ => []

mutual

/-- The operator and everything below it, parents first. -/
def nodes : Operator → List Operator
  | .sequence ops => .sequence ops :: nodesAll ops
  | .choice ops => .choice ops :: nodesAll ops
  | .repetition op min max captures => .repetition op min max captures :: nodes op
  | .ahead op => .ahead op :: nodes op
  | .notAhead op => .notAhead op :: nodes op
  | .tag op name => .tag op name :: nodes op
  | .collect op => .collect op :: nodes op
  | .bounds op => .bounds op :: nodes op
  | op => [op]

/-- The nodes of a row of operators. -/
def nodesAll : List Operator → List Operator
  | [] => []
  | op :: ops => nodes op ++ nodesAll ops

end

/-- The action, if the operator is one. -/
def action? : Operator → Option Action
  | .action a => some a
  | _ => none

/-- The actions of an operator in the order of its nodes. -/
def actions (op : Operator) : List Action := op.nodes.filterMap action?

end Operator

/-- The bounds of a range, if both are single characters. -/
def singleChars (lo hi : String) : Option (Char × Char) :=
  match lo.toList, hi.toList with
  | [a], [b] => some (a, b)
  | _, _ => none

end MemoPeg
