import MemoPeg.Emit.Module
import MemoPeg.RuleSet.Compile

/-
  Parsers made by an emitted module.

  1. **Actions (`refill`)** — a module holds its grammar but for what the actions do: it calls them by
     number.  A parser is made of a module and a list of what its actions do, in the order of the numbers,
     which is that of the nodes.  `Operator.refill` puts such a list into a tree, `refillRules` into a
     list of rules; each part takes as many from the front as it has actions.
  2. **Parsers (`Grammar.instantiate`)** — takes exactly as many actions as the module calls, and links,
     which the module does not hold either.  What it makes runs like the program of the grammar with
     these actions and links.

  A module is text for another compiler, so what its parser does is said here of the grammar it was emitted for.
  That nothing else of the grammar enters than what the module holds is a theorem and not part of the
  definition: equal streams of tokens make equal parsers, whatever grammars they come from.
-/

namespace MemoPeg

/-- A parser module that was given a wrong number of actions. -/
structure ActionCountError where
  expected : Nat
  found : Nat
deriving DecidableEq, Repr

/-- The message of a wrong number of actions. -/
def ActionCountError.message (err : ActionCountError) : String :=
  "expected " ++ toString err.expected ++ " actions, got " ++ toString err.found

/-- What an action does. -/
abbrev ActionRun := Scope → Value × List String

variable [RegexLibrary]

namespace Operator

mutual

/-- The operator with its actions doing what is listed, in the order of its nodes. -/
def refill : Operator → List ActionRun → Operator
  | .sequence ops, runs => .sequence (refillAll ops runs)
  | .choice ops, runs => .choice (refillAll ops runs)
  | .repetition op min max captures, runs => .repetition (refill op runs) min max captures
  | .ahead op, runs => .ahead (refill op runs)
  | .notAhead op, runs => .notAhead (refill op runs)
  | .tag op name, runs => .tag (refill op runs) name
  | .action a, runs => .action { a with run := runs.headD fun _ => (.nil, []) }
  | .collect op, runs => .collect (refill op runs)
  | .bounds op, runs => .bounds (refill op runs)
  | op, _ => op

/-- A row of operators with their actions doing what is listed, each operator taking as many as it has. -/
def refillAll : List Operator → List ActionRun → List Operator
  | [], _ => []
  | op :: ops, runs => refill op runs :: refillAll ops (runs.drop op.actions.length)

end

end Operator

/-- Rules with their actions doing what is listed, each rule taking as many as it has. -/
def refillRules : List DeclaredRule → List ActionRun → List DeclaredRule
  | [], _ => []
  | r :: rules, runs =>
    { r with body := r.body.refill runs } :: refillRules rules (runs.drop r.body.actions.length)

/-- The grammar with other links and with its actions doing what is listed. -/
def Grammar.refill (g : Grammar) (runs : List ActionRun) (links : List (String × RuleSet)) : Grammar :=
  .ofRules g.name (refillRules g.declared runs) g.root links g.cycles

/-- The parser that the module of the grammar makes of what its actions do and of links. -/
def Grammar.instantiate (g : Grammar) (runs : List ActionRun) (links : List (String × RuleSet)) :
    Except ActionCountError Program :=
  if g.actions.length = runs.length then .ok (g.refill runs links).compile
  else .error ⟨g.actions.length, runs.length⟩

end MemoPeg
