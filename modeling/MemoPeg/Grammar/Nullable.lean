import MemoPeg.RuleSet.Basic

/-
  Which operators can match without reading anything.

  1. **Names (`findRule`)** — a name refers to the last rule that was declared with it.
  2. **Judgement (`isNullable`)** — for a list of rules known to be nullable.  It errs on the side of
     reading: a call into another grammar, and a pattern that refuses the empty text, count as reading.
     A literal counts as reading too, the empty one included.  A call counts as nullable only if its
     rule is declared and known; once the known names are names of rules, the first of these says
     nothing more than the second.
  3. **Closure (`nullableRules`)** — starts from no rule and adds the rules whose bodies are nullable
     until a round adds none.  Within a round, a rule sees what the rules before it have added, so fewer
     rounds are needed when callees are declared first; what is reached in the end is the same.

  A name is known or it is not, whatever the arguments of a call are.  A round that adds none is the last,
  so there are at most as many rounds that add some as there are rules.
-/

namespace MemoPeg

variable [RegexLibrary]

/-- The declaration that a name refers to: the last one of the name. -/
def findRule (rules : List Rule) (name : String) : Option Rule :=
  rules.reverse.find? fun r => r.name == name

mutual

/-- The operator can match without reading anything, given the rules and those of
    them that can. -/
def Operator.isNullable (rules : List Rule) (known : List String) : Operator → Bool
  | .any | .literal _ | .range _ _ | .foreign _ _ _ => false
  | .pattern p => p.matcher.isMatch []
  | .sequence ops => allNullable rules known ops
  | .choice ops => anyNullable rules known ops
  | .repetition op min _ _ => min == 0 || op.isNullable rules known
  | .ahead _ | .notAhead _ | .action _ => true
  | .tag op _ | .collect op | .bounds op => op.isNullable rules known
  | .call name _ | .direct name _ => (findRule rules name).isSome && known.contains name

/-- All operators of a row are nullable. -/
def Operator.allNullable (rules : List Rule) (known : List String) : List Operator → Bool
  | [] => true
  | op :: ops => op.isNullable rules known && allNullable rules known ops

/-- Some operator of a row is nullable. -/
def Operator.anyNullable (rules : List Rule) (known : List String) : List Operator → Bool
  | [] => false
  | op :: ops => op.isNullable rules known || anyNullable rules known ops

end

/-- Adds a rule to the nullable ones if its body is nullable. -/
def addNullable (rules : List Rule) (known : List String) (r : Rule) : List String :=
  if !known.contains r.name && r.body.isNullable rules known then r.name :: known else known

/-- One look at every rule. -/
def nullableRound (rules : List Rule) (known : List String) : List String :=
  rules.foldl (addNullable rules) known

/-- Looks at the rules until nothing is added, at most `fuel` times. -/
def nullableFrom (rules : List Rule) : Nat → List String → List String
  | 0, known => known
  | fuel + 1, known =>
    let next := nullableRound rules known
    if next.length = known.length then known else nullableFrom rules fuel next

/-- The rules that can match without reading anything.  Every round but the last adds a rule, so
    there are at most as many such rounds as rules. -/
def nullableRules (rules : List Rule) : List String := nullableFrom rules rules.length []

end MemoPeg
