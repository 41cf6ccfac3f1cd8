import MemoPeg.Grammar.Nullable

/-
  Left recursion: rules that can call themselves before reading anything.

  1. **Left calls (`leftCalls`)** — the calls of an operator that can run before it reads: into every part
     of a choice, and into a sequence up to the first part that must read.  Calls within predicates count,
     since they run at the same place; calls into linked grammars do not, since those have a memo table
     of their own.
  2. **Cycles (`cyclesFrom`)** — paths of left calls that lead from a rule back to it, through rules that
     are all different.  A path that closes on a rule in its middle is a cycle of that rule, and is left
     to the search from there.
  3. **Length** — the rules of a path are different, so no path is longer than there are rules, and the
     search has fuel enough with their number.

  A cycle is reported from each rule on it, and once for each way to go around it: where a rule has two
  left calls of the next one, the same names are reported twice.
-/

namespace MemoPeg

variable [RegexLibrary]

mutual

/-- The names of the rules that an operator can call before it reads anything. -/
def Operator.leftCalls (rules : List Rule) (known : List String) : Operator → List String
  | .call name _ | .direct name _ => [name]
  | .sequence ops => leftCallsOfSequence rules known ops
  | .choice ops => leftCallsOfChoice rules known ops
  | .repetition op _ _ _ | .ahead op | .notAhead op | .tag op _ | .collect op | .bounds op =>
    op.leftCalls rules known
  | .any | .literal _ | .pattern _ | .range _ _ | .action _ | .foreign _ _ _ => []

/-- The left calls of a sequence: of its parts up to the first that must read. -/
def Operator.leftCallsOfSequence (rules : List Rule) (known : List String) : List Operator → List String
  | [] => []
  | op :: ops =>
    op.leftCalls rules known ++ if op.isNullable rules known then leftCallsOfSequence rules known ops else []

/-- The left calls of all alternatives. -/
def Operator.leftCallsOfChoice (rules : List Rule) (known : List String) : List Operator → List String
  | [] => []
  | op :: ops => op.leftCalls rules known ++ leftCallsOfChoice rules known ops

end

/-- The cycles that go on from a path of calls, whose last rule has the given body. -/
def cyclesFrom (rules : List Rule) (known : List String) :
    Nat → List String → Operator → List (List String)
  | 0, _, _ => []
  | fuel + 1, path, body =>
    (body.leftCalls rules known).flatMap fun name =>
      if path.contains name then
        if path.head? = some name then [path ++ [name]] else []
      else
        match findRule rules name with
        | some r => cyclesFrom rules known fuel (path ++ [name]) r.body
        | none => []

/-- All cycles, by the rule they start from.  The rules of a path are different, so no path is
    longer than there are rules. -/
def cycles (rules : List Rule) (known : List String) : List (List String) :=
  rules.flatMap fun r => cyclesFrom rules known rules.length [r.name] r.body

end MemoPeg
