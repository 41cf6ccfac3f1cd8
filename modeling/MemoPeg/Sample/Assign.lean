import MemoPeg.Sample.Arithmetic

/-
  Two sample grammars, one linked to the other: integers, and assignments of integers to names.

  The integers are read by a nested engine, which knows nothing of the names around them.  Their value
  comes back as the value of the call, and is bound like that of any other operator.
-/

namespace MemoPeg.Sample

/-- Integers with an optional minus sign. -/
def numbers : Except GrammarError Grammar :=
  Declaration.build
    { name := "numbers"
      rules := [
        ⟨"int", [],
          .sequence [
            .collect (.sequence [.optional (.literal "-"), .plus (.range "0" "9")]),
            .action capturedInteger]⟩]
      root := none
      links := [] }

/-- The links of `assign`: the integers, as `num`. -/
def assignLinks : Except GrammarError (List (String × RuleSet)) := do
  return [("num", .grammar (← numbers))]

/-- Assignments `name=int`, with the integer read by a linked grammar. -/
def assign : Except GrammarError Grammar := do
  let name ← Operator.ofPattern "[a-z]+"
  Declaration.build
    { name := "assign"
      rules := [
        ⟨"assign", [],
          .sequence [
            .tag (.collect name) "name",
            .literal "=",
            .tag (.foreign "num" "int" []) "value",
            .action (.pure fun s => .node "assign" [s.value "name", s.value "value"])]⟩]
      root := none
      links := ← assignLinks }

end MemoPeg.Sample
