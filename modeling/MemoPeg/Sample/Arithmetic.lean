import MemoPeg.Grammar.Build
import MemoPeg.Regex.Reader
import MemoPeg.Value.Integer

/-
  A sample grammar: left recursive arithmetic on whole numbers.

  `expr` and `term` call themselves first, so that a row of operators of one strength associates to the
  left, and the value of a match is the value of the expression.  Their first alternatives fail as long as
  there is no match to start from; then the last one gives the seed, and each round of growth adds one
  operator.
-/

namespace MemoPeg.Sample

/-- The integer that the captured text spells; zero if it spells none that fits. -/
def capturedInteger : Action :=
  .pure fun s => .int (((s.value "text").str?.bind Integer.read).getD 0)

/-- An operation on the values bound to `l` and `r`. -/
def onOperands (op : Int → Int → Int) : Action :=
  .pure fun s =>
    match s.value "l", s.value "r" with
    | .int l, .int r => .ofInt? (Integer.fit (op l.toInt r.toInt))
    | _, _ => .nil

/-- A call without arguments. -/
def ref (rule : String) : Operator := .call rule []

/-- An operand, a sign, another operand, and their value. -/
def infixed (left sign right : String) (op : Int → Int → Int) : Operator :=
  .sequence [.tag (ref left) "l", ref "ws", .literal sign, ref "ws", .tag (ref right) "r",
    .action (onOperands op)]

/-- Sums, differences and products of whole numbers, with parentheses. -/
def arithmetic : Except GrammarError Grammar := do
  let number ← Operator.ofPattern "[0-9]+"
  let blank ← Operator.ofPattern "[ \\t]*"
  Declaration.build
    { name := "calc"
      rules := [
        ⟨"expr", [],
          .choice [infixed "expr" "+" "term" (· + ·), infixed "expr" "-" "term" (· - ·),
            ref "term"]⟩,
        ⟨"term", [], .choice [infixed "term" "*" "atom" (· * ·), ref "atom"]⟩,
        ⟨"atom", [],
          .choice [
            .sequence [.collect number, .action capturedInteger],
            .sequence [.literal "(", ref "ws", .tag (ref "expr") "e", ref "ws", .literal ")",
              .action (.pure fun s => s.value "e")]]⟩,
        ⟨"ws", [], blank⟩]
      root := none
      links := [] }

end MemoPeg.Sample
