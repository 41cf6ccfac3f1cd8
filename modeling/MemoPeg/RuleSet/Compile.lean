import MemoPeg.RuleSet.Basic

/-
  Compiling a grammar to a program.

  1. **Resolution** — every name is looked up once: calls of rules to their ids, calls into linked
     grammars to the rule set and the id in it, bounds of ranges to characters.  What cannot be resolved
     becomes code that never matches, as it would when met in the grammar.  None of it occurs in a
     grammar that was built.
  2. **Predicates on actions** — an action below a predicate is not run for a match but for the truth
     of its value; the code for it is chosen here, by the shape of the tree.
  3. **Program (`Grammar.compile`)** — one routine for each rule, in the order of the rules, so that ids
     mean the same before and after; name, registry and root are taken over.

  A linked rule set becomes part of the code that calls it.  It is not compiled along: a grammar stays a
  grammar there, and a program a program.
-/

namespace MemoPeg

variable [RegexLibrary]

mutual

/-- The code of an operator of a grammar. -/
def Grammar.compileOp (g : Grammar) : Operator → Code
  | .any => .any
  | .literal s => .literal s
  | .pattern p => .scan p.matcher
  | .range lo hi =>
    match singleChars lo hi with
    | some (lo, hi) => .range lo hi
    | none => .fail
  | .sequence ops => .sequence (g.compileAll ops)
  | .choice ops => .choice (g.compileAll ops)
  | .repetition op min max captures => .repetition (g.compileOp op) min max captures
  | .ahead (.action a) => .test a true
  | .ahead op => .ahead (g.compileOp op)
  | .notAhead (.action a) => .test a false
  | .notAhead op => .notAhead (g.compileOp op)
  | .tag op name => .tag (g.compileOp op) name
  | .action a => .action a
  | .collect op => .collect (g.compileOp op)
  | .bounds op => .bounds (g.compileOp op)
  | .call name args =>
    match g.lookup name with
    | some rule => .apply rule args
    | none => .fail
  | .direct name args =>
    match g.lookup name with
    | some rule => .invoke rule args
    | none => .fail
  | .foreign grammar name args =>
    match g.link? grammar with
    | some callee =>
      match callee.lookup name with
      | some rule => .foreign grammar callee rule args
      | none => .fail
    | none => .fail

/-- The code of a row of operators. -/
def Grammar.compileAll (g : Grammar) : List Operator → List Code
  | [] => []
  | op :: ops => g.compileOp op :: g.compileAll ops

end

/-- The program of a grammar. -/
def Grammar.compile (g : Grammar) : Program :=
  { name := g.name
    registry := g.registry
    root := g.root
    routines := g.rules.map fun r => ⟨r.params, g.compileOp r.body⟩ }

/-- What is written to the log when a grammar has been compiled. -/
def Program.compileLog (p : Program) : List String :=
  ["DEBUG compiled grammar `" ++ p.name ++ "`: " ++ toString p.routines.length ++ " rules"]

end MemoPeg
