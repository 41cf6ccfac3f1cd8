import MemoPeg.Grammar.Cycle
import MemoPeg.Grammar.Error

/-
  The checks that a list of rules has to pass, in the order in which they report.

  1. **Duplicates** — first every rule whose name was declared before.
  2. **Operators** — then, rule by rule and parents first, every operator that is wrong in itself or calls
     what is not there.  `nodeErrors` looks at one operator; what is below it has its own turn.
  3. **Idle loops** — then every repetition without a limit that could go on without reading anything.  This
     asks what is nullable, which takes all rules together (`nullableRules`).
  4. **Analysis (`check`)** — all errors, with the cycles of left recursion and the index of names.

  Errors are collected and not thrown, though a grammar is refused with the first of them: which one that is
  follows from the order above.  The later checks are made of rules that have failed the earlier ones too, so
  they must have an answer for them: of two rules with one name, the last is meant.
-/

namespace MemoPeg

variable [RegexLibrary]

/-- The rules whose names were declared before. -/
def duplicateErrors : List String → List Rule → List GrammarError
  | _, [] => []
  | seen, r :: rules =>
    (if seen.contains r.name then [.duplicateRule r.name] else []) ++
      duplicateErrors (r.name :: seen) rules

/-- What is wrong with the number of arguments in a call, if anything. -/
def countErrors (rule name : String) (params : List String) (args : List Arg) :
    List GrammarError :=
  if params.length = args.length then []
  else [.argumentCount rule name params.length args.length]

/-- What is wrong with one operator in the body of `rule`, what is below it aside. -/
def nodeErrors (rules : List Rule) (links : List (String × RuleSet)) (rule : String) :
    Operator → List GrammarError
  | .range lo hi => if (singleChars lo hi).isSome then [] else [.charRange rule lo hi]
  | .choice ops => if ops.isEmpty then [.emptyChoice rule] else []
  | .repetition _ min (some max) _ => if max < min then [.repeatBounds rule min max] else []
  | .call name args | .direct name args =>
    match findRule rules name with
    | some r => countErrors rule name r.params args
    | none => [.undefinedRule rule name]
  | .foreign grammar name args =>
    match findLink links grammar with
    | some callee =>
      match (callee.lookup name).bind callee.summary? with
      | some info => countErrors rule (grammar ++ "." ++ name) info.params args
      | none => [.undefinedForeignRule rule grammar name]
    | none => [.unknownGrammar rule grammar]
  | _ => []

/-- The errors of all operators of a rule. -/
def operatorErrors (rules : List Rule) (links : List (String × RuleSet)) (r : Rule) :
    List GrammarError :=
  r.body.nodes.flatMap (nodeErrors rules links r.name)

/-- The repetition has no limit and a body that need not read. -/
def isIdleLoop (rules : List Rule) (known : List String) : Operator → Bool
  | .repetition op _ none _ => op.isNullable rules known
  | _ => false

/-- The repetitions of a rule that could go on without reading anything. -/
def loopErrors (rules : List Rule) (known : List String) (r : Rule) : List GrammarError :=
  (r.body.nodes.filter (isIdleLoop rules known)).map fun _ => .nullableLoop r.name

/-- What is known of a list of rules. -/
structure Analysis where
  errors : List GrammarError
  /-- The rules that can call themselves before reading anything. -/
  cycles : List (List String)
  /-- Names and ids of the rules that names refer to, by name. -/
  index : List (String × RuleId)

/-- The names of rules with the ids of their last declarations. -/
def ruleIndex (rules : List Rule) : List (String × RuleId) :=
  let entries := rules.map Rule.entry
  (entries.filter fun n => (entries.all fun m => m.1 != n.1 || m.2 ≤ n.2)).mergeSort
    fun a b => a.1 ≤ b.1

/-- Checks a list of rules with their links. -/
def check (rules : List Rule) (links : List (String × RuleSet)) : Analysis :=
  let known := nullableRules rules
  { errors :=
      duplicateErrors [] rules ++ rules.flatMap (operatorErrors rules links) ++
        rules.flatMap (loopErrors rules known)
    cycles := cycles rules known
    index := ruleIndex rules }

end MemoPeg
