import MemoPeg.Grammar.Check

/-
  Building a grammar from its declaration.

  1. **Refusals** — a declaration that defines no rules is refused as such; one whose rules do not pass the
     checks with the first error found; one whose named root is not a rule last.
  2. **Root (`rootId`)** — without a named root the rule called `root` is the root, or else the first rule.
     So only a name that was asked for can be wrong.
  3. **Numbering** — the rules are numbered before they are checked, in the order of the declaration.  Their
     index is asked for the root only once the checks have passed, so a name that it is asked for
     belongs to at most one rule.

  What the checks have found out of left recursion is kept in the grammar, for the log and for its users;
  it is no reason to refuse anything.
-/

namespace MemoPeg

variable [RegexLibrary]

/-- A grammar as it is declared. -/
structure Declaration where
  name : String
  rules : List DeclaredRule
  /-- The name of the rule to start from, if one is given. -/
  root : Option String
  links : List (String × RuleSet)

namespace Declaration

/-- The rules of a declaration, numbered. -/
def numbered (d : Declaration) : List Rule := numberRules d.rules

/-- The id of the root, by the index of the rules. -/
def rootId (d : Declaration) (index : List (String × RuleId)) : Except GrammarError RuleId :=
  match d.root with
  | some name =>
    match index.lookup name with
    | some id => .ok id
    | none => .error (.undefinedRoot name)
  | none => .ok ((index.lookup "root").getD 0)

/-- The grammar, or the first reason to refuse it. -/
def build (d : Declaration) : Except GrammarError Grammar :=
  if d.rules.isEmpty then .error (.empty d.name)
  else
    let analysis := check d.numbered d.links
    match analysis.errors with
    | err :: _ => .error err
    | [] =>
      (d.rootId (d.numbered.map Rule.entry)).map fun root =>
        .ofRules d.name d.rules root d.links analysis.cycles

end Declaration

/-- What is written to the log when a grammar has been built. -/
def Grammar.buildLog (g : Grammar) : List String :=
  let grammar := "DEBUG grammar " ++ GrammarError.tick g.name ++ ": "
  let rootName := ((RuleSet.grammar g).nameOf? g.root).getD ""
  g.cycles.map (fun cycle => grammar ++ "left recursive rules " ++ " -> ".intercalate cycle) ++
    [grammar ++ toString g.rules.length ++ " rules, root " ++ GrammarError.tick rootName]

end MemoPeg
