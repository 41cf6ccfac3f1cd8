import MemoPeg.Emit.Body
import MemoPeg.Emit.FunctionName

/-
  The source of a whole parser module.

  1. **Tables** — names and rendered bodies of the rules, their parameters, the patterns and the number of
     actions.
  2. **Parser** — made from as many actions as the grammar has; it compiles the patterns, keeps the registry
     that the tables tell, and takes links one by one.
  3. **Rule set** — name, registry and root as they are in the grammar, and a match that leads from the id of a
     rule to its function.
  4. **Functions** — one for each rule, which binds the parameters and goes on with the source of the body.

  The tables come first, but what is in the last two of them is known only when all bodies have been
  emitted.  So the functions are made first and the tables of their numbering, and are then put in front.
-/

namespace MemoPeg.Emit

open Token

/-! ## Phrases -/

/-- An attribute that silences checks of the emitted code. -/
def allow (checks : List Token) : List Token := ["#", brackets ["allow", parens checks]]

/-- A comment on the item that follows. -/
def comment (text : String) : List Token :=
  ["#", brackets ["doc", "=", .raw ("r\" " ++ text ++ "\"")]]

/-- The type of an outcome. -/
def outcomeType : List Token := runtime ["RuleResult"] ++ code ["<"] ++ runtime ["Value"] ++ code [">"]

/-- The parameter of an engine. -/
def engineParam : List Token :=
  code ["__engine", ":", "&", "mut"] ++ runtime ["Engine"] ++ code ["<", "'_", ">", ","]

/-- The parameter of the arguments of a call. -/
def argsParam : List Token := ["__args", ":", "&", brackets (runtime ["Value"]), ","]

/-- The type of a list of actions. -/
def actionsType : List Token := code ["Vec", "<", "Arc", "<"] ++ runtime ["ActionFn"] ++ code [">>"]

/-- The type of a table of strings. -/
def stringsType : Token := brackets ["&", "str"]

/-! ## Items -/

/-- What the module uses of other libraries. -/
def imports : List Token :=
  allow ["unused_imports"] ++ code ["use"] ++ runtime ["RuleSet"] ++ code ["as", "_", ";"] ++
    allow ["unused_imports"] ++ code ["use", "::", "std", "::", "collections", "::", "HashMap", ";"] ++
    allow ["unused_imports"] ++ code ["use", "::", "std", "::", "sync", "::", "Arc", ";"]

variable [RegexLibrary]

/-- The tables of a grammar, with the numbering of its bodies. -/
def tables (g : Grammar) (n : Numbering) : List Token :=
  comment "Declared name and rendered body of every rule, by rule index." ++
    code ["pub", "const", "RULES", ":", "&", brackets [parens ["&", "str", ",", "&", "str"]], "=", "&",
      brackets
        (commaSeparated
          (g.rules.map fun r => [parens [.text r.name, ",", .text r.rendered]])), ";"] ++
    allow ["dead_code"] ++
    code ["const", "PARAMS", ":", "&", brackets ["&", stringsType], "=", "&",
      brackets
        (commaSeparated
          (g.rules.map fun r =>
            ["&", brackets (commaSeparated (r.params.map fun p => [.text p]))])), ";"] ++
    allow ["dead_code"] ++
    code ["const", "PATTERNS", ":", "&", stringsType, "=", "&",
      brackets (commaSeparated (n.patterns.map fun p => [.text p])), ";"] ++
    allow ["dead_code"] ++ code ["const", "ACTION_COUNT", ":", "usize", "=", .count n.actions, ";"]

/-- The type of parsers. -/
def parserType : List Token :=
  ["pub", "struct", "Parser",
    braces
      (code ["actions", ":"] ++ actionsType ++ code [",", "patterns", ":", "Vec", "<"] ++
        runtime ["regex", "Regex"] ++
        code [">", ",", "foreign", ":", "HashMap", "<", "String", ",", "Arc", "<", "dyn"] ++
        runtime ["RuleSet"] ++ code [">>", ",", "registry", ":", "Vec", "<"] ++ runtime ["RuleInfo"] ++
        code [">", ","])]

/-- The statement that refuses a wrong number of actions. -/
def countCheck : List Token :=
  ["if", "actions", ".", "len", parens [], "!=", "ACTION_COUNT",
    braces
      ["return", "Err",
        parens
          ["format", "!",
            parens
              [.text "expected \x7b\x7d actions, got \x7b\x7d", ",", "ACTION_COUNT", ",",
                "actions", ".", "len", parens []],
            ".", "into", parens []], ";"]]

/-- The statements that read the patterns. -/
def readPatterns : List Token :=
  ["let", "mut", "patterns", "=", "Vec", "::", "with_capacity",
    parens ["PATTERNS", ".", "len", parens []], ";",
    "for", "pattern", "in", "PATTERNS",
    braces
      ["patterns", ".", "push",
        parens (runtime ["regex", "Regex", "new"] ++ code [parens ["pattern"], "?"]), ";"]]

/-- The statement that makes the registry from the tables. -/
def makeRegistry : List Token :=
  ["let", "registry", "=", "RULES", ".", "iter", parens [], ".", "zip", parens ["PARAMS"],
    ".", "map",
    parens
      (code ["|", parens ["&", parens ["name", ",", "rendered"], ",", "params"], "|"] ++
        runtime ["RuleInfo"] ++
        code [braces
          ["name", ":", "name", ".", "to_owned", parens [], ",",
            "rendered", ":", "rendered", ".", "to_owned", parens [], ",",
            "params", ":", "params", ".", "iter", parens [], ".", "map",
            parens ["|", "p", "|", parens ["*", "p"], ".", "to_owned", parens []],
            ".", "collect", parens [], ","]]),
    ".", "collect", parens [], ";"]

/-- The parser that the constructor answers with. -/
def madeParser : List Token :=
  ["Ok",
    parens
      ["Parser",
        braces
          ["actions", ",", "patterns", ",", "foreign", ":", "HashMap", "::", "new", parens [], ",",
            "registry", ","]]]

/-- How a parser is made: from as many actions as the grammar has. -/
def constructor : List Token :=
  comment "`actions` are the grammar's semantic actions in tree order." ++
    code ["pub", "fn", "new", parens (code ["actions", ":"] ++ actionsType ++ code [","]),
      "->", "Result", "<", "Parser", ",", "Box", "<", "dyn",
      "::", "std", "::", "error", "::", "Error", "+", "Send", "+", "Sync", ">>",
      braces (countCheck ++ readPatterns ++ makeRegistry ++ madeParser)]

/-- How another grammar is linked to a parser. -/
def linking : List Token :=
  comment "Make the rules of `grammar` callable as `%name.rule`." ++
    code ["pub", "fn", "link",
      parens
        (code ["mut", "self", ",", "name", ":", "&", "str", ",", "grammar", ":", "Arc", "<", "dyn"] ++
          runtime ["RuleSet"] ++ code [">"]),
      "->", "Parser",
      braces
        ["self", ".", "foreign", ".", "insert",
          parens ["name", ".", "to_owned", parens [], ",", "grammar"], ";", "self"]]

/-- The arm that runs a rule by its id. -/
def dispatchArm (r : Rule) : List Token :=
  [.count r.index, "=>", .raw (functionName r.name),
    parens ["self", ",", "__engine", ",", "__args"], ","]

/-- The parser of a grammar as a rule set. -/
def ruleSetItem (g : Grammar) : List Token :=
  code ["impl"] ++ runtime ["RuleSet"] ++
    code ["for", "Parser",
      braces
        (code ["fn", "name", parens ["&", "self"], "->", "&", "str", braces [.text g.name],
          "fn", "rules", parens ["&", "self"], "->", "&", brackets (runtime ["RuleInfo"]),
          braces ["&", "self", ".", "registry"],
          "fn", "root", parens ["&", "self"], "->", "Option", "<"] ++ runtime ["RuleId"] ++
          code [">", braces ["Some", parens (runtime ["RuleId"] ++ code [parens [.count g.root]])],
          "fn", "invoke_body",
          parens
            (code ["&", "self", ","] ++ engineParam ++ code ["__rule", ":"] ++ runtime ["RuleId"] ++
              code [","] ++ argsParam),
          "->"] ++ outcomeType ++
          code [braces
            ["match", "__rule", ".", "index", parens [],
              braces
                (g.rules.flatMap dispatchArm ++
                  code ["_", "=>"] ++ failedOutcome ++ code [","])]])]

/-- The statement that binds a parameter. -/
def bindParam (param : String) (index : Nat) : List Token :=
  ["__scope", ".", "bind",
    parens
      [.text param, ",", "__args", ".", "get", parens [.count index], ".", "cloned", parens [],
        ".", "unwrap_or_default", parens []], ";"]

/-- The function of a rule with the source of its body. -/
def functionOf (r : Rule) (inner : List Token) : List Token :=
  allow ["non_snake_case", ",", "unused", ",", "clippy", "::", "all"] ++
    code ["fn", .raw (functionName r.name),
      parens (code ["__parser", ":", "&", "Parser", ","] ++ engineParam ++ argsParam), "->"] ++
    outcomeType ++
    code [braces
      (code ["let", "mut", "__scope_frame", "="] ++ runtime ["Scope", "new"] ++
        code [parens [], ";", "let", "__scope", "=", "&", "mut", "__scope_frame", ";"] ++
        (r.params.zipIdx.flatMap fun p => bindParam p.1 p.2) ++ inner)]

/-- The functions of a row of rules. -/
def ruleFunctions (g : Grammar) : List Rule → Numbered (List Token)
  | [] => return []
  | r :: rules => do
    let first := functionOf r (← body g r.body)
    return first ++ (← ruleFunctions g rules)

/-- What stands in the module before the functions of the rules. -/
def preamble (g : Grammar) (n : Numbering) : List Token :=
  imports ++ tables g n ++ parserType ++
    code ["impl", "Parser", braces (constructor ++ linking)] ++ ruleSetItem g

/-- The module of a grammar, with the numbering of its bodies. -/
def moduleOf (g : Grammar) : List Token × Numbering :=
  let (functions, n) := (ruleFunctions g g.rules).run {}
  (preamble g n ++ functions, n)

end MemoPeg.Emit

namespace MemoPeg

variable [RegexLibrary]

/-- The tokens of the parser module of a grammar. -/
def Grammar.emit (g : Grammar) : List Token := (Emit.moduleOf g).1

/-- The source text of the parser module of a grammar. -/
def Grammar.source (g : Grammar) : String := Token.printAll g.emit

/-- The actions that a parser module is made from: rules as declared, operators parents first. -/
def Grammar.actions (g : Grammar) : List Action := g.rules.flatMap fun r => r.body.actions

/-- What is written to the log when the parser module of a grammar has been emitted. -/
def Grammar.emitLog (g : Grammar) : List String :=
  let n := (Emit.moduleOf g).2
  ["DEBUG translated grammar `" ++ g.name ++ "`: " ++ toString g.rules.length ++ " rules, " ++
    toString n.actions ++ " actions, " ++ toString n.patterns.length ++ " patterns"]

end MemoPeg
