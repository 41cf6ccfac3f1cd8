import MemoPeg.Emit.Token
import MemoPeg.RuleSet.Basic

/-
  The source of rule bodies.

  1. **Numbering (`Numbering`)** — emitted code refers to actions and patterns by number.  Emission counts the
     actions and collects the patterns as it meets them, parents first and parts in order.
  2. **Shape** — every operator becomes one expression that answers with an outcome.  Inside it the
     names `__engine`, `__scope`, `__parser` and `__args` are in scope; names that an expression
     introduces are not seen outside of it.
  3. **Phrases** — what the expressions have in common is written once: remembering the cursor and the
     bindings, going back to them, and the arm of a match that passes a failure on.
  4. **Resolution** — rules of the grammar are called by their ids.  Rules of linked grammars are looked up by
     name when the call is run, since links are given to a parser after it was emitted.

  The numbering is handed on from operator to operator in the order of the nodes.  It is a state and not
  computed from the tree beforehand, and so the number of an action depends on all that was emitted before
  it.
-/

namespace MemoPeg.Emit

open Token

/-! ## Phrases -/

/-- A path into the library that emitted code runs on. -/
def runtime (names : List String) : List Token :=
  ("packrat_runtime" :: names).flatMap fun name => [.raw "::", .raw name]

/-- The outcome of a failure. -/
def failedOutcome : List Token := runtime ["RuleResult", "Failed"]

/-- The outcome of a match. -/
def matchedOutcome (stop value : List Token) : List Token :=
  runtime ["RuleResult", "Matched"] ++ code [parens (stop ++ code [","] ++ value)]

/-- A value of a kind, made from what it holds. -/
def valueOf (kind : String) (content : List Token) : List Token :=
  runtime ["Value", kind] ++ code [parens content]

/-- The value that is nothing. -/
def nilValue : List Token := runtime ["Value", "Nil"]

/-- The position of the cursor. -/
def cursor : List Token := ["__engine", ".", "pos", parens []]

/-- Remembers the cursor. -/
def letStart : List Token := code ["let", "__start", "="] ++ cursor ++ code [";"]

/-- Remembers how many bindings there are. -/
def letMark : List Token := ["let", "__mark", "=", "__scope", ".", "mark", parens [], ";"]

/-- Puts the bindings back. -/
def rollback : List Token := ["__scope", ".", "rollback", parens ["__mark"], ";"]

/-- Puts the cursor back. -/
def resetCursor : List Token := ["__engine", ".", "set_pos", parens ["__start"], ";"]

/-- The arm of a match on an outcome that passes a failure on. -/
def failedArm : List Token := failedOutcome ++ code ["=>"] ++ failedOutcome ++ code [","]

/-- A terminal: a call that answers with what was read, if anything. -/
def terminal (call : List Token) (var : String) (value : List Token) : List Token :=
  code ["match"] ++ call ++
    code [braces
      (code ["Some", parens [.raw var], "=>"] ++ matchedOutcome cursor value ++
        code [",", "None", "=>"] ++ failedOutcome ++ code [","])]

/-- Any one character. -/
def readAny : List Token :=
  terminal ["__engine", ".", "get_char", parens []] "__c" (valueOf "Char" ["__c"])

/-- A literal. -/
def readLiteral (s : String) : List Token :=
  terminal ["__engine", ".", "match_string", parens [.text s]] "__m"
    (runtime ["Value", "from"] ++ code [parens ["__m"]])

/-- What the pattern of a number matches. -/
def readPattern (index : Nat) : List Token :=
  terminal
    ["__engine", ".", "scan", parens ["&", "__parser", ".", "patterns", brackets [.count index]]] "__m"
    (runtime ["Value", "from"] ++ code [parens ["__m"]])

/-- One character between two bounds. -/
def readRange (lo hi : Char) : List Token :=
  terminal ["__engine", ".", "char_range", parens [.char lo, ",", .char hi]] "__c"
    (valueOf "Char" ["__c"])

/-- An item of a string in the emitted source. -/
def ownedString (s : String) : List Token :=
  ["::", "std", "::", "string", "::", "String", "::", "from", parens [.text s]]

/-! ## Values and arguments -/

mutual

/-- The source of a value. -/
def value : Value → List Token
  | .nil => nilValue
  | .bool b => valueOf "Bool" [.raw (if b then "true" else "false")]
  | .int n => valueOf "Int" [.integer n]
  | .char c => valueOf "Char" [.char c]
  | .str s => valueOf "Str" (ownedString s)
  | .span start stop => valueOf "Span" [.count start, ",", .count stop]
  | .list items => valueOf "List" ["vec", "!", brackets (commaSeparated (values items))]
  | .node name children =>
    valueOf "Node"
      (ownedString name ++ code [",", "vec", "!", brackets (commaSeparated (values children))])

/-- The sources of a row of values. -/
def values : List Value → List (List Token)
  | [] => []
  | v :: vs => value v :: values vs

end

/-- The source of an argument. -/
def arg : Arg → List Token
  | .value v => value v
  | .binding name => ["__scope", ".", "value", parens [.text name]]

/-- The source of a row of arguments. -/
def args (as : List Arg) : List Token := [brackets (commaSeparated (as.map arg))]

/-! ## Operators -/

/-- What emission has numbered so far. -/
structure Numbering where
  actions : Nat := 0
  /-- The expressions of the patterns, by number. -/
  patterns : List String := []

/-- Emission with numbering. -/
abbrev Numbered := StateM Numbering

/-- The call of the action of a number. -/
def actionCall (index : Nat) : List Token :=
  [parens ["__parser", ".", "actions", brackets [.count index]], parens ["&", "*", "__scope"]]

/-- The number of the next action. -/
def actionIndex : Numbered Nat := do
  let n ← get
  set { n with actions := n.actions + 1 }
  return n.actions

variable [RegexLibrary]

/-- The number of the next pattern. -/
def patternIndex (p : Pattern) : Numbered Nat := do
  let n ← get
  set { n with patterns := n.patterns ++ [anchored p.source] }
  return n.patterns.length

/-- One part of a sequence, and what follows when it has matched. -/
def sequenceStep (step continuation : List Token) : List Token :=
  code ["match"] ++ step ++
    code [braces
      (runtime ["RuleResult", "Matched"] ++
        code [parens ["_", ",", "__value"], "=>", braces continuation] ++
        failedOutcome ++ code ["=>", braces (rollback ++ resetCursor ++ failedOutcome)])]

/-- A sequence of parts. -/
def sequence (steps : List (List Token)) : List Token :=
  [braces
    (letStart ++ letMark ++ code ["let", "__value", "="] ++ nilValue ++ code [";"] ++
      steps.foldr sequenceStep (matchedOutcome cursor ["__value"]))]

/-- One alternative of a choice, and what follows when it has failed. -/
def alternative (step fallback : List Token) : List Token :=
  [braces
    (code ["match"] ++ step ++
      code [braces
        (runtime ["RuleResult", "Matched"] ++
          code [parens ["__end", ",", "__value"], "=>",
            braces (matchedOutcome ["__end"] ["__value"])] ++
          failedOutcome ++ code ["=>"] ++ fallback ++ code [","])])]

/-- A choice of alternatives. -/
def choice (steps : List (List Token)) : List Token := steps.foldr alternative failedOutcome

/-- A repetition. -/
def repetition (body : List Token) (min : Nat) (max : Option Nat) (captures : Bool) :
    List Token :=
  let maxCheck : List Token :=
    match max with
    | some max => ["if", "__count", ">=", .count max, braces ["break", ";"]]
    | none => []
  let idleCheck : List Token :=
    match max with
    | some _ => []
    | none => ["if", "__end", "==", "__before", braces ["break", ";"]]
  let keep : List Token :=
    if captures then ["__items", ".", "push", parens ["__value"], ";"]
    else ["__last", "=", "__value", ";"]
  let result : List Token := if captures then valueOf "List" ["__items"] else ["__last"]
  [braces
    (letStart ++ letMark ++
      code ["let", "mut", "__count", ":", "usize", "=", "0", ";",
        "let", "mut", "__items", ":", "Vec", "<"] ++ runtime ["Value"] ++
      code [">", "=", "Vec", "::", "new", parens [], ";", "let", "mut", "__last", "="] ++ nilValue ++
      code [";", "loop",
        braces
          (maxCheck ++ code ["let", "__before", "="] ++ cursor ++ code [";", "match"] ++ body ++
            code [braces
              (runtime ["RuleResult", "Matched"] ++
                code [parens ["__end", ",", "__value"], "=>",
                  braces (code ["__count", "+=", "1", ";"] ++ keep ++ idleCheck)] ++
                failedOutcome ++ code ["=>", "break", ","])]),
        "if", "__count", "<", .count min,
        braces (rollback ++ resetCursor ++ failedOutcome),
        "else", braces (matchedOutcome cursor result)])]

/-- A predicate on an operator, by the arms for its outcome. -/
def predicate (body arms : List Token) : List Token :=
  [braces
    (letStart ++ letMark ++ code ["let", "__assert_res", "="] ++ body ++ code [";"] ++ rollback ++
      resetCursor ++ code ["match", "__assert_res", braces arms])]

/-- The arms of a predicate that matches where its operator does. -/
def aheadArms : List Token :=
  runtime ["RuleResult", "Matched"] ++ code [parens ["_", ",", "__value"], "=>"] ++
    matchedOutcome ["__start"] ["__value"] ++ code [","] ++ failedArm

/-- The arms of a predicate that matches where its operator does not. -/
def notAheadArms : List Token :=
  runtime ["RuleResult", "Matched"] ++ code [parens [".."], "=>"] ++ failedOutcome ++ code [","] ++
    failedOutcome ++ code ["=>"] ++ matchedOutcome ["__start"] nilValue ++ code [","]

/-- A test that the value of a call holds. -/
def holds (call : List Token) : List Token :=
  [braces
    (code ["let", "__value", "="] ++ call ++
      code [";", "if", "__value", ".", "is_truthy", parens [],
        braces (matchedOutcome cursor ["__value"]), "else", braces failedOutcome])]

/-- A test that the value of a call does not hold. -/
def holdsNot (call : List Token) : List Token :=
  [braces
    ["if", parens call, ".", "is_truthy", parens [], braces failedOutcome,
      "else", braces (matchedOutcome cursor nilValue)]]

/-- An operator whose value is bound to a name. -/
def tagged (body : List Token) (name : String) : List Token :=
  code ["match"] ++ body ++
    code [braces
      (runtime ["RuleResult", "Matched"] ++
        code [parens ["__end", ",", "__value"], "=>",
          braces
            (code ["__scope", ".", "bind",
                parens [.text name, ",", "__value", ".", "clone", parens []], ";"] ++
              matchedOutcome ["__end"] ["__value"])] ++
        failedArm)]

/-- An operator whose match is given a value that is bound to a name. -/
def binding (body value : List Token) (name : String) : List Token :=
  code ["match"] ++ body ++
    code [braces
      (runtime ["RuleResult", "Matched"] ++
        code [parens ["__end", ",", "_"], "=>",
          braces
            (code ["let", "__value", "="] ++ value ++
              code [";", "__scope", ".", "bind",
                parens [.text name, ",", "__value", ".", "clone", parens []], ";"] ++
              matchedOutcome ["__end"] ["__value"])] ++
        failedArm)]

/-- An operator that answers with the text it has read. -/
def collected (body : List Token) : List Token :=
  [braces
    (letStart ++
      binding body
        (runtime ["Value", "from"] ++
          code [parens ["__engine", ".", "slice", parens ["__start", ",", "__end"]]])
        "text")]

/-- An operator that answers with the offsets of the text it has read. -/
def bounded (body : List Token) : List Token :=
  [braces (letStart ++ binding body (valueOf "Span" ["__start", ",", "__end"]) "bounds")]

/-- A call of a rule of the same grammar. -/
def ruleCall (method : String) (rule : RuleId) (as : List Arg) : List Token :=
  ["__engine", ".", .raw method,
    parens
      (code ["__parser", ","] ++ runtime ["RuleId"] ++ code [parens [.count rule], ",", "&"] ++ args as)]

/-- A call of a rule of a linked grammar. -/
def foreignCall (grammar rule : String) (as : List Arg) : List Token :=
  ["match", "__parser", ".", "foreign", ".", "get", parens [.text grammar],
    braces
      (code ["Some", parens ["__callee"], "=>", "match", "__callee", ".", "lookup",
          parens [.text rule],
          braces
            (code ["Some", parens ["__id"], "=>", "__engine", ".", "invoke_foreign",
                parens
                  (code [.text grammar, ",", "__callee", ".", "as_ref", parens [], ",", "__id", ",",
                    "&"] ++ args as),
                ",", "None", "=>"] ++ failedOutcome ++ code [","]),
          ",", "None", "=>"] ++ failedOutcome ++ code [","])]

mutual

/-- The source of an operator of a grammar. -/
def body (g : Grammar) : Operator → Numbered (List Token)
  | .any => return readAny
  | .literal s => return readLiteral s
  | .pattern p => do return readPattern (← patternIndex p)
  | .range lo hi =>
    match singleChars lo hi with
    | some (lo, hi) => return readRange lo hi
    | none => return failedOutcome
  | .sequence ops => do return sequence (← bodies g ops)
  | .choice ops => do return choice (← bodies g ops)
  | .repetition op min max captures => do return repetition (← body g op) min max captures
  | .ahead (.action _) => do return holds (actionCall (← actionIndex))
  | .ahead op => do return predicate (← body g op) aheadArms
  | .notAhead (.action _) => do return holdsNot (actionCall (← actionIndex))
  | .notAhead op => do return predicate (← body g op) notAheadArms
  | .tag op name => do return tagged (← body g op) name
  | .action _ => do return matchedOutcome cursor (actionCall (← actionIndex))
  | .collect op => do return collected (← body g op)
  | .bounds op => do return bounded (← body g op)
  | .call name as =>
    match g.lookup name with
    | some rule => return ruleCall "apply" rule as
    | none => return failedOutcome
  | .direct name as =>
    match g.lookup name with
    | some rule => return ruleCall "invoke" rule as
    | none => return failedOutcome
  | .foreign grammar rule as => return foreignCall grammar rule as

/-- The sources of a row of operators. -/
def bodies (g : Grammar) : List Operator → Numbered (List (List Token))
  | [] => return []
  | op :: ops => do
    let first ← body g op
    return first :: (← bodies g ops)

end

end MemoPeg.Emit
