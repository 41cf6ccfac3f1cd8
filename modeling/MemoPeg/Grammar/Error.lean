import MemoPeg.Operator.Basic

/-
  Why a grammar is refused, and the wording of each reason.

  1. **Reasons (`GrammarError`)** — a reason holds what a reader needs to find the place: the rule in which
     it was met, and the name, the bounds or the numbers that are wrong there.  Three of them name no
     rule, since none is to blame: the grammar has no rules at all, its root is not one of them, or an
     expression cannot be compiled.  The last is found before the operator stands in any rule.
  2. **Wording (`GrammarError.message`)** — names stand between backticks.  Where a call into a linked
     grammar has the wrong number of arguments, its rule is named together with the grammar.
  3. **Patterns (`Operator.ofPattern`)** — the only operator that can be refused while it is written; all
     others are made freely, and are looked at when the grammar is built.
-/

namespace MemoPeg

/-- Why a grammar is refused before anything is parsed with it. -/
inductive GrammarError where
  | empty (grammar : String)
  | duplicateRule (rule : String)
  | undefinedRule (rule name : String)
  | undefinedRoot (name : String)
  | argumentCount (rule name : String) (expected found : Nat)
  | charRange (rule lo hi : String)
  /-- The expression is refused, with the message of the library. -/
  | pattern (source message : String)
  | unknownGrammar (rule grammar : String)
  | undefinedForeignRule (rule grammar name : String)
  | emptyChoice (rule : String)
  | repeatBounds (rule : String) (min max : Nat)
  | nullableLoop (rule : String)
deriving DecidableEq, Repr

namespace GrammarError

/-- A name as it is quoted in messages. -/
def tick (s : String) : String := "`" ++ s ++ "`"

/-- The message of an error. -/
def message : GrammarError → String
  | .empty grammar => "grammar " ++ tick grammar ++ " defines no rules"
  | .duplicateRule rule => "duplicate rule " ++ tick rule
  | .undefinedRule rule name => "undefined rule " ++ tick name ++ " referenced from " ++ tick rule
  | .undefinedRoot name => "root rule " ++ tick name ++ " is not defined"
  | .argumentCount rule name expected found =>
    "rule " ++ tick name ++ " takes " ++ toString expected ++ " parameters but " ++ toString found ++
      " were supplied in " ++ tick rule
  | .charRange rule lo hi =>
    "unsupported char range [" ++ lo ++ "-" ++ hi ++ "] in " ++ tick rule ++
      ": bounds must be single characters"
  | .pattern source message => "invalid pattern /" ++ source ++ "/: " ++ message
  | .unknownGrammar rule grammar =>
    "unknown grammar " ++ tick grammar ++ " referenced from " ++ tick rule
  | .undefinedForeignRule rule grammar name =>
    "grammar " ++ tick grammar ++ " has no rule " ++ tick name ++ " (referenced from " ++
      tick rule ++ ")"
  | .emptyChoice rule => "empty choice in " ++ tick rule
  | .repeatBounds rule min max =>
    "repeat in " ++ tick rule ++ " has a minimum of " ++ toString min ++
      " above its maximum of " ++ toString max
  | .nullableLoop rule =>
    "loop in " ++ tick rule ++ " can match without consuming input and would never terminate"

end GrammarError

/-- The operator of a written pattern, or the error of one that is refused. -/
def Operator.ofPattern [RegexLibrary] (source : String) : Except GrammarError Operator :=
  match Pattern.compile source with
  | .ok p => .ok (.pattern p)
  | .error message => .error (.pattern source message)

end MemoPeg
