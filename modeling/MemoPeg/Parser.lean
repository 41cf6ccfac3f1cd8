import MemoPeg.Evaluation.Basic

/-
  Parsing a text with the rules of one rule set.

  1. **Start** — a parse starts from a rule that is asked for by name, or from the root.  Every parse has a
     fresh engine, so nothing is left over from the one before.
  2. **Failure** — a parse can fail in three ways: the start rule is unknown, it does not match, or it
     matches but has to reach the end of the text and does not.  The first and the last are failures
     like any other, and blamed on the unknown name and on the end of the text.
  3. **End of the text** — a match that stops too early is blamed where it stops.  If some rule failed
     further on, that is the failure that is reported: it is what kept the match from going on.
  4. **Whole texts (`parseAll`)** — the value of the root over all of the text, or the error.

  A parser keeps the engine of its last parse, from which errors, traces and the cursor are read afterwards.
-/

namespace MemoPeg

variable [RegexLibrary]

/-- A parser: rules, a text, and the state after the last parse. -/
structure Parser where
  rules : RuleSet
  /-- The start rule has to match the whole text. -/
  toEnd : Bool
  engine : Engine

namespace Parser

/-- A parser that has not parsed yet. -/
def new (rules : RuleSet) (text : Text) (toEnd : Bool) : Parser := ⟨rules, toEnd, .new text⟩

/-- The id of a start rule, or of the root; on failure the name that was looked for. -/
def startRule (rules : RuleSet) (start : Option String) : Except String RuleId :=
  match start with
  | some name =>
    match rules.lookup name with
    | some rule => .ok rule
    | none => .error name
  | none =>
    match rules.root with
    | some rule => .ok rule
    | none => .error "root"

/-- Runs a start rule, or the root, from the start of the text.  Answers whether the parse
    succeeded. -/
def parse (fuel : Nat) (start : Option String) (p : Parser) : Run (Bool × Parser) :=
  let fresh := Engine.new p.engine.text
  match startRule p.rules start with
  | .error name => .ok (false, { p with engine := fresh.blame (.unknown name) 0 })
  | .ok rule => do
    let (outcome, e) ← fresh.applyRule fuel p.rules rule []
    match outcome with
    | .matched stop value =>
      if p.toEnd && stop < e.text.size then
        .ok (false, { p with engine := e.blame .endOfText stop })
      else .ok (true, { p with engine := { e with result := value } })
    | .failed => .ok (false, { p with engine := e })

/-- The error for the furthest failure of the last parse. -/
def error (p : Parser) : ParseError := p.engine.furthest.error p.engine.text p.rules

end Parser

/-- Parses a whole text with the root of a rule set.  The parser is answered with too, for its
    history. -/
def parseAll (fuel : Nat) (rules : RuleSet) (text : Text) :
    Run (Except ParseError Value × Parser) := do
  let (ok, p) ← (Parser.new rules text true).parse fuel none
  .ok (if ok then .ok p.engine.result else .error p.error, p)

end MemoPeg
