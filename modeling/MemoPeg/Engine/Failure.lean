import MemoPeg.RuleSet.Basic
import MemoPeg.Text.Location

/-
  The furthest failure of a parse, and the messages made from it.

  1. **Record (`Furthest.mark`)** — who failed at the greatest offset so far; of failures at one offset the
     newest.  A failure is recorded as soon as it happens, whether or not the parse goes on by another
     way, for the text that was reached is the best guess at where it is wrong.
  2. **Culprits (`Culprit`)** — a rule is recorded by its id and named only when a message asks for it.  A
     rule of a linked grammar has no id here, so it is recorded by its name at once.
  3. **Messages** — a structured error, a line for the reader, and the source line with a caret.  All of
     them can be asked for without any failure too: then they speak of the start of the text, and of a
     rule that was not reported.
-/

namespace MemoPeg

/-- Who is blamed for a failure. -/
inductive Culprit where
  /-- A rule of the grammar that is being parsed with. -/
  | rule (id : RuleId)
  /-- A rule of a linked grammar, as `grammar.rule`. -/
  | foreign (name : String)
  /-- The text went on after a match that had to reach its end. -/
  | endOfText
  /-- A start rule that the grammar does not define. -/
  | unknown (name : String)
deriving DecidableEq, Repr

namespace Culprit

variable [RegexLibrary]

/-- The name of the culprit in messages. -/
def name (c : Culprit) (rules : RuleSet) : String :=
  match c with
  | .rule id => (rules.nameOf? id).getD "<unregistered>"
  | .foreign name | .unknown name => name
  | .endOfText => "end of input"

/-- The rendered body of the culprit, if it is a rule of the grammar. -/
def rendered (c : Culprit) (rules : RuleSet) : Option String :=
  match c with
  | .rule id => (rules.summary? id).map (·.rendered)
  | .foreign _ | .unknown _ | .endOfText => none

end Culprit

/-- A failure: who, and where. -/
structure Failure where
  culprit : Culprit
  offset : Nat
deriving DecidableEq, Repr

/-- The error reported for a parse that failed. -/
structure ParseError where
  location : Location
  /-- The name of the culprit. -/
  rule : String
  /-- The character at the failure; nothing at the end of the text. -/
  found : Option Char
deriving DecidableEq, Repr

/-- The error as one line. -/
def ParseError.render (err : ParseError) : String :=
  let got :=
    match err.found with
    | some c => "'" ++ String.singleton c ++ "'"
    | none => "end of input"
  "@" ++ err.location.render ++ " failed rule '" ++ err.rule ++ "', got " ++ got

/-- The furthest failure so far, if anything failed. -/
abbrev Furthest := Option Failure

namespace Furthest

/-- Records a failure unless one further on is known. -/
def mark (f : Furthest) (culprit : Culprit) (pos : Nat) : Furthest :=
  match f with
  | none => some ⟨culprit, pos⟩
  | some known => if known.offset ≤ pos then some ⟨culprit, pos⟩ else some known

/-- The offset of the furthest failure; the start of the text if nothing failed. -/
def offset (f : Furthest) : Nat :=
  match f with
  | none => 0
  | some known => known.offset

variable [RegexLibrary]

/-- The error for the furthest failure. -/
def error (f : Furthest) (t : Text) (rules : RuleSet) : ParseError :=
  { location := t.locate f.offset
    rule :=
      match f with
      | none => "<unreported>"
      | some known => known.culprit.name rules
    found := t.charAt f.offset }

/-- A line that locates the furthest failure and shows the rule that failed. -/
def report (f : Furthest) (t : Text) (rules : RuleSet) : String :=
  let loc := t.locate f.offset
  let place := "line " ++ toString loc.line ++ ", column " ++ toString loc.column ++ ": "
  match f with
  | none => place ++ "no rule failed"
  | some known =>
    let failed := place ++ "failed rule '" ++ known.culprit.name rules ++ "'"
    match known.culprit.rendered rules with
    | some rendered => failed ++ " = '" ++ rendered ++ "'"
    | none => failed

/-- The source line of the furthest failure with a caret under its column. -/
def caret (f : Furthest) (t : Text) : String := t.caret f.offset

end Furthest

end MemoPeg
