import MemoPeg.Engine.Memo
import MemoPeg.Engine.Failure

/-
  What happens in an engine, step by step.

  1. **Events** — which rules were tried and with what outcome, which entries of the memo table were made
     and found, who was blamed, which actions ran.  They make up the history of a run, newest first.
  2. **Moments** — an event with the depth of the engine in which it happened.  A nested engine goes on
     with the history of its caller, so one row tells all of a parse, and the depth tells the
     engines apart.
  3. **Messages and notes** — what is written to the trace and what actions have left are read off the
     history, so neither says anything that the history does not hold.

  No step ever looks at the history: it grows along, and can be dropped without changing what a run does.  It
  is what statements about runs speak of, such as how often a body was run or who failed last.
-/

namespace MemoPeg

/-- A step in the life of an engine. -/
inductive Event where
  /-- An entry was made for a key that had none. -/
  | opened (key : Key)
  /-- The entry of a key was found while still in progress. -/
  | foundInProgress (key : Key)
  /-- The entry of a key was found with a match. -/
  | foundMatch (key : Key)
  /-- The entry of a key was found with a failure. -/
  | foundFailure (key : Key)
  /-- A left recursive rule is tried again, to match beyond `past`. -/
  | growing (key : Key) (past : Nat)
  | attempting (rule : RuleId) (name : String) (start : Nat)
  | matched (rule : RuleId) (name : String) (start stop : Nat)
  | failed (rule : RuleId) (name : String) (start : Nat)
  /-- A rule of a linked grammar is called. -/
  | crossing (grammar rule : String) (pos : Nat)
  /-- A failure was reported to the record of the furthest one. -/
  | blamed (culprit : Culprit) (pos : Nat)
  /-- An action ran and left notes. -/
  | performed (notes : List String)
deriving DecidableEq

namespace Event

/-- The id of a rule in messages. -/
def showId (rule : RuleId) : String := "#" ++ toString rule

/-- The message of an event for the trace; some events are silent. -/
def message : Event → Option String
  | .foundInProgress key =>
    some ("Left recursion of rule " ++ showId key.rule ++ " detected at " ++ toString key.pos)
  | .foundMatch key =>
    some ("Cached match of rule " ++ showId key.rule ++ " at " ++ toString key.pos)
  | .foundFailure key =>
    some ("Cached fail of rule " ++ showId key.rule ++ " at " ++ toString key.pos)
  | .growing key past =>
    some ("Growing left recursive rule " ++ showId key.rule ++ " at " ++ toString key.pos ++
      " past " ++ toString past)
  | .attempting _ name start =>
    some ("Attempting to match rule " ++ name ++ " at " ++ toString start)
  | .matched _ name start stop =>
    some ("Matched rule " ++ name ++ " at " ++ toString start ++ " to " ++ toString stop)
  | .failed _ name start =>
    some ("Failed to match rule " ++ name ++ " at " ++ toString start)
  | .crossing grammar rule pos =>
    some ("Invoking foreign rule " ++ grammar ++ "." ++ rule ++ " at " ++ toString pos)
  | .opened _ | .blamed _ _ | .performed _ => none

/-- The notes that an event leaves. -/
def notes : Event → List String
  | .performed notes => notes
  | _ => []

end Event

/-- An event and the engine it happened in: an engine at depth zero serves its caller, one at depth
    `d + 1` serves a call from an engine at depth `d` into a linked grammar. -/
structure Moment where
  depth : Nat
  event : Event
deriving DecidableEq

/-- The history of an engine, newest first. -/
abbrev History := List Moment

namespace History

/-- The events, oldest first. -/
def events (h : History) : List Event := h.reverse.map (·.event)

/-- The messages of the trace, oldest first. -/
def messages (h : History) : List String :=
  h.events.filterMap fun ev => ev.message.map ("TRACE [PEG_TRACE] " ++ ·)

/-- The notes of the actions, oldest first. -/
def notes (h : History) : List String := h.events.flatMap Event.notes

end History

end MemoPeg
