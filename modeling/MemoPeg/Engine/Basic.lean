import MemoPeg.Engine.Event

/-
  The engine: a text, a cursor in it, and what is known so far.

  1. **Runs (`Run`)** — what can end a run without an outcome: fuel that is used up, or a part of the text
     that would begin inside a character.  A failure to match is an outcome like any other.
  2. **Engine** — the text never changes.  The cursor goes back and forth; no entry of the memo table is
     ever taken away, and the furthest failure never moves back.  The result is that of the last rule
     that matched.
  3. **Nested engines (`nested`)** — a call into a linked grammar starts anew on the same text at the same
     cursor: ids of rules mean nothing in another grammar, and neither do entries for them.
  4. **Terminals** — each reads at the cursor and moves it past what was read.  A terminal that does
     not match has no engine to answer with, so the caller's stays as it was.  What it read is cut out of
     the text, and cutting is where a run can come upon the inside of a character.
-/

namespace MemoPeg

/-- Why a run ends without an outcome. -/
inductive Stop where
  | outOfFuel
  /-- A part of the text was to begin inside a character. -/
  | insideCharacter
deriving DecidableEq, Repr

/-- A computation that may end without an outcome. -/
abbrev Run := Except Stop

/-- The outcome of an operator or a rule: a match up to `stop`, or a failure. -/
inductive Outcome where
  | matched (stop : Nat) (value : Value)
  | failed
deriving DecidableEq

/-- The outcome is a match. -/
def Outcome.isMatched : Outcome → Bool
  | .matched _ _ => true
  | .failed => false

/-- The state of one parse. -/
structure Engine where
  text : Text
  /-- The cursor, a byte offset. -/
  pos : Nat
  memo : Memo
  furthest : Furthest
  /-- The value of the rule that matched last. -/
  result : Value
  depth : Nat
  history : History
deriving DecidableEq

namespace Engine

/-- A fresh engine with its cursor at an offset. -/
def startingAt (text : Text) (pos : Nat) : Engine :=
  { text, pos, memo := .empty, furthest := none, result := .nil, depth := 0, history := [] }

/-- A fresh engine at the start of a text. -/
def new (text : Text) : Engine := startingAt text 0

/-- An engine for a call into a linked grammar: fresh, on the same text at the same cursor, one level
    deeper in the same history. -/
def nested (e : Engine) : Engine :=
  { startingAt e.text e.pos with depth := e.depth + 1, history := e.history }

/-- Adds an event to the history. -/
def note (e : Engine) (event : Event) : Engine :=
  { e with history := ⟨e.depth, event⟩ :: e.history }

/-- Reports a failure. -/
def blame (e : Engine) (culprit : Culprit) (pos : Nat) : Engine :=
  { e with furthest := e.furthest.mark culprit pos }.note (.blamed culprit pos)

/-- The cursor is at the end of the text or past it. -/
def atEnd (e : Engine) : Bool := e.pos ≥ e.text.size

/-- What remains of the text from an offset; nothing of it if the offset is not a boundary. -/
def textFrom (e : Engine) (start : Nat) : Text := (e.text.suffixAt start).getD []

/-- The text between two offsets; nothing of it unless both are boundaries in order. -/
def textBetween (e : Engine) (start stop : Nat) : Text := (e.text.slice start stop).getD []

/-! ## Terminals -/

/-- Reads one character. -/
def readChar (e : Engine) : Option (Char × Engine) :=
  (e.text.charAt e.pos).map fun c => (c, { e with pos := e.pos + c.utf8Size })

/-- Reads one character between two bounds. -/
def readRange (e : Engine) (lo hi : Char) : Option (Char × Engine) :=
  e.readChar.filter fun r => lo ≤ r.1 && r.1 ≤ hi

/-- Moves the cursor to the end of a terminal, if there is one, answering with the text passed. -/
def readTo (e : Engine) (stop? : Option Nat) : Run (Option (Text × Engine)) :=
  match stop? with
  | none => .ok none
  | some stop =>
    match e.text.slice e.pos stop with
    | some read => .ok (some (read, { e with pos := stop }))
    | none => .error .insideCharacter

/-- Reads a literal. -/
def readLiteral (e : Engine) (literal : Text) : Run (Option (Text × Engine)) :=
  e.readTo (e.text.literalEnd e.pos literal)

/-- Reads what an expression matches at the cursor. -/
def readPattern (e : Engine) (m : Matcher) : Run (Option (Text × Engine)) :=
  e.readTo (e.text.patternEnd e.pos m)

/-! ## The cursor in its context -/

/-- How many characters of context `context` gives on each side. -/
def contextWidth : Nat := 10

/-- The cursor with the text around it. -/
def context (e : Engine) : Run String :=
  match e.text.slice 0 e.pos, e.text.suffixAt e.pos with
  | some before, some after =>
    let left :=
      if before.length < contextWidth then before
      else ['.', '.', '.', ' '] ++ before.drop (before.length - contextWidth)
    .ok (toString e.pos ++ " (\"" ++ String.ofList left ++ "\" @ \"" ++
      String.ofList (after.take contextWidth) ++ "\")")
  | _, _ => .error .insideCharacter

end Engine

end MemoPeg
