import MemoPeg.Evaluation.Step

/-
  Closures: what the code of a program does.

  A program has been compiled once and for all, so its code is a closure for each operator, written
  apart from the walk over operators that runs a grammar (`Step`).  Both say the same in the end, but
  not in the same words, and nothing below refers to how the walk says it.

  1. **Terminals** — `any`, `literal`, `scan` and `range` ask the engine for a reading and answer with
     the cursor that the reading leaves.
  2. **Loops** — `sequence`, `choice` and `repetition` go through their parts one after the other.  The
     first two stop at the first part that decides them.  A repetition keeps COUNT of the rounds that
     matched, up to its maximum, and beside the count either all results or the last one
     (`Tally`).
  3. **Predicates, bindings, actions** — what begins at a cursor and a mark of the bindings, and goes
     back to them, remembers both before it runs its part (`restore`).
  4. **Calls** — `call` resolves the arguments in the scope of the caller; what is called has been
     resolved when the program was made.
-/

namespace MemoPeg

namespace Closure

/-- The engine and the bindings of `f`, put back to a cursor and to a number of bindings. -/
def restore (start mark : Nat) (f : Frame) : Frame :=
  { engine := { f.engine with pos := start }, scope := f.scope.rollback mark }

/-! ## Terminals -/

/-- Any one character. -/
def any : Step := fun f =>
  match f.engine.readChar with
  | some (c, e) => .ok (.matched e.pos (.char c), { f with engine := e })
  | none => .ok (.failed, f)

/-- A literal. -/
def literal (s : String) : Step := fun f => do
  match ← f.engine.readLiteral s.toList with
  | some (read, e) => .ok (.matched e.pos (.str (String.ofList read)), { f with engine := e })
  | none => .ok (.failed, f)

/-- What an expression matches. -/
def scan (m : Matcher) : Step := fun f => do
  match ← f.engine.readPattern m with
  | some (read, e) => .ok (.matched e.pos (.str (String.ofList read)), { f with engine := e })
  | none => .ok (.failed, f)

/-- One character between two bounds. -/
def range (lo hi : Char) : Step := fun f =>
  match f.engine.readRange lo hi with
  | some (c, e) => .ok (.matched e.pos (.char c), { f with engine := e })
  | none => .ok (.failed, f)

/-- Never matches. -/
def fail : Step := fun f => .ok (.failed, f)

/-! ## Loops -/

/-- The steps that are left of a sequence that began at a cursor and a mark; `result` is the value of
    the step before them. -/
def inOrder (start mark : Nat) (result : Value) : List Step → Step
  | [], f => .ok (.matched f.engine.pos result, f)
  | step :: steps, f => do
    match ← step f with
    | (.matched _ value, f) => inOrder start mark value steps f
    | (.failed, f) => .ok (.failed, restore start mark f)

/-- All steps in order; the last value counts. -/
def sequence (steps : List Step) : Step := fun f =>
  inOrder f.engine.pos f.scope.mark .nil steps f

/-- The first alternative that matches. -/
def choice : List Step → Step
  | [], f => .ok (.failed, f)
  | alternative :: alternatives, f => do
    let (outcome, after) ← alternative f
    match outcome with
    | .matched _ _ => .ok (outcome, after)
    | .failed => choice alternatives after

/-- What a repetition knows of its rounds: how many have matched, and with it all of their results or
    the last one, whichever it will answer with. -/
structure Tally where
  count : Nat
  items : Array Value
  last : Value

namespace Tally

/-- No round has matched yet. -/
def new : Tally := ⟨0, #[], .nil⟩

/-- One more round has matched. -/
def add (t : Tally) (captures : Bool) (value : Value) : Tally :=
  if captures then ⟨t.count + 1, t.items.push value, t.last⟩ else ⟨t.count + 1, t.items, value⟩

/-- What the repetition answers with. -/
def answer (t : Tally) (captures : Bool) : Value := if captures then .list t.items.toList else t.last

end Tally

/-- The rounds of a repetition from where `t` rounds have matched.  A round beyond the maximum is not
    begun.  Without a maximum, a round that reads nothing is the last. -/
def rounds (inner : Step) (max : Option Nat) (captures : Bool) : Nat → Tally → Frame →
    Run (Tally × Frame)
  | 0, _, _ => .error .outOfFuel
  | fuel + 1, t, f =>
    if max.any (t.count ≥ ·) then .ok (t, f)
    else do
      let before := f.engine.pos
      match ← inner f with
      | (.matched stop value, f) =>
        if stop = before ∧ max.isNone then .ok (t.add captures value, f)
        else rounds inner max captures fuel (t.add captures value) f
      | (.failed, f) => .ok (t, f)

/-- A step repeated. -/
def repetition (inner : Step) (min : Nat) (max : Option Nat) (captures : Bool) (fuel : Nat) : Step :=
  fun f => do
    let start := f.engine.pos
    let mark := f.scope.mark
    let (t, f) ← rounds inner max captures fuel .new f
    if t.count < min then .ok (.failed, restore start mark f)
    else .ok (.matched f.engine.pos (t.answer captures), f)

/-! ## Predicates -/

/-- Matches where the step does, reading and binding nothing. -/
def ahead (inner : Step) : Step := fun f => do
  let start := f.engine.pos
  let mark := f.scope.mark
  let (outcome, f) ← inner f
  match outcome with
  | .matched _ value => .ok (.matched start value, restore start mark f)
  | .failed => .ok (.failed, restore start mark f)

/-- Matches where the step does not, reading and binding nothing. -/
def notAhead (inner : Step) : Step := fun f => do
  let start := f.engine.pos
  let mark := f.scope.mark
  let (outcome, f) ← inner f
  match outcome with
  | .matched _ _ => .ok (.failed, restore start mark f)
  | .failed => .ok (.matched start .nil, restore start mark f)

/-- Matches if the value of the action holds. -/
def holds (a : Action) : Step := fun f =>
  let (value, e) := f.engine.perform a f.scope
  if value.holds then .ok (.matched e.pos value, { f with engine := e })
  else .ok (.failed, { f with engine := e })

/-- Matches if the value of the action does not hold. -/
def fails (a : Action) : Step := fun f =>
  let (value, e) := f.engine.perform a f.scope
  if value.holds then .ok (.failed, { f with engine := e })
  else .ok (.matched e.pos .nil, { f with engine := e })

/-! ## Bindings and actions -/

/-- Binds the value of a match to a name. -/
def tag (inner : Step) (name : String) : Step := fun f => do
  match ← inner f with
  | (.matched stop value, f) => .ok (.matched stop value, { f with scope := f.scope.bind name value })
  | (.failed, f) => .ok (.failed, f)

/-- The value of an action, reading nothing. -/
def action (a : Action) : Step := fun f =>
  let (value, e) := f.engine.perform a f.scope
  .ok (.matched e.pos value, { f with engine := e })

/-- Answers with the text that was read, and binds it to `text`.  The text of an engine never changes,
    so it is cut out of the one that the closure has begun with. -/
def collect (inner : Step) : Step := fun f => do
  let start := f.engine.pos
  match ← inner f with
  | (.matched stop _, after) =>
    let text := .str (String.ofList (f.engine.textBetween start stop))
    .ok (.matched stop text, { after with scope := after.scope.bind "text" text })
  | (.failed, after) => .ok (.failed, after)

/-- Answers with the offsets of the text that was read, and binds them to `bounds`. -/
def bounds (inner : Step) : Step := fun f => do
  let start := f.engine.pos
  match ← inner f with
  | (.matched stop _, f) =>
    .ok (.matched stop (.span start stop),
      { f with scope := f.scope.bind "bounds" (.span start stop) })
  | (.failed, f) => .ok (.failed, f)

/-! ## Calls -/

/-- A call of a rule with arguments from the current scope. -/
def call (run : List Value → Engine → Run (Outcome × Engine)) (args : List Arg) : Step := fun f => do
  let (outcome, e) ← run (f.scope.resolve args) f.engine
  .ok (outcome, { f with engine := e })

end Closure

end MemoPeg
