import MemoPeg.Engine.Apply

/-
  Steps: what an operator of a grammar does.

  A step takes an engine and a scope to an outcome, an engine and a scope.  Each kind of operator is
  a step, made from the steps of its parts; a step that fails has put back the cursor and the
  bindings, so a choice need only try the next alternative.

  1. **Terminals** — a step that reads at the cursor is `terminal` of a reading of the engine.
  2. **Sequences, choices, repetitions** — by recursion on the parts, and for a repetition on the
     rounds that are still allowed.  A repetition needs fuel: how many rounds there are is for the
     text to say.
  3. **Predicates** — run a step and put everything back that it has moved or bound (`Frame.back`).
     On an action there is nothing to put back, since an action reads and binds nothing.
  4. **Bindings and actions** — `tag`, `collect` and `bounds` are one step, `binding`, that differs in
     what is bound.
  5. **Calls** — arguments are resolved in the scope of the caller; whether the call goes through the
     memo table, past it or into a linked grammar is for the caller to say.
-/

namespace MemoPeg

/-- What a step works on: the engine and the bindings of the current rule invocation. -/
structure Frame where
  engine : Engine
  scope : Scope

/-- What an operator does. -/
abbrev Step := Frame → Run (Outcome × Frame)

/-- The engine and the bindings of `now`, with the cursor and the number of bindings of `start`. -/
def Frame.back (now start : Frame) : Frame :=
  { engine := { now.engine with pos := start.engine.pos }
    scope := now.scope.rollback start.scope.mark }

namespace Step

/-! ## Terminals -/

/-- A step that reads at the cursor. -/
def terminal {α : Type} (read : Engine → Run (Option (α × Engine))) (toValue : α → Value) : Step :=
  fun f => do
    match ← read f.engine with
    | some (a, e) => .ok (.matched e.pos (toValue a), { f with engine := e })
    | none => .ok (.failed, f)

/-- The value of a text that was read. -/
def textValue (t : Text) : Value := .str (String.ofList t)

/-- Any one character. -/
def any : Step := terminal (fun e => .ok e.readChar) .char

/-- One character between two bounds. -/
def range (lo hi : Char) : Step := terminal (fun e => .ok (e.readRange lo hi)) .char

/-- A literal. -/
def literal (s : String) : Step := terminal (·.readLiteral s.toList) textValue

/-- What an expression matches. -/
def scan (m : Matcher) : Step := terminal (·.readPattern m) textValue

/-- Never matches. -/
def fail : Step := fun f => .ok (.failed, f)

/-! ## Sequences, choices, repetitions -/

/-- The rest of a sequence that began at `start` and whose last value was `value`. -/
def sequenceFrom (start : Frame) : List Step → Value → Step
  | [], value, f => .ok (.matched f.engine.pos value, f)
  | step :: steps, _, f => do
    match ← step f with
    | (.matched _ value, f) => sequenceFrom start steps value f
    | (.failed, f) => .ok (.failed, f.back start)

/-- All steps in order; the last value counts. -/
def sequence (steps : List Step) : Step := fun f => sequenceFrom f steps .nil f

/-- The first step that matches. -/
def choice : List Step → Step
  | [], f => .ok (.failed, f)
  | step :: steps, f => do
    match ← step f with
    | (.matched stop value, f) => .ok (.matched stop value, f)
    | (.failed, f) => choice steps f

/-- The rounds of a repetition: the values of those that matched, newest first.  `left` rounds are
    still allowed.  Without a limit, a round that reads nothing is the last, since it could go on for
    ever. -/
def rounds (body : Step) : Nat → Option Nat → List Value → Frame → Run (List Value × Frame)
  | 0, _, _, _ => .error .outOfFuel
  | fuel + 1, left, values, f =>
    if left = some 0 then .ok (values, f)
    else do
      match ← body f with
      | (.matched stop value, after) =>
        if stop = f.engine.pos ∧ left.isNone then .ok (value :: values, after)
        else rounds body fuel (left.map (· - 1)) (value :: values) after
      | (.failed, after) => .ok (values, after)

/-- A step repeated. -/
def repetition (body : Step) (min : Nat) (max : Option Nat) (captures : Bool) (fuel : Nat) : Step :=
  fun f => do
    let (values, after) ← rounds body fuel max [] f
    if values.length < min then .ok (.failed, after.back f)
    else
      let value := if captures then .list values.reverse else values.head?.getD .nil
      .ok (.matched after.engine.pos value, after)

/-! ## Predicates -/

/-- Matches where the step does, reading and binding nothing. -/
def ahead (step : Step) : Step := fun f => do
  let (outcome, after) ← step f
  match outcome with
  | .matched _ value => .ok (.matched f.engine.pos value, after.back f)
  | .failed => .ok (.failed, after.back f)

/-- Matches where the step does not, reading and binding nothing. -/
def notAhead (step : Step) : Step := fun f => do
  let (outcome, after) ← step f
  match outcome with
  | .matched _ _ => .ok (.failed, after.back f)
  | .failed => .ok (.matched f.engine.pos .nil, after.back f)

/-- Matches if the truth of an action's value is the one wanted. -/
def test (a : Action) (wanted : Bool) : Step := fun f =>
  let (value, e) := f.engine.perform a f.scope
  if value.holds = wanted then
    .ok (.matched f.engine.pos (if wanted then value else .nil), { f with engine := e })
  else .ok (.failed, { f with engine := e })

/-! ## Bindings and actions -/

/-- Replaces the value of a match and binds it to a name. -/
def binding (step : Step) (name : String) (value : Frame → Nat → Value → Value) : Step := fun f => do
  match ← step f with
  | (.matched stop v, after) =>
    let v := value f stop v
    .ok (.matched stop v, { after with scope := after.scope.bind name v })
  | (.failed, after) => .ok (.failed, after)

/-- Binds the value of a match to a name. -/
def tag (step : Step) (name : String) : Step := binding step name fun _ _ v => v

/-- Answers with the text that was read. -/
def collect (step : Step) : Step :=
  binding step "text" fun f stop _ => textValue (f.engine.textBetween f.engine.pos stop)

/-- Answers with the offsets of the text that was read. -/
def bounds (step : Step) : Step := binding step "bounds" fun f stop _ => .span f.engine.pos stop

/-- The value of an action, reading nothing. -/
def action (a : Action) : Step := fun f =>
  let (value, e) := f.engine.perform a f.scope
  .ok (.matched f.engine.pos value, { f with engine := e })

/-! ## Calls -/

/-- A call of a rule with arguments from the current scope. -/
def call (run : List Value → Engine → Run (Outcome × Engine)) (args : List Arg) : Step := fun f => do
  let (outcome, e) ← run (f.scope.resolve args) f.engine
  .ok (outcome, { f with engine := e })

end Step

end MemoPeg
