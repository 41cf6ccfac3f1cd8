import MemoPeg.Engine.Basic

/-
  Calling rules: past the memo table, through it, and across to another grammar.

  1. **invoke** — runs a body, and on failure puts the cursor back and reports the failure.
  2. **apply** — looks the rule up first.  Only a key without an entry is invoked; while it is, its
     entry is in progress, and a call of the rule from within fails there and leaves a mark.
  3. **grow** — a rule that called itself and still matched has a SEED.  It is invoked again with the
     seed as the answer to its own call, and each longer match becomes the next seed; the first round
     that does not get further ends the growth, and the last seed is the answer.  Nothing is handed
     from round to round: the seed is in the entry of the key, and is looked up there before each round
     and at the end.
  4. **callForeign** — applies a rule of another rule set in a nested engine, whose memo table and
     failures stay behind; the caller takes the match, or records one failure of its own.

  While a rule is growing, its entry holds a match and is no longer in progress, so a call of the rule from
  within is answered with the seed and leaves no mark.  Only the first round can leave one.  Other rules that
  were called in an earlier round and asked for the seed have entries that rest on it; these are kept, and
  answer the later rounds as well.

  All of it is written over a `Runner`, the bodies of the rules and their names, so that it does not
  matter how a body is run; what is run for a body is settled where the grammars are.
-/

namespace MemoPeg

/-- What the engine needs of a rule set: the names of its rules and how to run their bodies. -/
structure Runner where
  nameOf : RuleId → String
  body : RuleId → List Value → Engine → Run (Outcome × Engine)

namespace Engine

/-- Runs a rule body past the memo table. -/
def invoke (r : Runner) (rule : RuleId) (args : List Value) (e : Engine) :
    Run (Outcome × Engine) := do
  let name := r.nameOf rule
  let (outcome, after) ← r.body rule args (e.note (.attempting rule name e.pos))
  match outcome with
  | .matched stop value =>
    .ok (outcome, { after.note (.matched rule name e.pos stop) with pos := stop, result := value })
  | .failed =>
    .ok (.failed, { after.note (.failed rule name e.pos) with pos := e.pos }.blame (.rule rule) e.pos)

/-- Answers a call from the entry of its key.  The cursor goes where the entry ends, whatever its
    status is. -/
def reuse (key : Key) (entry : Entry) (e : Engine) : Outcome × Engine :=
  let e := { e with memo := e.memo.use key, pos := entry.answer.stop }
  match entry.answer.status with
  | .inProgress _ =>
    let answer := { entry.answer with status := .inProgress true }
    (.failed, { e with memo := e.memo.settle key answer }.note (.foundInProgress key))
  | .matched =>
    (.matched entry.answer.stop entry.answer.value,
      { e with result := entry.answer.value }.note (.foundMatch key))
  | .failed => (.failed, e.note (.foundFailure key))

/-- Makes the entry of a key that is about to be tried. -/
def opening (key : Key) (e : Engine) : Engine :=
  { e with memo := e.memo.start key }.note (.opened key)

/-- The rule of a key has called itself while it was being tried. -/
def sawItself (key : Key) (e : Engine) : Bool :=
  match e.memo.find? key with
  | some entry => entry.answer.status = .inProgress true
  | none => false

/-- Records the answer to a key. -/
def settle (key : Key) (answer : Answer) (e : Engine) : Engine :=
  { e with memo := e.memo.settle key answer }

/-- What a growth ends with: the match that the entry of its key holds. -/
def grown (key : Key) (e : Engine) : Outcome × Engine :=
  match e.memo.find? key with
  | some ⟨answer, _⟩ =>
    (.matched answer.stop answer.value, { e with pos := answer.stop, result := answer.value })
  | none => (.failed, { e with pos := key.pos })

/-- Invokes the rule of a key again and again while its match gets longer than the one that the entry
    of the key holds. -/
def grow (r : Runner) (key : Key) : Nat → Engine → Run (Outcome × Engine)
  | 0, _ => .error .outOfFuel
  | fuel + 1, e =>
    match e.memo.find? key with
    | none => .ok (e.grown key)
    | some ⟨best, _⟩ => do
      let (outcome, after) ←
        { e with pos := key.pos, result := best.value }.note (.growing key best.stop)
          |>.invoke r key.rule key.args
      match outcome with
      | .matched stop value =>
        if best.stop < stop then grow r key fuel (after.settle key (.matched stop value))
        else .ok (after.grown key)
      | .failed => .ok (after.grown key)

/-- Calls a rule through the memo table. -/
def apply (r : Runner) (fuel : Nat) (rule : RuleId) (args : List Value) (e : Engine) :
    Run (Outcome × Engine) :=
  let key : Key := ⟨rule, e.pos, args⟩
  match e.memo.find? key with
  | some entry => .ok (e.reuse key entry)
  | none => do
    let (outcome, after) ← (e.opening key).invoke r rule args
    match outcome with
    | .matched stop value =>
      let settled := after.settle key (.matched stop value)
      if after.sawItself key then settled.grow r key fuel
      else .ok (outcome, settled)
    | .failed => .ok (.failed, after.settle key (.parked .failed e.pos))

/-- Calls a rule of a linked rule set, known to the caller as `grammar`. -/
def callForeign (r : Runner) (fuel : Nat) (grammar : String) (rule : RuleId) (args : List Value)
    (e : Engine) : Run (Outcome × Engine) := do
  let name := r.nameOf rule
  let (outcome, inner) ← (e.note (.crossing grammar name e.pos)).nested.apply r fuel rule args
  let after := { e with history := inner.history }
  match outcome with
  | .matched stop value => .ok (outcome, { after with pos := stop, result := value })
  | .failed => .ok (.failed, after.blame (.foreign (grammar ++ "." ++ name)) e.pos)

/-- Runs an action in a scope. -/
def perform (a : Action) (scope : Scope) (e : Engine) : Value × Engine :=
  let (value, notes) := a.run scope
  (value, e.note (.performed notes))

end Engine

end MemoPeg
