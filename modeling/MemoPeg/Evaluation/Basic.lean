import MemoPeg.Evaluation.Closure

/-
  Running rule sets.

  Grammars are run by walking their operators, with names looked up on the way; programs by running
  their code, in which nothing is left to look up.

  1. **Bodies (`RuleSet.body`)** — the body of a rule runs at the cursor, with a scope of its own that
     holds its arguments.  A rule that is not there fails.
  2. **Operators (`Grammar.eval`)** — each operator is its step (`Step`), made from the steps of its
     parts.  A name of a rule, of a linked rule set or of a rule in one that is not there fails.
  3. **Code (`Program.exec`)** — each piece of code is its closure (`Closure`), made from the closures
     of its parts.
  4. **Fuel** — bounds the depth of the walk: every operator, every piece of code and every body takes
     one unit of it, so both kinds of rule sets walk at the same pace.  No outcome depends on how much
     is left.
-/

namespace MemoPeg

variable [RegexLibrary]

mutual

/-- Runs the body of a rule at the cursor, with a scope of its own. -/
def RuleSet.body : Nat → RuleSet → RuleId → List Value → Engine → Run (Outcome × Engine)
  | 0, _, _, _, _ => .error .outOfFuel
  | fuel + 1, rs, rule, args, e =>
    match rs with
    | .grammar g =>
      match g.rules[rule]? with
      | some r => do
        let (outcome, f) ← Grammar.eval fuel g r.body ⟨e, Scope.ofArgs r.params args⟩
        .ok (outcome, f.engine)
      | none => .ok (.failed, e)
    | .program p =>
      match p.routines[rule]? with
      | some r => do
        let (outcome, f) ← Program.exec fuel p r.body ⟨e, Scope.ofArgs r.params args⟩
        .ok (outcome, f.engine)
      | none => .ok (.failed, e)
    | .vacant _ => .ok (.failed, e)

/-- What an operator of a grammar does. -/
def Grammar.eval : Nat → Grammar → Operator → Step
  | 0, _, _ => fun _ => .error .outOfFuel
  | fuel + 1, g, op =>
    let own : Runner := ⟨(RuleSet.grammar g).ruleName, RuleSet.body fuel (.grammar g)⟩
    match op with
    | .any => Step.any
    | .literal s => Step.literal s
    | .pattern p => Step.scan p.matcher
    | .range lo hi =>
      match singleChars lo hi with
      | some (lo, hi) => Step.range lo hi
      | none => Step.fail
    | .sequence ops => Step.sequence (ops.map (Grammar.eval fuel g))
    | .choice ops => Step.choice (ops.map (Grammar.eval fuel g))
    | .repetition op min max captures =>
      Step.repetition (Grammar.eval fuel g op) min max captures fuel
    | .ahead (.action a) => Step.test a true
    | .ahead op => Step.ahead (Grammar.eval fuel g op)
    | .notAhead (.action a) => Step.test a false
    | .notAhead op => Step.notAhead (Grammar.eval fuel g op)
    | .tag op name => Step.tag (Grammar.eval fuel g op) name
    | .action a => Step.action a
    | .collect op => Step.collect (Grammar.eval fuel g op)
    | .bounds op => Step.bounds (Grammar.eval fuel g op)
    | .call name args =>
      match g.lookup name with
      | some rule => Step.call (Engine.apply own fuel rule) args
      | none => Step.fail
    | .direct name args =>
      match g.lookup name with
      | some rule => Step.call (Engine.invoke own rule) args
      | none => Step.fail
    | .foreign grammar name args =>
      match g.link? grammar with
      | some callee =>
        match callee.lookup name with
        | some rule =>
          Step.call
            (Engine.callForeign ⟨callee.ruleName, RuleSet.body fuel callee⟩ fuel grammar rule) args
        | none => Step.fail
      | none => Step.fail

/-- What the code of a program does: the closure of each piece of code. -/
def Program.exec : Nat → Program → Code → Step
  | 0, _, _ => fun _ => .error .outOfFuel
  | fuel + 1, p, code =>
    let own : Runner := ⟨(RuleSet.program p).ruleName, RuleSet.body fuel (.program p)⟩
    match code with
    | .any => Closure.any
    | .literal s => Closure.literal s
    | .scan m => Closure.scan m
    | .range lo hi => Closure.range lo hi
    | .sequence steps => Closure.sequence (steps.map (Program.exec fuel p))
    | .choice alternatives => Closure.choice (alternatives.map (Program.exec fuel p))
    | .repetition body min max captures =>
      Closure.repetition (Program.exec fuel p body) min max captures fuel
    | .ahead body => Closure.ahead (Program.exec fuel p body)
    | .notAhead body => Closure.notAhead (Program.exec fuel p body)
    | .test a wanted => if wanted then Closure.holds a else Closure.fails a
    | .tag body name => Closure.tag (Program.exec fuel p body) name
    | .action a => Closure.action a
    | .collect body => Closure.collect (Program.exec fuel p body)
    | .bounds body => Closure.bounds (Program.exec fuel p body)
    | .apply rule args => Closure.call (Engine.apply own fuel rule) args
    | .invoke rule args => Closure.call (Engine.invoke own rule) args
    | .foreign grammar callee rule args =>
      Closure.call
        (Engine.callForeign ⟨callee.ruleName, RuleSet.body fuel callee⟩ fuel grammar rule) args
    | .fail => Closure.fail

end

/-- The names and bodies of a rule set, with fuel for each run of a body. -/
def RuleSet.runner (rs : RuleSet) (fuel : Nat) : Runner := ⟨rs.ruleName, rs.body fuel⟩

namespace Engine

/-- Calls a rule of a rule set through the memo table. -/
def applyRule (fuel : Nat) (rs : RuleSet) (rule : RuleId) (args : List Value) (e : Engine) :
    Run (Outcome × Engine) :=
  e.apply (rs.runner fuel) fuel rule args

/-- Calls a rule of a rule set past the memo table. -/
def invokeRule (fuel : Nat) (rs : RuleSet) (rule : RuleId) (args : List Value) (e : Engine) :
    Run (Outcome × Engine) :=
  e.invoke (rs.runner fuel) rule args

/-- Calls a rule of a linked rule set. -/
def callForeignRule (fuel : Nat) (grammar : String) (callee : RuleSet) (rule : RuleId)
    (args : List Value) (e : Engine) : Run (Outcome × Engine) :=
  e.callForeign (callee.runner fuel) fuel grammar rule args

end Engine

end MemoPeg
