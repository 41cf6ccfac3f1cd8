import MemoPeg.Evaluation.Basic

/-
  A closure does what the step of its operator does.

  The code of a program runs by closures and the operators of a grammar by steps, and the two are
  written apart.  Here is one law for each kind of operator, `Closure.x = Step.x`, whatever the parts
  do; no law looks at what a part is.

  1. **Terminals, predicates, bindings, actions, calls** — a closure and a step may put the same
     question to the engine in another order, and their laws open both and split on the outcome of
     the part.
  2. **Loops** — by induction on the parts that are left.  A closure remembers the cursor and the mark
     of its beginning, a step the whole frame.
  3. **The crux (`rounds_eq`)** — a closure counts its rounds UP to the maximum and keeps what it will
     answer with; a step counts the rounds that are still allowed DOWN and keeps all values, newest
     first.  `Tally.of` is the tally of such a row of values, and `max - count` the rounds allowed.
  4. **Code (`Program.exec_succ`)** — all laws together: the code of a program is walked like the
     operators of a grammar.  Everything proved of steps holds of code through this one equation.
-/

namespace MemoPeg

namespace Closure

/-! ## Terminals -/

/-- A terminal asks the engine and goes by the answer, in both. -/
theorem any_eq : any = Step.any := by
  funext f
  show any f = Step.terminal _ _ f
  unfold any Step.terminal
  dsimp only
  cases f.engine.readChar <;> rfl

theorem literal_eq (s : String) : literal s = Step.literal s := by
  funext f
  show literal s f = Step.terminal _ _ f
  unfold literal Step.terminal
  dsimp only
  cases f.engine.readLiteral s.toList with
  | error stop => rfl
  | ok read => cases read <;> rfl

/-- A pattern is scanned in both before the value is made. -/
theorem scan_eq (m : Matcher) : scan m = Step.scan m := by
  funext f
  show scan m f = Step.terminal _ _ f
  unfold scan Step.terminal
  dsimp only
  cases f.engine.readPattern m with
  | error stop => rfl
  | ok read => cases read <;> rfl

/-- The closure compares the character that it has read; the step has it read within the range. -/
theorem range_eq (lo hi : Char) : range lo hi = Step.range lo hi := by
  funext f
  show range lo hi f = Step.terminal _ _ f
  unfold range Step.terminal
  dsimp only
  cases f.engine.readRange lo hi <;> rfl

/-! ## Loops -/

/-- What is left of a sequence, and where it goes back to if a part fails. -/
theorem inOrder_eq (start : Frame) (steps : List Step) (result : Value) :
    inOrder start.engine.pos start.scope.mark result steps = Step.sequenceFrom start steps result := by
  induction steps generalizing result with
  | nil => rfl
  | cons step steps ih =>
    funext f
    unfold inOrder Step.sequenceFrom
    cases step f with
    | error stop => rfl
    | ok r =>
      obtain ⟨outcome, after⟩ := r
      cases outcome with
      | matched stop value => exact congrFun (ih value) after
      | failed => rfl

/-- A sequence begins where its first part does. -/
theorem sequence_eq (steps : List Step) : sequence steps = Step.sequence steps := by
  funext f
  exact congrFun (inOrder_eq f steps .nil) f

/-- A closure returns from the loop at the first match. -/
theorem choice_eq (alternatives : List Step) : choice alternatives = Step.choice alternatives := by
  induction alternatives with
  | nil => rfl
  | cons alternative alternatives ih =>
    funext f
    unfold choice Step.choice
    cases alternative f with
    | error stop => rfl
    | ok r =>
      obtain ⟨outcome, after⟩ := r
      cases outcome with
      | matched stop value => rfl
      | failed => exact congrFun ih after

/-- The tally of the values of rounds, newest first. -/
def Tally.of (captures : Bool) (values : List Value) : Tally :=
  if captures then ⟨values.length, values.reverse.toArray, .nil⟩
  else ⟨values.length, #[], values.head?.getD .nil⟩

namespace Tally

/-- The tally before any round. -/
theorem of_nil (captures : Bool) : of captures [] = .new := by
  cases captures <;> rfl

/-- The newest value is the last one that was added. -/
theorem of_cons (captures : Bool) (value : Value) (values : List Value) :
    of captures (value :: values) = (of captures values).add captures value := by
  cases captures with
  | false => rfl
  | true => simp [of, add]

/-- As many values as rounds. -/
@[simp] theorem of_count (captures : Bool) (values : List Value) :
    (of captures values).count = values.length := by
  cases captures <;> rfl

/-- A tally answers with all values, oldest first, or with the last one. -/
theorem of_answer (captures : Bool) (values : List Value) :
    (of captures values).answer captures =
      if captures then .list values.reverse else values.head?.getD .nil := by
  cases captures <;> rfl

end Tally

/-- The rounds of a repetition, when those so far had these values. -/
theorem rounds_eq (inner : Step) (max : Option Nat) (captures : Bool) (fuel : Nat)
    (values : List Value) (f : Frame) :
    rounds inner max captures fuel (.of captures values) f =
      (Step.rounds inner fuel (max.map (· - values.length)) values f).map
        fun r => (.of captures r.1, r.2) := by
  induction fuel generalizing values f with
  | zero => rfl
  | succ fuel ih =>
    -- The maximum is reached when no round is allowed any more.
    have hdone : max.any ((Tally.of captures values).count ≥ ·) = true ↔
        max.map (· - values.length) = some 0 := by
      cases max with
      | none => simp
      | some m => simp only [Option.any_some, Tally.of_count, ge_iff_le, decide_eq_true_eq,
          Option.map_some, Option.some.injEq]; omega
    unfold rounds Step.rounds
    by_cases h : max.map (· - values.length) = some 0
    · rw [if_pos (hdone.2 h), if_pos h]
      rfl
    · rw [if_neg (mt hdone.1 h), if_neg h]
      cases inner f with
      | error stop => rfl
      | ok r =>
        obtain ⟨outcome, after⟩ := r
        cases outcome with
        | failed => rfl
        | matched stop value =>
          show (if _ then _ else _) = Except.map _ (if _ then _ else _)
          rw [Option.isNone_map, ← Tally.of_cons]
          split
          · rfl
          · -- One round less is allowed.
            have hleft : (max.map (· - values.length)).map (· - 1) =
                max.map (· - (value :: values).length) := by
              rw [Option.map_map]
              rfl
            rw [hleft]
            exact ih (value :: values) after

/-- Rounds are run alike, and counted alike against the minimum. -/
theorem repetition_eq (inner : Step) (min : Nat) (max : Option Nat) (captures : Bool) (fuel : Nat) :
    repetition inner min max captures fuel = Step.repetition inner min max captures fuel := by
  funext f
  have hrounds := rounds_eq inner max captures fuel [] f
  rw [Tally.of_nil] at hrounds
  unfold repetition Step.repetition
  simp only [hrounds, List.length_nil, Nat.sub_zero, Option.map_id']
  cases Step.rounds inner fuel max [] f with
  | error stop => rfl
  | ok r =>
    obtain ⟨values, after⟩ := r
    show (if _ then _ else _) = (if _ then _ else _)
    rw [Tally.of_count, Tally.of_answer]
    rfl

/-! ## Predicates -/

/-- Both go back before they look at the outcome. -/
theorem ahead_eq (inner : Step) : ahead inner = Step.ahead inner := by
  funext f
  unfold ahead Step.ahead
  cases inner f with
  | error stop => rfl
  | ok r => obtain ⟨outcome, after⟩ := r; cases outcome <;> rfl

theorem notAhead_eq (inner : Step) : notAhead inner = Step.notAhead inner := by
  funext f
  unfold notAhead Step.notAhead
  cases inner f with
  | error stop => rfl
  | ok r => obtain ⟨outcome, after⟩ := r; cases outcome <;> rfl

/-- A test of an action is the one that is wanted of its value. -/
theorem test_eq (a : Action) (wanted : Bool) :
    (if wanted then holds a else fails a) = Step.test a wanted := by
  funext f
  cases wanted with
  | true =>
    show holds a f = _
    unfold holds Step.test
    simp only
    cases (f.engine.perform a f.scope).1.holds <;> rfl
  | false =>
    show fails a f = _
    unfold fails Step.test
    simp only
    cases (f.engine.perform a f.scope).1.holds <;> rfl

/-! ## Bindings and actions -/

/-- The value is bound as it comes. -/
theorem tag_eq (inner : Step) (name : String) : tag inner name = Step.tag inner name := by
  funext f
  show tag inner name f = Step.binding _ _ _ f
  unfold tag Step.binding
  cases inner f with
  | error stop => rfl
  | ok r => obtain ⟨outcome, after⟩ := r; cases outcome <;> rfl

/-- The text of the match is cut out at the cursor of the beginning. -/
theorem collect_eq (inner : Step) : collect inner = Step.collect inner := by
  funext f
  show collect inner f = Step.binding _ _ _ f
  unfold collect Step.binding
  cases inner f with
  | error stop => rfl
  | ok r => obtain ⟨outcome, after⟩ := r; cases outcome <;> rfl

theorem bounds_eq (inner : Step) : bounds inner = Step.bounds inner := by
  funext f
  show bounds inner f = Step.binding _ _ _ f
  unfold bounds Step.binding
  cases inner f with
  | error stop => rfl
  | ok r => obtain ⟨outcome, after⟩ := r; cases outcome <;> rfl

/-- An action leaves the cursor where it is. -/
theorem action_eq (a : Action) : action a = Step.action a := rfl

/-- A call resolves its arguments and makes the call; there is nothing else that it could do otherwise. -/
theorem call_eq (run : List Value → Engine → Run (Outcome × Engine)) (args : List Arg) :
    call run args = Step.call run args := rfl

end Closure

variable [RegexLibrary]

/-! ## Code -/

/-- The code of a program runs like the operators of a grammar, with the names of rules resolved. -/
theorem Program.exec_succ (n : Nat) (p : Program) (code : Code) :
    p.exec (n + 1) code =
      match code with
      | .any => Step.any
      | .literal s => Step.literal s
      | .scan m => Step.scan m
      | .range lo hi => Step.range lo hi
      | .sequence steps => Step.sequence (steps.map (p.exec n))
      | .choice alternatives => Step.choice (alternatives.map (p.exec n))
      | .repetition body min max captures => Step.repetition (p.exec n body) min max captures n
      | .ahead body => Step.ahead (p.exec n body)
      | .notAhead body => Step.notAhead (p.exec n body)
      | .test a wanted => Step.test a wanted
      | .tag body name => Step.tag (p.exec n body) name
      | .action a => Step.action a
      | .collect body => Step.collect (p.exec n body)
      | .bounds body => Step.bounds (p.exec n body)
      | .apply rule args => Step.call (Engine.apply ((RuleSet.program p).runner n) n rule) args
      | .invoke rule args => Step.call (Engine.invoke ((RuleSet.program p).runner n) rule) args
      | .foreign grammar callee rule args =>
        Step.call (Engine.callForeign (callee.runner n) n grammar rule) args
      | .fail => Step.fail := by
  cases code with
  | any => exact Closure.any_eq
  | literal s => exact Closure.literal_eq s
  | scan m => exact Closure.scan_eq m
  | range lo hi => exact Closure.range_eq lo hi
  | sequence steps => exact Closure.sequence_eq _
  | choice alternatives => exact Closure.choice_eq _
  | repetition body min max captures => exact Closure.repetition_eq _ min max captures n
  | ahead body => exact Closure.ahead_eq _
  | notAhead body => exact Closure.notAhead_eq _
  | test a wanted => exact Closure.test_eq a wanted
  | tag body name => exact Closure.tag_eq _ name
  | action a => exact Closure.action_eq a
  | collect body => exact Closure.collect_eq _
  | bounds body => exact Closure.bounds_eq _
  | apply rule args => exact Closure.call_eq _ args
  | invoke rule args => exact Closure.call_eq _ args
  | «foreign» grammar callee rule args => exact Closure.call_eq _ args
  | fail => rfl

end MemoPeg
