import Mathlib.Logic.Relation
import MemoPeg.Proofs.Cursor
import MemoPeg.Proofs.Retention

/-
  What runs within a run.

  Some properties of a run are not about its outcome but about all that happens on the way: what has been
  reported, where it went wrong, how deep calls were nested.  For these a run is seen as a tree of tasks.

  1. **Phrases** — operators of grammars and code of programs alike.  The shape of a phrase says how its
     step is made from the steps of other phrases (`Phrase.step_succ`), so that what is said of shapes
     holds of both.
  2. **Tasks** — what an engine can be given to run: a call of a rule, or a phrase in a scope.  A task
     STARTS others: a call the body of its rule, a growing rule that body again, a phrase its parts,
     each in the engine that the parts before it have left.
  3. **Faithfulness (`Task.cause`)** — a run that ends without an outcome, fuel aside, has started a
     reading that did.

  `Starts` is a relation that is defined beside the runs, and it would be worth little if it left out something
  that runs.  3 is what says that it does not: an error can only come from a leaf, so the tasks down to that
  leaf must all be there.  The parts before a part (`Ran`) and the rounds before a round (`GrownTo`) are given
  with the engines that they have really left, and not with any engines.
-/

namespace MemoPeg

/-! ## Phrases -/

/-- A step without parts. -/
inductive Leaf where
  | any
  | literal (s : String)
  | scan (m : Matcher)
  | range (lo hi : Char)
  | test (a : Action) (wanted : Bool)
  | action (a : Action)
  | fail

/-- What a step without parts does. -/
def Leaf.step : Leaf → Step
  | .any => Step.any
  | .literal s => Step.literal s
  | .scan m => Step.scan m
  | .range lo hi => Step.range lo hi
  | .test a wanted => Step.test a wanted
  | .action a => Step.action a
  | .fail => Step.fail

variable [RegexLibrary]

/-- An operator of a grammar, or code of a program. -/
inductive Phrase where
  | operator (g : Grammar) (op : Operator)
  | code (p : Program) (c : Code)

/-- What a phrase does. -/
def Phrase.step (n : Nat) : Phrase → Step
  | .operator g op => g.eval n op
  | .code p c => p.exec n c

/-- How a phrase is made from others. -/
inductive Shape where
  | leaf (l : Leaf)
  | sequence (parts : List Phrase)
  | choice (parts : List Phrase)
  | repetition (part : Phrase) (min : Nat) (max : Option Nat) (captures : Bool)
  | ahead (part : Phrase)
  | notAhead (part : Phrase)
  | tag (part : Phrase) (name : String)
  | collect (part : Phrase)
  | bounds (part : Phrase)
  | apply (rs : RuleSet) (rule : RuleId) (args : List Arg)
  | invoke (rs : RuleSet) (rule : RuleId) (args : List Arg)
  | cross (grammar : String) (rs : RuleSet) (rule : RuleId) (args : List Arg)

/-- What a phrase of the shape does, given what its parts do with this much fuel. -/
def Shape.step (n : Nat) : Shape → Step
  | .leaf l => l.step
  | .sequence parts => Step.sequence (parts.map (Phrase.step n))
  | .choice parts => Step.choice (parts.map (Phrase.step n))
  | .repetition part min max captures => Step.repetition (part.step n) min max captures n
  | .ahead part => Step.ahead (part.step n)
  | .notAhead part => Step.notAhead (part.step n)
  | .tag part name => Step.tag (part.step n) name
  | .collect part => Step.collect (part.step n)
  | .bounds part => Step.bounds (part.step n)
  | .apply rs rule args => Step.call (Engine.applyRule n rs rule) args
  | .invoke rs rule args => Step.call (Engine.invokeRule n rs rule) args
  | .cross grammar rs rule args => Step.call (Engine.callForeignRule n grammar rs rule) args

/-- The only part of a predicate or a binding. -/
def Shape.part? : Shape → Option Phrase
  | .ahead part | .notAhead part | .tag part _ | .collect part | .bounds part => some part
  | .leaf _ | .sequence _ | .choice _ | .repetition _ _ _ _ | .apply _ _ _ | .invoke _ _ _
  | .cross _ _ _ _ => none

/-- The shape of an operator of a grammar. -/
def Operator.shape (g : Grammar) : Operator → Shape
  | .any => .leaf .any
  | .literal s => .leaf (.literal s)
  | .pattern p => .leaf (.scan p.matcher)
  | .range lo hi =>
    match singleChars lo hi with
    | some (lo, hi) => .leaf (.range lo hi)
    | none => .leaf .fail
  | .sequence ops => .sequence (ops.map (.operator g))
  | .choice ops => .choice (ops.map (.operator g))
  | .repetition op min max captures => .repetition (.operator g op) min max captures
  | .ahead (.action a) => .leaf (.test a true)
  | .ahead op => .ahead (.operator g op)
  | .notAhead (.action a) => .leaf (.test a false)
  | .notAhead op => .notAhead (.operator g op)
  | .tag op name => .tag (.operator g op) name
  | .action a => .leaf (.action a)
  | .collect op => .collect (.operator g op)
  | .bounds op => .bounds (.operator g op)
  | .call name args =>
    match g.lookup name with
    | some rule => .apply (.grammar g) rule args
    | none => .leaf .fail
  | .direct name args =>
    match g.lookup name with
    | some rule => .invoke (.grammar g) rule args
    | none => .leaf .fail
  | .foreign grammar name args =>
    match g.link? grammar with
    | some callee =>
      match callee.lookup name with
      | some rule => .cross grammar callee rule args
      | none => .leaf .fail
    | none => .leaf .fail

/-- The shape of code of a program. -/
def Code.shape (p : Program) : Code → Shape
  | .any => .leaf .any
  | .literal s => .leaf (.literal s)
  | .scan m => .leaf (.scan m)
  | .range lo hi => .leaf (.range lo hi)
  | .sequence steps => .sequence (steps.map (.code p))
  | .choice alternatives => .choice (alternatives.map (.code p))
  | .repetition body min max captures => .repetition (.code p body) min max captures
  | .ahead body => .ahead (.code p body)
  | .notAhead body => .notAhead (.code p body)
  | .test a wanted => .leaf (.test a wanted)
  | .tag body name => .tag (.code p body) name
  | .action a => .leaf (.action a)
  | .collect body => .collect (.code p body)
  | .bounds body => .bounds (.code p body)
  | .apply rule args => .apply (.program p) rule args
  | .invoke rule args => .invoke (.program p) rule args
  | .foreign grammar callee rule args => .cross grammar callee rule args
  | .fail => .leaf .fail

/-- The shape of a phrase. -/
def Phrase.shape : Phrase → Shape
  | .operator g op => op.shape g
  | .code p c => c.shape p

/-- An operator does what its shape says. -/
theorem Grammar.eval_shape (g : Grammar) (op : Operator) (n : Nat) :
    g.eval (n + 1) op = (op.shape g).step n := by
  cases op with
  | any => rfl
  | literal s => rfl
  | pattern p => rfl
  | range lo hi =>
    simp only [Grammar.eval, Operator.shape]
    cases singleChars lo hi <;> rfl
  | sequence ops => simp only [Grammar.eval, Operator.shape, Shape.step, List.map_map]; rfl
  | choice ops => simp only [Grammar.eval, Operator.shape, Shape.step, List.map_map]; rfl
  | repetition op min max captures => rfl
  | ahead op => cases op <;> rfl
  | notAhead op => cases op <;> rfl
  | tag op name => rfl
  | action a => rfl
  | collect op => rfl
  | bounds op => rfl
  | call name args =>
    simp only [Grammar.eval, Operator.shape]
    cases g.lookup name <;> rfl
  | direct name args =>
    simp only [Grammar.eval, Operator.shape]
    cases g.lookup name <;> rfl
  | «foreign» grammar name args =>
    simp only [Grammar.eval, Operator.shape]
    cases g.link? grammar with
    | none => rfl
    | some callee =>
      simp only
      cases callee.lookup name <;> rfl

/-- Code does what its shape says. -/
theorem Program.exec_shape (p : Program) (code : Code) (n : Nat) :
    p.exec (n + 1) code = (code.shape p).step n := by
  rw [Program.exec_succ]
  cases code with
  | sequence steps => simp only [Code.shape, Shape.step, List.map_map]; rfl
  | choice alternatives => simp only [Code.shape, Shape.step, List.map_map]; rfl
  | _ => rfl

/-- A phrase does what its shape says. -/
theorem Phrase.step_succ (x : Phrase) (n : Nat) : x.step (n + 1) = x.shape.step n := by
  cases x with
  | operator g op => exact g.eval_shape op n
  | code p c => exact p.exec_shape c n

/-! ## Operators of a shape -/

namespace Operator

variable {g : Grammar} {op : Operator}

/-- An operator with the shape of a sequence is one, and its parts are the operators in it. -/
theorem shape_eq_sequence {parts : List Phrase} (h : op.shape g = .sequence parts) :
    ∃ ops, op = .sequence ops ∧ parts = ops.map (.operator g) := by
  unfold shape at h
  (repeat' split at h) <;> cases h
  exact ⟨_, rfl, rfl⟩

/-- The shape of a choice is that of a choice only. -/
theorem shape_eq_choice {parts : List Phrase} (h : op.shape g = .choice parts) :
    ∃ ops, op = .choice ops ∧ parts = ops.map (.operator g) := by
  unfold shape at h
  (repeat' split at h) <;> cases h
  exact ⟨_, rfl, rfl⟩

/-- The shape of a repetition has its limits as they are in the operator. -/
theorem shape_eq_repetition {part : Phrase} {min : Nat} {max : Option Nat} {captures : Bool}
    (h : op.shape g = .repetition part min max captures) :
    ∃ c, op = .repetition c min max captures ∧ part = .operator g c := by
  unfold shape at h
  (repeat' split at h) <;> cases h
  exact ⟨_, rfl, rfl⟩

/-- The shape of a predicate is that of a predicate on an operator, not of one on an action. -/
theorem shape_eq_ahead {part : Phrase} (h : op.shape g = .ahead part) :
    ∃ c, op = .ahead c ∧ part = .operator g c := by
  unfold shape at h
  (repeat' split at h) <;> cases h
  exact ⟨_, rfl, rfl⟩

theorem shape_eq_notAhead {part : Phrase} (h : op.shape g = .notAhead part) :
    ∃ c, op = .notAhead c ∧ part = .operator g c := by
  unfold shape at h
  (repeat' split at h) <;> cases h
  exact ⟨_, rfl, rfl⟩

/-- A call through the memo table is a call by a name that the grammar knows. -/
theorem shape_eq_apply {rs : RuleSet} {rule : RuleId} {args : List Arg}
    (h : op.shape g = .apply rs rule args) :
    ∃ name, op = .call name args ∧ rs = .grammar g ∧ g.lookup name = some rule := by
  unfold shape at h
  (repeat' split at h) <;> cases h
  exact ⟨_, rfl, rfl, ‹_›⟩

/-- So is a call past it. -/
theorem shape_eq_invoke {rs : RuleSet} {rule : RuleId} {args : List Arg}
    (h : op.shape g = .invoke rs rule args) :
    ∃ name, op = .direct name args ∧ rs = .grammar g ∧ g.lookup name = some rule := by
  unfold shape at h
  (repeat' split at h) <;> cases h
  exact ⟨_, rfl, rfl, ‹_›⟩

/-- A call to a linked rule set is one by its name. -/
theorem shape_eq_cross {grammar : String} {rs : RuleSet} {rule : RuleId} {args : List Arg}
    (h : op.shape g = .cross grammar rs rule args) :
    ∃ name, op = .foreign grammar name args := by
  unfold shape at h
  (repeat' split at h) <;> cases h
  exact ⟨_, rfl⟩

end Operator

/-! ## Bodies -/

/-- The parameters of a rule and its body. -/
def RuleSet.phrase? (rs : RuleSet) (rule : RuleId) : Option (List String × Phrase) :=
  match rs with
  | .grammar g => g.rules[rule]?.map fun r => (r.params, .operator g r.body)
  | .program p => p.routines[rule]?.map fun r => (r.params, .code p r.body)
  | .vacant _ => none

/-- The body of a rule is run in a scope of its own. -/
theorem RuleSet.body_phrase {rs : RuleSet} {rule : RuleId} {params : List String} {x : Phrase}
    (h : rs.phrase? rule = some (params, x)) (n : Nat) (args : List Value) :
    RuleSet.body (n + 1) rs rule args = (x.step n).inScope (Scope.ofArgs params args) := by
  cases rs with
  | grammar g =>
    obtain ⟨r, hr, heq⟩ := Option.map_eq_some_iff.1 h
    cases heq
    exact RuleSet.body_grammar hr n args
  | program p =>
    obtain ⟨r, hr, heq⟩ := Option.map_eq_some_iff.1 h
    cases heq
    exact RuleSet.body_program hr n args
  | vacant name => cases h

/-- A rule without a body fails. -/
theorem RuleSet.body_phrase_none {rs : RuleSet} {rule : RuleId} (h : rs.phrase? rule = none)
    (n : Nat) (args : List Value) :
    RuleSet.body (n + 1) rs rule args = fun e => .ok (.failed, e) := by
  cases rs with
  | grammar g => exact RuleSet.body_grammar_none (Option.map_eq_none_iff.1 h) n args
  | program p => exact RuleSet.body_program_none (Option.map_eq_none_iff.1 h) n args
  | vacant name => rfl

/-! ## Tasks -/

/-- What an engine can be given to run, with the fuel to do so. -/
inductive Task where
  | apply (n : Nat) (rs : RuleSet) (rule : RuleId) (args : List Value) (e : Engine)
  | invoke (n : Nat) (rs : RuleSet) (rule : RuleId) (args : List Value) (e : Engine)
  | cross (n : Nat) (grammar : String) (rs : RuleSet) (rule : RuleId) (args : List Value) (e : Engine)
  | phrase (n : Nat) (x : Phrase) (f : Frame)

namespace Task

/-- The engine that the task is given to. -/
def engine : Task → Engine
  | .apply _ _ _ _ e | .invoke _ _ _ _ e | .cross _ _ _ _ _ e => e
  | .phrase _ _ f => f.engine

/-- The run of a task. -/
def run : Task → Run (Outcome × Engine)
  | .apply n rs rule args e => e.applyRule n rs rule args
  | .invoke n rs rule args e => e.invokeRule n rs rule args
  | .cross n grammar rs rule args e => e.callForeignRule n grammar rs rule args
  | .phrase n x f => (x.step n).inScope f.scope f.engine

/-- The task is a call of a rule. -/
def isCall : Task → Bool
  | .apply _ _ _ _ _ | .invoke _ _ _ _ _ | .cross _ _ _ _ _ _ => true
  | .phrase _ _ _ => false

end Task

/-- The phrases have run one after the other from the first frame to the second, and all of them have
    matched or all of them have failed. -/
inductive Ran (n : Nat) (matching : Bool) : List Phrase → Frame → Frame → Prop
  | nil (f : Frame) : Ran n matching [] f f
  | cons {x : Phrase} {xs : List Phrase} {f m g : Frame} {o : Outcome} (h : x.step n f = .ok (o, m))
      (ho : o.isMatched = matching) (hs : Ran n matching xs m g) : Ran n matching (x :: xs) f g

/-- From the engine `e`, the rule of the key has grown to the match up to `best` with `value`, and has left
    the last engine. -/
inductive GrownTo (r : Runner) (key : Key) (e : Engine) : Nat → Value → Engine → Prop
  | seed {m : Engine} {stop : Nat} {value : Value}
      (h : (e.opening key).invoke r key.rule key.args = .ok (.matched stop value, m)) :
      GrownTo r key e stop value (m.settle key (.matched stop value))
  | longer {e' m : Engine} {best stop : Nat} {value longer : Value}
      (h : GrownTo r key e best value e')
      (hround : (e'.regrowing key best value).invoke r key.rule key.args = .ok (.matched stop longer, m))
      (hlonger : best < stop) : GrownTo r key e stop longer (m.settle key (.matched stop longer))

/-- The first task, as it runs, runs the second one next or after others. -/
inductive Starts : Task → Task → Prop
  /-- A call through the memo table, of a rule without an entry. -/
  | first {n : Nat} {rs : RuleSet} {rule : RuleId} {args : List Value} {e : Engine}
      (hfind : e.memo.find? ⟨rule, e.pos, args⟩ = none) :
      Starts (.apply n rs rule args e) (.invoke n rs rule args (e.opening ⟨rule, e.pos, args⟩))
  /-- A rule that grows. -/
  | again {n : Nat} {rs : RuleSet} {rule : RuleId} {args : List Value} {e e' : Engine} {best : Nat}
      {value : Value} (hfind : e.memo.find? ⟨rule, e.pos, args⟩ = none)
      (hgrown : GrownTo (rs.runner n) ⟨rule, e.pos, args⟩ e best value e') :
      Starts (.apply n rs rule args e)
        (.invoke n rs rule args (e'.regrowing ⟨rule, e.pos, args⟩ best value))
  | body {n : Nat} {rs : RuleSet} {rule : RuleId} {args : List Value} {e : Engine}
      {params : List String} {x : Phrase} (hbody : rs.phrase? rule = some (params, x)) :
      Starts (.invoke (n + 1) rs rule args e)
        (.phrase n x ⟨e.attempting (rs.runner (n + 1)) rule, Scope.ofArgs params args⟩)
  | linked {n : Nat} {grammar : String} {rs : RuleSet} {rule : RuleId} {args : List Value}
      {e : Engine} : Starts (.cross n grammar rs rule args e)
        (.apply n rs rule args (e.crossing (rs.runner n) grammar rule))
  | ofSequence {n : Nat} {x part : Phrase} {before after : List Phrase} {f g : Frame}
      (hx : x.shape = .sequence (before ++ part :: after)) (hran : Ran n true before f g) :
      Starts (.phrase (n + 1) x f) (.phrase n part g)
  | ofChoice {n : Nat} {x part : Phrase} {before after : List Phrase} {f g : Frame}
      (hx : x.shape = .choice (before ++ part :: after)) (hran : Ran n false before f g) :
      Starts (.phrase (n + 1) x f) (.phrase n part g)
  | ofRepetition {n k min : Nat} {max : Option Nat} {captures : Bool} {x part : Phrase} {f g : Frame}
      (hx : x.shape = .repetition part min max captures)
      (hran : Ran n true (List.replicate k part) f g) :
      Starts (.phrase (n + 1) x f) (.phrase n part g)
  /-- A predicate or a binding. -/
  | ofPart {n : Nat} {x part : Phrase} {f : Frame} (hx : x.shape.part? = some part) :
      Starts (.phrase (n + 1) x f) (.phrase n part f)
  | ofApply {n : Nat} {x : Phrase} {rs : RuleSet} {rule : RuleId} {args : List Arg} {f : Frame}
      (hx : x.shape = .apply rs rule args) :
      Starts (.phrase (n + 1) x f) (.apply n rs rule (f.scope.resolve args) f.engine)
  | ofInvoke {n : Nat} {x : Phrase} {rs : RuleSet} {rule : RuleId} {args : List Arg} {f : Frame}
      (hx : x.shape = .invoke rs rule args) :
      Starts (.phrase (n + 1) x f) (.invoke n rs rule (f.scope.resolve args) f.engine)
  | ofCross {n : Nat} {x : Phrase} {grammar : String} {rs : RuleSet} {rule : RuleId}
      {args : List Arg} {f : Frame} (hx : x.shape = .cross grammar rs rule args) :
      Starts (.phrase (n + 1) x f) (.cross n grammar rs rule (f.scope.resolve args) f.engine)

/-- The first task, as it runs, runs the second one, or is it. -/
abbrev Task.Runs : Task → Task → Prop := Relation.ReflTransGen Starts

/-! ## Errors have a cause -/

/-- The run of the task runs a phrase without parts that ends without an outcome. -/
def Task.HasCause (t : Task) (stop : Stop) : Prop :=
  ∃ n x l f, t.Runs (.phrase (n + 1) x f) ∧ x.shape = .leaf l ∧ l.step f = .error stop

/-- What is the cause of an error of a task is one of the task that has started it. -/
theorem Task.HasCause.of_starts {t t' : Task} {stop : Stop} (h : Starts t t')
    (hcause : t'.HasCause stop) : t.HasCause stop := by
  obtain ⟨n, x, l, f, hruns, hleaf⟩ := hcause
  exact ⟨n, x, l, f, .head h hruns, hleaf⟩

omit [RegexLibrary] in
/-- A run that goes on has stopped before that or after it. -/
theorem bind_eq_error {α β : Type} {x : Run α} {k : α → Run β} {stop : Stop}
    (h : x >>= k = .error stop) : x = .error stop ∨ ∃ a, x = .ok a ∧ k a = .error stop := by
  cases x with
  | error other => cases h; exact .inl rfl
  | ok a => exact .inr ⟨a, rfl, h⟩

omit [RegexLibrary] in
/-- What is made of a result cannot be in error if the result is not. -/
theorem map_eq_error {α β : Type} {x : Run α} {k : α → β} {stop : Stop}
    (h : x.map k = .error stop) : x = .error stop := by
  cases x with
  | error other => cases h; rfl
  | ok a => cases h

namespace Step

variable {n : Nat} {stop : Stop}

/-- A sequence stops in one of its parts, after parts that have matched. -/
theorem sequenceFrom_eq_error {start : Frame} : ∀ {parts : List Phrase} {value : Value} {f : Frame},
    sequenceFrom start (parts.map (Phrase.step n)) value f = .error stop →
      ∃ before part after g, parts = before ++ part :: after ∧ Ran n true before f g ∧
        part.step n g = .error stop := by
  intro parts
  induction parts with
  | nil => intro value f h; cases h
  | cons x xs ih =>
    intro value f h
    rcases bind_eq_error h with h | ⟨⟨o, m⟩, hx, h⟩
    · exact ⟨[], x, xs, f, rfl, .nil f, h⟩
    · cases o with
      | failed => cases h
      | matched stop v =>
        obtain ⟨before, part, after, g, rfl, hran, hpart⟩ := ih h
        exact ⟨x :: before, part, after, g, rfl, .cons hx rfl hran, hpart⟩

/-- A choice stops in one of its alternatives, after alternatives that have failed. -/
theorem choice_eq_error : ∀ {parts : List Phrase} {f : Frame},
    choice (parts.map (Phrase.step n)) f = .error stop →
      ∃ before part after g, parts = before ++ part :: after ∧ Ran n false before f g ∧
        part.step n g = .error stop := by
  intro parts
  induction parts with
  | nil => intro f h; cases h
  | cons x xs ih =>
    intro f h
    rcases bind_eq_error h with h | ⟨⟨o, m⟩, hx, h⟩
    · exact ⟨[], x, xs, f, rfl, .nil f, h⟩
    · cases o with
      | matched stop v => cases h
      | failed =>
        obtain ⟨before, part, after, g, rfl, hran, hpart⟩ := ih h
        exact ⟨x :: before, part, after, g, rfl, .cons hx rfl hran, hpart⟩

/-- A repetition stops for lack of fuel, or in a round after rounds that have matched. -/
theorem rounds_eq_error {part : Phrase} (hstop : stop ≠ .outOfFuel) :
    ∀ {fuel : Nat} {left : Option Nat} {values : List Value} {f : Frame},
      rounds (part.step n) fuel left values f = .error stop →
        ∃ k g, Ran n true (List.replicate k part) f g ∧ part.step n g = .error stop := by
  intro fuel
  induction fuel with
  | zero => intro left values f h; cases h; exact absurd rfl hstop
  | succ fuel ih =>
    intro left values f h
    unfold rounds at h
    split at h
    · cases h
    · rcases bind_eq_error h with h | ⟨⟨o, m⟩, hx, h⟩
      · exact ⟨0, f, .nil f, h⟩
      · cases o with
        | failed => cases h
        | matched stop v =>
          simp only at h
          split at h
          · cases h
          · obtain ⟨k, g, hran, hpart⟩ := ih h
            exact ⟨k + 1, g, .cons hx rfl hran, hpart⟩

end Step

/-- A predicate and a binding stop where their part does. -/
theorem Shape.part_eq_error {n : Nat} {stop : Stop} {s : Shape} {part : Phrase} {f : Frame}
    (hpart : s.part? = some part) (h : s.step n f = .error stop) : part.step n f = .error stop := by
  cases s with
  | ahead p | notAhead p | tag p name | collect p | bounds p =>
    cases hpart
    -- Nothing that is done with the outcome of the part can stop.
    rcases bind_eq_error h with h | ⟨⟨o, m⟩, -, h⟩
    · exact h
    · cases o <;> cases h
  | _ => cases hpart

omit [RegexLibrary] in
/-- A growing rule stops for lack of fuel, or in one of its rounds. -/
theorem Engine.growFrom_eq_error {r : Runner} {key : Key} {start : Engine} {stop : Stop}
    (hstop : stop ≠ .outOfFuel) : ∀ {fuel best : Nat} {value : Value} {e : Engine},
      e.growFrom r key fuel best value = .error stop → GrownTo r key start best value e →
        ∃ best' value' e', GrownTo r key start best' value' e' ∧
          (e'.regrowing key best' value').invoke r key.rule key.args = .error stop := by
  intro fuel
  induction fuel with
  | zero => intro best value e h; cases h; exact absurd rfl hstop
  | succ fuel ih =>
    intro best value e h hgrown
    rcases bind_eq_error h with h | ⟨⟨o, m⟩, hround, h⟩
    · exact ⟨best, value, e, hgrown, h⟩
    · cases o with
      | failed => cases h
      | matched stop longer =>
        simp only at h
        split at h
        case isTrue hlonger => exact ih h (.longer hgrown hround hlonger)
        case isFalse => cases h

namespace Task

variable {n : Nat} {stop : Stop}

/-- Errors of phrases with this much fuel, and of calls, have a cause. -/
def CausesBelow (n : Nat) (stop : Stop) : Prop :=
  (∀ x f, x.step n f = .error stop → (Task.phrase n x f).HasCause stop) ∧
  ∀ rs rule args e, e.invokeRule n rs rule args = .error stop →
    (Task.invoke n rs rule args e).HasCause stop

/-- A call stops in the body of its rule, at first or as it grows. -/
theorem apply_hasCause (hstop : stop ≠ .outOfFuel) (h : CausesBelow n stop) {rs : RuleSet}
    {rule : RuleId} {args : List Value} {e : Engine}
    (hrun : e.applyRule n rs rule args = .error stop) :
    (Task.apply n rs rule args e).HasCause stop := by
  simp only [Engine.applyRule, Engine.apply] at hrun
  cases hfind : e.memo.find? ⟨rule, e.pos, args⟩ with
  | some entry => rw [hfind] at hrun; cases hrun
  | none =>
    rw [hfind] at hrun
    rcases bind_eq_error hrun with hrun | ⟨⟨o, m⟩, hfirst, hrun⟩
    · exact .of_starts (.first hfind) (h.2 _ _ _ _ hrun)
    · cases o with
      | failed => cases hrun
      | matched stop v =>
        simp only at hrun
        split at hrun
        case isFalse => cases hrun
        case isTrue =>
          -- The seed has matched, and the rule has called itself: one of the rounds stops.
          rw [Engine.grow_settled (rs.runner_retains n) hfirst] at hrun
          obtain ⟨best, value, e', hgrown, hround⟩ := Engine.growFrom_eq_error hstop hrun (.seed hfirst)
          exact .of_starts (.again hfind hgrown) (h.2 _ _ _ _ hround)

/-- A call to a linked rule set stops in the call that it makes there. -/
theorem cross_hasCause (hstop : stop ≠ .outOfFuel) (h : CausesBelow n stop) {grammar : String}
    {rs : RuleSet} {rule : RuleId} {args : List Value} {e : Engine}
    (hrun : e.callForeignRule n grammar rs rule args = .error stop) :
    (Task.cross n grammar rs rule args e).HasCause stop := by
  rw [Engine.callForeignRule, Engine.callForeign_eq] at hrun
  exact .of_starts .linked (apply_hasCause hstop h (map_eq_error hrun))

/-- A phrase stops in one of its parts, unless it has none. -/
theorem phrase_hasCause (hstop : stop ≠ .outOfFuel) (h : CausesBelow n stop) {x : Phrase}
    {f : Frame} (hrun : x.step (n + 1) f = .error stop) :
    (Task.phrase (n + 1) x f).HasCause stop := by
  rw [Phrase.step_succ] at hrun
  -- A phrase with one part, run where the phrase is run, stops where the part does.
  have single : ∀ {part : Phrase}, x.shape.part? = some part →
      (Task.phrase (n + 1) x f).HasCause stop := fun hpart =>
    .of_starts (.ofPart hpart) (h.1 _ _ (Shape.part_eq_error hpart hrun))
  cases hx : x.shape with
  | leaf l =>
    rw [hx] at hrun
    exact ⟨n, x, l, f, .refl, hx, hrun⟩
  | sequence parts =>
    rw [hx] at hrun
    obtain ⟨before, part, after, g, rfl, hran, hpart⟩ := Step.sequenceFrom_eq_error hrun
    exact .of_starts (.ofSequence hx hran) (h.1 _ _ hpart)
  | choice parts =>
    rw [hx] at hrun
    obtain ⟨before, part, after, g, rfl, hran, hpart⟩ := Step.choice_eq_error hrun
    exact .of_starts (.ofChoice hx hran) (h.1 _ _ hpart)
  | repetition part min max captures =>
    rw [hx] at hrun
    rcases bind_eq_error hrun with hrun | ⟨⟨values, m⟩, -, hrun⟩
    · obtain ⟨k, g, hran, hpart⟩ := Step.rounds_eq_error hstop hrun
      exact .of_starts (.ofRepetition hx hran) (h.1 _ _ hpart)
    · simp only at hrun
      split at hrun <;> cases hrun
  | ahead p => exact single (by rw [hx]; rfl)
  | notAhead p => exact single (by rw [hx]; rfl)
  | tag p name => exact single (by rw [hx]; rfl)
  | collect p => exact single (by rw [hx]; rfl)
  | bounds p => exact single (by rw [hx]; rfl)
  | apply rs rule args =>
    rw [hx] at hrun
    rcases bind_eq_error hrun with hrun | ⟨_, -, hrun⟩
    · exact .of_starts (.ofApply hx) (apply_hasCause hstop h hrun)
    · cases hrun
  | invoke rs rule args =>
    rw [hx] at hrun
    rcases bind_eq_error hrun with hrun | ⟨_, -, hrun⟩
    · exact .of_starts (.ofInvoke hx) (h.2 _ _ _ _ hrun)
    · cases hrun
  | cross grammar rs rule args =>
    rw [hx] at hrun
    rcases bind_eq_error hrun with hrun | ⟨_, -, hrun⟩
    · exact .of_starts (.ofCross hx) (cross_hasCause hstop h hrun)
    · cases hrun

/-- By induction on fuel, phrases first and then the bodies that are made of them. -/
theorem causesBelow (hstop : stop ≠ .outOfFuel) : ∀ n, CausesBelow n stop := by
  intro n
  induction n with
  | zero =>
    refine ⟨fun x f hrun => ?_, fun rs rule args e hrun => ?_⟩
    · cases x <;> (cases hrun; exact absurd rfl hstop)
    · cases hrun
      exact absurd rfl hstop
  | succ n ih =>
    refine ⟨fun x f hrun => phrase_hasCause hstop ih hrun, fun rs rule args e hrun => ?_⟩
    rw [Engine.invokeRule, Engine.invoke_eq] at hrun
    have hbody := map_eq_error hrun
    simp only [RuleSet.runner] at hbody
    cases hx : rs.phrase? rule with
    | none => rw [RuleSet.body_phrase_none hx] at hbody; cases hbody
    | some bound =>
      obtain ⟨params, x⟩ := bound
      rw [RuleSet.body_phrase hx] at hbody
      exact .of_starts (.body hx) (ih.1 _ _ (map_eq_error hbody))

/-- **Errors have a cause.**  A task that ends without an outcome, though it does not lack fuel, runs a
    phrase without parts that does. -/
theorem cause {t : Task} (hstop : stop ≠ .outOfFuel) (h : t.run = .error stop) : t.HasCause stop := by
  cases t with
  | apply n rs rule args e => exact apply_hasCause hstop (causesBelow hstop n) h
  | invoke n rs rule args e => exact (causesBelow hstop n).2 _ _ _ _ h
  | cross n grammar rs rule args e => exact cross_hasCause hstop (causesBelow hstop n) h
  | phrase n x f => exact (causesBelow hstop n).1 _ _ (map_eq_error h)

end Task

end MemoPeg
