import MemoPeg.Evaluation.ClosureLaws

/-
  More fuel changes nothing.

  Runs are defined with fuel, since a rule may call itself for ever.  Everything that is to be said of
  rules and texts would be about a number of steps as well, were it not for this module.

  1. **Statement** — a run that ends for any other reason than lack of fuel ends in the same way with
     more fuel (`RuleSet.noLater`, `Engine.applyRule_of_le`).  So the outcome of a run is a fact
     about the rules and the text, and fuel only bounds how long we look for it.
  2. **Relation** — `NoLater` relates a run to one with more fuel: the second ends as the first, unless
     the first has used up its fuel.  A run that goes on with a result keeps the relation if what it
     goes on with does (`NoLater.bind`), and a run without fuel is related to every other.
  3. **Parts** — every way of making a step from others keeps the relation, and so does every call.
     Growth and repetition are loops with fuel of their own, and are followed round by round.
  4. **The crux (`RuleSet.noLater`)** — a body needs its operator or its code with less fuel, and these
     need the bodies of the rules that they call with less fuel.  One induction on the fuel carries all
     three facts.

  Two runs with fuel need not be compared at the same fuel: each ends with some amount, and both end as they
  do with the larger one.  This is how two results of one task are shown to be equal (`Ends.unique`).
-/

namespace MemoPeg

/-- The second run ends as the first, unless the first lacked fuel. -/
def NoLater {α : Type} (x y : Run α) : Prop := x ≠ .error .outOfFuel → y = x

namespace NoLater

/-- A run ends no later than it does itself. -/
theorem refl {α : Type} (x : Run α) : NoLater x x := fun _ => rfl

/-- A run without fuel has not ended at all. -/
theorem starved {α : Type} (y : Run α) : NoLater (.error .outOfFuel) y := fun h => absurd rfl h

/-- What goes on with the same result ends no later either. -/
theorem bind {α β : Type} {x y : Run α} {k l : α → Run β} (h : NoLater x y)
    (hk : ∀ a, NoLater (k a) (l a)) : NoLater (x >>= k) (y >>= l) := by
  intro hx
  cases x with
  | error stop =>
    have hne : (Except.error stop : Run α) ≠ .error .outOfFuel := fun heq => by
      cases heq; exact hx rfl
    rw [h hne]
    rfl
  | ok a =>
    rw [h (by simp)]
    exact hk a hx

end NoLater

/-- The second step ends as the first, unless the first lacks fuel. -/
def Step.NoLater (s t : Step) : Prop := ∀ f, MemoPeg.NoLater (s f) (t f)

/-- The bodies of the second runner end as those of the first, unless those lack fuel. -/
def Runner.NoLater (r s : Runner) : Prop :=
  r.nameOf = s.nameOf ∧ ∀ rule args e, MemoPeg.NoLater (r.body rule args e) (s.body rule args e)

/-! ## Calls -/

namespace Engine

/-- Running a body takes no fuel of its own. -/
theorem invoke_noLater {r s : Runner} (h : r.NoLater s) (rule : RuleId) (args : List Value)
    (e : Engine) : NoLater (e.invoke r rule args) (e.invoke s rule args) := by
  unfold invoke
  rw [h.1]
  exact (h.2 rule args _).bind fun _ => .refl _

/-- A growth has a round for each piece of fuel, and each round is a run of the body. -/
theorem grow_noLater {r s : Runner} (h : r.NoLater s) (key : Key) :
    ∀ (m n : Nat), m ≤ n → ∀ e : Engine, NoLater (e.grow r key m) (e.grow s key n)
  | 0, _, _, _ => .starved _
  | m + 1, n + 1, hmn, e => by
    unfold grow
    cases e.memo.find? key with
    | none => exact .refl _
    | some entry =>
      refine (invoke_noLater h key.rule key.args _).bind fun result => ?_
      obtain ⟨outcome, after⟩ := result
      cases outcome with
      | failed => exact .refl _
      | matched stop value =>
        simp only
        split
        · exact grow_noLater h key m n (by omega) _
        · exact .refl _

/-- A call runs the body once and may then grow. -/
theorem apply_noLater {r s : Runner} (h : r.NoLater s) {m n : Nat} (hmn : m ≤ n) (rule : RuleId)
    (args : List Value) (e : Engine) : NoLater (e.apply r m rule args) (e.apply s n rule args) := by
  simp only [apply]
  cases e.memo.find? ⟨rule, e.pos, args⟩ with
  | some entry => exact .refl _
  | none =>
    refine (invoke_noLater h rule args _).bind fun result => ?_
    obtain ⟨outcome, after⟩ := result
    cases outcome with
    | failed => exact .refl _
    | matched stop value =>
      simp only
      split
      · exact grow_noLater h _ m n hmn _
      · exact .refl _

/-- A call to a linked rule set is a call in another engine. -/
theorem callForeign_noLater {r s : Runner} (h : r.NoLater s) {m n : Nat} (hmn : m ≤ n)
    (grammar : String) (rule : RuleId) (args : List Value) (e : Engine) :
    NoLater (e.callForeign r m grammar rule args) (e.callForeign s n grammar rule args) := by
  unfold callForeign
  rw [h.1]
  exact (apply_noLater h hmn rule args _).bind fun _ => .refl _

end Engine

/-! ## Steps -/

namespace Step

/-- A step ends no later than it does itself. -/
theorem NoLater.refl (s : Step) : s.NoLater s := fun f => .refl (s f)

/-- The steps of the second row end as those of the first, unless those lack fuel. -/
def RowNoLater : List Step → List Step → Prop
  | [], [] => True
  | s :: ss, t :: ts => s.NoLater t ∧ RowNoLater ss ts
  | _, _ => False

/-- A row of steps, each of which ends no later. -/
theorem rowNoLater_map {α : Type} {s t : α → Step} (h : ∀ a, (s a).NoLater (t a)) :
    ∀ xs : List α, RowNoLater (xs.map s) (xs.map t)
  | [] => trivial
  | x :: xs => ⟨h x, rowNoLater_map h xs⟩

/-- A sequence runs as far as its parts do. -/
theorem sequenceFrom_noLater (start : Frame) : ∀ {ss ts : List Step}, RowNoLater ss ts →
    ∀ (value : Value), (sequenceFrom start ss value).NoLater (sequenceFrom start ts value)
  | [], [], _, _ => .refl _
  | s :: ss, t :: ts, h, value => fun f => by
    unfold sequenceFrom
    refine (h.1 f).bind fun result => ?_
    obtain ⟨outcome, after⟩ := result
    cases outcome with
    | failed => exact .refl _
    | matched stop value => exact sequenceFrom_noLater start h.2 value after

theorem sequence_noLater {ss ts : List Step} (h : RowNoLater ss ts) :
    (sequence ss).NoLater (sequence ts) := fun f => sequenceFrom_noLater f h .nil f

/-- A choice tries as many alternatives. -/
theorem choice_noLater : ∀ {ss ts : List Step}, RowNoLater ss ts → (choice ss).NoLater (choice ts)
  | [], [], _ => .refl _
  | s :: ss, t :: ts, h => fun f => by
    unfold choice
    refine (h.1 f).bind fun result => ?_
    obtain ⟨outcome, after⟩ := result
    cases outcome with
    | matched stop value => exact .refl _
    | failed => exact choice_noLater h.2 after

/-- A repetition has a round for each piece of fuel. -/
theorem rounds_noLater {s t : Step} (h : s.NoLater t) :
    ∀ (m n : Nat), m ≤ n → ∀ (left : Option Nat) (values : List Value) (f : Frame),
      MemoPeg.NoLater (rounds s m left values f) (rounds t n left values f)
  | 0, _, _, _, _, _ => .starved _
  | m + 1, n + 1, hmn, left, values, f => by
    unfold rounds
    split
    · exact .refl _
    · refine (h f).bind fun result => ?_
      obtain ⟨outcome, after⟩ := result
      cases outcome with
      | failed => exact .refl _
      | matched stop value =>
        simp only
        split
        · exact .refl _
        · exact rounds_noLater h m n (by omega) _ _ after

theorem repetition_noLater {s t : Step} (h : s.NoLater t) {m n : Nat} (hmn : m ≤ n) (min : Nat)
    (max : Option Nat) (captures : Bool) :
    (repetition s min max captures m).NoLater (repetition t min max captures n) := fun f =>
  (rounds_noLater h m n hmn max [] f).bind fun _ => .refl _

/-- Predicates and bindings look at the outcome of one part. -/
theorem ahead_noLater {s t : Step} (h : s.NoLater t) : (ahead s).NoLater (ahead t) := fun f =>
  (h f).bind fun _ => .refl _

theorem notAhead_noLater {s t : Step} (h : s.NoLater t) : (notAhead s).NoLater (notAhead t) :=
  fun f => (h f).bind fun _ => .refl _

theorem binding_noLater {s t : Step} (h : s.NoLater t) (name : String)
    (value : Frame → Nat → Value → Value) :
    (binding s name value).NoLater (binding t name value) := fun f => (h f).bind fun _ => .refl _

/-- A call step is the call with its arguments resolved. -/
theorem call_noLater {s t : List Value → Engine → Run (Outcome × Engine)}
    (h : ∀ args e, MemoPeg.NoLater (s args e) (t args e)) (args : List Arg) :
    (call s args).NoLater (call t args) := fun f => (h _ f.engine).bind fun _ => .refl _

end Step

/-! ## Rule sets -/

section

variable [RegexLibrary]

variable {m n : Nat} (hmn : m ≤ n)
  (bodies : ∀ rs : RuleSet, (rs.runner m).NoLater (rs.runner n))
include hmn bodies

/-- Operators of a grammar, if bodies and operators do with less fuel. -/
theorem Grammar.eval_succ_noLater (g : Grammar) (part : ∀ op, (g.eval m op).NoLater (g.eval n op))
    (op : Operator) : (g.eval (m + 1) op).NoLater (g.eval (n + 1) op) := by
  cases op with
  | any => exact .refl _
  | literal s => exact .refl _
  | pattern p => exact .refl _
  | range lo hi => exact .refl _
  | sequence ops => exact Step.sequence_noLater (Step.rowNoLater_map part ops)
  | choice ops => exact Step.choice_noLater (Step.rowNoLater_map part ops)
  | repetition op min max captures => exact Step.repetition_noLater (part op) hmn min max captures
  | ahead op =>
    cases op with
    | action a => exact .refl _
    | _ => exact Step.ahead_noLater (part _)
  | notAhead op =>
    cases op with
    | action a => exact .refl _
    | _ => exact Step.notAhead_noLater (part _)
  | tag op name => exact Step.binding_noLater (part op) _ _
  | action a => exact .refl _
  | collect op => exact Step.binding_noLater (part op) _ _
  | bounds op => exact Step.binding_noLater (part op) _ _
  | call name args =>
    simp only [Grammar.eval]
    cases g.lookup name with
    | none => exact .refl _
    | some rule =>
      exact Step.call_noLater (fun _ _ => Engine.apply_noLater (bodies _) hmn rule _ _) args
  | direct name args =>
    simp only [Grammar.eval]
    cases g.lookup name with
    | none => exact .refl _
    | some rule => exact Step.call_noLater (fun _ _ => Engine.invoke_noLater (bodies _) rule _ _) args
  | «foreign» grammar name args =>
    simp only [Grammar.eval]
    cases g.link? grammar with
    | none => exact .refl _
    | some callee =>
      simp only
      cases callee.lookup name with
      | none => exact .refl _
      | some rule =>
        exact Step.call_noLater
          (fun _ _ => Engine.callForeign_noLater (bodies callee) hmn grammar rule _ _) args

/-- Code, if bodies and code do with less fuel. -/
theorem Program.exec_succ_noLater (p : Program)
    (part : ∀ code, (p.exec m code).NoLater (p.exec n code)) (code : Code) :
    (p.exec (m + 1) code).NoLater (p.exec (n + 1) code) := by
  rw [Program.exec_succ, Program.exec_succ]
  cases code with
  | any => exact .refl _
  | literal s => exact .refl _
  | scan m => exact .refl _
  | range lo hi => exact .refl _
  | sequence steps => exact Step.sequence_noLater (Step.rowNoLater_map part steps)
  | choice alternatives => exact Step.choice_noLater (Step.rowNoLater_map part alternatives)
  | repetition body min max captures =>
    exact Step.repetition_noLater (part body) hmn min max captures
  | ahead body => exact Step.ahead_noLater (part body)
  | notAhead body => exact Step.notAhead_noLater (part body)
  | test a wanted => exact .refl _
  | tag body name => exact Step.binding_noLater (part body) _ _
  | action a => exact .refl _
  | collect body => exact Step.binding_noLater (part body) _ _
  | bounds body => exact Step.binding_noLater (part body) _ _
  | apply rule args =>
    exact Step.call_noLater (fun _ _ => Engine.apply_noLater (bodies _) hmn rule _ _) args
  | invoke rule args =>
    exact Step.call_noLater (fun _ _ => Engine.invoke_noLater (bodies _) rule _ _) args
  | «foreign» grammar callee rule args =>
    exact Step.call_noLater
      (fun _ _ => Engine.callForeign_noLater (bodies callee) hmn grammar rule _ _) args
  | fail => exact .refl _

end

variable [RegexLibrary]

/-- Bodies, if operators and code do with less fuel. -/
theorem RuleSet.body_succ_noLater {m n : Nat}
    (ops : ∀ (g : Grammar) op, (g.eval m op).NoLater (g.eval n op))
    (codes : ∀ (p : Program) code, (p.exec m code).NoLater (p.exec n code)) (rs : RuleSet)
    (rule : RuleId) (args : List Value) (e : Engine) :
    NoLater (rs.body (m + 1) rule args e) (rs.body (n + 1) rule args e) := by
  cases rs with
  | vacant name => exact .refl _
  | grammar g =>
    simp only [RuleSet.body]
    cases g.rules[rule]? with
    | none => exact .refl _
    | some r => exact (ops g r.body _).bind fun _ => .refl _
  | program p =>
    simp only [RuleSet.body]
    cases p.routines[rule]? with
    | none => exact .refl _
    | some r => exact (codes p r.body _).bind fun _ => .refl _

/-- **More fuel changes nothing**, of bodies, of operators and of code. -/
theorem RuleSet.noLater {m n : Nat} (hmn : m ≤ n) :
    (∀ (rs : RuleSet) rule args e, NoLater (rs.body m rule args e) (rs.body n rule args e)) ∧
    (∀ (g : Grammar) op, (g.eval m op).NoLater (g.eval n op)) ∧
    ∀ (p : Program) code, (p.exec m code).NoLater (p.exec n code) := by
  induction m generalizing n with
  | zero => exact ⟨fun _ _ _ _ => .starved _, fun _ _ _ => .starved _, fun _ _ _ => .starved _⟩
  | succ m ih =>
    cases n with
    | zero => omega
    | succ n =>
      have hle : m ≤ n := by omega
      obtain ⟨bodies, ops, codes⟩ := ih hle
      have runners : ∀ rs : RuleSet, (rs.runner m).NoLater (rs.runner n) := fun rs =>
        ⟨rfl, bodies rs⟩
      exact ⟨RuleSet.body_succ_noLater ops codes,
        fun g => Grammar.eval_succ_noLater hle runners g (ops g),
        fun p => Program.exec_succ_noLater hle runners p (codes p)⟩

/-- More fuel does not change how an operator of a grammar ends. -/
theorem Grammar.eval_noLater (m n : Nat) (hmn : m ≤ n) (g : Grammar) (op : Operator) :
    (g.eval m op).NoLater (g.eval n op) := (RuleSet.noLater hmn).2.1 g op

/-- The bodies of a rule set end no later with less fuel. -/
theorem RuleSet.runner_noLater {m n : Nat} (hmn : m ≤ n) (rs : RuleSet) :
    (rs.runner m).NoLater (rs.runner n) := ⟨rfl, (RuleSet.noLater hmn).1 rs⟩

/-- A rule applied with more fuel answers as before. -/
theorem Engine.applyRule_of_le {m n : Nat} (hmn : m ≤ n) {rs : RuleSet} {rule : RuleId}
    {args : List Value} {e : Engine} {result : Outcome × Engine}
    (h : e.applyRule m rs rule args = .ok result) : e.applyRule n rs rule args = .ok result := by
  have key : e.applyRule n rs rule args = e.applyRule m rs rule args :=
    Engine.apply_noLater (RuleSet.runner_noLater hmn rs) hmn rule args e
      (by rw [show e.apply (rs.runner m) m rule args = .ok result from h]; simp)
  rw [key, h]

/-- A rule that answers with some fuel has that answer only. -/
theorem Engine.applyRule_unique {m n : Nat} {rs : RuleSet} {rule : RuleId} {args : List Value}
    {e : Engine} {result result' : Outcome × Engine} (h : e.applyRule m rs rule args = .ok result)
    (h' : e.applyRule n rs rule args = .ok result') : result = result' := by
  have hmax := Engine.applyRule_of_le (Nat.le_max_left m n) h
  have hmax' := Engine.applyRule_of_le (Nat.le_max_right m n) h'
  exact Except.ok.inj (hmax.symm.trans hmax')

end MemoPeg
