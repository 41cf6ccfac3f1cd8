import MemoPeg.Proofs.Calls
import MemoPeg.Proofs.Records

/-
  Two grammars in lockstep.

  1. **Ends (`Ends`)** — a run that takes fuel ends with a result once it has enough.
  2. **Specification (`Follows`)** — a step FOLLOWS another one through a relation of frames: whenever the
     other ends, it ends with the same outcome in a related frame.  The history of the step that is
     followed may be assumed to satisfy a condition that older histories satisfy as well.
  3. **The crux (`Lockstep.eval`)** — every way of making a step keeps this, so two translations of one
     operator follow each other as soon as their calls do.
  4. **Calls** — bodies, calls past the memo table and calls into linked rule sets follow in turn.  Calls
     through the memo table are left to the user of this module: it is where engines differ.

  Fuel is on one side only.  The step that is followed has ended, and so has used some; the one that
  follows needs to end with all amounts from some bound on, for else the bounds of its parts could not be
  put together.  Equality for equal fuel would be too much to ask: the two grammars may differ in how deep
  they go.

  The condition on histories is for what a run has not done.  That no rule was re-entered, say, is known
  of the whole run from its end, and is handed back to each part, which has a history that this one goes
  on from.
-/

namespace MemoPeg

/-! ## Runs with enough fuel -/

/-- With enough fuel the run ends with the result. -/
def Ends {α : Type} (x : Nat → Run α) (result : α) : Prop := ∃ m, ∀ n, m ≤ n → x n = .ok result

namespace Ends

variable {α β : Type} {x y : Nat → Run α} {a b : α}

/-- A run that does not depend on fuel ends with what it answers. -/
theorem const {x : Run α} (h : x = .ok a) : Ends (fun _ => x) a := ⟨0, fun _ _ => h⟩

/-- Runs that end, in succession, end: the greater bound serves both. -/
theorem bind {k : Nat → α → Run β} {r : β} (hx : Ends x a) (hk : Ends (fun n => k n a) r) :
    Ends (fun n => x n >>= k n) r := by
  obtain ⟨m, hm⟩ := hx
  obtain ⟨m', hm'⟩ := hk
  refine ⟨max m m', fun n hn => ?_⟩
  show x n >>= k n = .ok r
  rw [hm n (by omega)]
  exact hm' n (by omega)

/-- A run that ends does so when its answer is handed on by a function. -/
theorem map (f : α → β) (hx : Ends x a) : Ends (fun n => (x n).map f) (f a) := by
  obtain ⟨m, hm⟩ := hx
  refine ⟨m, fun n hn => ?_⟩
  show (x n).map f = .ok (f a)
  rw [hm n hn]
  rfl

/-- One unit of fuel more at the start does no harm. -/
theorem of_succ (h : Ends (fun n => x (n + 1)) a) : Ends x a := by
  obtain ⟨m, hm⟩ := h
  refine ⟨m + 1, fun n hn => ?_⟩
  obtain ⟨k, rfl⟩ : ∃ k, n = k + 1 := ⟨n - 1, by omega⟩
  exact hm k (by omega)

/-- One unit of fuel may be left out, since all greater amounts will do. -/
theorem succ (h : Ends x a) : Ends (fun n => x (n + 1)) a := by
  obtain ⟨m, hm⟩ := h
  exact ⟨m, fun n hn => hm (n + 1) (by omega)⟩

/-- A run ends with one answer: any amount of fuel above both bounds gives both. -/
theorem unique (h : Ends x a) (k : Ends x b) : a = b := by
  obtain ⟨m, hm⟩ := h
  obtain ⟨m', hm'⟩ := k
  have hab := (hm (max m m') (by omega)).symm.trans (hm' (max m m') (by omega))
  exact Except.ok.inj hab

/-- A run that more fuel does not change ends as soon as it ends once. -/
theorem of_noLater (hx : ∀ m n, m ≤ n → NoLater (x m) (x n)) {m : Nat} (h : x m = .ok a) :
    Ends x a := by
  refine ⟨m, fun n hn => ?_⟩
  rw [hx m n hn (by rw [h]; exact fun heq => by cases heq), h]

end Ends

/-! ## Following -/

/-- Frames in lockstep: they stand at the same place, and what one step does to both keeps them so.
    The condition on histories is one that older histories satisfy as well. -/
structure Lockstep (R : Frame → Frame → Prop) (C : History → Prop) : Prop where
  text : ∀ {f f'}, R f f' → f'.engine.text = f.engine.text
  pos : ∀ {f f'}, R f f' → f'.engine.pos = f.engine.pos
  move : ∀ {f f'}, R f f' → ∀ p : Nat,
    R { f with engine := { f.engine with pos := p } } { f' with engine := { f'.engine with pos := p } }
  back : ∀ {start start' m m'}, R start start' → R m m' → R (m.back start) (m'.back start')
  bind : ∀ {f f'}, R f f' → ∀ name v,
    R { f with scope := f.scope.bind name v } { f' with scope := f'.scope.bind name v }
  performed : ∀ {f f'}, R f f' → f'.scope = f.scope → ∀ a,
    R (Step.performed a f) (Step.performed a f')
  older : ∀ {m h}, C (m :: h) → C h

/-- Whenever the step ends with a history as wanted, the other one does with enough fuel: with the same
    outcome, in a frame related to the one that the step leaves. -/
def Follows (R : Frame → Frame → Prop) (C : History → Prop) (x : Step) (y : Nat → Step) : Prop :=
  ∀ f o g, x f = .ok (o, g) → C g.engine.history →
    C f.engine.history ∧ ∀ f', R f f' → ∃ g', Ends (fun n => y n f') (o, g') ∧ R g g'

namespace Follows

variable {R : Frame → Frame → Prop} {C : History → Prop}

/-- Failing follows failing. -/
theorem fail : Follows R C Step.fail fun _ => Step.fail := by
  intro f o g hrun hC
  cases hrun
  exact ⟨hC, fun f' h => ⟨f', .const rfl, h⟩⟩

/-- A choice follows a choice of followers: a failed alternative hands the related frames on. -/
theorem choice {α : Type} {x : α → Step} {y : α → Nat → Step} : ∀ (ops : List α),
    (∀ a ∈ ops, Follows R C (x a) (y a)) →
      Follows R C (Step.choice (ops.map x)) fun n => Step.choice (ops.map fun a => y a n) := by
  intro ops
  induction ops with
  | nil =>
    intro _ f o g hrun hC
    cases hrun
    exact ⟨hC, fun f' h => ⟨f', .const rfl, h⟩⟩
  | cons a ops ih =>
    intro hops f o g hrun hC
    have hhead := hops a List.mem_cons_self
    have htail := ih fun b hb => hops b (List.mem_cons_of_mem a hb)
    rcases Step.choice_cons_eq_ok hrun with ⟨stop, v, hm, rfl⟩ | ⟨m, hm, hrest⟩
    · obtain ⟨hCf, hfirst⟩ := hhead f _ g hm hC
      refine ⟨hCf, fun f' h => ?_⟩
      obtain ⟨m', hm', hmm'⟩ := hfirst f' h
      exact ⟨m', hm'.bind (.const rfl), hmm'⟩
    · obtain ⟨hCm, hfollow⟩ := htail m o g hrest hC
      obtain ⟨hCf, hfirst⟩ := hhead f _ m hm hCm
      refine ⟨hCf, fun f' h => ?_⟩
      obtain ⟨m', hm', hmm'⟩ := hfirst f' h
      obtain ⟨g', hg', hgg'⟩ := hfollow m' hmm'
      exact ⟨g', hm'.bind hg', hgg'⟩

end Follows

namespace Lockstep

variable {R : Frame → Frame → Prop} {C : History → Prop} (hR : Lockstep R C)
include hR

/-- A terminal follows itself, since it reads the text at the cursor and both are the same. -/
theorem terminal {α : Type} {read : Engine → Run (Option (α × Engine))} (hread : IsRead read)
    (toValue : α → Value) :
    Follows R C (Step.terminal read toValue) fun _ => Step.terminal read toValue := by
  intro f o g hrun hC
  obtain ⟨look, hlook, -⟩ := hread
  rcases Step.terminal_eq_ok hrun with ⟨a, e, ha, rfl, rfl⟩ | ⟨hnone, rfl, rfl⟩
  · rw [hlook] at ha
    cases hl : look f.engine.text f.engine.pos with
    | error stop => rw [hl] at ha; cases ha
    | ok found =>
      rw [hl] at ha
      obtain ⟨⟨b, stop⟩, rfl, heq⟩ := Option.map_eq_some_iff.1 (Except.ok.inj ha)
      cases heq
      refine ⟨hC, fun f' h => ⟨_, .const ?_, hR.move h stop⟩⟩
      have hl' : look f'.engine.text f'.engine.pos = .ok (some (b, stop)) := by
        rw [hR.text h, hR.pos h, hl]
      unfold Step.terminal
      rw [hlook, hl']
      rfl
  · rw [hlook] at hnone
    cases hl : look g.engine.text g.engine.pos with
    | error stop => rw [hl] at hnone; cases hnone
    | ok found =>
      cases found with
      | some r => rw [hl] at hnone; cases hnone
      | none =>
        refine ⟨hC, fun f' h => ⟨f', .const ?_, h⟩⟩
        have hl' : look f'.engine.text f'.engine.pos = .ok none := by
          rw [hR.text h, hR.pos h, hl]
        unfold Step.terminal
        rw [hlook, hl']
        rfl

/-- A row follows a row of followers, given the frames that a failure goes back to. -/
theorem sequenceFrom {α : Type} {x : α → Step} {y : α → Nat → Step} : ∀ (ops : List α),
    (∀ a ∈ ops, Follows R C (x a) (y a)) → ∀ (start : Frame) (value : Value) f o g,
      Step.sequenceFrom start (ops.map x) value f = .ok (o, g) → C g.engine.history →
        C f.engine.history ∧ ∀ start' f', R start start' → R f f' →
          ∃ g', Ends (fun n => Step.sequenceFrom start' (ops.map fun a => y a n) value f') (o, g') ∧
            R g g' := by
  intro ops
  induction ops with
  | nil =>
    intro _ start value f o g hrun hC
    cases hrun
    refine ⟨hC, fun start' f' _ h => ⟨f', .const ?_, h⟩⟩
    rw [← hR.pos h]
  | cons a ops ih =>
    intro hops start value f o g hrun hC
    have hhead := hops a List.mem_cons_self
    have htail := ih fun b hb => hops b (List.mem_cons_of_mem a hb)
    rcases Step.sequenceFrom_cons_eq_ok hrun with ⟨stop, v, m, hm, hrest⟩ | ⟨m, hm, rfl, rfl⟩
    · obtain ⟨hCm, hfollow⟩ := htail start v m o g hrest hC
      obtain ⟨hCf, hfirst⟩ := hhead f _ m hm hCm
      refine ⟨hCf, fun start' f' hstart h => ?_⟩
      obtain ⟨m', hm', hmm'⟩ := hfirst f' h
      obtain ⟨g', hg', hgg'⟩ := hfollow start' m' hstart hmm'
      exact ⟨g', hm'.bind hg', hgg'⟩
    · obtain ⟨hCf, hfirst⟩ := hhead f _ m hm hC
      refine ⟨hCf, fun start' f' hstart h => ?_⟩
      obtain ⟨m', hm', hmm'⟩ := hfirst f' h
      exact ⟨m'.back start', hm'.bind (.const rfl), hR.back hstart hmm'⟩

/-- A sequence follows a sequence of followers. -/
theorem sequence {α : Type} {x : α → Step} {y : α → Nat → Step} (ops : List α)
    (hops : ∀ a ∈ ops, Follows R C (x a) (y a)) :
    Follows R C (Step.sequence (ops.map x)) fun n => Step.sequence (ops.map fun a => y a n) := by
  intro f o g hrun hC
  obtain ⟨hCf, hfollow⟩ := hR.sequenceFrom ops hops f .nil f o g hrun hC
  exact ⟨hCf, fun f' h => hfollow f' f' h h⟩

/-- The rounds of the other step end in the same way with as many rounds allowed, or more. -/
theorem rounds {x : Step} {y : Nat → Step} (h : Follows R C x y) : ∀ (fuel : Nat)
    (left : Option Nat) (values : List Value) f values' g,
      Step.rounds x fuel left values f = .ok (values', g) → C g.engine.history →
        C f.engine.history ∧ ∀ f', R f f' → ∃ g' m, R g g' ∧ ∀ n, m ≤ n → ∀ fuel', fuel ≤ fuel' →
          Step.rounds (y n) fuel' left values f' = .ok (values', g') := by
  intro fuel
  induction fuel with
  | zero => intro left values f values' g hrun; cases hrun
  | succ fuel ih =>
    intro left values f values' g hrun hC
    -- The other step has fuel for this round too.
    have more : ∀ fuel', fuel + 1 ≤ fuel' → ∃ k, fuel' = k + 1 ∧ fuel ≤ k := fun fuel' hle =>
      ⟨fuel' - 1, by omega, by omega⟩
    rcases Step.rounds_succ_eq_ok hrun with ⟨hleft, rfl, rfl⟩ | ⟨hleft, hm, rfl⟩ |
      ⟨hleft, stop, v, m, hm, hrest⟩
    · refine ⟨hC, fun f' hf => ⟨f', 0, hf, fun n _ fuel' hle => ?_⟩⟩
      obtain ⟨k, rfl, -⟩ := more fuel' hle
      rw [Step.rounds, if_pos hleft]
    · obtain ⟨hCf, hfirst⟩ := h f _ g hm hC
      refine ⟨hCf, fun f' hf => ?_⟩
      obtain ⟨g', hends, hgg'⟩ := hfirst f' hf
      obtain ⟨b, hb⟩ : ∃ b, ∀ n, b ≤ n → y n f' = .ok (.failed, g') := hends
      refine ⟨g', b, hgg', fun n hn fuel' hle => ?_⟩
      obtain ⟨k, rfl, -⟩ := more fuel' hle
      rw [Step.rounds, if_neg hleft, hb n hn]
      rfl
    · rcases hrest with ⟨hstop, hnone, rfl, rfl⟩ | ⟨hgo, hrest⟩
      · obtain ⟨hCf, hfirst⟩ := h f _ g hm hC
        refine ⟨hCf, fun f' hf => ?_⟩
        obtain ⟨g', hends, hgg'⟩ := hfirst f' hf
        obtain ⟨b, hb⟩ : ∃ b, ∀ n, b ≤ n → y n f' = .ok (.matched stop v, g') := hends
        refine ⟨g', b, hgg', fun n hn fuel' hle => ?_⟩
        obtain ⟨k, rfl, -⟩ := more fuel' hle
        rw [Step.rounds, if_neg hleft, hb n hn]
        exact if_pos ⟨hstop.trans (hR.pos hf).symm, hnone⟩
      · obtain ⟨hCm, hfollow⟩ := ih _ _ m values' g hrest hC
        obtain ⟨hCf, hfirst⟩ := h f _ m hm hCm
        refine ⟨hCf, fun f' hf => ?_⟩
        obtain ⟨m', hends, hmm'⟩ := hfirst f' hf
        obtain ⟨b, hb⟩ : ∃ b, ∀ n, b ≤ n → y n f' = .ok (.matched stop v, m') := hends
        obtain ⟨g', b', hgg', hb'⟩ := hfollow m' hmm'
        refine ⟨g', max b b', hgg', fun n hn fuel' hle => ?_⟩
        obtain ⟨k, rfl, hk⟩ := more fuel' hle
        rw [Step.rounds, if_neg hleft, hb n (by omega)]
        refine (if_neg fun hidle => hgo ⟨?_, hidle.2⟩).trans (hb' n (by omega) k hk)
        rw [hidle.1, hR.pos hf]

/-- A repetition follows a repetition of a follower; it may take other fuel, and the same number of rounds. -/
theorem repetition {x : Step} {y : Nat → Step} (h : Follows R C x y) (min : Nat)
    (max : Option Nat) (captures : Bool) (fuel : Nat) :
    Follows R C (Step.repetition x min max captures fuel)
      fun n => Step.repetition (y n) min max captures n := by
  intro f o g hrun hC
  obtain ⟨values, m, hm, hrest⟩ := Step.repetition_eq_ok hrun
  have hCm : C m.engine.history := by
    rcases hrest with ⟨-, -, rfl⟩ | ⟨-, rfl, -⟩
    · exact hC
    · exact hC
  obtain ⟨hCf, hfollow⟩ := hR.rounds h fuel max [] f values m hm hCm
  refine ⟨hCf, fun f' hf => ?_⟩
  obtain ⟨m', b, hmm', hb⟩ := hfollow f' hf
  have hends : Ends (fun n => Step.rounds (y n) n max [] f') (values, m') :=
    ⟨b + fuel, fun n hn => hb n (by omega) n (by omega)⟩
  rcases hrest with ⟨hfew, rfl, rfl⟩ | ⟨henough, rfl, rfl⟩
  · exact ⟨m'.back f', hends.bind (.const (if_pos hfew)), hR.back hf hmm'⟩
  · refine ⟨m', hends.bind (.const ?_), hmm'⟩
    rw [← hR.pos hmm']
    exact if_neg (by omega)

/-- A look ahead follows one at a follower. -/
theorem ahead {x : Step} {y : Nat → Step} (h : Follows R C x y) :
    Follows R C (Step.ahead x) fun n => Step.ahead (y n) := by
  intro f o g hrun hC
  obtain ⟨part, m, hm, rfl, hpart⟩ := Step.ahead_eq_ok hrun
  obtain ⟨hCf, hfirst⟩ := h f part m hm hC
  refine ⟨hCf, fun f' hf => ?_⟩
  obtain ⟨m', hm', hmm'⟩ := hfirst f' hf
  refine ⟨m'.back f', hm'.bind (.const ?_), hR.back hf hmm'⟩
  rcases hpart with ⟨stop, v, rfl, rfl⟩ | ⟨rfl, rfl⟩
  · rw [← hR.pos hf]
  · rfl

/-- A negative look ahead follows one at a follower. -/
theorem notAhead {x : Step} {y : Nat → Step} (h : Follows R C x y) :
    Follows R C (Step.notAhead x) fun n => Step.notAhead (y n) := by
  intro f o g hrun hC
  obtain ⟨part, m, hm, rfl, hpart⟩ := Step.notAhead_eq_ok hrun
  obtain ⟨hCf, hfirst⟩ := h f part m hm hC
  refine ⟨hCf, fun f' hf => ?_⟩
  obtain ⟨m', hm', hmm'⟩ := hfirst f' hf
  refine ⟨m'.back f', hm'.bind (.const ?_), hR.back hf hmm'⟩
  rcases hpart with ⟨stop, v, rfl, rfl⟩ | ⟨rfl, rfl⟩
  · rfl
  · rw [← hR.pos hf]

/-- A binding follows one of a follower, if its value is read off the two cursors. -/
theorem binding {x : Step} {y : Nat → Step} (h : Follows R C x y) (name : String)
    {value : Frame → Nat → Value → Value} (hvalue : ReadsPlace value) :
    Follows R C (Step.binding x name value) fun n => Step.binding (y n) name value := by
  intro f o g hrun hC
  rcases Step.binding_eq_ok hrun with ⟨stop, v, m, hm, rfl, rfl⟩ | ⟨hm, rfl⟩
  · obtain ⟨hCf, hfirst⟩ := h f _ m hm hC
    refine ⟨hCf, fun f' hf => ?_⟩
    obtain ⟨m', hm', hmm'⟩ := hfirst f' hf
    refine ⟨_, hm'.bind (.const ?_), hR.bind hmm' name (value f stop v)⟩
    simp only [hvalue f' f (hR.text hf) (hR.pos hf)]
  · obtain ⟨hCf, hfirst⟩ := h f _ g hm hC
    refine ⟨hCf, fun f' hf => ?_⟩
    obtain ⟨m', hm', hmm'⟩ := hfirst f' hf
    exact ⟨m', hm'.bind (.const rfl), hmm'⟩

/-- An action follows itself where the scopes are the same. -/
theorem action (hscope : ∀ f f', R f f' → f'.scope = f.scope) (a : Action) :
    Follows R C (Step.action a) fun _ => Step.action a := by
  intro f o g hrun hC
  obtain ⟨rfl, rfl⟩ := Step.action_eq_ok hrun
  refine ⟨hR.older hC, fun f' h => ⟨Step.performed a f', .const ?_, hR.performed h (hscope f f' h) a⟩⟩
  rw [← hR.pos h, ← hscope f f' h]
  rfl

/-- A test follows itself where the scopes are the same. -/
theorem test (hscope : ∀ f f', R f f' → f'.scope = f.scope) (a : Action) (wanted : Bool) :
    Follows R C (Step.test a wanted) fun _ => Step.test a wanted := by
  intro f o g hrun hC
  obtain ⟨rfl, hrest⟩ := Step.test_eq_ok hrun
  refine ⟨hR.older hC, fun f' h => ⟨Step.performed a f', .const ?_, hR.performed h (hscope f f' h) a⟩⟩
  unfold Step.test Engine.perform
  rw [hscope f f' h]
  rcases hrest with ⟨hholds, rfl⟩ | ⟨hholds, rfl⟩
  · rw [← hR.pos h]
    unfold Step.performed
    rw [hscope f f' h]
    exact if_pos hholds
  · unfold Step.performed
    rw [hscope f f' h]
    exact if_neg hholds

end Lockstep

variable [RegexLibrary]

/-! ## Following operators -/

/-- A look ahead at anything but an action is one at its operand. -/
theorem Grammar.eval_ahead (g : Grammar) (n : Nat) {op : Operator} (h : op.action? = none) :
    g.eval (n + 1) (.ahead op) = Step.ahead (g.eval n op) := by
  cases op with
  | action a => cases h
  | _ => rfl

/-- A negative look ahead at anything but an action is one at its operand. -/
theorem Grammar.eval_notAhead (g : Grammar) (n : Nat) {op : Operator} (h : op.action? = none) :
    g.eval (n + 1) (.notAhead op) = Step.notAhead (g.eval n op) := by
  cases op with
  | action a => cases h
  | _ => rfl

/-- **Operators in lockstep.**  Of two translations of one operator that differ in calls only, the second
    follows the first if this holds of the operators directly below and of calls.  Actions need
    equal scopes. -/
theorem Lockstep.eval {R : Frame → Frame → Prop} {C : History → Prop} (hR : Lockstep R C)
    {g g' : Grammar} {φ ψ : Operator → Operator} (hφ : Operator.ChangesCalls φ)
    (hψ : Operator.ChangesCalls ψ) {n : Nat} (op : Operator)
    (part : ∀ c ∈ op.children, Follows R C (g.eval n (φ c)) fun m => g'.eval m (ψ c))
    (scopes : ∀ o ∈ op.nodes, o.action?.isSome → ∀ f f', R f f' → f'.scope = f.scope)
    (calls : op.isCall →
      Follows R C (g.eval (n + 1) (φ op)) fun m => g'.eval (m + 1) (ψ op)) :
    Follows R C (g.eval (n + 1) (φ op)) fun m => g'.eval (m + 1) (ψ op) := by
  cases op with
  | any =>
    rw [hφ.any, hψ.any]
    exact hR.terminal isRead_readChar .char
  | literal s =>
    rw [hφ.literal, hψ.literal]
    exact hR.terminal (isRead_readTo fun t p => t.literalEnd p s.toList) Step.textValue
  | pattern p =>
    rw [hφ.pattern, hψ.pattern]
    exact hR.terminal (isRead_readTo fun t k => t.patternEnd k p.matcher) Step.textValue
  | range lo hi =>
    rw [hφ.range, hψ.range]
    simp only [Grammar.eval]
    cases singleChars lo hi with
    | none => exact .fail
    | some bounds => exact hR.terminal (isRead_readRange bounds.1 bounds.2) .char
  | sequence ops =>
    rw [hφ.sequence, hψ.sequence]
    simp only [Grammar.eval, List.map_map]
    exact hR.sequence ops part
  | choice ops =>
    rw [hφ.choice, hψ.choice]
    simp only [Grammar.eval, List.map_map]
    exact .choice ops part
  | repetition op min max captures =>
    rw [hφ.repetition, hψ.repetition]
    exact hR.repetition (part op (List.mem_singleton_self op)) min max captures n
  | ahead op =>
    rw [hφ.ahead, hψ.ahead]
    cases ha : op.action? with
    | none =>
      simp only [Grammar.eval_ahead _ _ ((hφ.action? op).trans ha),
        Grammar.eval_ahead _ _ ((hψ.action? op).trans ha)]
      exact hR.ahead (part op (List.mem_singleton_self op))
    | some a =>
      -- A predicate on an action asks for the truth of its value.
      obtain rfl : op = .action a := by cases op <;> cases ha; rfl
      rw [hφ.action, hψ.action]
      exact hR.test (scopes (.action a) (List.mem_cons_of_mem _ (Operator.mem_nodes_self _)) rfl)
        a true
  | notAhead op =>
    rw [hφ.notAhead, hψ.notAhead]
    cases ha : op.action? with
    | none =>
      simp only [Grammar.eval_notAhead _ _ ((hφ.action? op).trans ha),
        Grammar.eval_notAhead _ _ ((hψ.action? op).trans ha)]
      exact hR.notAhead (part op (List.mem_singleton_self op))
    | some a =>
      obtain rfl : op = .action a := by cases op <;> cases ha; rfl
      rw [hφ.action, hψ.action]
      exact hR.test (scopes (.action a) (List.mem_cons_of_mem _ (Operator.mem_nodes_self _)) rfl)
        a false
  | tag op name =>
    rw [hφ.tag, hψ.tag]
    exact hR.binding (part op (List.mem_singleton_self op)) name readsPlace_tag
  | action a =>
    rw [hφ.action, hψ.action]
    exact hR.action (scopes (.action a) (Operator.mem_nodes_self _) rfl) a
  | collect op =>
    rw [hφ.collect, hψ.collect]
    exact hR.binding (part op (List.mem_singleton_self op)) "text" readsPlace_collect
  | bounds op =>
    rw [hφ.bounds, hψ.bounds]
    exact hR.binding (part op (List.mem_singleton_self op)) "bounds" readsPlace_bounds
  | call name args => exact calls rfl
  | direct name args => exact calls rfl
  | «foreign» grammar name args => exact calls rfl

/-! ## Following calls -/

/-- Engines in lockstep, whatever it is that they may differ in. -/
structure EngineLockstep (T : Engine → Engine → Prop) (C : History → Prop) : Prop where
  text : ∀ {e e'}, T e e' → e'.text = e.text
  pos : ∀ {e e'}, T e e' → e'.pos = e.pos
  depth : ∀ {e e'}, T e e' → e'.depth = e.depth
  move : ∀ {e e'}, T e e' → ∀ p : Nat, T { e with pos := p } { e' with pos := p }
  result : ∀ {e e'}, T e e' → ∀ v : Value, T { e with result := v } { e' with result := v }
  note : ∀ {e e'}, T e e' → ∀ event : Event, event.isReEntry = false →
    T (e.note event) (e'.note event)
  blame : ∀ {e e'}, T e e' → ∀ culprit p, T (e.blame culprit p) (e'.blame culprit p)
  passed : ∀ {e e' new reach o after after'}, T e e' →
    (∀ m ∈ new, m.event.isReEntry → e.depth < m.depth) →
    e.Passed new reach o after → e'.Passed new reach o after' → T after after'
  older : ∀ {m h}, C (m :: h) → C h

/-- Frames whose engines are in lockstep; their scopes are equal if steps can see them. -/
def Framed (T : Engine → Engine → Prop) (sees : Bool) (f f' : Frame) : Prop :=
  T f.engine f'.engine ∧ (sees = true → f'.scope = f.scope)

/-- Whenever the call ends with a history as wanted, the other one does with enough fuel: with the same
    outcome, in an engine related to the one that the call leaves. -/
def CallFollows (T : Engine → Engine → Prop) (C : History → Prop)
    (x : Engine → Run (Outcome × Engine)) (y : Nat → Engine → Run (Outcome × Engine)) : Prop :=
  ∀ e o after, x e = .ok (o, after) → C after.history →
    C e.history ∧ ∀ e', T e e' → ∃ after', Ends (fun n => y n e') (o, after') ∧ T after after'

namespace EngineLockstep

variable {T : Engine → Engine → Prop} {C : History → Prop} (hT : EngineLockstep T C)
include hT

omit [RegexLibrary] in
/-- The lockstep may be read from the other side. -/
theorem flip {C' : History → Prop} (hC : ∀ {m h}, C' (m :: h) → C' h) :
    EngineLockstep (fun e e' => T e' e) C' where
  text h := (hT.text h).symm
  pos h := (hT.pos h).symm
  depth h := (hT.depth h).symm
  move h := hT.move h
  result h := hT.result h
  note h := hT.note h
  blame h := hT.blame h
  passed h hdeep hp hp' := hT.passed h (fun m hm hre => hT.depth h ▸ hdeep m hm hre) hp' hp
  older := hC

omit [RegexLibrary] in
/-- Engines in lockstep make frames in lockstep, with the same scopes where these are to be seen. -/
theorem frames (sees : Bool) : Lockstep (Framed T sees) C where
  text h := hT.text h.1
  pos h := hT.pos h.1
  move h p := ⟨hT.move h.1 p, h.2⟩
  back {start start' m m'} hstart h := by
    refine ⟨?_, fun hs => ?_⟩
    · show T { m.engine with pos := start.engine.pos } { m'.engine with pos := start'.engine.pos }
      rw [hT.pos hstart.1]
      exact hT.move h.1 start.engine.pos
    · show m'.scope.rollback start'.scope.mark = m.scope.rollback start.scope.mark
      rw [h.2 hs, hstart.2 hs]
  bind h name v := ⟨h.1, fun hs => congrArg (Scope.bind · name v) (h.2 hs)⟩
  performed {f f'} h hscope a := by
    refine ⟨?_, fun _ => hscope⟩
    show T (f.engine.note (.performed (a.run f.scope).2)) (f'.engine.note (.performed _))
    rw [hscope]
    exact hT.note h.1 _ rfl
  older := hT.older

omit hT in
/-- The body of a rule follows if its operator does. -/
theorem body {g g' : Grammar} {rule rule' : RuleId} {n : Nat}
    (hnone : g.rules[rule]? = none → g'.rules[rule']? = none)
    (hsome : ∀ r, g.rules[rule]? = some r → ∃ r', g'.rules[rule']? = some r' ∧
      r'.params = r.params ∧
      ∀ k, k < n → Follows (Framed T true) C (g.eval k r.body) fun m => g'.eval m r'.body)
    (args : List Value) :
    CallFollows T C (RuleSet.body n (.grammar g) rule args)
      fun m => RuleSet.body m (.grammar g') rule' args := by
  intro e o after hrun hC
  cases n with
  | zero => cases hrun
  | succ n =>
    cases hr : g.rules[rule]? with
    | none =>
      rw [RuleSet.body_grammar_none hr] at hrun
      cases hrun
      refine ⟨hC, fun e' h => ⟨e', .of_succ ?_, h⟩⟩
      simp only [RuleSet.body_grammar_none (hnone hr)]
      exact .const rfl
    | some r =>
      obtain ⟨r', hr', hparams, hops⟩ := hsome r hr
      rw [RuleSet.body_grammar hr] at hrun
      obtain ⟨m, hm, rfl⟩ := Step.inScope_eq_ok hrun
      obtain ⟨hCe, hfollow⟩ := hops n (by omega) _ o m hm hC
      refine ⟨hCe, fun e' h => ?_⟩
      obtain ⟨m', hm', hmm'⟩ := hfollow ⟨e', Scope.ofArgs r.params args⟩ ⟨h, fun _ => rfl⟩
      refine ⟨m'.engine, .of_succ ?_, hmm'.1⟩
      simp only [RuleSet.body_grammar hr', Step.inScope, hparams]
      exact hm'.map fun res => (res.1, res.2.engine)

omit [RegexLibrary] hT in
/-- A call past the memo table follows if the body does, and if trying the rule and having tried it keep
    engines related. -/
theorem invoke_of {r : Runner} {s : Nat → Runner} {rule rule' : RuleId} {args : List Value}
    (holder : ∀ {m h}, C (m :: h) → C h) (hname : ∀ m, (s m).nameOf rule' = (s 0).nameOf rule')
    (hattempt : ∀ e e', T e e' → T (e.attempting r rule) (e'.attempting (s 0) rule'))
    (hconclude : ∀ e e' b b' o, T e e' → T b b' →
      T (e.concluded r rule b o) (e'.concluded (s 0) rule' b' o))
    (hbody : CallFollows T C (r.body rule args) fun m => (s m).body rule' args) :
    CallFollows T C (Engine.invoke r rule args) fun m => Engine.invoke (s m) rule' args := by
  intro e o after hrun hC
  obtain ⟨b, hb, rfl⟩ := Engine.invoke_eq_ok hrun
  have hCb : C b.history := by
    cases o with
    | matched stop value => exact holder hC
    | failed => exact holder (holder hC)
  obtain ⟨hCe, hfollow⟩ := hbody _ o b hb hCb
  refine ⟨holder hCe, fun e' h => ?_⟩
  obtain ⟨b', hb', hbb'⟩ := hfollow _ (hattempt e e' h)
  refine ⟨e'.concluded (s 0) rule' b' o, ?_, hconclude e e' b b' o h hbb'⟩
  -- What the other rule is called does not depend on the fuel.
  have heq : ∀ m, e'.invoke (s m) rule' args =
      ((s m).body rule' args (e'.attempting (s 0) rule')).map
        fun res => (res.1, e'.concluded (s 0) rule' res.2 res.1) := by
    intro m
    rw [Engine.invoke_eq]
    unfold Engine.attempting
    rw [hname m]
    congr 1
    funext res
    obtain ⟨outcome, x⟩ := res
    cases outcome <;> simp only [Engine.concluded, hname m]
  simp only [heq]
  exact hb'.map fun res => (res.1, e'.concluded (s 0) rule' res.2 res.1)

omit [RegexLibrary] in
/-- A call past the memo table follows if the body does. -/
theorem invoke {r : Runner} {s : Nat → Runner} {rule : RuleId} {args : List Value}
    (hname : ∀ m, (s m).nameOf rule = r.nameOf rule)
    (hbody : CallFollows T C (r.body rule args) fun m => (s m).body rule args) :
    CallFollows T C (Engine.invoke r rule args) fun m => Engine.invoke (s m) rule args := by
  refine invoke_of hT.older (fun m => (hname m).trans (hname 0).symm) (fun e e' h => ?_)
    (fun e e' b b' o h hbb' => ?_) hbody
  · unfold Engine.attempting
    rw [hT.pos h, hname 0]
    exact hT.note h _ rfl
  · cases o with
    | matched stop value =>
      simp only [Engine.concluded, hT.pos h, hname 0]
      exact hT.result (hT.move (hT.note hbb' _ rfl) stop) value
    | failed =>
      simp only [Engine.concluded, hT.pos h, hname 0]
      exact hT.blame (hT.move (hT.note hbb' _ rfl) e.pos) _ _

/-- A call into a linked rule set follows itself, whatever the memo tables of the callers. -/
theorem callForeign (rs : RuleSet) (n : Nat) (grammar : String) (rule : RuleId) (args : List Value) :
    CallFollows T C (Engine.callForeign (rs.runner n) n grammar rule args)
      fun m => Engine.callForeign (rs.runner m) m grammar rule args := by
  intro e o after hrun hC
  obtain ⟨new, reach, hdeep, hany⟩ := Engine.callForeign_anywhere hrun
  have hpassed : e.Passed new reach o after := by
    obtain ⟨after₀, hrun₀, hpassed₀⟩ := hany e rfl rfl rfl
    obtain ⟨-, rfl⟩ := Prod.mk.inj (Except.ok.inj (hrun.symm.trans hrun₀))
    exact hpassed₀
  have hCe : C e.history := by
    rw [hpassed.history] at hC
    clear hpassed hdeep hany
    induction new with
    | nil => exact hC
    | cons m new ih => exact ih (hT.older hC)
  refine ⟨hCe, fun e' h => ?_⟩
  obtain ⟨after', hrun', hpassed'⟩ := hany e' (hT.text h) (hT.pos h) (hT.depth h)
  refine ⟨after', .of_noLater (fun k m hkm => ?_) hrun', hT.passed h hdeep hpassed hpassed'⟩
  exact Engine.callForeign_noLater (RuleSet.runner_noLater hkm rs) hkm grammar rule args e'

omit [RegexLibrary] hT in
/-- A call from an operator follows if the call does and the arguments are the same. -/
theorem call {sees : Bool} {x : List Value → Engine → Run (Outcome × Engine)}
    {y : Nat → List Value → Engine → Run (Outcome × Engine)} {args : List Arg}
    (hargs : ∀ f f', Framed T sees f f' → f'.scope.resolve args = f.scope.resolve args)
    (h : ∀ values, CallFollows T C (x values) fun m => y m values) :
    Follows (Framed T sees) C (Step.call x args) fun m => Step.call (y m) args := by
  intro f o g hrun hC
  obtain ⟨e, he, rfl⟩ := Step.call_eq_ok hrun
  obtain ⟨hCf, hfollow⟩ := h _ f.engine o e he hC
  refine ⟨hCf, fun f' hf => ?_⟩
  obtain ⟨e', he', hee'⟩ := hfollow f'.engine hf.1
  refine ⟨{ f' with engine := e' }, ?_, hee', hf.2⟩
  simp only [Step.call, hargs f f' hf]
  exact he'.bind (.const rfl)

end EngineLockstep

end MemoPeg
