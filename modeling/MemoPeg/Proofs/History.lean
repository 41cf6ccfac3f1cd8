import Mathlib.Data.List.TakeWhile
import MemoPeg.Proofs.Steps

/-
  Histories of runs.

  1. **Orders (`EngineDrift`, `EngineOrder`)** — a relation that holds between an engine and each engine
     that one small change makes of it holds from the start of every run to its end.  Where the changes
     of the memo table go together, only the changes apart from it are small, and calls that use it
     are seen as a whole.
  2. **Growth (`Extends`)** — a run keeps the text and the depth of its engine and adds to the history;
     what it adds happened at that depth or deeper, in linked grammars.
  3. **Events of one engine (`Engine.events`)** — those at its own depth since it was made.  Nested engines
     leave no trace in them.
  4. **Re-entries** — the events that show left recursion: a rule was called while it was being tried.

  All engines of a parse share one history, so the events of one of them have to be picked out.  The depth
  alone does not do: an earlier call across was at the same depth, in an engine that is gone.  But between
  two engines of one depth there is always an event further up, that of the crossing, and so 3 takes what
  came since.

  Orders are for statements that compare the ends of a run and say nothing of the outcome.  Where the
  outcome matters the relation is not passed on part by part, and the induction over steps is used
  directly.
-/

namespace MemoPeg

/-- The entry of a rule was found in progress: the rule has called itself. -/
def Event.isReEntry : Event → Bool
  | .foundInProgress _ => true
  | _ => false

/-- The key of the memo table that an event is about. -/
def Event.key? : Event → Option Key
  | .opened key | .foundInProgress key | .foundMatch key | .foundFailure key | .growing key _ => some key
  | .attempting _ _ _ | .matched _ _ _ _ | .failed _ _ _ | .crossing _ _ _ | .blamed _ _
  | .performed _ => none

/-- The failure that an event reports. -/
def Event.failure? : Event → Option Failure
  | .blamed culprit pos => some ⟨culprit, pos⟩
  | _ => none

/-! ## What every run of an engine respects -/

/-- A relation between engines that every small change of an engine apart from its memo table respects. -/
structure EngineDrift (T : Engine → Engine → Prop) : Prop where
  refl : ∀ e, T e e
  trans : ∀ {d e f}, T d e → T e f → T d f
  move : ∀ e p, T e { e with pos := p }
  result : ∀ e v, T e { e with result := v }
  note : ∀ e event, event.key? = none → event.failure? = none → T e (e.note event)
  blame : ∀ e c p, T e (e.blame c p)

/-- A relation between engines that every small change of an engine respects. -/
structure EngineOrder (T : Engine → Engine → Prop) : Prop extends EngineDrift T where
  noteKey : ∀ e event key, event.key? = some key → T e (e.note event)
  start : ∀ e key, T e { e with memo := e.memo.start key }
  settle : ∀ e key answer, T e (e.settle key answer)
  use : ∀ e key, T e { e with memo := e.memo.use key }
  nested : ∀ e i, T e.nested i → T e { e with history := i.history }

namespace EngineDrift

variable {T : Engine → Engine → Prop} (h : EngineDrift T)
include h

/-- Going back moves the cursor, which a run may do at any time. -/
theorem back {f m start : Frame} (hm : T f.engine m.engine) :
    T f.engine (m.back start).engine := h.trans hm (h.move _ _)

/-- A row of steps: related to where each part leaves the engine, and still so when a failure goes back. -/
theorem sequenceFrom (start : Frame) : ∀ (steps : List Step),
    (∀ s ∈ steps, ∀ f o g, s f = .ok (o, g) → T f.engine g.engine) → ∀ (value : Value) f o g,
      Step.sequenceFrom start steps value f = .ok (o, g) → T f.engine g.engine := by
  intro steps
  induction steps with
  | nil => intro _ value f o g hrun; cases hrun; exact h.refl _
  | cons s ss ih =>
    intro hs value f o g hrun
    have hs' := fun t ht => hs t (List.mem_cons_of_mem s ht)
    rcases Step.sequenceFrom_cons_eq_ok hrun with ⟨stop, v, m, hm, hrest⟩ | ⟨m, hm, -, rfl⟩
    · exact h.trans (hs s List.mem_cons_self f _ m hm) (ih hs' v m o g hrest)
    · exact h.back (hs s List.mem_cons_self f _ m hm)

/-- A choice: each alternative begins where the one before it has left the engine. -/
theorem choice : ∀ (steps : List Step),
    (∀ s ∈ steps, ∀ f o g, s f = .ok (o, g) → T f.engine g.engine) → ∀ f o g,
      Step.choice steps f = .ok (o, g) → T f.engine g.engine := by
  intro steps
  induction steps with
  | nil => intro _ f o g hrun; cases hrun; exact h.refl _
  | cons s ss ih =>
    intro hs f o g hrun
    have hs' := fun t ht => hs t (List.mem_cons_of_mem s ht)
    rcases Step.choice_cons_eq_ok hrun with ⟨stop, v, hm, -⟩ | ⟨m, hm, hrest⟩
    · exact hs s List.mem_cons_self f _ g hm
    · exact h.trans (hs s List.mem_cons_self f _ m hm) (ih hs' m o g hrest)

/-- The rounds of a repetition, each from where the last one ended. -/
theorem rounds {body : Step} (hb : ∀ f o g, body f = .ok (o, g) → T f.engine g.engine) :
    ∀ (fuel : Nat) (left : Option Nat) (values : List Value) f values' g,
      Step.rounds body fuel left values f = .ok (values', g) → T f.engine g.engine := by
  intro fuel
  induction fuel with
  | zero => intro left values f values' g hrun; cases hrun
  | succ fuel ih =>
    intro left values f values' g hrun
    rcases Step.rounds_succ_eq_ok hrun with ⟨-, -, rfl⟩ | ⟨-, hm, -⟩ |
      ⟨-, stop, v, m, hm, ⟨-, -, -, rfl⟩ | ⟨-, hrest⟩⟩
    · exact h.refl _
    · exact hb f _ g hm
    · exact hb f _ g hm
    · exact h.trans (hb f _ m hm) (ih _ _ m _ g hrest)

/-- A rule past the memo table: entering it and leaving it are changes of the engine's own. -/
theorem invoke {r : Runner}
    (hr : ∀ rule args e o e', r.body rule args e = .ok (o, e') → T e e') (rule : RuleId)
    (args : List Value) : ∀ e o e', e.invoke r rule args = .ok (o, e') → T e e' := by
  intro e o e' hrun
  obtain ⟨m, hm, rfl⟩ := Engine.invoke_eq_ok hrun
  have hbody : T e m := h.trans (h.note _ _ rfl rfl) (hr rule args _ o m hm)
  cases o with
  | matched stop value =>
    exact h.trans hbody (h.trans (h.note _ _ rfl rfl) (h.trans (h.move _ stop) (h.result _ value)))
  | failed =>
    exact h.trans hbody (h.trans (h.note _ _ rfl rfl) (h.trans (h.move _ e.pos) (h.blame _ _ _)))

/-- If calls through the memo table and calls across respect the relation as soon as bodies do, it holds
    from the start of every run to its end. -/
theorem stepProperty
    (happly : ∀ r : Runner, (∀ rule args e o e', r.body rule args e = .ok (o, e') → T e e') →
      ∀ fuel rule args e o e', e.apply r fuel rule args = .ok (o, e') → T e e')
    (hcross : ∀ r : Runner, (∀ rule args e o e', r.body rule args e = .ok (o, e') → T e e') →
      ∀ fuel grammar rule args e o e', e.callForeign r fuel grammar rule args = .ok (o, e') → T e e') :
    StepProperty (fun s => ∀ f o g, s f = .ok (o, g) → T f.engine g.engine)
      (fun x => ∀ e o e', x e = .ok (o, e') → T e e') where
  starved f o g hrun := by cases hrun
  fail f o g hrun := by cases hrun; exact h.refl _
  terminal hread f o g hrun := by
    obtain ⟨look, hlook, -⟩ := hread
    rcases Step.terminal_eq_ok hrun with ⟨a, e, ha, -, rfl⟩ | ⟨-, -, rfl⟩
    · rw [hlook] at ha
      cases hl : look f.engine.text f.engine.pos with
      | error stop => rw [hl] at ha; cases ha
      | ok found =>
        rw [hl] at ha
        obtain ⟨found', -, heq⟩ := Option.map_eq_some_iff.1 (Except.ok.inj ha)
        cases heq
        exact h.move _ _
    · exact h.refl _
  sequence steps hs f o g hrun := h.sequenceFrom f steps hs .nil f o g hrun
  choice steps hs f o g hrun := h.choice steps hs f o g hrun
  repetition s hs min max captures fuel f o g hrun := by
    obtain ⟨values, m, hm, hrest⟩ := Step.repetition_eq_ok hrun
    have hrounds := h.rounds hs fuel max [] f values m hm
    rcases hrest with ⟨-, -, rfl⟩ | ⟨-, rfl, -⟩
    · exact h.back hrounds
    · exact hrounds
  ahead s hs f o g hrun := by
    obtain ⟨part, m, hm, rfl, -⟩ := Step.ahead_eq_ok hrun
    exact h.back (hs f part m hm)
  notAhead s hs f o g hrun := by
    obtain ⟨part, m, hm, rfl, -⟩ := Step.notAhead_eq_ok hrun
    exact h.back (hs f part m hm)
  test a wanted f o g hrun := by
    obtain ⟨rfl, -⟩ := Step.test_eq_ok hrun
    exact h.note _ _ rfl rfl
  binding s hs name value _ f o g hrun := by
    rcases Step.binding_eq_ok hrun with ⟨stop, v, m, hm, -, rfl⟩ | ⟨hm, -⟩
    · exact hs f _ m hm
    · exact hs f _ g hm
  action a f o g hrun := by
    obtain ⟨-, rfl⟩ := Step.action_eq_ok hrun
    exact h.note _ _ rfl rfl
  call run hq args f o g hrun := by
    obtain ⟨e, he, rfl⟩ := Step.call_eq_ok hrun
    exact hq _ _ o e he
  starvedBody e o e' hrun := by cases hrun
  noBody e o e' hrun := by cases hrun; exact h.refl _
  body s hs scope e o e' hrun := by
    obtain ⟨m, hm, rfl⟩ := Step.inScope_eq_ok hrun
    exact hs _ _ _ hm
  invoke r hr rule args := h.invoke hr rule args
  apply r hr fuel rule args := happly r hr fuel rule args
  callForeign r hr fuel grammar rule args := hcross r hr fuel grammar rule args

end EngineDrift

namespace EngineOrder

variable {T : Engine → Engine → Prop} (h : EngineOrder T)
include h

/-- What growth leaves when it stops: the cursor and the result of the entry. -/
theorem grown (key : Key) (e : Engine) : T e (e.grown key).2 := by
  rcases e.grown_cases key with ⟨entry, -, heq⟩ | ⟨-, heq⟩ <;> rw [heq]
  · exact h.trans (h.move e entry.answer.stop) (h.result _ entry.answer.value)
  · exact h.move e _

/-- Growth: every round enters the body anew, and the entry is settled in between. -/
theorem grow {r : Runner}
    (hr : ∀ rule args e o e', r.body rule args e = .ok (o, e') → T e e') (key : Key) :
    ∀ (fuel : Nat) e o e', e.grow r key fuel = .ok (o, e') → T e e' := by
  intro fuel
  induction fuel with
  | zero => intro e o e' hrun; cases hrun
  | succ fuel ih =>
    intro e o e' hrun
    rcases Engine.grow_succ_eq_ok hrun with ⟨-, -, rfl⟩ | ⟨best, uses, round, m, -, hround, hgrown⟩
    · exact h.move e _
    -- Before the round the engine goes back to the key, takes the value over and notes the round.
    · have hm : T e m :=
        h.trans (h.trans (h.move e key.pos) (h.trans (h.result _ best.value) (h.noteKey _ _ key rfl)))
          (h.invoke hr key.rule key.args _ _ m hround)
      rcases hgrown with ⟨stop, longer, -, -, hrest⟩ | ⟨-, heq⟩
      · exact h.trans hm (h.trans (h.settle _ _ _) (ih _ _ _ hrest))
      · have := h.grown key m
        rw [← heq] at this
        exact h.trans hm this

/-- A call that finds an entry runs no body. -/
theorem reuse (key : Key) (entry : Entry) (e : Engine) : T e (e.reuse key entry).2 := by
  have hused : T e { e with memo := e.memo.use key, pos := entry.answer.stop } :=
    h.trans (h.use e key) (h.move _ _)
  obtain ⟨⟨status, stop, value⟩, uses⟩ := entry
  cases status with
  | inProgress detected => exact h.trans hused (h.trans (h.settle _ key _) (h.noteKey _ _ key rfl))
  | matched => exact h.trans hused (h.trans (h.result _ value) (h.noteKey _ _ key rfl))
  | failed => exact h.trans hused (h.noteKey _ _ key rfl)

/-- A call through the memo table: found, tried once, or tried and then grown. -/
theorem apply {r : Runner}
    (hr : ∀ rule args e o e', r.body rule args e = .ok (o, e') → T e e') (fuel : Nat)
    (rule : RuleId) (args : List Value) :
    ∀ e o e', e.apply r fuel rule args = .ok (o, e') → T e e' := by
  intro e o e' hrun
  rcases Engine.apply_eq_ok hrun with ⟨entry, -, heq⟩ | ⟨-, first, m, hm, hrest⟩
  · have := h.reuse ⟨rule, e.pos, args⟩ entry e
    rw [← heq] at this
    exact this
  -- Making the entry, noting it and invoking the rule are the same in all three cases.
  · have hfirst : T e m :=
      h.trans (h.trans (h.start e _) (h.noteKey _ _ _ rfl)) (h.invoke hr rule args _ _ m hm)
    rcases hrest with ⟨stop, value, -, -, hgrown⟩ | ⟨stop, value, -, -, -, rfl⟩ | ⟨-, -, rfl⟩
    · exact h.trans hfirst (h.trans (h.settle _ _ _) (h.grow hr _ fuel _ o e' hgrown))
    · exact h.trans hfirst (h.settle _ _ _)
    · exact h.trans hfirst (h.settle _ _ _)

/-- A call across a link: the nested engine is another one, and only its records come back. -/
theorem callForeign {r : Runner}
    (hr : ∀ rule args e o e', r.body rule args e = .ok (o, e') → T e e') (fuel : Nat)
    (grammar : String) (rule : RuleId) (args : List Value) :
    ∀ e o e', e.callForeign r fuel grammar rule args = .ok (o, e') → T e e' := by
  intro e o e' hrun
  obtain ⟨inner, hinner, rfl⟩ := Engine.callForeign_eq_ok hrun
  have hcrossed : T e { e with history := inner.history } :=
    h.trans (h.note e _ rfl rfl) (h.nested _ inner (h.apply hr fuel rule args _ o inner hinner))
  cases o with
  | matched stop value => exact h.trans hcrossed (h.trans (h.move _ stop) (h.result _ value))
  | failed => exact h.trans hcrossed (h.blame _ _ _)

/-- From the start of a run to its end, the relation holds. -/
theorem stepProperty :
    StepProperty (fun s => ∀ f o g, s f = .ok (o, g) → T f.engine g.engine)
      (fun x => ∀ e o e', x e = .ok (o, e') → T e e') :=
  h.toEngineDrift.stepProperty (fun _ hr => h.apply hr) fun _ hr => h.callForeign hr

variable [RegexLibrary]

/-- Bodies of rules, at any depth of recursion. -/
theorem bodies (n : Nat) (rs : RuleSet) : ∀ rule args e o e',
    (rs.runner n).body rule args e = .ok (o, e') → T e e' :=
  (h.stepProperty.everywhere n).1 rs

end EngineOrder

/-! ## Histories grow -/

/-- The second engine has the text and the depth of the first, and events on top of its history that
    happened at that depth or deeper. -/
def Engine.Extends (e e' : Engine) : Prop :=
  e'.text = e.text ∧ e'.depth = e.depth ∧
    ∃ new, e'.history = new ++ e.history ∧ ∀ m ∈ new, e.depth ≤ m.depth

/-- Nothing has been added. -/
theorem Engine.Extends.refl (e : Engine) : e.Extends e :=
  ⟨rfl, rfl, [], rfl, fun _ hm => absurd hm List.not_mem_nil⟩

/-- What is added to an extension is added to what it extends. -/
theorem Engine.Extends.trans {d e f : Engine} (h : d.Extends e) (k : e.Extends f) : d.Extends f := by
  obtain ⟨htext, hdepth, new, hnew, hmem⟩ := h
  obtain ⟨ktext, kdepth, newer, knew, kmem⟩ := k
  refine ⟨ktext.trans htext, kdepth.trans hdepth, newer ++ new, ?_, fun m hm => ?_⟩
  · rw [knew, hnew, List.append_assoc]
  · rcases List.mem_append.1 hm with hm | hm
    · exact hdepth ▸ kmem m hm
    · exact hmem m hm

/-- One event is added when it is noted. -/
theorem Engine.Extends.of_note (e : Engine) (event : Event) (e' : Engine)
    (htext : e'.text = e.text) (hdepth : e'.depth = e.depth)
    (hhistory : e'.history = ⟨e.depth, event⟩ :: e.history) : e.Extends e' := by
  refine ⟨htext, hdepth, [⟨e.depth, event⟩], hhistory, fun m hm => ?_⟩
  obtain rfl := List.mem_singleton.1 hm
  exact Nat.le_refl e.depth

/-- **Every run extends its engine.** -/
theorem extends_order : EngineOrder Engine.Extends where
  refl := .refl
  trans := .trans
  move e p := .refl _
  result e v := .refl _
  note e event _ _ := .of_note e event _ rfl rfl rfl
  noteKey e event _ _ := .of_note e event _ rfl rfl rfl
  blame e c p := .of_note e (.blamed c p) _ rfl rfl rfl
  start e key := .refl _
  settle e key answer := .refl _
  use e key := .refl _
  nested e i hi := by
    obtain ⟨-, -, new, hnew, hmem⟩ := hi
    exact ⟨rfl, rfl, new, hnew, fun m hm => Nat.le_of_succ_le (hmem m hm)⟩

/-! ## Events of one engine -/

/-- What happened at the depth since the last event further up, oldest first. -/
def History.own (h : History) (depth : Nat) : List Event :=
  (((h.takeWhile fun m => depth ≤ m.depth).filter fun m => m.depth = depth).map (·.event)).reverse

/-- The events of an engine since it was made, oldest first. -/
def Engine.events (e : Engine) : List Event := e.history.own e.depth

/-- What was added at the depth or deeper comes behind what was there. -/
theorem History.own_append {new : History} {depth : Nat} (h : History)
    (hnew : ∀ m ∈ new, depth ≤ m.depth) : (new ++ h).own depth = h.own depth ++ new.own depth := by
  have hall : ∀ m ∈ new, decide (depth ≤ m.depth) = true := fun m hm => decide_eq_true (hnew m hm)
  unfold own
  rw [List.takeWhile_append_of_pos hall, List.takeWhile_eq_self_iff.2 hall, List.filter_append,
    List.map_append, List.reverse_append]

/-- What happened deeper does not count. -/
theorem History.own_deeper {new : History} {depth : Nat} (hnew : ∀ m ∈ new, depth < m.depth) :
    new.own depth = [] := by
  have hall : ∀ m ∈ new, decide (depth ≤ m.depth) = true := fun m hm =>
    decide_eq_true (Nat.le_of_lt (hnew m hm))
  have hnone : new.filter (fun m => m.depth = depth) = [] :=
    List.filter_eq_nil_iff.2 fun m hm => by have := hnew m hm; simp only [decide_eq_true_eq]; omega
  unfold own
  rw [List.takeWhile_eq_self_iff.2 hall, hnone]
  rfl

namespace Engine

/-- What is noted is the last event. -/
theorem events_note (e : Engine) (event : Event) : (e.note event).events = e.events ++ [event] := by
  have hone : ∀ m ∈ ([⟨e.depth, event⟩] : History), e.depth ≤ m.depth := fun m hm => by
    rw [List.mem_singleton.1 hm]
  have hown : History.own [⟨e.depth, event⟩] e.depth = [event] := by
    simp only [History.own, List.takeWhile_cons, List.takeWhile_nil, List.filter_cons, List.filter_nil,
      Nat.le_refl, decide_true, if_true, List.map_cons, List.map_nil, List.reverse_singleton]
  have happend := History.own_append e.history hone
  rw [hown] at happend
  exact happend

/-- A blame is one event. -/
theorem events_blame (e : Engine) (c : Culprit) (p : Nat) :
    (e.blame c p).events = e.events ++ [.blamed c p] := events_note _ _

/-- Making an entry is one event. -/
theorem events_opening (key : Key) (e : Engine) :
    (e.opening key).events = e.events ++ [.opened key] :=
  events_note { e with memo := e.memo.start key } _

/-- Beginning a round of growth is one event. -/
theorem events_regrowing (key : Key) (best : Nat) (value : Value) (e : Engine) :
    (e.regrowing key best value).events = e.events ++ [.growing key best] :=
  events_note { e with pos := key.pos, result := value } _

/-- Making an entry adds to the history and takes nothing from it. -/
theorem Extends.opening (key : Key) (e : Engine) : e.Extends (e.opening key) :=
  .of_note e (.opened key) _ rfl rfl rfl

/-- Beginning a round adds to the history and takes nothing from it. -/
theorem Extends.regrowing (key : Key) (best : Nat) (value : Value) (e : Engine) :
    e.Extends (e.regrowing key best value) := .of_note e (.growing key best) _ rfl rfl rfl

/-- An engine for a call into a linked grammar has no events of its own yet. -/
theorem events_crossing (r : Runner) (grammar : String) (rule : RuleId) (e : Engine) :
    (e.crossing r grammar rule).events = [] := by
  show History.own (⟨e.depth, _⟩ :: e.history) (e.depth + 1) = []
  simp only [History.own, List.takeWhile_cons, show ¬e.depth + 1 ≤ e.depth by omega, decide_false]
  rfl

/-- A run adds events to those of its engine. -/
theorem Extends.events {e e' : Engine} (h : e.Extends e') : ∃ new, e'.events = e.events ++ new := by
  obtain ⟨-, hdepth, new, hnew, hdeep⟩ := h
  refine ⟨new.own e.depth, ?_⟩
  show e'.history.own e'.depth = _
  rw [hdepth, hnew, History.own_append _ hdeep]
  rfl

/-- What a nested engine does is no event of its caller. -/
theorem events_nested {e i : Engine} (h : e.nested.Extends i) :
    ({ e with history := i.history } : Engine).events = e.events := by
  obtain ⟨-, -, new, hnew, hdeep⟩ := h
  show i.history.own e.depth = _
  rw [hnew, show e.nested.history = e.history from rfl,
    History.own_append _ fun m hm => Nat.le_of_succ_le (hdeep m hm), History.own_deeper hdeep,
    List.append_nil]
  rfl

end Engine

end MemoPeg
