import MemoPeg.Proofs.History

/-
  What a run does is a fact about the text, the cursor and the memo table.

  1. **Records (`Engine.Over`)** — the history, the furthest failure and the last result are written and
     never read: a run over older records takes the same course, and its own records come on top.
  2. **The crux (`ignoresRecords`)** — every way of making a step keeps this, with apply and its
     growth among them, so one induction over runs gives it for every rule set at every amount of
     fuel.
  3. **Calls across (`callForeign_anywhere`)** — a call into a linked rule set works on a memo table of
     its own; so it is a fact about the text and the place, and adds the same events to any history.

  Histories are compared from the top down: the second engine has what the first one has, on top of
  something older.  The furthest failure cannot be compared so, since it is one offset and not a list; a
  mark in an engine with an older failure may change nothing there.  What is kept is that its offset is
  the greater one of two: the offset in the first engine, and that of the failures that were there before.
-/

namespace MemoPeg

/-! ## Related runs -/

/-- Two runs end with related results, or for the same reason without one. -/
inductive RunRel {α β : Type} (T : α → β → Prop) : Run α → Run β → Prop
  | ok {a : α} {b : β} (h : T a b) : RunRel T (.ok a) (.ok b)
  | error (stop : Stop) : RunRel T (.error stop) (.error stop)

namespace RunRel

variable {α β γ δ : Type} {T : α → β → Prop} {U : γ → δ → Prop} {x : Run α} {y : Run β}

/-- Related runs that go on in related ways stay related. -/
theorem bind {k : α → Run γ} {l : β → Run δ} (h : RunRel T x y)
    (hk : ∀ a b, T a b → RunRel U (k a) (l b)) : RunRel U (x >>= k) (y >>= l) := by
  cases h with
  | ok hab => exact hk _ _ hab
  | error stop => exact .error stop

/-- Related runs whose results are handed on by functions stay related. -/
theorem map {k : α → γ} {l : β → δ} (h : RunRel T x y) (hk : ∀ a b, T a b → U (k a) (l b)) :
    RunRel U (x.map k) (y.map l) := by
  cases h with
  | ok hab => exact .ok (hk _ _ hab)
  | error stop => exact .error stop

/-- If the first run ends, the second does, and the results are related. -/
theorem exists_right {a : α} (h : RunRel T x y) (hx : x = .ok a) : ∃ b, y = .ok b ∧ T a b := by
  cases h with
  | ok hab => cases hx; exact ⟨_, rfl, hab⟩
  | error stop => cases hx

/-- If the second run ends, the first does, and the results are related. -/
theorem exists_left {b : β} (h : RunRel T x y) (hy : y = .ok b) : ∃ a, x = .ok a ∧ T a b := by
  cases h with
  | ok hab => cases hy; exact ⟨_, rfl, hab⟩
  | error stop => cases hy

end RunRel

/-! ## Older records -/

/-- A mark moves the furthest offset to the place of the failure, if that is further. -/
theorem Furthest.offset_mark (f : Furthest) (culprit : Culprit) (pos : Nat) :
    (f.mark culprit pos).offset = max f.offset pos := by
  cases f with
  | none => exact (Nat.zero_max pos).symm
  | some known =>
    show (if known.offset ≤ pos then some ⟨culprit, pos⟩ else some known : Furthest).offset = _
    by_cases h : known.offset ≤ pos
    · rw [if_pos h]
      exact (Nat.max_eq_right h).symm
    · rw [if_neg h]
      exact (Nat.max_eq_left (Nat.le_of_not_le h)).symm

/-- The second engine stands where the first one does and knows the same answers, but has older
    records: the events `past`, and failures up to `reach`. -/
structure Engine.Over (past : History) (reach : Nat) (e e' : Engine) : Prop where
  text : e'.text = e.text
  pos : e'.pos = e.pos
  memo : e'.memo = e.memo
  depth : e'.depth = e.depth
  history : e'.history = e.history ++ past
  furthest : e'.furthest.offset = max e.furthest.offset reach

/-- Frames with such engines and the same bindings. -/
structure Frame.Over (past : History) (reach : Nat) (f f' : Frame) : Prop where
  engine : f.engine.Over past reach f'.engine
  scope : f'.scope = f.scope

/-- Equal outcomes with engines, or frames, one over the other. -/
def AlikeOver {α : Type} (T : α → α → Prop) (r r' : Outcome × α) : Prop :=
  r'.1 = r.1 ∧ T r.2 r'.2

/-- Runs of the step do the same over older records. -/
def Step.IgnoresRecords (s : Step) : Prop :=
  ∀ past reach f f', Frame.Over past reach f f' →
    RunRel (AlikeOver (Frame.Over past reach)) (s f) (s f')

/-- Calls do the same over older records. -/
def CallIgnoresRecords (x : Engine → Run (Outcome × Engine)) : Prop :=
  ∀ past reach e e', Engine.Over past reach e e' →
    RunRel (AlikeOver (Engine.Over past reach)) (x e) (x e')

namespace Engine.Over

variable {past : History} {reach : Nat} {e e' : Engine}

/-- Moving the cursor of both engines to one place keeps them over each other. -/
theorem move (h : e.Over past reach e') (p : Nat) :
    ({ e with pos := p } : Engine).Over past reach { e' with pos := p } := { h with pos := rfl }

/-- The results of two engines over each other need not be the same. -/
theorem result (h : e.Over past reach e') (v v' : Value) :
    ({ e with result := v } : Engine).Over past reach { e' with result := v' } := { h with }

/-- Both engines note the same event, on top of different pasts. -/
theorem note (h : e.Over past reach e') (event : Event) :
    (e.note event).Over past reach (e'.note event) :=
  { h with
    history := by
      show (⟨e'.depth, event⟩ : Moment) :: e'.history = _
      rw [h.depth, h.history]
      rfl }

/-- Both engines blame the same culprit at the same place, and the greater reach stays the greater one. -/
theorem blame (h : e.Over past reach e') (culprit : Culprit) (pos : Nat) :
    (e.blame culprit pos).Over past reach (e'.blame culprit pos) := by
  have marked : ({ e with furthest := e.furthest.mark culprit pos } : Engine).Over past reach
      { e' with furthest := e'.furthest.mark culprit pos } :=
    { h with
      furthest := by
        show (e'.furthest.mark culprit pos).offset = max (e.furthest.mark culprit pos).offset reach
        rw [Furthest.offset_mark, Furthest.offset_mark, h.furthest]
        omega }
  exact marked.note (.blamed culprit pos)

/-- Both memo tables are changed in the same way. -/
theorem withMemo (h : e.Over past reach e') (change : Memo → Memo) :
    ({ e with memo := change e.memo } : Engine).Over past reach
      { e' with memo := change e'.memo } := { h with memo := congrArg change h.memo }

/-- Nested engines have no failures yet, so only the events lie under them. -/
theorem nested (h : e.Over past reach e') : e.nested.Over past 0 e'.nested where
  text := h.text
  pos := h.pos
  memo := rfl
  depth := congrArg (· + 1) h.depth
  history := h.history
  furthest := rfl

/-- What a growth ends with is read off the memo table. -/
theorem grown (h : e.Over past reach e') (key : Key) :
    AlikeOver (Engine.Over past reach) (e.grown key) (e'.grown key) := by
  have hfind : e'.memo.find? key = e.memo.find? key := by rw [h.memo]
  unfold Engine.grown
  rw [hfind]
  cases e.memo.find? key with
  | none => exact ⟨rfl, h.move key.pos⟩
  | some entry => exact ⟨rfl, (h.move entry.answer.stop).result _ _⟩

end Engine.Over

/-- Steps that go back go back to frames over each other. -/
theorem Frame.Over.back {past : History} {reach : Nat} {m m' start start' : Frame}
    (h : m.Over past reach m') (hstart : start.Over past reach start') :
    (m.back start).Over past reach (m'.back start') where
  engine := { h.engine with pos := hstart.engine.pos }
  scope := by
    show m'.scope.rollback start'.scope.mark = m.scope.rollback start.scope.mark
    rw [h.scope, hstart.scope]

/-! ## No run reads its records -/

namespace Step.IgnoresRecords

variable {past : History} {reach : Nat}

/-- A row of steps that ignore records does so, one step after the other, with the frame that a failure goes
    back to. -/
theorem sequenceFrom {start start' : Frame} (hstart : start.Over past reach start') :
    ∀ (steps : List Step), (∀ s ∈ steps, s.IgnoresRecords) → ∀ (value : Value) (f f' : Frame),
      f.Over past reach f' → RunRel (AlikeOver (Frame.Over past reach))
        (Step.sequenceFrom start steps value f) (Step.sequenceFrom start' steps value f') := by
  intro steps
  induction steps with
  | nil =>
    intro _ value f f' h
    exact .ok ⟨by rw [h.engine.pos], h⟩
  | cons s ss ih =>
    intro hs value f f' h
    refine (hs s List.mem_cons_self past reach f f' h).bind ?_
    rintro ⟨o, m⟩ ⟨o', m'⟩ ⟨ho, hm⟩
    cases ho
    cases o with
    | matched stop v => exact ih (fun t ht => hs t (List.mem_cons_of_mem s ht)) v m m' hm
    | failed => exact .ok ⟨rfl, hm.back hstart⟩

/-- A choice goes on with the frame that a failed alternative has left, so its alternatives hand on the
    relation. -/
theorem choice : ∀ (steps : List Step), (∀ s ∈ steps, s.IgnoresRecords) →
    (Step.choice steps).IgnoresRecords := by
  intro steps
  induction steps with
  | nil => intro _ past reach f f' h; exact .ok ⟨rfl, h⟩
  | cons s ss ih =>
    intro hs past reach f f' h
    refine (hs s List.mem_cons_self past reach f f' h).bind ?_
    rintro ⟨o, m⟩ ⟨o', m'⟩ ⟨ho, hm⟩
    cases ho
    cases o with
    | matched stop v => exact .ok ⟨rfl, hm⟩
    | failed => exact ih (fun t ht => hs t (List.mem_cons_of_mem s ht)) past reach m m' hm

/-- The rounds of a repetition compare cursors only, and these are the same. -/
theorem rounds {body : Step} (hb : body.IgnoresRecords) : ∀ (fuel : Nat) (left : Option Nat)
    (values : List Value) (f f' : Frame), f.Over past reach f' →
      RunRel (fun r r' => r'.1 = r.1 ∧ r.2.Over past reach r'.2)
        (Step.rounds body fuel left values f) (Step.rounds body fuel left values f') := by
  intro fuel
  induction fuel with
  | zero => intro left values f f' _; exact .error .outOfFuel
  | succ fuel ih =>
    intro left values f f' h
    unfold Step.rounds
    by_cases hleft : left = some 0
    · rw [if_pos hleft, if_pos hleft]
      exact .ok ⟨rfl, h⟩
    · rw [if_neg hleft, if_neg hleft]
      refine (hb past reach f f' h).bind ?_
      rintro ⟨o, m⟩ ⟨o', m'⟩ ⟨ho, hm⟩
      cases ho
      cases o with
      | failed => exact .ok ⟨rfl, hm⟩
      | matched stop v =>
        simp only [h.engine.pos]
        split
        · exact .ok ⟨rfl, hm⟩
        · exact ih _ _ m m' hm

end Step.IgnoresRecords

namespace CallIgnoresRecords

variable {past : History} {reach : Nat} {r : Runner}
  (hr : ∀ rule args, CallIgnoresRecords (r.body rule args))
include hr

/-- Past the memo table, a rule ignores records if its body does. -/
theorem invoke (rule : RuleId) (args : List Value) :
    CallIgnoresRecords (Engine.invoke r rule args) := by
  intro past reach e e' h
  unfold Engine.invoke
  rw [h.pos]
  refine (hr rule args past reach _ _ (h.note _)).bind ?_
  rintro ⟨o, m⟩ ⟨o', m'⟩ ⟨ho, hm⟩
  cases ho
  cases o with
  | matched stop value => exact .ok ⟨rfl, ((hm.note _).move stop).result _ _⟩
  | failed => exact .ok ⟨rfl, ((hm.note _).move e.pos).blame _ _⟩

/-- Growth compares ends of outcomes, which are the same in both engines, so it takes the same number of
    rounds. -/
theorem grow (key : Key) : ∀ (fuel : Nat) (e e' : Engine), e.Over past reach e' →
    RunRel (AlikeOver (Engine.Over past reach)) (e.grow r key fuel) (e'.grow r key fuel) := by
  intro fuel
  induction fuel with
  | zero => intro e e' _; exact .error .outOfFuel
  | succ fuel ih =>
    intro e e' h
    have hfind : e'.memo.find? key = e.memo.find? key := by rw [h.memo]
    unfold Engine.grow
    rw [hfind]
    cases e.memo.find? key with
    | none => exact .ok (h.grown key)
    | some entry =>
      have hround := invoke hr key.rule key.args past reach _ _ (((h.move key.pos).result
        entry.answer.value entry.answer.value).note (.growing key entry.answer.stop))
      refine hround.bind ?_
      rintro ⟨o, m⟩ ⟨o', m'⟩ ⟨ho, hm⟩
      cases ho
      cases o with
      | failed => exact .ok (hm.grown key)
      | matched stop longer =>
        simp only
        split
        · exact ih _ _ (hm.withMemo (·.settle key (.matched stop longer)))
        · exact .ok (hm.grown key)

/-- Both engines have the same memo table, so they look the key up with the same answer. -/
theorem apply (fuel : Nat) (rule : RuleId) (args : List Value) :
    CallIgnoresRecords (Engine.apply r fuel rule args) := by
  intro past reach e e' h
  simp only [Engine.apply, h.pos, h.memo]
  cases e.memo.find? ⟨rule, e.pos, args⟩ with
  -- The entry is the same in both engines, and so is what is made of it.
  | some entry =>
    refine .ok ?_
    have hused := (h.withMemo (·.use ⟨rule, e.pos, args⟩)).move entry.answer.stop
    obtain ⟨⟨status, stop, value⟩, uses⟩ := entry
    cases status with
    | inProgress detected =>
      exact ⟨rfl, ((h.withMemo fun memo =>
        (memo.use _).settle _ ⟨.inProgress true, stop, value⟩).move stop).note _⟩
    | matched => exact ⟨rfl, (hused.result _ _).note _⟩
    | failed => exact ⟨rfl, hused.note _⟩
  | none =>
    have hopen := (h.withMemo (·.start ⟨rule, e.pos, args⟩)).note (.opened ⟨rule, e.pos, args⟩)
    refine (invoke hr rule args past reach _ _ hopen).bind ?_
    rintro ⟨o, m⟩ ⟨o', m'⟩ ⟨ho, hm⟩
    cases ho
    cases o with
    | failed => exact .ok ⟨rfl, hm.withMemo (·.settle _ (.parked .failed e.pos))⟩
    | matched stop value =>
      have hsettled := hm.withMemo (·.settle ⟨rule, e.pos, args⟩ (.matched stop value))
      have hsaw : m'.sawItself ⟨rule, e.pos, args⟩ = m.sawItself ⟨rule, e.pos, args⟩ := by
        rw [Engine.sawItself, Engine.sawItself, show m'.memo = m.memo from hm.memo]
      simp only [hsaw]
      split
      · exact grow hr _ fuel _ _ hsettled
      · exact .ok ⟨rfl, hsettled⟩

/-- A nested engine begins without records, and what it records is added to those of the outer one. -/
theorem callForeign (fuel : Nat) (grammar : String) (rule : RuleId) (args : List Value) :
    CallIgnoresRecords (Engine.callForeign r fuel grammar rule args) := by
  intro past reach e e' h
  unfold Engine.callForeign
  simp only [h.pos]
  refine (apply hr fuel rule args past 0 _ _ (h.note _).nested).bind ?_
  rintro ⟨o, i⟩ ⟨o', i'⟩ ⟨ho, hi⟩
  cases ho
  have hback : ({ e with history := i.history } : Engine).Over past reach
      { e' with history := i'.history } := { h with history := hi.history }
  cases o with
  | matched stop value => exact .ok ⟨rfl, (hback.move stop).result value value⟩
  | failed => exact .ok ⟨rfl, (hback.move e.pos).blame _ _⟩

end CallIgnoresRecords

/-- **No run reads its records.** -/
theorem ignoresRecords : StepProperty Step.IgnoresRecords CallIgnoresRecords where
  starved _ _ _ _ _ := .error .outOfFuel
  fail _ _ _ _ h := .ok ⟨rfl, h⟩
  terminal hread past reach f f' h := by
    obtain ⟨look, hlook, -⟩ := hread
    unfold Step.terminal
    rw [hlook, hlook, h.engine.text, h.engine.pos]
    cases look f.engine.text f.engine.pos with
    | error stop => exact .error stop
    | ok found =>
      cases found with
      | none => exact .ok ⟨rfl, h⟩
      | some r => exact .ok ⟨rfl, { h.engine.move r.2 with text := rfl }, h.scope⟩
  sequence steps hs _ _ f f' h := Step.IgnoresRecords.sequenceFrom h steps hs .nil f f' h
  choice steps hs := Step.IgnoresRecords.choice steps hs
  repetition s hs min max captures fuel past reach f f' h := by
    refine (Step.IgnoresRecords.rounds hs fuel max [] f f' h).bind ?_
    rintro ⟨values, m⟩ ⟨values', m'⟩ ⟨hvalues, hm⟩
    cases hvalues
    simp only
    split
    · exact .ok ⟨rfl, hm.back h⟩
    · exact .ok ⟨by rw [hm.engine.pos], hm⟩
  ahead s hs past reach f f' h := by
    refine (hs past reach f f' h).bind ?_
    rintro ⟨o, m⟩ ⟨o', m'⟩ ⟨ho, hm⟩
    cases ho
    cases o with
    | matched stop v => exact .ok ⟨by rw [h.engine.pos], hm.back h⟩
    | failed => exact .ok ⟨rfl, hm.back h⟩
  notAhead s hs past reach f f' h := by
    refine (hs past reach f f' h).bind ?_
    rintro ⟨o, m⟩ ⟨o', m'⟩ ⟨ho, hm⟩
    cases ho
    cases o with
    | matched stop v => exact .ok ⟨rfl, hm.back h⟩
    | failed => exact .ok ⟨by rw [h.engine.pos], hm.back h⟩
  test a wanted past reach f f' h := by
    unfold Step.test Engine.perform
    rw [h.scope]
    simp only
    split
    · exact .ok ⟨by rw [h.engine.pos], h.engine.note _, rfl⟩
    · exact .ok ⟨rfl, h.engine.note _, rfl⟩
  binding s hs name value hvalue past reach f f' h := by
    refine (hs past reach f f' h).bind ?_
    rintro ⟨o, m⟩ ⟨o', m'⟩ ⟨ho, hm⟩
    cases ho
    cases o with
    | failed => exact .ok ⟨rfl, hm⟩
    | matched stop v =>
      -- The value is read off the text and the two ends, which are the same.
      simp only [hvalue f' f h.engine.text h.engine.pos]
      exact .ok ⟨rfl, hm.engine, congrArg (Scope.bind · name (value f stop v)) hm.scope⟩
  action a past reach f f' h := by
    unfold Step.action Engine.perform
    rw [h.scope]
    exact .ok ⟨by rw [h.engine.pos], h.engine.note _, rfl⟩
  call run hq args past reach f f' h := by
    unfold Step.call
    rw [h.scope]
    refine (hq _ past reach _ _ h.engine).bind ?_
    rintro ⟨o, e⟩ ⟨o', e'⟩ ⟨ho, he⟩
    cases ho
    exact .ok ⟨rfl, he, rfl⟩
  starvedBody _ _ _ _ _ := .error .outOfFuel
  noBody _ _ _ _ h := .ok ⟨rfl, h⟩
  body s hs scope past reach e e' h := by
    unfold Step.inScope
    exact (hs past reach ⟨e, scope⟩ ⟨e', scope⟩ ⟨h, rfl⟩).map fun _ _ hr => ⟨hr.1, hr.2.engine⟩
  invoke r hr rule args := CallIgnoresRecords.invoke hr rule args
  apply r hr fuel rule args := CallIgnoresRecords.apply hr fuel rule args
  callForeign r hr fuel grammar rule args := CallIgnoresRecords.callForeign hr fuel grammar rule args

namespace Engine

variable [RegexLibrary]

/-- What a rule answers past the memo table does not depend on records. -/
theorem invokeRule_ignoresRecords (n : Nat) (rs : RuleSet) (rule : RuleId) (args : List Value) :
    CallIgnoresRecords (Engine.invokeRule n rs rule args) :=
  CallIgnoresRecords.invoke ((ignoresRecords.everywhere n).1 rs) rule args

/-- What a rule answers through the memo table does not depend on records. -/
theorem applyRule_ignoresRecords (n : Nat) (rs : RuleSet) (rule : RuleId) (args : List Value) :
    CallIgnoresRecords (Engine.applyRule n rs rule args) :=
  CallIgnoresRecords.apply ((ignoresRecords.everywhere n).1 rs) n rule args

end Engine

/-! ## Calls across -/

/-- Where an outcome leaves the cursor: at the end of a match, else where it was. -/
def Outcome.cursor (o : Outcome) (start : Nat) : Nat :=
  match o with
  | .matched stop _ => stop
  | .failed => start

/-- The second engine is the first one after an outcome that was found without its memo table, with
    the events `new` and failures up to `reach`. -/
structure Engine.Passed (new : History) (reach : Nat) (o : Outcome) (e after : Engine) : Prop where
  text : after.text = e.text
  pos : after.pos = o.cursor e.pos
  memo : after.memo = e.memo
  depth : after.depth = e.depth
  history : after.history = new ++ e.history
  furthest : after.furthest.offset = max e.furthest.offset reach

namespace Engine

variable [RegexLibrary]

variable {rs : RuleSet} {n : Nat} {grammar : String} {rule : RuleId} {args : List Value}
  {e e' after : Engine} {o : Outcome}

/-- The nested engine of a call into a linked rule set, with the crossing as its only record. -/
def below (rs : RuleSet) (grammar : String) (rule : RuleId) (e : Engine) : Engine :=
  { Engine.startingAt e.text e.pos with
    depth := e.depth + 1
    history := [⟨e.depth, .crossing grammar (rs.ruleName rule) e.pos⟩] }

/-- The nested engine of every engine at the place stands over this one. -/
theorem below_over (grammar : String) (htext : e'.text = e.text) (hpos : e'.pos = e.pos)
    (hdepth : e'.depth = e.depth) :
    (e.below rs grammar rule).Over e'.history 0 (e'.crossing (rs.runner n) grammar rule) where
  text := htext
  pos := hpos
  memo := rfl
  depth := congrArg (· + 1) hdepth
  history := by
    show (⟨e'.depth, .crossing grammar (rs.ruleName rule) e'.pos⟩ : Moment) :: e'.history = _
    rw [hdepth, hpos]
    rfl
  furthest := rfl

/-- Rules re-enter in the nested engine or below it. -/
theorem below_deeper (h : (e.below rs grammar rule).applyRule n rs rule args = .ok (o, after)) :
    ∀ m ∈ after.history, m.event.isReEntry → e.depth < m.depth := by
  obtain ⟨-, -, new, hnew, hdeep⟩ :=
    extends_order.apply (extends_order.bodies n rs) n rule args _ o after h
  intro m hm hre
  rw [hnew] at hm
  rcases List.mem_append.1 hm with hm | hm
  · exact hdeep m hm
  · rw [List.mem_singleton.1 hm] at hre
    cases hre

/-- The call ends as the nested engine does, with the events of that on top of those of the caller. -/
theorem callForeign_of_below
    (h : (e.below rs grammar rule).applyRule n rs rule args = .ok (o, after))
    (htext : e'.text = e.text) (hpos : e'.pos = e.pos) (hdepth : e'.depth = e.depth) :
    e'.callForeign (rs.runner n) n grammar rule args =
      .ok (o, e'.returned (rs.runner n) grammar rule (after.history ++ e'.history) o) := by
  obtain ⟨⟨o', inner⟩, hinner, ho, hover⟩ := (applyRule_ignoresRecords n rs rule args _ _ _ _
    (below_over grammar htext hpos hdepth)).exists_right h
  cases ho
  rw [callForeign_eq, ← hover.history]
  have happly : (e'.crossing (rs.runner n) grammar rule).apply (rs.runner n) n rule args =
      .ok (o, inner) := hinner
  rw [happly]
  rfl

/-- **Calls across are the same anywhere.**  What a call into a linked rule set does at a place, it does
    in every engine at that place; and rules re-enter in engines below only. -/
theorem callForeign_anywhere (h : e.callForeign (rs.runner n) n grammar rule args = .ok (o, after)) :
    ∃ new reach, (∀ m ∈ new, m.event.isReEntry → e.depth < m.depth) ∧
      ∀ e' : Engine, e'.text = e.text → e'.pos = e.pos → e'.depth = e.depth →
        ∃ after', e'.callForeign (rs.runner n) n grammar rule args = .ok (o, after') ∧
          e'.Passed new reach o after' := by
  obtain ⟨inner, hinner, -⟩ := callForeign_eq_ok h
  obtain ⟨⟨o', below⟩, hbelow, ho, -⟩ := (applyRule_ignoresRecords n rs rule args _ _ _ _
    (below_over grammar rfl rfl rfl)).exists_left hinner
  cases ho
  have hdeeper := below_deeper hbelow
  cases o with
  | matched stop value =>
    refine ⟨below.history, 0, hdeeper, fun e' htext hpos hdepth => ?_⟩
    exact ⟨_, callForeign_of_below hbelow htext hpos hdepth, rfl, rfl, rfl, rfl, rfl,
      (Nat.max_zero _).symm⟩
  | failed =>
    -- The failure of the call is blamed on the callee, in the engine of the caller.
    refine ⟨⟨e.depth, .blamed (.foreign (grammar ++ "." ++ rs.ruleName rule)) e.pos⟩ ::
      below.history, e.pos, fun m hm hre => ?_, fun e' htext hpos hdepth => ?_⟩
    · rcases List.mem_cons.1 hm with rfl | hm
      · cases hre
      · exact hdeeper m hm hre
    · refine ⟨_, callForeign_of_below hbelow htext hpos hdepth, rfl, rfl, rfl, rfl, ?_, ?_⟩
      · show (⟨e'.depth, .blamed _ e'.pos⟩ : Moment) :: (below.history ++ e'.history) = _
        rw [hdepth, hpos]
        rfl
      · show (e'.furthest.mark _ e'.pos).offset = _
        rw [Furthest.offset_mark, hpos]

end Engine

end MemoPeg
