import MemoPeg.Proofs.Bindings
import MemoPeg.Proofs.LeftRecursion
import MemoPeg.Proofs.Repetition
import MemoPeg.Regex.Reader

/-
  What a repetition with a limit unrolls to.

  `e[2,5]` is said to be `e e (e (e e?)?)?`.  The two are written differently, run differently, and yet end
  with the same kind of outcome at the same offset, in the same frame.

  1. **Tables in order (`Memo.Parked`)** — in the memo table of a run, an entry that is no match ends where
     its key is, so that a call which finds it fails where it was made.
  2. **Failing (`Grammar.failed_kept`)** — an operator that fails leaves the cursor and the bindings where
     they were, whatever has run before.  So a repetition that stops at a failed round has nothing to
     undo.
  3. **Rounds (`Grammar.Rounds`)** — the operator is tried again and again, each time in the frame that the
     time before has left, until it fails or the limit is reached.  Reading nothing does not end the
     rounds.
  4. **Repetitions (`Grammar.ends_repetition_iff`)** — a repetition with a limit makes the rounds and counts
     them.
  5. **Optionals (`Grammar.rest_optionals_iff`)** — one optional inside the other makes the same rounds: what
     stands behind a round that has matched is the optional for the rounds that are left.
  6. **The crux (`Grammar.rest_required_iff`)** — copies of the operator before the optionals make the same
     rounds too, and go back to the start if one of the copies fails.

  Both sides are thus compared with `Rounds`, and never with each other.  A failed round may leave its mark on
  the memo table and on the furthest failure; `Rounds` ends in the frame behind it, and not in the one before,
  so these traces are compared as well.  What is not the same on both sides is the value of a match, which for
  a repetition may be a list; `EndsAt` leaves it out.

  An optional that matches nothing succeeds where its operator has failed.  If the operator left the cursor
  elsewhere, the optional would succeed elsewhere; this is what 2 is needed for.
-/

namespace MemoPeg

/-! ## Tables in order -/

/-- Every entry but those of matches is parked: its end is where its key is, and it has no value. -/
def Memo.Parked (memo : Memo) : Prop :=
  memo.AllAnswers fun key answer => answer.status ≠ .matched → answer = .parked answer.status key.pos

/-- A table that is in order before the run is in order after it. -/
def Engine.StaysParked (e e' : Engine) : Prop := e.memo.Parked → e'.memo.Parked

/-- What the tables of engines in a text hold is parked if it is no match. -/
theorem Engine.InText.memo_parked {e : Engine} (h : e.InText) : e.memo.Parked :=
  fun _ _ hfind hstatus => h.parked hfind hstatus

namespace Memo.Parked

variable {memo : Memo} {key : Key}

/-- A new entry ends where its key is. -/
theorem start (h : memo.Parked) (key : Key) : (memo.start key).Parked := AllAnswers.start h fun _ => rfl

/-- The entry of a match may end anywhere. -/
theorem settle_matched (h : memo.Parked) (key : Key) (stop : Nat) (value : Value) :
    (memo.settle key (.matched stop value)).Parked := AllAnswers.settle h fun hstatus => absurd rfl hstatus

/-- A call that finds its key without a match is answered where it was made. -/
theorem reuse {e : Engine} (h : e.memo.Parked) {entry : Entry} (hfind : e.memo.find? key = some entry)
    {o : Outcome} {e' : Engine} (hrun : (o, e') = e.reuse key entry) :
    e'.memo.Parked ∧ (o = .failed → e'.pos = key.pos) := by
  have hused : (e.memo.use key).Parked := AllAnswers.use h key
  have hparked := h key entry hfind
  obtain ⟨⟨status, stop, value⟩, uses⟩ := entry
  cases status with
  | matched =>
    cases hrun
    exact ⟨hused, fun hfailed => by cases hfailed⟩
  | inProgress detected =>
    obtain ⟨-, rfl, rfl⟩ := Answer.mk.inj (hparked fun heq => by cases heq)
    cases hrun
    exact ⟨AllAnswers.settle hused fun _ => rfl, fun _ => rfl⟩
  | failed =>
    obtain ⟨-, rfl, rfl⟩ := Answer.mk.inj (hparked fun heq => by cases heq)
    cases hrun
    exact ⟨hused, fun _ => rfl⟩

end Memo.Parked

/-- What changes no entry keeps the table in order. -/
theorem staysParked_drift : EngineDrift Engine.StaysParked where
  refl _ h := h
  trans h k := fun hparked => k (h hparked)
  move _ _ h := h
  result _ _ h := h
  note _ _ _ _ h := h
  blame _ _ _ h := h

/-! ## Failing -/

/-- A step that fails, in an engine whose table is in order, leaves the cursor where it was. -/
def Step.FailsInPlace (s : Step) : Prop :=
  ∀ f o g, s f = .ok (o, g) → f.engine.memo.Parked →
    g.engine.memo.Parked ∧ (o = .failed → g.engine.pos = f.engine.pos)

/-- A call that fails, in an engine whose table is in order, leaves the cursor where it was. -/
def CallFailsInPlace (x : Engine → Run (Outcome × Engine)) : Prop :=
  ∀ e o e', x e = .ok (o, e') → e.memo.Parked → e'.memo.Parked ∧ (o = .failed → e'.pos = e.pos)

/-- The rest of a sequence fails at the start of the whole. -/
theorem Step.FailsInPlace.sequenceFrom {start : Frame} : ∀ (steps : List Step),
    (∀ s ∈ steps, s.FailsInPlace) → ∀ (value : Value) f o g,
      Step.sequenceFrom start steps value f = .ok (o, g) → f.engine.memo.Parked →
        g.engine.memo.Parked ∧ (o = .failed → g.engine.pos = start.engine.pos) := by
  intro steps
  induction steps with
  | nil =>
    intro _ value f o g hrun hf
    cases hrun
    exact ⟨hf, fun hfailed => by cases hfailed⟩
  | cons s ss ih =>
    intro hs value f o g hrun hf
    rcases Step.sequenceFrom_cons_eq_ok hrun with ⟨stop, v, m, hm, hrest⟩ | ⟨m, hm, -, rfl⟩
    · have hmparked := (hs s List.mem_cons_self f _ m hm hf).1
      exact ih (fun t ht => hs t (List.mem_cons_of_mem s ht)) v m o g hrest hmparked
    · exact ⟨(hs s List.mem_cons_self f _ m hm hf).1, fun _ => rfl⟩

/-- A choice fails where its last alternative does, which is where it began. -/
theorem Step.FailsInPlace.choice : ∀ (steps : List Step), (∀ s ∈ steps, s.FailsInPlace) →
    (Step.choice steps).FailsInPlace := by
  intro steps
  induction steps with
  | nil =>
    intro _ f o g hrun hf
    cases hrun
    exact ⟨hf, fun _ => rfl⟩
  | cons s ss ih =>
    intro hs f o g hrun hf
    rcases Step.choice_cons_eq_ok hrun with ⟨stop, v, hm, rfl⟩ | ⟨m, hm, hrest⟩
    · exact hs s List.mem_cons_self f _ g hm hf
    · obtain ⟨hmparked, hfirst⟩ := hs s List.mem_cons_self f _ m hm hf
      obtain ⟨hparked, hnext⟩ :=
        ih (fun t ht => hs t (List.mem_cons_of_mem s ht)) m o g hrest hmparked
      exact ⟨hparked, fun hfailed => (hnext hfailed).trans (hfirst rfl)⟩

namespace CallFailsInPlace

variable {r : Runner} (hr : ∀ rule args, CallFailsInPlace (r.body rule args))
include hr

/-- An invocation puts the cursor back when the body has failed. -/
theorem invoke (rule : RuleId) (args : List Value) : CallFailsInPlace (Engine.invoke r rule args) := by
  intro e o e' hrun he
  obtain ⟨m, hm, rfl⟩ := Engine.invoke_eq_ok hrun
  have hparked := (hr rule args _ o m hm he).1
  cases o with
  | matched stop value => exact ⟨hparked, fun hfailed => by cases hfailed⟩
  | failed => exact ⟨hparked, fun _ => rfl⟩

/-- A growth that lacks an entry fails where its key is. -/
theorem grow (key : Key) : ∀ (fuel : Nat) (e : Engine) (o : Outcome) (e' : Engine),
    e.grow r key fuel = .ok (o, e') → e.memo.Parked →
      e'.memo.Parked ∧ (o = .failed → e'.pos = key.pos) := by
  intro fuel
  induction fuel with
  | zero => intro e o e' hrun; cases hrun
  | succ fuel ih =>
    intro e o e' hrun he
    rcases Engine.grow_succ_eq_ok hrun with ⟨-, -, rfl⟩ | ⟨best, uses, round, m, -, hround, hgrown⟩
    · exact ⟨he, fun _ => rfl⟩
    · have hm := (invoke hr key.rule key.args _ _ m hround he).1
      rcases hgrown with ⟨stop, longer, -, -, hrest⟩ | ⟨-, heq⟩
      · exact ih _ o e' hrest (hm.settle_matched key stop longer)
      · rcases m.grown_cases key with ⟨entry, -, hgrown⟩ | ⟨-, hgrown⟩ <;> rw [hgrown] at heq <;>
          cases heq
        · exact ⟨hm, fun hfailed => by cases hfailed⟩
        · exact ⟨hm, fun _ => rfl⟩

/-- A call fails where it was made, whether its body fails or an entry says so. -/
theorem apply (fuel : Nat) (rule : RuleId) (args : List Value) :
    CallFailsInPlace (Engine.apply r fuel rule args) := by
  intro e o e' hrun he
  rcases Engine.apply_eq_ok hrun with ⟨entry, hfind, heq⟩ | ⟨-, first, m, hm, hrest⟩
  · exact he.reuse hfind heq
  · obtain ⟨hparked, hpos⟩ := invoke hr rule args _ first m hm (he.start _)
    rcases hrest with ⟨stop, value, -, -, hgrown⟩ | ⟨stop, value, rfl, -, rfl, rfl⟩ | ⟨rfl, rfl, rfl⟩
    · exact grow hr _ fuel _ o e' hgrown (hparked.settle_matched _ stop value)
    · exact ⟨hparked.settle_matched _ stop value, fun hfailed => by cases hfailed⟩
    · exact ⟨Memo.AllAnswers.settle hparked fun _ => rfl, fun _ => hpos rfl⟩

omit hr in
/-- A call to a linked rule set has an engine of its own, whose table is empty at first. -/
theorem callForeign (fuel : Nat) (grammar : String) (rule : RuleId) (args : List Value) :
    CallFailsInPlace (Engine.callForeign r fuel grammar rule args) := by
  intro e o e' hrun he
  obtain ⟨inner, -, rfl⟩ := Engine.callForeign_eq_ok hrun
  cases o with
  | matched stop value => exact ⟨he, fun hfailed => by cases hfailed⟩
  | failed => exact ⟨he, fun _ => rfl⟩

end CallFailsInPlace

/-- **Every run that fails does so in its place.** -/
theorem failsInPlace : StepProperty Step.FailsInPlace CallFailsInPlace where
  starved f o g hrun := by cases hrun
  fail f o g hrun hf := by cases hrun; exact ⟨hf, fun _ => rfl⟩
  terminal hread f o g hrun hf := by
    obtain ⟨look, hlook, -⟩ := hread
    rcases Step.terminal_eq_ok hrun with ⟨a, e, ha, rfl, rfl⟩ | ⟨-, -, rfl⟩
    · rw [hlook] at ha
      cases hl : look f.engine.text f.engine.pos with
      | error stop => rw [hl] at ha; cases ha
      | ok found =>
        rw [hl] at ha
        obtain ⟨found', -, heq⟩ := Option.map_eq_some_iff.1 (Except.ok.inj ha)
        cases heq
        exact ⟨hf, fun hfailed => by cases hfailed⟩
    · exact ⟨hf, fun _ => rfl⟩
  sequence steps hs f o g hrun hf := Step.FailsInPlace.sequenceFrom steps hs .nil f o g hrun hf
  choice := Step.FailsInPlace.choice
  repetition s hs min max captures fuel f o g hrun hf := by
    obtain ⟨values, m, hm, hend⟩ := Step.repetition_eq_ok hrun
    have hmparked : m.engine.memo.Parked := staysParked_drift.rounds
      (fun f o g hs' hf' => (hs f o g hs' hf').1) fuel max [] f values m hm hf
    rcases hend with ⟨-, -, rfl⟩ | ⟨-, rfl, rfl⟩
    · exact ⟨hmparked, fun _ => rfl⟩
    · exact ⟨hmparked, fun hfailed => by cases hfailed⟩
  ahead s hs f o g hrun hf := by
    obtain ⟨part, m, hm, rfl, -⟩ := Step.ahead_eq_ok hrun
    exact ⟨(hs f part m hm hf).1, fun _ => rfl⟩
  notAhead s hs f o g hrun hf := by
    obtain ⟨part, m, hm, rfl, -⟩ := Step.notAhead_eq_ok hrun
    exact ⟨(hs f part m hm hf).1, fun _ => rfl⟩
  test a wanted f o g hrun hf := by
    obtain ⟨rfl, -⟩ := Step.test_eq_ok hrun
    exact ⟨hf, fun _ => rfl⟩
  binding s hs name value _ f o g hrun hf := by
    rcases Step.binding_eq_ok hrun with ⟨stop, v, m, hm, rfl, rfl⟩ | ⟨hm, rfl⟩
    · exact ⟨(hs f _ m hm hf).1, fun hfailed => by cases hfailed⟩
    · exact hs f _ g hm hf
  action a f o g hrun hf := by
    obtain ⟨-, rfl⟩ := Step.action_eq_ok hrun
    exact ⟨hf, fun _ => rfl⟩
  call run hq args f o g hrun hf := by
    obtain ⟨e, he, rfl⟩ := Step.call_eq_ok hrun
    exact hq _ _ o e he hf
  starvedBody e o e' hrun := by cases hrun
  noBody e o e' hrun he := by cases hrun; exact ⟨he, fun _ => rfl⟩
  body s hs scope e o e' hrun he := by
    obtain ⟨m, hm, rfl⟩ := Step.inScope_eq_ok hrun
    exact hs _ o m hm he
  invoke r hr rule args := CallFailsInPlace.invoke hr rule args
  apply r hr fuel rule args := CallFailsInPlace.apply hr fuel rule args
  callForeign r _ fuel grammar rule args := CallFailsInPlace.callForeign fuel grammar rule args

namespace Grammar

variable [RegexLibrary]

variable {g : Grammar} {op : Operator} {f m : Frame}

/-- A table stays in order. -/
theorem parked_of_ends {o : Outcome} (h : Ends (fun n => g.eval n op f) (o, m))
    (hf : f.engine.memo.Parked) : m.engine.memo.Parked := by
  obtain ⟨n, hn⟩ := h
  exact ((failsInPlace.everywhere n).2.1 g op f o m (hn n (Nat.le_refl n)) hf).1

/-- **An operator that fails has nothing to undo.** -/
theorem failed_kept (h : Ends (fun n => g.eval n op f) (.failed, m)) (hf : f.engine.memo.Parked) :
    m.back f = m := by
  obtain ⟨n, hn⟩ := h
  have hrun : g.eval n op f = .ok (.failed, m) := hn n (Nat.le_refl n)
  have hpos : m.engine.pos = f.engine.pos :=
    ((failsInPlace.everywhere n).2.1 g op f _ m hrun hf).2 rfl
  have hscope : m.scope = f.scope := ((g.eval_binds n op).1 f _ m hrun).2 rfl
  have hrollback : m.scope.rollback f.scope.mark = m.scope := by
    rw [hscope]
    exact List.take_length
  unfold Frame.back
  rw [← hpos, hrollback]

/-! ## Rounds -/

/-- The operator is tried in succession, at most so many times, and until it fails.  The values are the
    results of those times that match, in order. -/
inductive Rounds (g : Grammar) (op : Operator) : Nat → Frame → List Value → Frame → Prop
  | limit (f : Frame) : Rounds g op 0 f [] f
  | failed {left : Nat} {f m : Frame} (h : Ends (fun n => g.eval n op f) (.failed, m)) :
    Rounds g op (left + 1) f [] m
  | matched {left stop : Nat} {v : Value} {vs : List Value} {f m last : Frame}
      (h : Ends (fun n => g.eval n op f) (.matched stop v, m)) (hs : Rounds g op left m vs last) :
    Rounds g op (left + 1) f (v :: vs) last

/-- There are no more values than rounds allowed. -/
theorem Rounds.length_le {left : Nat} {vs : List Value} {last : Frame} (h : g.Rounds op left f vs last) :
    vs.length ≤ left := by
  induction h with
  | limit f => exact Nat.le_refl 0
  | failed _ => exact Nat.zero_le _
  | matched _ _ ih => exact Nat.succ_le_succ ih

/-- A loop with a limit makes the rounds. -/
theorem rounds_of_loop {n : Nat} : ∀ (fuel : Nat) {left : Nat} {values values' : List Value}
    {f last : Frame}, Step.rounds (g.eval n op) fuel (some left) values f = .ok (values', last) →
      ∃ vs, g.Rounds op left f vs last ∧ values' = vs.reverse ++ values := by
  intro fuel
  induction fuel with
  | zero => intro left values values' f last hrun; cases hrun
  | succ fuel ih =>
    intro left values values' f last hrun
    rcases Step.rounds_succ_eq_ok hrun with ⟨hleft, rfl, rfl⟩ | ⟨hleft, hfailed, rfl⟩ |
      ⟨hleft, stop, v, m, hm, hrest⟩
    · obtain rfl : left = 0 := Option.some.inj hleft
      exact ⟨[], .limit last, rfl⟩
    · obtain ⟨left, rfl⟩ : ∃ k, left = k + 1 :=
        Nat.exists_eq_succ_of_ne_zero fun h => hleft (congrArg some h)
      exact ⟨[], .failed (ends_of_eval hfailed), rfl⟩
    · obtain ⟨left, rfl⟩ : ∃ k, left = k + 1 :=
        Nat.exists_eq_succ_of_ne_zero fun h => hleft (congrArg some h)
      rcases hrest with ⟨-, hnone, -⟩ | ⟨-, hrest⟩
      · cases hnone
      · obtain ⟨vs, hvs, rfl⟩ := ih hrest
        exact ⟨v :: vs, .matched (ends_of_eval hm) hvs, by simp⟩

/-- The rounds are made by every loop with enough fuel. -/
theorem Rounds.loop {left : Nat} {vs : List Value} {last : Frame} (h : g.Rounds op left f vs last) :
    ∀ values, ∃ b, ∀ n, b ≤ n → ∀ fuel, b ≤ fuel →
      Step.rounds (g.eval n op) fuel (some left) values f = .ok (vs.reverse ++ values, last) := by
  induction h with
  | limit f =>
    refine fun values => ⟨1, fun n _ fuel hfuel => ?_⟩
    obtain ⟨k, rfl⟩ : ∃ k, fuel = k + 1 := ⟨fuel - 1, by omega⟩
    rw [Step.rounds, if_pos rfl]
    rfl
  | failed hfailed =>
    obtain ⟨b, hb⟩ := hfailed
    refine fun values => ⟨b + 1, fun n hn fuel hfuel => ?_⟩
    obtain ⟨k, rfl⟩ : ∃ k, fuel = k + 1 := ⟨fuel - 1, by omega⟩
    rw [Step.rounds, if_neg (by simp), show g.eval n op _ = _ from hb n (by omega)]
    rfl
  | @matched left stop v vs f m last hmatched _ ih =>
    intro values
    obtain ⟨b, hb⟩ := hmatched
    obtain ⟨b', hb'⟩ := ih (v :: values)
    refine ⟨max b b' + 1, fun n hn fuel hfuel => ?_⟩
    obtain ⟨k, rfl⟩ : ∃ k, fuel = k + 1 := ⟨fuel - 1, by omega⟩
    rw [Step.rounds, if_neg (by simp), show g.eval n op f = _ from hb n (by omega)]
    -- The limit is left, so that a round without reading goes on.
    have hgoes : ¬(stop = f.engine.pos ∧ (some (left + 1) : Option Nat).isNone) := fun h => by cases h.2
    have hrest := hb' n (by omega) k (by omega)
    rw [List.reverse_cons, List.append_assoc]
    exact (if_neg hgoes).trans hrest

/-- A first round, and what it leaves of the others. -/
theorem rounds_succ_iff {left : Nat} {vs : List Value} {last : Frame} :
    g.Rounds op (left + 1) f vs last ↔
      (Ends (fun n => g.eval n op f) (.failed, last) ∧ vs = []) ∨
      ∃ stop v m vs', Ends (fun n => g.eval n op f) (.matched stop v, m) ∧ g.Rounds op left m vs' last ∧
        vs = v :: vs' := by
  constructor
  · intro h
    cases h with
    | failed h => exact .inl ⟨h, rfl⟩
    | matched h hs => exact .inr ⟨_, _, _, _, h, hs, rfl⟩
  · rintro (⟨h, rfl⟩ | ⟨stop, v, m, vs', h, hs, rfl⟩)
    · exact .failed h
    · exact .matched h hs

/-- One round is a run of the operator. -/
theorem exists_round_iff {last : Frame} :
    (∃ vs, g.Rounds op 1 f vs last) ↔ ∃ o, Ends (fun n => g.eval n op f) (o, last) := by
  constructor
  · rintro ⟨vs, h⟩
    rcases rounds_succ_iff.1 h with ⟨h, -⟩ | ⟨stop, v, m, vs', h, hs, -⟩
    · exact ⟨_, h⟩
    · cases hs
      exact ⟨_, h⟩
  · rintro ⟨o, h⟩
    cases o with
    | matched stop v => exact ⟨[v], .matched h (.limit last)⟩
    | failed => exact ⟨[], .failed h⟩

end Grammar

/-! ## Repetitions -/

/-- The run ends in the frame, with a match up to the offset or with a failure. -/
def EndsAt (x : Nat → Run (Outcome × Frame)) (stop? : Option Nat) (f' : Frame) : Prop :=
  ∃ o : Outcome, o.stop? = stop? ∧ Ends x (o, f')

/-- What begins at a frame with a minimum of rounds fails and goes back if there are fewer, and matches up to
    where they have led if there are enough. -/
def Counted (min : Nat) (start : Frame) (vs : List Value) (last : Frame) (stop? : Option Nat)
    (f' : Frame) : Prop :=
  (vs.length < min ∧ stop? = none ∧ f' = last.back start) ∨
    (min ≤ vs.length ∧ stop? = some last.engine.pos ∧ f' = last)

/-- One round more is one more of the minimum. -/
theorem counted_succ_iff {min : Nat} {start last f' : Frame} {v : Value} {vs : List Value}
    {stop? : Option Nat} :
    Counted (min + 1) start (v :: vs) last stop? f' ↔ Counted min start vs last stop? f' := by
  simp only [Counted, List.length_cons, Nat.add_lt_add_iff_right, Nat.add_le_add_iff_right]

/-- A run that ends without an offset ends with a failure. -/
theorem EndsAt.failed_iff {x : Nat → Run (Outcome × Frame)} {f' : Frame} :
    EndsAt x none f' ↔ Ends x (.failed, f') := by
  constructor
  · rintro ⟨o, ho, h⟩
    cases o with
    | matched stop v => cases ho
    | failed => exact h
  · exact fun h => ⟨.failed, rfl, h⟩

/-- A run that ends at an offset ends with a match, whatever its value. -/
theorem EndsAt.matched_iff {x : Nat → Run (Outcome × Frame)} {stop : Nat} {f' : Frame} :
    EndsAt x (some stop) f' ↔ ∃ v, Ends x (.matched stop v, f') := by
  constructor
  · rintro ⟨o, ho, h⟩
    cases o with
    | matched stop' v =>
      obtain rfl : stop' = stop := Option.some.inj ho
      exact ⟨v, h⟩
    | failed => cases ho
  · rintro ⟨v, h⟩
    exact ⟨.matched stop v, rfl, h⟩

namespace Grammar

variable [RegexLibrary]

variable {g : Grammar} {op : Operator} {f : Frame}

/-- **A repetition with a limit makes the rounds and counts them.** -/
theorem ends_repetition_iff {min max : Nat} {captures : Bool} {o : Outcome} {f' : Frame} :
    Ends (fun n => g.eval n (.repetition op min (some max) captures) f) (o, f') ↔
      ∃ vs last, g.Rounds op max f vs last ∧
        ((vs.length < min ∧ o = .failed ∧ f' = last.back f) ∨
          (min ≤ vs.length ∧ f' = last ∧
            o = .matched last.engine.pos (if captures then .list vs else vs.getLast?.getD .nil))) := by
  constructor
  · intro h
    obtain ⟨n, hn⟩ := h.succ
    obtain ⟨values, last, hloop, hcount⟩ := Step.repetition_eq_ok (hn n (Nat.le_refl n))
    obtain ⟨vs, hrounds, rfl⟩ := rounds_of_loop n hloop
    rw [List.append_nil, List.length_reverse, List.reverse_reverse, List.head?_reverse] at hcount
    exact ⟨vs, last, hrounds, hcount⟩
  · rintro ⟨vs, last, hrounds, hcount⟩
    obtain ⟨b, hb⟩ := hrounds.loop []
    rw [List.append_nil] at hb
    have hloop : Ends (fun n => Step.rounds (g.eval n op) n (some max) [] f) (vs.reverse, last) :=
      ⟨b, fun n hn => hb n hn n hn⟩
    refine .of_succ (hloop.bind (.const ?_))
    rcases hcount with ⟨hfew, rfl, rfl⟩ | ⟨henough, rfl, rfl⟩
    · have hfew' : vs.reverse.length < min := by rwa [List.length_reverse]
      exact if_pos hfew'
    · have henough' : ¬vs.reverse.length < min := by rw [List.length_reverse]; omega
      refine (if_neg henough').trans ?_
      rw [List.reverse_reverse, List.head?_reverse]

/-- How far a repetition gets, and that it fails, is known from its rounds. -/
theorem repetition_endsAt_iff {min max : Nat} {captures : Bool} {stop? : Option Nat} {f' : Frame} :
    EndsAt (fun n => g.eval n (.repetition op min (some max) captures) f) stop? f' ↔
      ∃ vs last, g.Rounds op max f vs last ∧ Counted min f vs last stop? f' := by
  constructor
  · rintro ⟨o, rfl, h⟩
    obtain ⟨vs, last, hrounds, ⟨hfew, rfl, rfl⟩ | ⟨henough, rfl, rfl⟩⟩ := ends_repetition_iff.1 h
    · exact ⟨vs, last, hrounds, .inl ⟨hfew, rfl, rfl⟩⟩
    · exact ⟨vs, f', hrounds, .inr ⟨henough, rfl, rfl⟩⟩
  · rintro ⟨vs, last, hrounds, ⟨hfew, rfl, rfl⟩ | ⟨henough, rfl, rfl⟩⟩
    · exact ⟨.failed, rfl, ends_repetition_iff.2 ⟨vs, last, hrounds, .inl ⟨hfew, rfl, rfl⟩⟩⟩
    · exact ⟨_, rfl, ends_repetition_iff.2 ⟨vs, _, hrounds, .inr ⟨henough, rfl, rfl⟩⟩⟩

/-! ## Sequences -/

/-- The rest of a sequence of operators that began at `start` and whose last value was `value`. -/
def restOf (g : Grammar) (start : Frame) (ops : List Operator) (value : Value) (f : Frame) (n : Nat) :
    Run (Outcome × Frame) :=
  Step.sequenceFrom start (ops.map (g.eval n)) value f

variable {start : Frame} {ops : List Operator} {value : Value} {stop? : Option Nat} {f' : Frame}

/-- A sequence is the rest of itself. -/
theorem sequence_endsAt_iff :
    EndsAt (fun n => g.eval n (.sequence ops) f) stop? f' ↔ EndsAt (g.restOf f ops .nil f) stop? f' := by
  constructor
  · rintro ⟨o, ho, h⟩
    exact ⟨o, ho, h.succ⟩
  · rintro ⟨o, ho, h⟩
    exact ⟨o, ho, .of_succ h⟩

/-- Nothing is left of a sequence: it has matched up to the cursor. -/
theorem rest_nil_iff :
    EndsAt (g.restOf start [] value f) stop? f' ↔ stop? = some f.engine.pos ∧ f' = f := by
  constructor
  · rintro ⟨o, rfl, n, hn⟩
    cases hn n (Nat.le_refl n)
    exact ⟨rfl, rfl⟩
  · rintro ⟨rfl, rfl⟩
    exact ⟨.matched f'.engine.pos value, rfl, .const rfl⟩

/-- The next operator of a sequence, and what is left of the sequence behind it. -/
theorem rest_cons_iff :
    EndsAt (g.restOf start (op :: ops) value f) stop? f' ↔
      (∃ stop v m, Ends (fun n => g.eval n op f) (.matched stop v, m) ∧
        EndsAt (g.restOf start ops v m) stop? f') ∨
      ∃ m, Ends (fun n => g.eval n op f) (.failed, m) ∧ stop? = none ∧ f' = m.back start := by
  constructor
  · rintro ⟨o, rfl, n, hn⟩
    have hrun := hn n (Nat.le_refl n)
    rcases Step.sequenceFrom_cons_eq_ok hrun with ⟨stop, v, m, hm, hrest⟩ | ⟨m, hm, rfl, rfl⟩
    · have hends := ends_of_eval hm
      refine .inl ⟨stop, v, m, hends, o, rfl, ?_⟩
      obtain ⟨b, hb⟩ := hends
      refine ⟨max n b, fun k hk => ?_⟩
      have hk' := hn k (by omega)
      unfold restOf at hk'
      rw [List.map_cons, Step.sequenceFrom, show g.eval k op f = _ from hb k (by omega)] at hk'
      exact hk'
    · exact .inr ⟨m, ends_of_eval hm, rfl, rfl⟩
  · rintro (⟨stop, v, m, hm, o, rfl, hrest⟩ | ⟨m, hm, rfl, rfl⟩)
    · exact ⟨o, rfl, hm.bind hrest⟩
    · exact ⟨.failed, rfl, hm.bind (.const rfl)⟩

/-! ## Optionals -/

/-- An optional at the end of a sequence ends in the frame that its operator leaves. -/
theorem rest_optional_iff :
    EndsAt (g.restOf start [op.optional] value f) stop? f' ↔
      stop? = some f'.engine.pos ∧ ∃ o, Ends (fun n => g.eval n op f) (o, f') := by
  rw [rest_cons_iff, ← exists_round_iff]
  constructor
  · rintro (⟨stop, v, m, hm, hrest⟩ | ⟨m, hm, -, -⟩)
    · obtain ⟨rfl, rfl⟩ := rest_nil_iff.1 hrest
      obtain ⟨vs, last, hrounds, ⟨-, hfailed, -⟩ | ⟨-, rfl, -⟩⟩ := ends_repetition_iff.1 hm
      · cases hfailed
      · exact ⟨rfl, vs, hrounds⟩
    · obtain ⟨vs, last, -, ⟨hfew, -, -⟩ | ⟨-, -, hmatched⟩⟩ := ends_repetition_iff.1 hm
      · exact absurd hfew (Nat.not_lt_zero _)
      · cases hmatched
  · rintro ⟨rfl, vs, hrounds⟩
    have hoptional : Ends (fun n => g.eval n op.optional f)
        (.matched f'.engine.pos (vs.getLast?.getD .nil), f') :=
      ends_repetition_iff.2 ⟨vs, f', hrounds, .inr ⟨Nat.zero_le _, rfl, rfl⟩⟩
    exact .inl ⟨_, _, f', hoptional, rest_nil_iff.2 ⟨rfl, rfl⟩⟩

end Grammar

section

variable [RegexLibrary]

/-- One optional inside the other, each for one more time. -/
def Operator.optionals (op : Operator) : Nat → List Operator
  | 0 => []
  | 1 => [op.optional]
  | left + 2 => [.optional (.sequence (op :: op.optionals (left + 1)))]

/-- As many copies of the operator as it must match, then optionals for the times that it may. -/
def Operator.unrolled (op : Operator) (min max : Nat) : Operator :=
  .sequence (List.replicate min op ++ op.optionals (max - min))

example : (Operator.any.unrolled 1 3) =
    .sequence [.any, .optional (.sequence [.any, .optional .any])] := rfl

namespace Grammar

variable {g : Grammar} {op : Operator} {start f f' : Frame} {value : Value} {stop? : Option Nat}

/-- **Optionals make the rounds.** -/
theorem rest_optionals_iff : ∀ {left : Nat} {start f : Frame} {value : Value} {stop? : Option Nat},
    f.engine.memo.Parked → (EndsAt (g.restOf start (op.optionals left) value f) stop? f' ↔
      stop? = some f'.engine.pos ∧ ∃ vs, g.Rounds op left f vs f') := by
  intro left
  induction left using Nat.strongRecOn with
  | ind left ih =>
    intro start f value stop? hf
    match left with
    | 0 =>
      rw [Operator.optionals, rest_nil_iff]
      constructor
      · rintro ⟨rfl, rfl⟩
        exact ⟨rfl, [], .limit f'⟩
      · rintro ⟨rfl, vs, hrounds⟩
        cases hrounds
        exact ⟨rfl, rfl⟩
    | 1 => rw [Operator.optionals, rest_optional_iff, exists_round_iff]
    | left + 2 =>
      rw [Operator.optionals, rest_optional_iff]
      refine and_congr_right fun _ => ?_
      -- The sequence inside: one round, and optionals for the others.
      have hinner : (∃ o, Ends (fun n => g.eval n (.sequence (op :: op.optionals (left + 1))) f) (o, f')) ↔
          ∃ stop?, EndsAt (g.restOf f (op :: op.optionals (left + 1)) .nil f) stop? f' := by
        simp only [← sequence_endsAt_iff]
        exact ⟨fun ⟨o, h⟩ => ⟨_, o, rfl, h⟩, fun ⟨_, o, _, h⟩ => ⟨o, h⟩⟩
      rw [hinner]
      simp only [rest_cons_iff]
      constructor
      · rintro ⟨stop?, ⟨stop, v, m, hm, hrest⟩ | ⟨m, hm, -, rfl⟩⟩
        · obtain ⟨-, vs, hrounds⟩ := (ih (left + 1) (by omega) (parked_of_ends hm hf)).1 hrest
          exact ⟨v :: vs, .matched hm hrounds⟩
        · rw [failed_kept hm hf]
          exact ⟨[], .failed hm⟩
      · rintro ⟨vs, hrounds⟩
        rcases rounds_succ_iff.1 hrounds with ⟨hm, -⟩ | ⟨stop, v, m, vs', hm, hs, -⟩
        · exact ⟨none, .inr ⟨f', hm, rfl, (failed_kept hm hf).symm⟩⟩
        · exact ⟨some f'.engine.pos, .inl ⟨stop, v, m, hm,
            (ih (left + 1) (by omega) (parked_of_ends hm hf)).2 ⟨rfl, vs', hs⟩⟩⟩

/-- **Copies before the optionals make the rounds and count them.** -/
theorem rest_required_iff {left : Nat} : ∀ {min : Nat} {f : Frame} {value : Value}, f.engine.memo.Parked →
    (EndsAt (g.restOf start (List.replicate min op ++ op.optionals left) value f) stop? f' ↔
      ∃ vs last, g.Rounds op (min + left) f vs last ∧ Counted min start vs last stop? f') := by
  intro min
  -- By the number of required copies: below them are the optionals, which have been counted before.
  induction min with
  | zero =>
    intro f value hf
    rw [List.replicate_zero, List.nil_append, rest_optionals_iff hf, Nat.zero_add]
    constructor
    · rintro ⟨rfl, vs, hrounds⟩
      exact ⟨vs, f', hrounds, .inr ⟨Nat.zero_le _, rfl, rfl⟩⟩
    · rintro ⟨vs, last, hrounds, ⟨hfew, -, -⟩ | ⟨-, rfl, rfl⟩⟩
      · exact absurd hfew (Nat.not_lt_zero _)
      · exact ⟨rfl, vs, hrounds⟩
  | succ min ih =>
    intro f value hf
    rw [List.replicate_succ, List.cons_append, rest_cons_iff, Nat.add_right_comm]
    constructor
    -- A copy that fails is a round that is missing, and both go back to the start.
    · rintro (⟨stop, v, m, hm, hrest⟩ | ⟨m, hm, rfl, rfl⟩)
      · obtain ⟨vs, last, hrounds, hcount⟩ := (ih (parked_of_ends hm hf)).1 hrest
        exact ⟨v :: vs, last, .matched hm hrounds, counted_succ_iff.2 hcount⟩
      · exact ⟨[], m, .failed hm, .inl ⟨Nat.succ_pos min, rfl, rfl⟩⟩
    · rintro ⟨vs, last, hrounds, hcount⟩
      rcases rounds_succ_iff.1 hrounds with ⟨hm, rfl⟩ | ⟨stop, v, m, vs', hm, hs, rfl⟩
      · rcases hcount with ⟨-, rfl, rfl⟩ | ⟨henough, -, -⟩
        · exact .inr ⟨last, hm, rfl, rfl⟩
        · exact absurd henough (Nat.not_succ_le_zero min)
      · exact .inl ⟨stop, v, m, hm,
          (ih (parked_of_ends hm hf)).2 ⟨vs', last, hs, counted_succ_iff.1 hcount⟩⟩

/-- The unrolling of a repetition makes the rounds and counts them. -/
theorem unrolled_endsAt_iff {min max : Nat} (h : min ≤ max) (hf : f.engine.memo.Parked) :
    EndsAt (fun n => g.eval n (op.unrolled min max) f) stop? f' ↔
      ∃ vs last, g.Rounds op max f vs last ∧ Counted min f vs last stop? f' := by
  rw [Operator.unrolled, sequence_endsAt_iff, rest_required_iff hf, Nat.add_sub_cancel' h]

end Grammar

/-- **A repetition with a limit is its unrolling**: as many copies of the operator as it must match, then one
    optional inside the other for the times that it may.  In every frame that a run can be in (the memo table
    of any run is parked, `Engine.InText.memo_parked`), one fails if and only if the other does, and one
    matches if and only if the other does, up to the same offset.  Both leave the same bindings and the
    same engine, with all that is remembered, reported and performed in it.  A repetition that captures
    answers with the results of the rounds that match, in order, until one fails or the limit is reached;
    there are at least `min` and at most `max` of them. -/
theorem bounded_repetition_unrolls (g : Grammar) (op : Operator) {min max : Nat} (h : min ≤ max)
    (captures : Bool) (f f' : Frame) (hf : f.engine.memo.Parked) :
    (Ends (fun n => g.eval n (.repetition op min (some max) captures) f) (.failed, f') ↔
      Ends (fun n => g.eval n (op.unrolled min max) f) (.failed, f')) ∧
    (∀ stop, (∃ v, Ends (fun n => g.eval n (.repetition op min (some max) captures) f)
        (.matched stop v, f')) ↔
      ∃ v, Ends (fun n => g.eval n (op.unrolled min max) f) (.matched stop v, f')) ∧
    ∀ stop v, Ends (fun n => g.eval n (.repetition op min (some max) true) f) (.matched stop v, f') →
      ∃ vs, v = .list vs ∧ g.Rounds op max f vs f' ∧ min ≤ vs.length ∧ vs.length ≤ max := by
  have halike : ∀ stop?, EndsAt (fun n => g.eval n (.repetition op min (some max) captures) f) stop? f' ↔
      EndsAt (fun n => g.eval n (op.unrolled min max) f) stop? f' := fun stop? =>
    Grammar.repetition_endsAt_iff.trans (Grammar.unrolled_endsAt_iff h hf).symm
  refine ⟨?_, fun stop => ?_, fun stop v hends => ?_⟩
  · rw [← EndsAt.failed_iff, ← EndsAt.failed_iff, halike]
  · rw [← EndsAt.matched_iff, ← EndsAt.matched_iff, halike]
  · obtain ⟨vs, last, hrounds, ⟨-, hfailed, -⟩ | ⟨henough, rfl, hmatched⟩⟩ :=
      Grammar.ends_repetition_iff.1 hends
    · cases hfailed
    · obtain ⟨rfl, rfl⟩ := Outcome.matched.inj hmatched
      exact ⟨vs, rfl, hrounds, henough, hrounds.length_le⟩

end

/-- A grammar of one rule, with a letter that may be missing. -/
def missingLetter : Grammar := .ofRules "missing" [⟨"start", [], .optional (.literal "a")⟩] 0 [] []

/-- On `a` the letter is read once and is missing twice, and each time counts: one letter to three of them
    are three results. -/
theorem bounded_repetition_unrolls_missingLetter :
    1 ≤ 3 ∧ (Engine.new "a".toList).memo.Parked ∧
      ∃ f', Ends (fun n => missingLetter.eval n (.repetition (.call "start" []) 1 (some 3) true)
        ⟨Engine.new "a".toList, []⟩) (.matched 1 (.list [.str "a", .nil, .nil]), f') ∧
      (∃ v, Ends (fun n => missingLetter.eval n (.sequence [.call "start" [],
        .optional (.sequence [.call "start" [], .optional (.call "start" [])])]) ⟨Engine.new "a".toList, []⟩)
        (.matched 1 v, f')) ∧
      missingLetter.Rounds (.call "start" []) 3 ⟨Engine.new "a".toList, []⟩ [.str "a", .nil, .nil] f' := by
  obtain ⟨f', hends⟩ : ∃ f', Ends (fun n => missingLetter.eval n (.repetition (.call "start" []) 1 (some 3)
      true) ⟨Engine.new "a".toList, []⟩) (.matched 1 (.list [.str "a", .nil, .nil]), f') :=
    Grammar.ends_of_outcome (n := 9) (by decide +kernel)
  have hparked : (Engine.new "a".toList).memo.Parked := Memo.allAnswers_empty
  obtain ⟨-, hmatched, hcaptured⟩ :=
    bounded_repetition_unrolls missingLetter (.call "start" []) (by decide : 1 ≤ 3) true
      ⟨Engine.new "a".toList, []⟩ f' hparked
  obtain ⟨vs, hvs, hrounds, -⟩ := hcaptured 1 _ hends
  obtain rfl := Value.list.inj hvs
  exact ⟨by decide, hparked, f', hends, (hmatched 1).1 ⟨_, hends⟩, hrounds⟩

end MemoPeg
