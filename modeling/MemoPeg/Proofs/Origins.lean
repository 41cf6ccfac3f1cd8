import MemoPeg.Proofs.Course

/-
  Where the events of an engine come from.

  The history of an engine says that a key was asked for, a body entered, a failure reported.  Here it is shown
  that nothing of this appears from nowhere: behind each event there is a task of the run that did it.

  1. **Origins (`Event.HasOrigin`)** — an event that asks for a key was noted by a call of it, an event
     that enters a body by the call that invokes it, and a reported failure by a call that ended there
     and failed.  Each is told by the events before it, so that no two events share an origin.  Calls
     across and re-entries are told by where they happened and by the entry that was found.
  2. **Explained runs (`Engine.Explained`)** — all events that a run has added have origins among the
     tasks that it has performed in its own engine.
  3. **The crux (`Task.explained`)** — the run of every task is explained, by induction on the fuel and
     then along the phrases that a task is made of, each in the engine that those before it have left.

  An engine also sees what engines of linked rule sets note, as events of a greater depth.  These are not told
  here: they have their origin in the calls of those engines, each of which is a task of its own.
-/

namespace MemoPeg

/-! ## Origins -/

namespace Task

variable [RegexLibrary]

/-- The key that a call through the memo table asks for. -/
def key? : Task → Option Key
  | .apply _ _ rule args e => some ⟨rule, e.pos, args⟩
  | .invoke _ _ _ _ _ | .cross _ _ _ _ _ _ | .phrase _ _ _ => none

/-- Only calls through the memo table ask for a key. -/
theorem key?_eq_some {t : Task} {key : Key} (h : t.key? = some key) :
    ∃ n rs rule args e, t = .apply n rs rule args e ∧ key = ⟨rule, e.pos, args⟩ := by
  cases t with
  | apply n rs rule args e => cases h; exact ⟨n, rs, rule, args, e, rfl, rfl⟩
  | _ => cases h

/-- The failure that a call past the memo table or across reports if it fails. -/
def failure? : Task → Option Failure
  | .invoke _ _ rule _ e => some ⟨.rule rule, e.pos⟩
  | .cross _ grammar rs rule _ e => some ⟨.foreign (grammar ++ "." ++ rs.ruleName rule), e.pos⟩
  | .apply _ _ _ _ _ | .phrase _ _ _ => none

/-- The first task performs the second one in its own engine. -/
def RunsHere (t t' : Task) : Prop := t.Performs t' ∧ t'.engine.depth = t.engine.depth

/-- A task performs itself in its own engine. -/
theorem RunsHere.refl (t : Task) : t.RunsHere t := ⟨.refl, rfl⟩

end Task

variable [RegexLibrary]

/-- What a task comes to in its own engine performs there what the task performs there. -/
theorem Task.Comes.runsHere {t t' u : Task} (h : t.Comes t') (hdepth : t'.engine.depth = t.engine.depth)
    (hu : t'.RunsHere u) : t.RunsHere u := ⟨.head h hu.1, hu.2.trans hdepth⟩

/-- Induction along what is performed in one engine: nothing comes back from deeper ones. -/
theorem Task.RunsHere.induction {t t' : Task} (h : t.RunsHere t') {P : Task → Prop} (refl : P t)
    (step : ∀ u v, t.RunsHere u → u.Comes v → v.engine.depth = u.engine.depth → P u → P v) : P t' := by
  obtain ⟨hperforms, hdepth⟩ := h
  induction hperforms with
  | refl => exact refl
  | @tail u t' hperforms hcomes ih =>
    have hle := (Task.Performs.runs hperforms).depth_le
    have hle' := Task.Runs.depth_le (.single hcomes.1)
    exact step u t' ⟨hperforms, by omega⟩ hcomes (by omega) (ih (by omega))

/-- Where a rule of a linked grammar is called. -/
def Event.crossing? : Event → Option Nat
  | .crossing _ _ pos => some pos
  | _ => none

/-- The event that came after these was noted by one of the tasks. -/
structure Event.HasOrigin (R : Task → Prop) (before : List Event) (event : Event) : Prop where
  asked : ∀ key, event.asks? = some key →
    ∃ t, R t ∧ t.key? = some key ∧ t.engine.events = before
  entered : ∀ key, event.enters? = some key →
    ∃ t t', R t ∧ t.key? = some key ∧ t.Comes t' ∧ t'.engine.events = before ++ [event]
  failed : ∀ f, event.failure? = some f →
    ∃ t e', R t ∧ t.failure? = some f ∧ t.run = .ok (.failed, e') ∧ e'.events = before ++ [event]
  crossed : ∀ p, event.crossing? = some p → ∃ t, R t ∧ t.engine.pos = p
  found : ∀ key, event = .foundInProgress key →
    ∃ t entry, R t ∧ t.key? = some key ∧ t.engine.memo.find? key = some entry ∧ entry.isInProgress

/-- Every event that the second engine has more than the first was noted by one of the tasks. -/
def Engine.Explained (R : Task → Prop) (e e' : Engine) : Prop :=
  ∃ new, e'.events = e.events ++ new ∧ ∀ before event after, new = before ++ event :: after →
    event.HasOrigin R (e.events ++ before)

/-- More tasks may be origins. -/
theorem Event.HasOrigin.mono {R S : Task → Prop} {before : List Event} {event : Event}
    (h : event.HasOrigin R before) (hRS : ∀ t, R t → S t) : event.HasOrigin S before where
  asked key hkey := by
    obtain ⟨t, ht, hrest⟩ := h.asked key hkey
    exact ⟨t, hRS t ht, hrest⟩
  entered key hkey := by
    obtain ⟨t, t', ht, hrest⟩ := h.entered key hkey
    exact ⟨t, t', hRS t ht, hrest⟩
  failed f hf := by
    obtain ⟨t, e', ht, hrest⟩ := h.failed f hf
    exact ⟨t, e', hRS t ht, hrest⟩
  crossed p hp := by
    obtain ⟨t, ht, hrest⟩ := h.crossed p hp
    exact ⟨t, hRS t ht, hrest⟩
  found key hkey := by
    obtain ⟨t, entry, ht, hrest⟩ := h.found key hkey
    exact ⟨t, entry, hRS t ht, hrest⟩

/-- An event that is about no key, reports no failure and is no call across needs no origin. -/
theorem Event.HasOrigin.of_silent {R : Task → Prop} {before : List Event} {event : Event}
    (hkey : event.key? = none) (hfailure : event.failure? = none) (hcrossing : event.crossing? = none) :
    event.HasOrigin R before where
  asked key h := by rw [Event.key?_of_asks h] at hkey; cases hkey
  entered key h := by rw [Event.key?_of_enters h] at hkey; cases hkey
  failed f h := by rw [hfailure] at h; cases h
  crossed p h := by rw [hcrossing] at h; cases h
  found key h := by rw [h] at hkey; cases hkey

namespace Engine.Explained

variable {R S : Task → Prop} {d e f : Engine}

/-- Nothing has been added. -/
theorem of_eq (h : f.events = e.events) : e.Explained R f :=
  ⟨[], by rw [h, List.append_nil], fun before event after heq => by
    cases before <;> cases heq⟩

/-- An engine to which nothing was added is explained. -/
theorem refl (e : Engine) : e.Explained R e := .of_eq rfl

/-- What was added later is told by what was there before it. -/
theorem trans (h : d.Explained R e) (k : e.Explained R f) : d.Explained R f := by
  obtain ⟨new, hnew, horigin⟩ := h
  obtain ⟨newer, knew, korigin⟩ := k
  refine ⟨new ++ newer, by rw [knew, hnew, List.append_assoc], fun before event after heq => ?_⟩
  rcases List.append_eq_append_iff.1 heq with ⟨mid, rfl, hmid⟩ | ⟨mid, rfl, hmid⟩
  · -- The event was added later.
    rw [← List.append_assoc, ← hnew]
    exact korigin mid event after hmid
  · cases mid with
    | nil =>
      have horigin' := korigin [] event after hmid.symm
      rw [hnew, List.append_assoc] at horigin'
      simpa using horigin'
    | cons _ mid =>
      obtain ⟨rfl, -⟩ := List.cons.inj hmid
      exact horigin before event mid rfl

/-- More tasks may explain a run. -/
theorem mono (h : e.Explained R f) (hRS : ∀ t, R t → S t) : e.Explained S f := by
  obtain ⟨new, hnew, horigin⟩ := h
  exact ⟨new, hnew, fun before event after heq => (horigin before event after heq).mono hRS⟩

/-- One event with an origin has been added. -/
theorem of_event (event : Event) (hevents : f.events = e.events ++ [event])
    (h : event.HasOrigin R e.events) : e.Explained R f := by
  refine ⟨[event], hevents, fun before event' after heq => ?_⟩
  cases before with
  | nil =>
    obtain ⟨rfl, -⟩ := List.cons.inj heq
    rwa [List.append_nil]
  | cons _ before => cases before <;> cases heq

/-- An event that needs no origin may be noted. -/
theorem note (e : Engine) (event : Event) (hkey : event.key? = none) (hfailure : event.failure? = none)
    (hcrossing : event.crossing? = none) : e.Explained R (e.note event) :=
  .of_event event (e.events_note event) (.of_silent hkey hfailure hcrossing)

end Engine.Explained

/-! ## Runs are explained -/

/-- Runs of phrases with this much fuel, and of calls past the memo table, are explained. -/
def ExplainedBelow (n : Nat) : Prop :=
  (∀ (x : Phrase) (f : Frame) o g, x.step n f = .ok (o, g) →
    f.engine.Explained (Task.phrase n x f).RunsHere g.engine) ∧
  ∀ rs rule args (e : Engine) o e', e.invokeRule n rs rule args = .ok (o, e') →
    e.Explained (Task.invoke n rs rule args e).RunsHere e'

/-- Phrases that have run are explained by a task that comes to each of them. -/
theorem Ran.explained {n : Nat} {t : Task} (h : ExplainedBelow n) {matching : Bool}
    {parts : List Phrase} {f g : Frame} (hran : Ran n matching parts f g)
    (hdepth : f.engine.depth = t.engine.depth)
    (hcomes : ∀ before part after m, parts = before ++ part :: after → Ran n matching before f m →
      t.Comes (.phrase n part m)) : f.engine.Explained t.RunsHere g.engine := by
  induction hran with
  | nil f => exact .refl _
  | @cons x xs f m g o hx ho _ ih =>
    have hfirst : t.Comes (.phrase n x f) := hcomes [] x xs f rfl (.nil f)
    have hm := (h.1 x f o m hx).mono fun u hu => hfirst.runsHere hdepth hu
    refine hm.trans (ih ((Phrase.accounts x n f o m hx).1.2.1.trans hdepth) ?_)
    intro before part after m' heq hran'
    exact hcomes (x :: before) part after m' (by rw [heq]; rfl) (.cons hx ho hran')

/-- The rounds of a repetition are explained by a task that comes to each of them. -/
theorem rounds_explained {n : Nat} {t : Task} (h : ExplainedBelow n) {part : Phrase} :
    ∀ {fuel : Nat} {left : Option Nat} {values values' : List Value} {f g : Frame},
      Step.rounds (part.step n) fuel left values f = .ok (values', g) →
        f.engine.depth = t.engine.depth →
          (∀ m, (part.step n).RoundDue left f m → t.Comes (.phrase n part m)) →
            f.engine.Explained t.RunsHere g.engine := by
  intro fuel
  induction fuel with
  | zero => intro left values values' f g hrun; cases hrun
  | succ fuel ih =>
    intro left values values' f g hrun hdepth hcomes
    have explained : left ≠ some 0 → ∀ {o : Outcome} {m : Frame}, part.step n f = .ok (o, m) →
        f.engine.Explained t.RunsHere m.engine := fun hleft o m hm =>
      (h.1 part f o m hm).mono fun u hu => (hcomes f (.now hleft)).runsHere hdepth hu
    rcases Step.rounds_succ_eq_ok hrun with ⟨-, -, rfl⟩ | ⟨hleft, hm, -⟩ |
      ⟨hleft, stop, v, m, hm, ⟨-, -, -, rfl⟩ | ⟨hon, hrest⟩⟩
    · exact .refl _
    · exact explained hleft hm
    · exact explained hleft hm
    · have hdepth' : m.engine.depth = t.engine.depth := (Phrase.extends hm).2.1.trans hdepth
      exact (explained hleft hm).trans
        (ih hrest hdepth' fun m' hdue => hcomes m' (.next hleft hm hon hdue))

/-- The rounds before the one that is due are explained by a task that comes to each of them. -/
theorem Step.RoundDue.explained {n : Nat} {t : Task} (h : ExplainedBelow n) {part : Phrase}
    {left : Option Nat} {f g : Frame} (hdue : (part.step n).RoundDue left f g)
    (hdepth : f.engine.depth = t.engine.depth)
    (hcomes : ∀ m, (part.step n).RoundDue left f m → t.Comes (.phrase n part m)) :
    f.engine.Explained t.RunsHere g.engine := by
  induction hdue with
  | now _ => exact .refl _
  | @next left f m g stop v hleft hm hon _ ih =>
    have hround := (h.1 part f _ m hm).mono fun u hu => (hcomes f (.now hleft)).runsHere hdepth hu
    have hdepth' : m.engine.depth = t.engine.depth := (Phrase.extends hm).2.1.trans hdepth
    exact hround.trans (ih hdepth' fun m' hdue' => hcomes m' (.next hleft hm hon hdue'))

namespace Step

variable {n : Nat}

/-- A sequence runs parts that match, and fails with a last one that fails. -/
theorem sequenceFrom_ran {start : Frame} : ∀ {parts : List Phrase} {value : Value} {f : Frame}
    {o : Outcome} {g : Frame}, sequenceFrom start (parts.map (Phrase.step n)) value f = .ok (o, g) →
      (Ran n true parts f g ∧ ∃ v, o = .matched g.engine.pos v) ∨
      (o = .failed ∧ ∃ before part after m m', parts = before ++ part :: after ∧ Ran n true before f m ∧
        part.step n m = .ok (.failed, m') ∧ g = m'.back start) := by
  intro parts
  induction parts with
  | nil => intro value f o g h; cases h; exact .inl ⟨.nil f, value, rfl⟩
  | cons x xs ih =>
    intro value f o g h
    rcases sequenceFrom_cons_eq_ok h with ⟨stop, v, m, hx, hrest⟩ | ⟨m, hx, rfl, rfl⟩
    · rcases ih hrest with ⟨hran, hmatched⟩ | ⟨hfailed, before, part, after, m', m'', rfl, hran, hpart, rfl⟩
      · exact .inl ⟨.cons hx rfl hran, hmatched⟩
      · exact .inr ⟨hfailed, x :: before, part, after, m', m'', rfl, .cons hx rfl hran, hpart, rfl⟩
    · exact .inr ⟨rfl, [], x, xs, f, m, rfl, .nil f, hx, rfl⟩

/-- A choice runs alternatives that fail, and a last one that may match. -/
theorem choice_ran : ∀ {parts : List Phrase} {f : Frame} {o : Outcome} {g : Frame},
    choice (parts.map (Phrase.step n)) f = .ok (o, g) →
      (Ran n false parts f g ∧ o = .failed) ∨
      ∃ before part after m, parts = before ++ part :: after ∧ Ran n false before f m ∧
        part.step n m = .ok (o, g) := by
  intro parts
  induction parts with
  | nil => intro f o g h; cases h; exact .inl ⟨.nil f, rfl⟩
  | cons x xs ih =>
    intro f o g h
    rcases choice_cons_eq_ok h with ⟨stop, v, hx, rfl⟩ | ⟨m, hx, hrest⟩
    · exact .inr ⟨[], x, xs, f, rfl, .nil f, hx⟩
    · rcases ih hrest with ⟨hran, hfailed⟩ | ⟨before, part, after, m', rfl, hran, hpart⟩
      · exact .inl ⟨.cons hx rfl hran, hfailed⟩
      · exact .inr ⟨x :: before, part, after, m', rfl, .cons hx rfl hran, hpart⟩

end Step

omit [RegexLibrary] in
/-- A growth ends in the engine of a round that did not get further than the match before it. -/
theorem Engine.growFrom_ends {r : Runner} {key : Key} {start : Engine} :
    ∀ {fuel best : Nat} {value : Value} {e : Engine} {o : Outcome} {e' : Engine},
      e.growFrom r key fuel best value = .ok (o, e') → GrownTo r key start best value e →
        ∃ best' value' m round m', GrownTo r key start best' value' m ∧
          (m.regrowing key best' value').invoke r key.rule key.args = .ok (round, m') ∧
          o = .matched best' value' ∧ e' = { m' with pos := best', result := value' } := by
  intro fuel
  induction fuel with
  | zero => intro best value e o e' h; cases h
  | succ fuel ih =>
    intro best value e o e' h hgrown
    obtain ⟨round, m, hround, hrest⟩ := Engine.growFrom_succ_eq_ok h
    rcases hrest with ⟨stop, longer, rfl, hlonger, hrest⟩ | ⟨-, rfl, rfl⟩
    · exact ih hrest (.longer hgrown hround hlonger)
    · exact ⟨best, value, e, round, m, hgrown, hround, rfl, rfl⟩

namespace Task

variable {n : Nat}

/-- A call that fails, and has reported that last, is the origin of the report. -/
theorem hasOrigin_blamed (t : Task) {f : Failure} (hf : t.failure? = some f) {m e' : Engine}
    (hrun : t.run = .ok (.failed, e')) (hevents : e'.events = m.events ++ [.blamed f.culprit f.offset]) :
    (Event.blamed f.culprit f.offset).HasOrigin t.RunsHere m.events where
  asked key h := by cases h
  entered key h := by cases h
  failed f' h := by
    cases h
    exact ⟨t, e', .refl t, hf, hrun, hevents⟩
  crossed p h := by cases h
  found key h := by cases h

/-- A call is the origin of the event by which it asks for its key. -/
theorem hasOrigin_asks {t : Task} {key : Key} (hkey : t.key? = some key) {event : Event}
    (hasks : event.asks? = some key) (henters : event.enters? = none)
    (hfound : event.isReEntry → ∃ entry, t.engine.memo.find? key = some entry ∧ entry.isInProgress) :
    event.HasOrigin t.RunsHere t.engine.events where
  asked key' h := by
    rw [hasks] at h
    exact ⟨t, .refl t, hkey.trans h, rfl⟩
  entered key' h := by rw [henters] at h; cases h
  failed f h := by rw [Event.failure?_of_key (Event.key?_of_asks hasks)] at h; cases h
  crossed p h := by cases event <;> cases hasks <;> cases h
  found key' h := by
    subst h
    obtain rfl : key' = key := Option.some.inj hasks
    obtain ⟨entry, hentry⟩ := hfound rfl
    exact ⟨t, entry, .refl t, hkey, hentry⟩

/-- A call is the origin of the event after which it invokes the rule. -/
theorem hasOrigin_enters {t t' : Task} {key : Key} (hkey : t.key? = some key) (hcomes : t.Comes t')
    {before : List Event} {event : Event} (hevents : t'.engine.events = before ++ [event])
    (henters : event.enters? = some key) (hasks : event.asks? ≠ none → before = t.engine.events) :
    event.HasOrigin t.RunsHere before where
  asked key' h := by
    have hkey' := (Event.key?_of_enters henters).symm.trans (Event.key?_of_asks h)
    exact ⟨t, .refl t, hkey.trans hkey', (hasks (by rw [h]; exact Option.some_ne_none _)).symm⟩
  entered key' h := by
    rw [henters] at h
    exact ⟨t, t', .refl t, hkey.trans h, hcomes, hevents⟩
  failed f h := by rw [Event.failure?_of_key (Event.key?_of_enters henters)] at h; cases h
  crossed p h := by cases event <;> cases henters <;> cases h
  found key' h := by subst h; cases henters

/-- A call across is the origin of the event by which it crosses. -/
theorem hasOrigin_crosses (n : Nat) (grammar : String) (rs : RuleSet) (rule : RuleId) (args : List Value)
    (e : Engine) : (Event.crossing grammar (rs.ruleName rule) e.pos).HasOrigin
      (Task.cross n grammar rs rule args e).RunsHere e.events where
  asked key h := by cases h
  entered key h := by cases h
  failed f h := by cases h
  crossed p h := by
    cases h
    exact ⟨_, .refl _, rfl⟩
  found key h := by cases h

/-- An invocation is explained if the run of the body is. -/
theorem invoke_explained {rs : RuleSet} {rule : RuleId} {args : List Value} {e m : Engine} {o : Outcome}
    (hrun : e.invokeRule n rs rule args = .ok (o, e.concluded (rs.runner n) rule m o))
    (hbody : (e.attempting (rs.runner n) rule).Explained (Task.invoke n rs rule args e).RunsHere m) :
    e.Explained (Task.invoke n rs rule args e).RunsHere (e.concluded (rs.runner n) rule m o) := by
  have hbegun : e.Explained (Task.invoke n rs rule args e).RunsHere m :=
    (Engine.Explained.note e _ rfl rfl rfl).trans hbody
  cases o with
  | matched stop value =>
    have hnoted := Engine.Explained.note (R := (Task.invoke n rs rule args e).RunsHere) m
      (.matched rule ((rs.runner n).nameOf rule) e.pos stop) rfl rfl rfl
    exact hbegun.trans (hnoted.trans (.of_eq rfl))
  | failed =>
    let noted : Engine := { m.note (.failed rule ((rs.runner n).nameOf rule) e.pos) with pos := e.pos }
    have hnoted : m.Explained (Task.invoke n rs rule args e).RunsHere noted :=
      (Engine.Explained.note m (.failed rule _ e.pos) rfl rfl rfl).trans (.of_eq rfl)
    have hevents := Engine.events_blame noted (.rule rule) e.pos
    have horigin := hasOrigin_blamed (.invoke n rs rule args e) rfl hrun hevents
    exact hbegun.trans (hnoted.trans (.of_event _ hevents horigin))

/-- A call makes an entry, and then invokes the rule. -/
theorem opening_explained (n : Nat) (rs : RuleSet) {rule : RuleId} {args : List Value} {e : Engine}
    (hfind : e.memo.find? ⟨rule, e.pos, args⟩ = none) :
    e.Explained (Task.apply n rs rule args e).RunsHere (e.opening ⟨rule, e.pos, args⟩) := by
  have hevents := Engine.events_opening ⟨rule, e.pos, args⟩ e
  exact .of_event _ hevents
    (hasOrigin_enters rfl (@Comes.first _ n rs rule args e hfind) hevents rfl fun _ => rfl)

/-- A call begins a round of the growth, and then invokes the rule again. -/
theorem regrowing_explained {rs : RuleSet} {rule : RuleId} {args : List Value} {e m : Engine} {best : Nat}
    {value : Value} (hfind : e.memo.find? ⟨rule, e.pos, args⟩ = none)
    (hitself : e.CallsItself (rs.runner n) ⟨rule, e.pos, args⟩)
    (hgrown : GrownTo (rs.runner n) ⟨rule, e.pos, args⟩ e best value m) :
    m.Explained (Task.apply n rs rule args e).RunsHere (m.regrowing ⟨rule, e.pos, args⟩ best value) := by
  have hevents := Engine.events_regrowing ⟨rule, e.pos, args⟩ best value m
  exact .of_event _ hevents
    (hasOrigin_enters rfl (.again hfind hitself hgrown) hevents rfl fun hne => absurd rfl hne)

/-- The first run of a rule is explained if the invocation is. -/
theorem first_explained (h : ExplainedBelow n) {rs : RuleSet} {rule : RuleId} {args : List Value}
    {e m : Engine} {o : Outcome} (hfind : e.memo.find? ⟨rule, e.pos, args⟩ = none)
    (hfirst : (e.opening ⟨rule, e.pos, args⟩).invoke (rs.runner n) rule args = .ok (o, m)) :
    e.Explained (Task.apply n rs rule args e).RunsHere m :=
  (opening_explained n rs hfind).trans
    ((h.2 rs rule args _ o m hfirst).mono fun _ hu => (Comes.first hfind).runsHere rfl hu)

/-- A round of the growth of a rule is explained if the invocation is. -/
theorem round_explained (h : ExplainedBelow n) {rs : RuleSet} {rule : RuleId} {args : List Value}
    {e m m' : Engine} {best : Nat} {value : Value} {o : Outcome}
    (hfind : e.memo.find? ⟨rule, e.pos, args⟩ = none)
    (hitself : e.CallsItself (rs.runner n) ⟨rule, e.pos, args⟩)
    (hgrown : GrownTo (rs.runner n) ⟨rule, e.pos, args⟩ e best value m)
    (hround : (m.regrowing ⟨rule, e.pos, args⟩ best value).invoke (rs.runner n) rule args = .ok (o, m')) :
    m.Explained (Task.apply n rs rule args e).RunsHere m' := by
  have hdepth : (m.regrowing ⟨rule, e.pos, args⟩ best value).depth = e.depth := by
    obtain ⟨new, hopened⟩ := hgrown.opened hfind
    exact hopened.extended.2.1
  exact (regrowing_explained hfind hitself hgrown).trans
    ((h.2 rs rule args _ o m' hround).mono fun _ hu => (Comes.again hfind hitself hgrown).runsHere hdepth hu)

/-- The growth of a rule is explained if its invocations are. -/
theorem grown_explained (h : ExplainedBelow n) {rs : RuleSet} {key : Key} {e m : Engine} {best : Nat}
    {value : Value} (hfind : e.memo.find? key = none) (hpos : key.pos = e.pos)
    (hitself : e.CallsItself (rs.runner n) key) (hgrown : GrownTo (rs.runner n) key e best value m) :
    e.Explained (Task.apply n rs key.rule key.args e).RunsHere m := by
  obtain ⟨rule, pos, args⟩ := key
  obtain rfl : pos = e.pos := hpos
  induction hgrown with
  | seed hfirst => exact (first_explained h hfind hfirst).trans (.of_eq rfl)
  | longer hgrown hround _ ih =>
    exact ih.trans ((round_explained h hfind hitself hgrown hround).trans (.of_eq rfl))

/-- A call through the memo table is explained if the invocations in it are. -/
theorem apply_explained (h : ExplainedBelow n) {rs : RuleSet} {rule : RuleId} {args : List Value}
    {e : Engine} {o : Outcome} {e' : Engine} (hrun : e.applyRule n rs rule args = .ok (o, e')) :
    e.Explained (Task.apply n rs rule args e).RunsHere e' := by
  rcases Engine.apply_ends (rs.runner_retains n) hrun with
    ⟨⟨⟨status, stop, value⟩, uses⟩, hfind, heq⟩ | ⟨hfind, first, m, hm, hrest⟩
  · have hasks := @hasOrigin_asks _ (.apply n rs rule args e) ⟨rule, e.pos, args⟩ rfl
    cases status with
    | inProgress detected =>
      cases heq
      exact .of_event _ (Engine.events_note _ _) (hasks rfl rfl fun _ => ⟨_, hfind, rfl⟩)
    | matched => cases heq; exact .of_event _ (Engine.events_note _ _) (hasks rfl rfl nofun)
    | failed => cases heq; exact .of_event _ (Engine.events_note _ _) (hasks rfl rfl nofun)
  · have hsettled : ∀ answer, e.Explained (Task.apply n rs rule args e).RunsHere
        (m.settle ⟨rule, e.pos, args⟩ answer) := fun _ => (first_explained h hfind hm).trans (.of_eq rfl)
    rcases hrest with ⟨stop, value, rfl, hsaw, hgrowth⟩ | ⟨stop, value, -, -, -, rfl⟩ | ⟨-, -, rfl⟩
    · have hitself : e.CallsItself (rs.runner n) ⟨rule, e.pos, args⟩ := ⟨_, m, hm, hsaw⟩
      obtain ⟨best, value', m', round, m'', hgrown, hround, -, rfl⟩ := Engine.growFrom_ends hgrowth (.seed hm)
      exact (grown_explained h hfind rfl hitself hgrown).trans
        ((round_explained h hfind hitself hgrown hround).trans (.of_eq rfl))
    · exact hsettled _
    · exact hsettled _

/-- A call across is explained: what happened beyond is no event of this engine. -/
theorem cross_explained {grammar : String} {rs : RuleSet} {rule : RuleId} {args : List Value} {e : Engine}
    {o : Outcome} {e' : Engine} (hrun : e.callForeignRule n grammar rs rule args = .ok (o, e')) :
    e.Explained (Task.cross n grammar rs rule args e).RunsHere e' := by
  obtain ⟨inner, hinner, rfl⟩ := Engine.callForeign_eq_ok hrun
  have hnested := Engine.Accounts.apply (rs.body_accounts n) n rule args _ o inner hinner
  let back : Engine := { e with history := inner.history }
  have hcrossing := hasOrigin_crosses n grammar rs rule args e
  have hback : e.Explained (Task.cross n grammar rs rule args e).RunsHere back :=
    (Engine.Explained.of_event _ (Engine.events_note _ _) hcrossing).trans
      (.of_eq (Engine.events_nested hnested.1))
  cases o with
  | matched stop value => exact hback.trans (.of_eq rfl)
  | failed =>
    have hevents := Engine.events_blame back (.foreign (grammar ++ "." ++ rs.ruleName rule)) e.pos
    exact hback.trans (.of_event _ hevents
      (hasOrigin_blamed (.cross n grammar rs rule args e) rfl hrun hevents))

/-- A step without parts moves the cursor at most, or runs an action. -/
theorem leaf_explained {R : Task → Prop} {l : Leaf} {f : Frame} {o : Outcome} {g : Frame}
    (hrun : l.step f = .ok (o, g)) : f.engine.Explained R g.engine := by
  have terminal : ∀ {α : Type} {read : Engine → Run (Option (α × Engine))} {toValue : α → Value},
      IsRead read → Step.terminal read toValue f = .ok (o, g) → f.engine.Explained R g.engine := by
    intro α read toValue hread hterminal
    obtain ⟨look, hlook, -⟩ := hread
    rcases Step.terminal_eq_ok hterminal with ⟨a, e, ha, -, rfl⟩ | ⟨-, -, rfl⟩
    · rw [hlook] at ha
      cases hl : look f.engine.text f.engine.pos with
      | error stop => rw [hl] at ha; cases ha
      | ok found =>
        rw [hl] at ha
        obtain ⟨found', -, heq⟩ := Option.map_eq_some_iff.1 (Except.ok.inj ha)
        cases heq
        exact .of_eq rfl
    · exact .refl _
  cases l with
  | any => exact terminal isRead_readChar hrun
  | literal s => exact terminal (isRead_readTo fun t p => t.literalEnd p s.toList) hrun
  | scan m => exact terminal (isRead_readTo fun t p => t.patternEnd p m) hrun
  | range lo hi => exact terminal (isRead_readRange lo hi) hrun
  | test a wanted =>
    obtain ⟨rfl, -⟩ := Step.test_eq_ok hrun
    exact .note _ _ rfl rfl rfl
  | action a =>
    obtain ⟨-, rfl⟩ := Step.action_eq_ok hrun
    exact .note _ _ rfl rfl rfl
  | fail => cases hrun; exact .refl _

section Parts

variable {x p : Phrase} {parts : List Phrase} {f g m m' : Frame} {o : Outcome}

/-- A part that a phrase runs in an engine of its own depth is explained. -/
theorem part_explained (h : ExplainedBelow n) (hcomes : (Task.phrase (n + 1) x f).Comes (.phrase n p m))
    (hdepth : m.engine.depth = f.engine.depth) (hrun : p.step n m = .ok (o, m')) :
    m.engine.Explained (Task.phrase (n + 1) x f).RunsHere m'.engine :=
  (h.1 _ _ _ _ hrun).mono fun _ hu => hcomes.runsHere hdepth hu

/-- A part that is run where the phrase is, is explained, whatever is bound to its value. -/
theorem binding_explained (h : ExplainedBelow n) (hpart : x.shape.part? = some p) {name : String}
    {value : Frame → Nat → Value → Value} (hrun : Step.binding (p.step n) name value f = .ok (o, g)) :
    f.engine.Explained (Task.phrase (n + 1) x f).RunsHere g.engine := by
  rcases Step.binding_eq_ok hrun with ⟨stop, v, m, hm, -, rfl⟩ | ⟨hm, -⟩
  · exact (part_explained h (.ofPart hpart) rfl hm).trans (.of_eq rfl)
  · exact part_explained h (.ofPart hpart) rfl hm

/-- A sequence is explained part by part, up to the one that fails. -/
theorem sequence_explained (h : ExplainedBelow n) (hx : x.shape = .sequence parts)
    (hrun : Step.sequence (parts.map (Phrase.step n)) f = .ok (o, g)) :
    f.engine.Explained (Task.phrase (n + 1) x f).RunsHere g.engine := by
  rcases Step.sequenceFrom_ran hrun with ⟨hran, -⟩ | ⟨-, before, p, after, m, m', rfl, hran, hp, rfl⟩
  · exact hran.explained h rfl fun before p after m heq hran' => .ofSequence (heq ▸ hx) hran'
  · have hbefore : f.engine.Explained (Task.phrase (n + 1) x f).RunsHere m.engine :=
      hran.explained h rfl fun before' p' after' m'' heq hran' =>
        .ofSequence (by rw [hx, heq, List.append_assoc]; rfl) hran'
    have hlast := part_explained h (.ofSequence hx hran) hran.accounts.1.2.1 hp
    exact hbefore.trans (hlast.trans (.of_eq rfl))

/-- A choice is explained by alternatives that fail, up to the one that matches. -/
theorem choice_explained (h : ExplainedBelow n) (hx : x.shape = .choice parts)
    (hrun : Step.choice (parts.map (Phrase.step n)) f = .ok (o, g)) :
    f.engine.Explained (Task.phrase (n + 1) x f).RunsHere g.engine := by
  rcases Step.choice_ran hrun with ⟨hran, -⟩ | ⟨before, p, after, m, rfl, hran, hp⟩
  · exact hran.explained h rfl fun before p after m heq hran' => .ofChoice (heq ▸ hx) hran'
  · have hbefore : f.engine.Explained (Task.phrase (n + 1) x f).RunsHere m.engine :=
      hran.explained h rfl fun before' p' after' m'' heq hran' =>
        .ofChoice (by rw [hx, heq, List.append_assoc]; rfl) hran'
    exact hbefore.trans (part_explained h (.ofChoice hx hran) hran.accounts.1.2.1 hp)

/-- A repetition is explained by its rounds. -/
theorem repetition_explained (h : ExplainedBelow n) {min : Nat} {max : Option Nat} {captures : Bool}
    (hx : x.shape = .repetition p min max captures)
    (hrun : Step.repetition (p.step n) min max captures n f = .ok (o, g)) :
    f.engine.Explained (Task.phrase (n + 1) x f).RunsHere g.engine := by
  obtain ⟨values, m, hrounds, hend⟩ := Step.repetition_eq_ok hrun
  have hm : f.engine.Explained (Task.phrase (n + 1) x f).RunsHere m.engine :=
    rounds_explained h hrounds rfl fun _ hdue => .ofRound hx hdue
  rcases hend with ⟨-, -, rfl⟩ | ⟨-, rfl, -⟩
  · exact hm.trans (.of_eq rfl)
  · exact hm

end Parts

/-- A phrase is explained if its parts are, and the calls that it makes. -/
theorem phrase_explained (h : ExplainedBelow n) {x : Phrase} {f : Frame} {o : Outcome} {g : Frame}
    (hrun : x.step (n + 1) f = .ok (o, g)) :
    f.engine.Explained (Task.phrase (n + 1) x f).RunsHere g.engine := by
  -- One case for each shape; what a part adds is explained by the part, with less fuel.
  rw [Phrase.step_succ] at hrun
  cases hx : x.shape with
  | leaf l =>
    rw [hx] at hrun
    exact leaf_explained hrun
  | sequence parts =>
    rw [hx] at hrun
    exact sequence_explained h hx hrun
  | choice parts =>
    rw [hx] at hrun
    exact choice_explained h hx hrun
  | repetition p min max captures =>
    rw [hx] at hrun
    exact repetition_explained h hx hrun
  | ahead p =>
    rw [hx] at hrun
    obtain ⟨o', m, hm, rfl, -⟩ := Step.ahead_eq_ok hrun
    exact (part_explained h (.ofPart (by rw [hx]; rfl)) rfl hm).trans (.of_eq rfl)
  | notAhead p =>
    rw [hx] at hrun
    obtain ⟨o', m, hm, rfl, -⟩ := Step.notAhead_eq_ok hrun
    exact (part_explained h (.ofPart (by rw [hx]; rfl)) rfl hm).trans (.of_eq rfl)
  | tag p name =>
    rw [hx, Shape.step, Step.tag] at hrun
    exact binding_explained h (by rw [hx]; rfl) hrun
  | collect p =>
    rw [hx, Shape.step, Step.collect] at hrun
    exact binding_explained h (by rw [hx]; rfl) hrun
  | bounds p =>
    rw [hx, Shape.step, Step.bounds] at hrun
    exact binding_explained h (by rw [hx]; rfl) hrun
  | apply rs rule args =>
    rw [hx] at hrun
    obtain ⟨e, he, rfl⟩ := Step.call_eq_ok hrun
    exact (apply_explained h he).mono fun u hu => (Comes.ofApply hx).runsHere rfl hu
  | invoke rs rule args =>
    rw [hx] at hrun
    obtain ⟨e, he, rfl⟩ := Step.call_eq_ok hrun
    exact (h.2 _ _ _ _ _ _ he).mono fun u hu => (Comes.ofInvoke hx).runsHere rfl hu
  | cross grammar rs rule args =>
    rw [hx] at hrun
    obtain ⟨e, he, rfl⟩ := Step.call_eq_ok hrun
    exact (cross_explained he).mono fun u hu => (Comes.ofCross hx).runsHere rfl hu

/-- By induction on fuel, phrases first and then the invocations that are made of them. -/
theorem explainedBelow : ∀ n, ExplainedBelow n := by
  intro n
  induction n with
  | zero =>
    refine ⟨fun x f o g hrun => ?_, fun rs rule args e o e' hrun => ?_⟩
    · cases x <;> cases hrun
    · cases hrun
  | succ n ih =>
    refine ⟨fun x f o g hrun => phrase_explained ih hrun, fun rs rule args e o e' hrun => ?_⟩
    -- An invocation is explained by its body, which is a phrase with less fuel.
    obtain ⟨m, hm, rfl⟩ := Engine.invoke_eq_ok hrun
    refine invoke_explained hrun ?_
    cases hx : rs.phrase? rule with
    | none =>
      rw [show (rs.runner (n + 1)).body = RuleSet.body (n + 1) rs from rfl,
        RuleSet.body_phrase_none hx] at hm
      cases hm
      exact .refl _
    | some bound =>
      obtain ⟨params, x⟩ := bound
      rw [show (rs.runner (n + 1)).body = RuleSet.body (n + 1) rs from rfl,
        RuleSet.body_phrase hx] at hm
      obtain ⟨g, hg, rfl⟩ := Step.inScope_eq_ok hm
      exact (ih.1 _ _ _ _ hg).mono fun u hu => (Comes.body hx).runsHere rfl hu

/-- **Every run is explained.**  What a task has added to the events of its engine was noted by the tasks
    that it has performed there. -/
theorem explained {t : Task} {o : Outcome} {e' : Engine} (h : t.run = .ok (o, e')) :
    t.engine.Explained t.RunsHere e' := by
  cases t with
  | apply n rs rule args e => exact apply_explained (explainedBelow n) h
  | invoke n rs rule args e => exact (explainedBelow n).2 _ _ _ _ _ _ h
  | cross n grammar rs rule args e => exact cross_explained h
  | phrase n x f =>
    obtain ⟨m, hm, rfl⟩ := Step.inScope_eq_ok h
    exact (explainedBelow n).1 _ _ _ _ hm

end Task

/-! ## Moments are explained -/

/-- What has happened in an engine when a task is come to there was noted by tasks performed there. -/
theorem Task.Comes.explained {t t' : Task} (h : t.Comes t') (hdepth : t'.engine.depth = t.engine.depth) :
    t.engine.Explained t.RunsHere t'.engine := by
  obtain ⟨hstarts, hgoes⟩ := h
  cases hstarts with
  | first hfind => exact Task.opening_explained _ _ hfind
  | again hfind hgrown =>
    rcases hgoes with heq | hitself
    · rw [heq]
      exact Task.opening_explained _ _ hfind
    · exact (Task.grown_explained (Task.explainedBelow _) hfind rfl hitself hgrown).trans
        (Task.regrowing_explained hfind hitself hgrown)
  | body _ => exact .note _ _ rfl rfl rfl
  | linked => exact absurd hdepth (Nat.succ_ne_self _)
  | ofSequence hx hran =>
    refine hran.explained (Task.explainedBelow _) rfl fun before p after m heq hran' => ?_
    exact .ofSequence (by rw [hx, heq, List.append_assoc]; rfl) hran'
  | ofChoice hx hran =>
    refine hran.explained (Task.explainedBelow _) rfl fun before p after m heq hran' => ?_
    exact .ofChoice (by rw [hx, heq, List.append_assoc]; rfl) hran'
  | ofRepetition hx _ =>
    simp only [Task.GoesOn, hx] at hgoes
    obtain ⟨m, heq, hdue⟩ := hgoes
    rw [heq]
    exact hdue.explained (Task.explainedBelow _) rfl fun _ hdue' => .ofRound hx hdue'
  | ofPart _ => exact .refl _
  | ofApply _ => exact .refl _
  | ofInvoke _ => exact .refl _
  | ofCross _ => exact .refl _

/-- Everything that has happened in an engine up to the moment when a task is performed there was noted by
    tasks performed there. -/
theorem Task.RunsHere.explained {t t' : Task} (h : t.RunsHere t') :
    t.engine.Explained t.RunsHere t'.engine := by
  refine h.induction (P := fun u => t.engine.Explained t.RunsHere u.engine) (.refl _) ?_
  intro u v hu hcomes hdepth ih
  exact ih.trans ((hcomes.explained hdepth).mono fun w hw => ⟨hu.1.trans hw.1, hw.2.trans hu.2⟩)

end MemoPeg
