import MemoPeg.Grammar.Build
import MemoPeg.Proofs.Contract
import MemoPeg.Proofs.Origins
import MemoPeg.Regex.Reader

/-
  The memo table of an engine over its life.

  An engine may run one rule after another on the same text, and its memo table is kept from one call to the
  next.  What the table says is therefore a matter of the whole life of the engine, and at each moment of a
  call it is in the middle of being changed.

  1. **Lives (`Engine.HasRun`)** — an engine that was made on a boundary of a text, and the calls of rules
     that it has run since, each from any boundary.
  2. **Moments (`Task.Meets`)** — the engines that there are while a call runs: where each task that it
     performs begins, and where it ends.  Those of linked grammars are among them.
  3. **Invariant (`Engine.Booked`)** — an entry has as many uses as its key was asked for, and there is none
     for a key that was not; matches end on boundaries, everything else where it began.
  4. **The crux (`memo_table_invariant`)** — the invariant holds at every moment of every life, since what
     happened in the meantime accounts for every entry, those of open calls included.

  Entries have an end and a value at all times, also while their rule is being tried and after it has failed.
  That these are then the position of the key and no value is not true of every table: it is true of tables
  that have come about by running.  Each place where an entry is changed has to be looked at for it, the
  growth of a match in particular, in which a rule is run while its own entry holds a match.

  Uses are counted against the history and not against the calls that are made, for only what is noted can be
  counted; that each event that asks for a key has one call behind it, and each call one event, is told by
  the origins of events.
-/

namespace MemoPeg

section

variable [RegexLibrary]

/-! ## Lives -/

/-- The engine was made on a boundary of the text and has then run these calls, the oldest first, each from
    any boundary. -/
inductive Engine.HasRun (text : Text) : List (Task × Outcome) → Engine → Prop
  | start {p : Nat} (hp : text.IsBoundary p) : HasRun text [] (Engine.startingAt text p)
  | moved {calls : List (Task × Outcome)} {e : Engine} {p : Nat} (h : HasRun text calls e)
      (hp : text.IsBoundary p) : HasRun text calls { e with pos := p }
  | called {calls : List (Task × Outcome)} {t : Task} {o : Outcome} {e' : Engine}
      (h : HasRun text calls t.engine) (hcall : t.isCall) (hrun : t.run = .ok (o, e')) :
      HasRun text (calls ++ [(t, o)]) e'

/-- The engine is there when something that the task performs begins, or when it has ended. -/
def Task.Meets (t : Task) (m : Engine) : Prop :=
  ∃ t', t.Performs t' ∧ (m = t'.engine ∨ ∃ o, t'.run = .ok (o, m))

/-- The end of a run is one of its moments. -/
theorem Task.Meets.of_run {t : Task} {o : Outcome} {e' : Engine} (h : t.run = .ok (o, e')) : t.Meets e' :=
  ⟨t, .refl, .inr ⟨o, h⟩⟩

/-- At a moment of a task, its engine has gone on, or a deeper one is at work. -/
theorem Task.Meets.meanwhile {t : Task} {m : Engine} (h : t.Meets m) :
    t.engine.Meanwhile m ∨ t.engine.depth < m.depth := by
  obtain ⟨t', hperforms, rfl | ⟨o, hrun⟩⟩ := h
  · exact (Task.Performs.runs hperforms).meanwhile
  · have hend := Engine.Meanwhile.of_accounts (Task.accounts hrun)
    rcases (Task.Performs.runs hperforms).meanwhile with hsame | hlt
    · exact .inl (hsame.trans hend)
    · exact .inr (by rw [hend.1.2.1]; exact hlt)

/-- At a moment of a task in its own engine, all that has happened was noted by tasks performed there. -/
theorem Task.Meets.explained {t : Task} {m : Engine} (h : t.Meets m) (hdepth : m.depth = t.engine.depth) :
    t.engine.Explained t.RunsHere m := by
  obtain ⟨t', hperforms, rfl | ⟨o, hrun⟩⟩ := h
  · exact Task.RunsHere.explained ⟨hperforms, hdepth⟩
  · have hhere : t'.engine.depth = t.engine.depth := by
      rw [← hdepth]
      exact ((Task.accounts hrun).1.2.1).symm
    exact (Task.RunsHere.explained ⟨hperforms, hhere⟩).trans
      ((Task.explained hrun).mono fun u hu => ⟨hperforms.trans hu.1, hu.2.trans hhere⟩)

/-! ## Uses -/

/-- An entry was used as often as its key was asked for, and a key without one was never. -/
def Engine.Counted (e : Engine) : Prop :=
  ∀ key : Key, (e.memo.find? key).map (·.uses) =
    if key.asked e.events = 0 then none else some (key.asked e.events)

namespace Engine.Counted

omit [RegexLibrary] in
/-- An engine that has not run keeps count of nothing. -/
theorem of_blank {e : Engine} (h : e.Blank) : e.Counted := by
  intro key
  rw [h.1, h.2 key]
  rfl

omit [RegexLibrary] in
/-- An entry that was made is one that was asked for. -/
theorem asked_pos_of_opened {key : Key} {events : List Event} (h : key.opened events = 1) :
    key.asked events ≠ 0 := by
  intro hzero
  have hmem : .opened key ∈ events := List.count_pos_iff.1 (by rw [show events.count _ = 1 from h]; decide)
  exact List.countP_eq_zero.1 hzero _ hmem (decide_eq_true rfl)

omit [RegexLibrary] in
/-- What accounts for the entries of an engine keeps count of their uses. -/
theorem meanwhile {e m : Engine} (h : e.Counted) (hm : e.Meanwhile m) : m.Counted := by
  obtain ⟨-, new, hevents, hkeys⟩ := hm
  intro key
  have hbefore := h key
  have hkey := hkeys key
  rw [hevents, Key.asked_append]
  generalize m.memo.find? key = after at hkey ⊢
  generalize e.memo.find? key = before at hkey hbefore
  -- Entries that were made since, in calls that are open or not.
  have made : ∀ uses answer, before = none → key.opened new = 1 → uses = key.asked new →
      (some (Entry.mk answer uses)).map (·.uses) =
        if key.asked e.events + key.asked new = 0 then none
        else some (key.asked e.events + key.asked new) := by
    rintro uses answer rfl honce rfl
    have hzero : key.asked e.events = 0 := by
      by_contra hne
      rw [if_neg hne] at hbefore
      cases hbefore
    have hpos := asked_pos_of_opened honce
    rw [hzero, Nat.zero_add, if_neg hpos]
    rfl
  -- Entries that were there before.
  have used : ∀ uses uses' answer answer', before = some ⟨answer, uses⟩ →
      uses' = uses + key.asked new → (some (Entry.mk answer' uses')).map (·.uses) =
        if key.asked e.events + key.asked new = 0 then none
        else some (key.asked e.events + key.asked new) := by
    rintro uses uses' answer answer' rfl rfl
    by_cases hzero : key.asked e.events = 0
    · rw [if_pos hzero] at hbefore
      cases hbefore
    · rw [if_neg hzero] at hbefore
      rw [if_neg (by omega), ← Option.some.inj hbefore]
      rfl
  cases hkey with
  | opened honce huses => exact made _ _ rfl honce huses
  | settled hkey =>
    cases hkey with
    | unasked hspared =>
      rw [hspared.asked]
      exact hbefore
    | used _ _ _ _ huses => exact used _ _ _ _ rfl huses
    | trying _ _ _ huses => exact used _ _ _ _ rfl huses
    | tried honce _ huses => exact made _ _ rfl honce huses

/-- Whatever a task runs, in its own engine or in others, keeps count. -/
theorem runs {t t' : Task} (h : t.engine.Counted) (hruns : t.Runs t') : t'.engine.Counted := by
  induction hruns with
  | refl => exact h
  | tail _ hstarts ih =>
    rcases hstarts.meanwhile with hsame | ⟨hblank, -⟩
    · exact ih.meanwhile hsame
    · exact .of_blank hblank

/-- Count is kept at every moment of a task. -/
theorem meets {t : Task} {m : Engine} (h : t.engine.Counted) (hm : t.Meets m) : m.Counted := by
  obtain ⟨t', hperforms, rfl | ⟨o, hrun⟩⟩ := hm
  · exact h.runs (Task.Performs.runs hperforms)
  · exact (h.runs (Task.Performs.runs hperforms)).meanwhile (.of_accounts (Task.accounts hrun))

omit [RegexLibrary] in
/-- A key has an entry just if it was asked for. -/
theorem isSome_iff {e : Engine} (h : e.Counted) (key : Key) :
    (e.memo.find? key).isSome ↔ key.asked e.events ≠ 0 := by
  have hkey := h key
  by_cases hzero : key.asked e.events = 0
  · rw [if_pos hzero] at hkey
    rw [Option.map_eq_none_iff.1 hkey]
    exact ⟨fun h => (by cases h), fun h => absurd hzero h⟩
  · rw [if_neg hzero] at hkey
    obtain ⟨entry, hentry, -⟩ := Option.map_eq_some_iff.1 hkey
    rw [hentry]
    exact ⟨fun _ => hzero, fun _ => rfl⟩

end Engine.Counted

/-! ## The invariant -/

/-- The table of the engine on the text is in order. -/
structure Engine.Booked (text : Text) (e : Engine) : Prop where
  uses : e.Counted
  matched : ∀ key entry, e.memo.find? key = some entry → entry.answer.status = .matched →
    key.pos ≤ entry.answer.stop ∧ entry.answer.stop ≤ text.size ∧ text.IsBoundary entry.answer.stop
  unmatched : ∀ key entry, e.memo.find? key = some entry → entry.answer.status ≠ .matched →
    entry.answer.stop = key.pos ∧ entry.answer.value = .nil

omit [RegexLibrary] in
/-- What fits the text is in order. -/
theorem Engine.Booked.of_inText {text : Text} {e : Engine} (huses : e.Counted) (htext : e.text = text)
    (hin : e.InText) : e.Booked text where
  uses := huses
  matched key entry hfind hstatus := by
    obtain ⟨⟨status, stop, value⟩, uses⟩ := entry
    obtain rfl : status = .matched := hstatus
    obtain ⟨hle, hstop⟩ := Answer.fits_matched.1 (hin.fits key _ hfind)
    rw [htext] at hstop
    exact ⟨hle, hstop.le_size, hstop⟩
  unmatched key entry hfind hstatus := by
    rw [hin.parked hfind hstatus]
    exact ⟨rfl, rfl⟩

/-- The rule of the key is being tried. -/
def Engine.Tries (e : Engine) (key : Key) : Prop :=
  ∃ entry, e.memo.find? key = some entry ∧ entry.isInProgress

omit [RegexLibrary] in
/-- What accounts for an entry does not begin to try its rule, nor stop. -/
theorem Key.Accounts.inProgress_iff {key : Key} {new : List Event} {before after : Option Entry}
    (h : key.Accounts new before after) :
    (∃ entry, after = some entry ∧ entry.isInProgress) ↔ ∃ entry, before = some entry ∧ entry.isInProgress := by
  have final : ∀ {answer : Answer} {uses : Nat}, (∀ detected, answer.status ≠ .inProgress detected) →
      ¬(Entry.mk answer uses).isInProgress := by
    intro answer uses hfinal hprogress
    obtain ⟨detected, hstatus⟩ := Entry.isInProgress_iff.1 hprogress
    exact hfinal detected hstatus
  cases h with
  | unasked _ => exact Iff.rfl
  | used hfinal _ _ _ _ =>
    refine ⟨fun ⟨_, heq, hprogress⟩ => ?_, fun ⟨_, heq, hprogress⟩ => ?_⟩
    · cases heq; exact absurd hprogress (final hfinal)
    · cases heq; exact absurd hprogress (final hfinal)
  | trying _ _ _ _ => exact ⟨fun _ => ⟨_, rfl, rfl⟩, fun _ => ⟨_, rfl, rfl⟩⟩
  | tried _ htried _ =>
    refine ⟨fun ⟨_, heq, hprogress⟩ => ?_, fun ⟨_, heq, _⟩ => by cases heq⟩
    cases heq
    exact absurd hprogress (final htried.final)

omit [RegexLibrary] in
/-- A run leaves those keys in progress that it has found so. -/
theorem Engine.Accounts.tries_iff {e e' : Engine} (h : e.Accounts e') (key : Key) :
    e'.Tries key ↔ e.Tries key := by
  obtain ⟨-, new, -, hkeys⟩ := h
  exact (hkeys key).inProgress_iff

/-- A growth of the key that is begun in the first engine looks the key up in the second one, before a
    round. -/
inductive Engine.ComesToRound (r : Runner) (key : Key) (e : Engine) : Engine → Prop
  | here : ComesToRound r key e e
  | next {g m : Engine} {best : Answer} {uses stop : Nat} {longer : Value} (h : ComesToRound r key e g)
      (hfind : g.memo.find? key = some ⟨best, uses⟩)
      (hround : (g.regrowing key best.stop best.value).invoke r key.rule key.args =
        .ok (.matched stop longer, m))
      (hlonger : best.stop < stop) : ComesToRound r key e (m.settle key (.matched stop longer))

/-- A call for the key without an entry finds the entry whenever it looks it up again: in progress when the
    rule has been tried, and with a match before and after each round of the growth. -/
def Engine.KeepsTrack (r : Runner) (key : Key) (m : Engine) : Prop :=
  (∀ o m', (m.opening key).invoke r key.rule key.args = .ok (o, m') → m'.Tries key) ∧
  ∀ stop value m', (m.opening key).invoke r key.rule key.args = .ok (.matched stop value, m') →
    ∀ g, (m'.settle key (.matched stop value)).ComesToRound r key g → ∃ best value uses,
      g.memo.find? key = some ⟨.matched best value, uses⟩ ∧
      ∀ o g', (g.regrowing key best value).invoke r key.rule key.args = .ok (o, g') →
        ∃ uses', g'.memo.find? key = some ⟨.matched best value, uses'⟩

/-- Wherever a growth looks its key up before a round, the entry holds a match. -/
theorem Engine.ComesToRound.opened {n : Nat} {rs : RuleSet} {key : Key} {m e g : Engine}
    (h : e.ComesToRound (rs.runner n) key g) {new : List Event} {stop : Nat} {value : Value}
    (he : m.Opened key new (.matched stop value) e) :
    ∃ newer best longer, m.Opened key newer (.matched best longer) g := by
  induction h with
  | here => exact ⟨new, stop, value, he⟩
  | next _ hfind hround _ ih =>
    obtain ⟨newer, best, value', hg⟩ := ih
    rw [hg.entry] at hfind
    cases hfind
    obtain ⟨newest, hm, -⟩ := (hg.regrowing best value').growing
      (Engine.Accounts.drift.invoke (rs.body_accounts n) key.rule key.args _ _ _ hround)
    exact ⟨_, _, _, hm.settle _⟩

/-- An entry is found again: what is run in between accounts for it, and does not make it. -/
theorem Engine.keepsTrack (n : Nat) (rs : RuleSet) {key : Key} {m : Engine}
    (hfind : m.memo.find? key = none) : m.KeepsTrack (rs.runner n) key := by
  have hinvoke := Engine.Accounts.drift.invoke (rs.body_accounts n) key.rule key.args
  have htried : ∀ o m', (m.opening key).invoke (rs.runner n) key.rule key.args = .ok (o, m') →
      ∃ newer detected, m.Opened key newer (.parked (.inProgress detected) key.pos) m' := by
    intro o m' hrun
    obtain ⟨newer, hopened, -⟩ := (Engine.Opened.opening hfind).trying (hinvoke _ _ _ hrun)
    exact ⟨_, _, hopened⟩
  refine ⟨fun o m' hrun => ?_, fun stop value m' hrun g hgrown => ?_⟩
  · obtain ⟨newer, detected, hopened⟩ := htried o m' hrun
    exact ⟨_, hopened.entry, rfl⟩
  · obtain ⟨newer, detected, hopened⟩ := htried _ m' hrun
    obtain ⟨newest, best, longer, hg⟩ := hgrown.opened (hopened.settle (.matched stop value))
    refine ⟨best, longer, _, hg.entry, fun o g' hround => ?_⟩
    obtain ⟨more, hg', -⟩ := (hg.regrowing best longer).growing (hinvoke _ _ _ hround)
    exact ⟨_, hg'.entry⟩

namespace Engine.HasRun

variable {text : Text} {calls : List (Task × Outcome)} {e : Engine}

/-- Over its life an engine stays in its text. -/
theorem inText (h : e.HasRun text calls) : e.text = text ∧ e.InText := by
  induction h with
  | start hp => exact ⟨rfl, .startingAt hp⟩
  | moved _ hp ih => exact ⟨ih.1, ih.2.move (ih.1.symm ▸ hp)⟩
  | called _ _ hrun ih =>
    have had := Task.advances ih hrun
    exact ⟨had.text.trans ih.1, had.inText⟩

/-- Over its life an engine keeps count. -/
theorem counted (h : e.HasRun text calls) : e.Counted := by
  induction h with
  | start hp => exact .of_blank (.startingAt text _)
  | moved _ _ ih => exact ih
  | called _ _ hrun ih => exact ih.meanwhile (.of_accounts (Task.accounts hrun))

/-- Between calls, no rule is being tried. -/
theorem rests (h : e.HasRun text calls) (key : Key) : ¬e.Tries key := by
  induction h with
  | start hp => rintro ⟨entry, hfind, -⟩; cases hfind
  | moved _ _ ih => exact ih
  | called _ _ hrun ih => exact fun htries => ih (((Task.accounts hrun).tries_iff key).1 htries)

/-- All events of the engine were noted by tasks that its calls have performed there. -/
theorem explained (h : e.HasRun text calls) : ∃ p, (Engine.startingAt text p).Explained
    (fun u => ∃ t o, (t, o) ∈ calls ∧ t.RunsHere u) e := by
  induction h with
  | @start p hp => exact ⟨p, .refl _⟩
  | moved _ _ ih =>
    obtain ⟨p, hp⟩ := ih
    exact ⟨p, hp.trans (.of_eq rfl)⟩
  | @called calls t o e' _ _ hrun ih =>
    obtain ⟨p, hp⟩ := ih
    refine ⟨p, (hp.mono ?_).trans ((Task.explained hrun).mono fun u hu => ?_)⟩
    · rintro u ⟨s, o', hmem, hu⟩
      exact ⟨s, o', List.mem_append_left _ hmem, hu⟩
    · exact ⟨t, o, List.mem_append_right _ List.mem_cons_self, hu⟩

/-- An engine that was made on a text is no engine of a link. -/
theorem depth (h : e.HasRun text calls) : e.depth = 0 := by
  induction h with
  | start hp => rfl
  | moved _ _ ih => exact ih
  | called _ _ hrun ih => exact (Task.accounts hrun).1.2.1.trans ih

/-- Each call of a life was made in an engine with an earlier life. -/
theorem of_mem (h : e.HasRun text calls) {t : Task} {o : Outcome} (hmem : (t, o) ∈ calls) :
    ∃ earlier, t.engine.HasRun text earlier ∧ ∀ call ∈ earlier, call ∈ calls := by
  induction h with
  | start hp => cases hmem
  | moved _ _ ih => exact ih hmem
  | @called calls s o' e' hbefore _ _ ih =>
    rcases List.mem_append.1 hmem with hmem | hmem
    · obtain ⟨earlier, hrun, hearlier⟩ := ih hmem
      exact ⟨earlier, hrun, fun call hcall => List.mem_append_left _ (hearlier call hcall)⟩
    · obtain ⟨rfl, -⟩ := Prod.mk.inj (List.mem_singleton.1 hmem)
      exact ⟨calls, hbefore, fun call hcall => List.mem_append_left _ hcall⟩

end Engine.HasRun

/-- What is explained from an engine without events is explained event by event. -/
theorem Engine.Explained.of_blank {R : Task → Prop} {e m : Engine} (h : e.Explained R m)
    (hblank : e.events = []) {before : List Event} {event : Event} {after : List Event}
    (heq : m.events = before ++ event :: after) : event.HasOrigin R before := by
  obtain ⟨new, hnew, horigin⟩ := h
  rw [hblank, List.nil_append] at hnew
  have hevent := horigin before event after (hnew ▸ heq)
  rwa [hblank] at hevent

/-- What has happened in an engine over its life was noted by tasks that its calls have performed there. -/
theorem Engine.HasRun.origin {text : Text} {calls : List (Task × Outcome)} {e : Engine}
    (h : e.HasRun text calls) {m : Moment} (hm : m ∈ e.history) (hdepth : m.depth = 0) :
    ∃ before, m.event.HasOrigin (fun u => ∃ t o, (t, o) ∈ calls ∧ t.RunsHere u) before := by
  have hevent : m.event ∈ e.events := by
    rw [Engine.events, h.depth, History.own, List.mem_reverse, List.mem_map]
    refine ⟨m, List.mem_filter.2 ⟨?_, decide_eq_true hdepth⟩, rfl⟩
    rwa [List.takeWhile_eq_self_iff.2 fun m' _ => decide_eq_true (Nat.zero_le m'.depth)]
  obtain ⟨before, after, hsplit⟩ := List.append_of_mem hevent
  obtain ⟨p, hp⟩ := h.explained
  exact ⟨before, hp.of_blank rfl hsplit⟩

/-- A rule that has grown has done so since the entry was made. -/
theorem GrownTo.extends {n : Nat} {rs : RuleSet} {key : Key} {e e' : Engine} {best : Nat} {value : Value}
    (h : GrownTo (rs.runner n) key e best value e') : (e.opening key).Extends e' := by
  have hinvoke := Engine.Accounts.drift.invoke (rs.body_accounts n) key.rule key.args
  induction h with
  | seed hfirst => exact (hinvoke _ _ _ hfirst).1.trans (.refl _)
  | @longer e' m best stop value longer _ hround _ ih =>
    have hbegun := ih.trans (.regrowing key best value e')
    exact hbegun.trans ((hinvoke _ _ _ hround).1.trans (.refl _))

omit [RegexLibrary] in
/-- What comes later in an engine has more events. -/
theorem Engine.Extends.events_cons {e m m' : Engine} {event : Event} (h : m.Extends m')
    (hm : m.events = e.events ++ [event]) : ∃ rest, m'.events = e.events ++ event :: rest := by
  obtain ⟨new, hnew⟩ := h.events
  exact ⟨new, by rw [hnew, hm, List.append_assoc]; rfl⟩

omit [RegexLibrary] in
/-- An answer from the memo table asks for the key. -/
theorem Engine.events_reuse (key : Key) (entry : Entry) (e : Engine) :
    ∃ event, event.asks? = some key ∧ (e.reuse key entry).2.events = e.events ++ [event] := by
  obtain ⟨⟨status, stop, value⟩, uses⟩ := entry
  cases status with
  | inProgress detected => exact ⟨.foundInProgress key, rfl, Engine.events_note _ _⟩
  | matched => exact ⟨.foundMatch key, rfl, Engine.events_note _ _⟩
  | failed => exact ⟨.foundFailure key, rfl, Engine.events_note _ _⟩

/-- A call of a key without an entry makes the entry before anything else. -/
theorem Engine.applyRule_extends {n : Nat} {rs : RuleSet} {rule : RuleId} {args : List Value}
    {e m : Engine} {o : Outcome} (hfind : e.memo.find? ⟨rule, e.pos, args⟩ = none)
    (hrun : e.applyRule n rs rule args = .ok (o, m)) : (e.opening ⟨rule, e.pos, args⟩).Extends m := by
  have hinvoke := Engine.Accounts.drift.invoke (rs.body_accounts n) rule args
  rcases Engine.apply_ends (rs.runner_retains n) hrun with
    ⟨entry, hsome, -⟩ | ⟨-, first, m', hm, hrest⟩
  · rw [hfind] at hsome
    cases hsome
  · have hfirst := (hinvoke _ _ _ hm).1
    rcases hrest with ⟨stop, value, rfl, -, hgrowth⟩ | ⟨stop, value, -, -, -, rfl⟩ | ⟨-, -, rfl⟩
    · obtain ⟨best, value', g, round, g', hgrown, hround, -, rfl⟩ :=
        Engine.growFrom_ends hgrowth (.seed hm)
      have hbegun := hgrown.extends.trans (.regrowing ⟨rule, e.pos, args⟩ best value' g)
      exact hbegun.trans ((hinvoke _ _ _ hround).1.trans (.refl _))
    · exact hfirst.trans (.refl _)
    · exact hfirst.trans (.refl _)

/-- What a call runs begins after its entry was made. -/
theorem Starts.extends {n : Nat} {rs : RuleSet} {rule : RuleId} {args : List Value} {e : Engine} {t : Task}
    (h : Starts (.apply n rs rule args e) t) : (e.opening ⟨rule, e.pos, args⟩).Extends t.engine := by
  cases h with
  | first _ => exact .refl _
  | again _ hgrown => exact hgrown.extends.trans (.regrowing _ _ _ _)

/-- A call through the memo table asks for its key, and only then does it run anything. -/
theorem Task.asks_first {t : Task} {key : Key} (hkey : t.key? = some key) {m : Engine} (hm : t.Meets m)
    (hdepth : m.depth = t.engine.depth) : m = t.engine ∨
      ∃ event rest, event.asks? = some key ∧ m.events = t.engine.events ++ event :: rest := by
  obtain ⟨n, rs, rule, args, e, rfl, rfl⟩ := Task.key?_eq_some hkey
  have later : (e.opening ⟨rule, e.pos, args⟩).Extends m → ∃ event rest,
      event.asks? = some ⟨rule, e.pos, args⟩ ∧ m.events = e.events ++ event :: rest := fun hext => by
    obtain ⟨rest, hrest⟩ := hext.events_cons (Engine.events_opening ⟨rule, e.pos, args⟩ e)
    exact ⟨_, rest, rfl, hrest⟩
  obtain ⟨u, hperforms, hu⟩ := hm
  -- The engine is one of the task itself, or of something that runs in it.
  rcases Relation.ReflTransGen.cases_head hperforms with rfl | ⟨v, ⟨hstarts, -⟩, hperforms'⟩
  · rcases hu with rfl | ⟨o, hrun⟩
    · exact .inl rfl
    · right
      cases hfind : e.memo.find? ⟨rule, e.pos, args⟩ with
      | none => exact later (Engine.applyRule_extends hfind hrun)
      | some entry =>
        rcases Engine.apply_eq_ok hrun with ⟨entry, -, heq⟩ | ⟨hnone, -⟩
        · obtain ⟨event, hasks, hevents⟩ := Engine.events_reuse ⟨rule, e.pos, args⟩ entry e
          rw [← heq] at hevents
          exact ⟨event, [], hasks, hevents⟩
        · rw [hfind] at hnone
          cases hnone
  · right
    have hv : v.Meets m := ⟨u, hperforms', hu⟩
    rcases hv.meanwhile with hlater | hlt
    · exact later (hstarts.extends.trans hlater.1)
    · have hsame : v.engine.depth = e.depth := hstarts.extends.2.1
      have hdepth' : m.depth = e.depth := hdepth
      omega

/-- **The memo table over the life of an engine.**  Take an engine that was made on a boundary of a text and
    has run any calls, and let it run another one.  At every moment of that call, in this engine and in those
    of linked grammars, every entry has as many uses as its key was asked for, and every match lies in the
    text.  What asks for a key is a call of it, which asks once.  No entry is removed, none is in progress
    when the call has ended, and a call finds its own entry whenever it looks it up again. -/
theorem memo_table_invariant {text : Text} {calls : List (Task × Outcome)} {t : Task}
    (hrun : t.engine.HasRun text calls) (hcall : t.isCall) :
    (∀ m, t.Meets m → m.Booked text) ∧
    (∀ m, t.Meets m → m.depth = t.engine.depth → ∀ before event after key,
      m.events = before ++ event :: after → event.asks? = some key →
        ∃ s u, (s = t ∨ ∃ o, (s, o) ∈ calls) ∧ s.RunsHere u ∧ u.key? = some key ∧
          u.engine.events = before) ∧
    (∀ t' key m, t.Performs t' → t'.key? = some key → t'.Meets m → m.depth = t'.engine.depth →
      m = t'.engine ∨
        ∃ event rest, event.asks? = some key ∧ m.events = t'.engine.events ++ event :: rest) ∧
    (∀ t' m, t.Performs t' → t'.Meets m → m.depth = t'.engine.depth → ∀ key,
      (t'.engine.memo.find? key).isSome → (m.memo.find? key).isSome) ∧
    (∀ o e', t.run = .ok (o, e') → ∀ key, ¬e'.Tries key) ∧
    (∀ n rs rule args m, t.Performs (.apply n rs rule args m) → m.memo.find? ⟨rule, m.pos, args⟩ = none →
      m.KeepsTrack (rs.runner n) ⟨rule, m.pos, args⟩) := by
  have hcounted := hrun.counted
  refine ⟨fun m hm => ?_, fun m hm hdepth before event after key heq hasks => ?_,
    fun t' key m _ hkey hm hdepth => Task.asks_first hkey hm hdepth,
    fun t' m hperforms hm hdepth key hsome => ?_,
    fun o e' hends => (hrun.called hcall hends).rests, fun n rs rule args m _ hfind =>
      m.keepsTrack n rs hfind⟩
  · have hin : m.text = text ∧ m.InText := by
      obtain ⟨t', hperforms, ht'⟩ := hm
      have hin' := (Task.Performs.runs hperforms).inText hrun.inText
      rcases ht' with rfl | ⟨o, hends⟩
      · exact hin'
      · have had := Task.advances hin' hends
        exact ⟨had.text.trans hin'.1, had.inText⟩
    exact .of_inText (hcounted.meets hm) hin.1 hin.2
  -- Events of the life so far have their origins in its calls, and those since then in this one.
  · obtain ⟨p, hp⟩ := hrun.explained
    have hall : (Engine.startingAt text p).Explained
        (fun u => ∃ s, (s = t ∨ ∃ o, (s, o) ∈ calls) ∧ s.RunsHere u) m := by
      refine (hp.mono ?_).trans ((hm.explained hdepth).mono fun u hu => ⟨t, .inl rfl, hu⟩)
      rintro u ⟨s, o, hmem, hu⟩
      exact ⟨s, .inr ⟨o, hmem⟩, hu⟩
    obtain ⟨u, ⟨s, hs, hu⟩, hkey, hevents⟩ := (hall.of_blank rfl heq).asked key hasks
    exact ⟨s, u, hs, hu, hkey, hevents⟩
  -- An entry is there just if its key has been asked for, and events are only added.
  · have hbefore := hcounted.runs (Task.Performs.runs hperforms)
    have hafter := hbefore.meets hm
    rcases hm.meanwhile with ⟨-, new, hevents, -⟩ | hlt
    · rw [hbefore.isSome_iff] at hsome
      rw [hafter.isSome_iff, hevents, Key.asked_append]
      omega
    · omega

end

/-- One rule that grows from the left, by a letter in each round. -/
def letters : Declaration :=
  { name := "letters"
    rules := [⟨"run", [], .choice [.sequence [.call "run" [], .literal "a"], .literal "a"]⟩]
    root := none
    links := [] }

/-- The left recursion shows in the cycles. -/
def lettersGrammar : Grammar := .ofRules "letters" letters.rules 0 [] [["run", "run"]]

/-- The call of that rule at the start of a text. -/
def lettersRun : Task := .apply 20 (.grammar lettersGrammar) 0 [] (Engine.new "aab".toList)

/-- The rule matches two letters.  It was asked for by its caller, once while in progress, and in each of
    the two rounds of its growth. -/
theorem memo_table_invariant_letters : letters.build = .ok lettersGrammar ∧
    ∃ e', lettersRun.run = .ok (.matched 2 (.str "a"), e') ∧
      (e'.memo.find? ⟨0, 0, []⟩).map (·.uses) = some 4 ∧ Key.asked ⟨0, 0, []⟩ e'.events = 4 := by
  have hends : (lettersRun.run.map fun r => (r.1, (r.2.memo.find? ⟨0, 0, []⟩).map (·.uses))).toOption =
      some (.matched 2 (.str "a"), some 4) := by decide +kernel
  cases hrun : lettersRun.run with
  | error stop => rw [hrun] at hends; cases hends
  | ok r =>
    obtain ⟨o, e'⟩ := r
    rw [hrun] at hends
    obtain ⟨rfl, huses⟩ := Prod.mk.inj (Option.some.inj hends)
    refine ⟨rfl, e', rfl, huses, ?_⟩
    obtain ⟨hbooked, -⟩ := memo_table_invariant (.start (by decide)) (t := lettersRun) rfl
    have hcount := (hbooked e' (.of_run hrun)).uses ⟨0, 0, []⟩
    rw [huses] at hcount
    split at hcount
    · cases hcount
    · exact (Option.some.inj hcount).symm

end MemoPeg
