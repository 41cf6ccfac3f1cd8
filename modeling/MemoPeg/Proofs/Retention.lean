import MemoPeg.Proofs.History

/-
  Entries stay in the memo table, and what that makes of a growth.

  1. **Retention (`Engine.Retains`)** — a run leaves every entry that it finds in its place, with the end
     and the value that are recorded in it.  It may count its uses and mark it as found in progress.
     The end of an entry is changed only by the call that has made it, and a call makes an entry
     only where it has found none; so the entries that a run finds are none of those that it changes.
  2. **Induction (`retains_drift`)** — retention goes along with every change apart from the memo table;
     a call through the table retains what it has found if the bodies do (`Engine.apply_retains`),
     and so by induction on the fuel every body does (`RuleSet.runner_retains`).
  3. **Growth by hand-over (`Engine.growFrom`)** — the same loop as `Engine.grow`, but with the best match so
     far handed on from round to round instead of looked up.  With bodies that retain entries the two
     are equal (`Engine.grow_eq_growFrom`): the entry of the key is there at every look-up, and holds
     the match that was recorded last.

  `Engine.grow` has a way to go on where the entry is missing, and takes the best match from an entry that
  a body might have changed.  That neither happens is no property of the loop.  Proofs about growths
  reason on the loop by hand-over, which has the match that it compares with in its hand; they come here
  for the step between the two.
-/

namespace MemoPeg

/-! ## Retention -/

/-- Every entry of the first engine is in the second one, with the end and the value recorded in it. -/
def Engine.Retains (e e' : Engine) : Prop :=
  ∀ key entry, e.memo.find? key = some entry → ∃ entry', e'.memo.find? key = some entry' ∧
    entry'.answer.stop = entry.answer.stop ∧ entry'.answer.value = entry.answer.value

/-- The bodies of the runner retain what they find. -/
def Runner.Retains (r : Runner) : Prop :=
  ∀ rule args e o e', r.body rule args e = .ok (o, e') → e.Retains e'

namespace Engine

/-- What leaves the memo table alone leaves its entries. -/
theorem Retains.of_memo {e e' : Engine} (h : e'.memo = e.memo) : e.Retains e' :=
  fun _ entry hfind => ⟨entry, h ▸ hfind, rfl, rfl⟩

/-- What is retained twice is retained. -/
theorem Retains.trans {d e f : Engine} (h : d.Retains e) (k : e.Retains f) : d.Retains f := by
  intro key entry hfind
  obtain ⟨entry', hfind', hstop, hvalue⟩ := h key entry hfind
  obtain ⟨entry'', hfind'', hstop', hvalue'⟩ := k key entry' hfind'
  exact ⟨entry'', hfind'', hstop'.trans hstop, hvalue'.trans hvalue⟩

/-- A key that has an entry keeps one. -/
theorem Retains.isSome {e e' : Engine} (h : e.Retains e') {key : Key}
    (hsome : (e.memo.find? key).isSome) : (e'.memo.find? key).isSome := by
  obtain ⟨entry, hfind⟩ := Option.isSome_iff_exists.1 hsome
  obtain ⟨entry', hfind', -⟩ := h key entry hfind
  rw [hfind']
  rfl

/-- A change of the entry of one key retains it if it leaves the end and the value, and all others. -/
theorem Retains.modify {e e' : Engine} {key : Key} {f : Entry → Entry}
    (hmemo : e'.memo = e.memo.modify f key)
    (hf : ∀ entry, e.memo.find? key = some entry →
      (f entry).answer.stop = entry.answer.stop ∧ (f entry).answer.value = entry.answer.value) :
    e.Retains e' := by
  intro other entry hfind
  rw [hmemo, Memo.find?_modify]
  by_cases heq : key = other
  · subst heq
    rw [if_pos rfl, hfind]
    exact ⟨f entry, rfl, hf entry hfind⟩
  · rw [if_neg heq]
    exact ⟨entry, hfind, rfl, rfl⟩

/-- A round of a growth begins with the entries that there are. -/
theorem retains_regrowing (key : Key) (best : Nat) (value : Value) (e : Engine) :
    e.Retains (e.regrowing key best value) := .of_memo rfl

/-- An entry is made where there is none. -/
theorem retains_opening {e : Engine} {key : Key} (hnone : e.memo.find? key = none) :
    e.Retains (e.opening key) := by
  intro other entry hfind
  have hne : key ≠ other := fun heq => by rw [heq, hfind] at hnone; cases hnone
  refine ⟨entry, ?_, rfl, rfl⟩
  rw [show (e.opening key).memo = e.memo.start key from rfl, Memo.find?_start, if_neg hne]
  exact hfind

/-- The entry of a key that there was no entry for may change. -/
theorem Retains.settle {e m : Engine} (h : e.Retains m) {key : Key}
    (hnone : e.memo.find? key = none) (answer : Answer) : e.Retains (m.settle key answer) := by
  intro other entry hfind
  have hne : key ≠ other := fun heq => by rw [heq, hfind] at hnone; cases hnone
  obtain ⟨entry', hfind', hsame⟩ := h other entry hfind
  refine ⟨entry', ?_, hsame⟩
  rw [show (m.settle key answer).memo = m.memo.settle key answer from rfl, Memo.settle,
    Memo.find?_modify, if_neg hne]
  exact hfind'

/-- An entry in use is counted, and marked if it is in progress; no more of it changes. -/
theorem retains_reuse {e : Engine} {key : Key} {entry : Entry}
    (hfind : e.memo.find? key = some entry) : e.Retains (e.reuse key entry).2 := by
  have hused : e.Retains { e with memo := e.memo.use key, pos := entry.answer.stop } :=
    .modify rfl fun _ _ => ⟨rfl, rfl⟩
  obtain ⟨⟨status, stop, value⟩, uses⟩ := entry
  cases status with
  | inProgress detected =>
    refine hused.trans (.modify rfl fun entry hentry => ?_)
    rw [show ({ e with memo := e.memo.use key, pos := stop } : Engine).memo = e.memo.use key from rfl,
      Memo.use, Memo.find?_modify, if_pos rfl, hfind] at hentry
    cases hentry
    exact ⟨rfl, rfl⟩
  | matched => exact hused.trans (.of_memo rfl)
  | failed => exact hused.trans (.of_memo rfl)

end Engine

/-- **Retention goes along with every change apart from the memo table.** -/
theorem retains_drift : EngineDrift Engine.Retains where
  refl _ := .of_memo rfl
  trans := .trans
  move _ _ := .of_memo rfl
  result _ _ := .of_memo rfl
  note _ _ _ _ := .of_memo rfl
  blame _ _ _ := .of_memo rfl

namespace Engine

variable {r : Runner} (hr : r.Retains)
include hr

/-- Running a body retains what the body retains. -/
theorem invoke_retains {rule : RuleId} {args : List Value} {e : Engine} {o : Outcome} {e' : Engine}
    (h : e.invoke r rule args = .ok (o, e')) : e.Retains e' :=
  retains_drift.invoke hr rule args e o e' h

/-- The growth of a key retains what was there before the key had an entry. -/
theorem grow_retains {d : Engine} {key : Key} (hnone : d.memo.find? key = none) :
    ∀ {fuel : Nat} {e : Engine} {o : Outcome} {e' : Engine},
      e.grow r key fuel = .ok (o, e') → d.Retains e → d.Retains e'
  | 0, _, _, _, h, _ => by cases h
  | fuel + 1, e, o, e', h, hd => by
    rcases grow_succ_eq_ok h with ⟨-, -, rfl⟩ | ⟨best, uses, round, m, -, hround, hgrown⟩
    · exact hd.trans (.of_memo rfl)
    · have hm : d.Retains m :=
        hd.trans ((retains_regrowing key best.stop best.value e).trans
          (invoke_retains hr hround))
      rcases hgrown with ⟨stop, longer, -, -, hrest⟩ | ⟨-, heq⟩
      · exact grow_retains hnone hrest (hm.settle hnone _)
      · rcases m.grown_cases key with ⟨entry, -, hgrown⟩ | ⟨-, hgrown⟩ <;>
          (rw [hgrown] at heq; cases heq; exact hm.trans (.of_memo rfl))

/-- A call through the memo table retains what it has found. -/
theorem apply_retains {fuel : Nat} {rule : RuleId} {args : List Value} {e : Engine} {o : Outcome}
    {e' : Engine} (h : e.apply r fuel rule args = .ok (o, e')) : e.Retains e' := by
  rcases apply_eq_ok h with ⟨entry, hfind, heq⟩ | ⟨hnone, first, m, hm, hrest⟩
  · have := retains_reuse hfind
    rw [← heq] at this
    exact this
  · have hkept : e.Retains m := (retains_opening hnone).trans (invoke_retains hr hm)
    rcases hrest with ⟨stop, value, -, -, hgrown⟩ | ⟨stop, value, -, -, -, rfl⟩ | ⟨-, -, rfl⟩
    · exact grow_retains hr hnone hgrown (hkept.settle hnone _)
    · exact hkept.settle hnone _
    · exact hkept.settle hnone _

omit hr in
/-- A call across leaves the memo table of the caller as it was. -/
theorem callForeign_retains {fuel : Nat} {grammar : String} {rule : RuleId} {args : List Value}
    {e : Engine} {o : Outcome} {e' : Engine}
    (h : e.callForeign r fuel grammar rule args = .ok (o, e')) : e.Retains e' := by
  obtain ⟨inner, -, rfl⟩ := callForeign_eq_ok h
  cases o <;> exact .of_memo rfl

end Engine

/-- **Every run retains the entries that it finds.** -/
theorem RuleSet.runner_retains [RegexLibrary] (rs : RuleSet) (n : Nat) : (rs.runner n).Retains :=
  ((retains_drift.stepProperty (fun _ hr _ _ _ _ _ _ h => Engine.apply_retains hr h)
    fun _ _ _ _ _ _ _ _ _ h => Engine.callForeign_retains h).everywhere n).1 rs

/-! ## Growth by hand-over -/

namespace Engine

/-- The rounds of a growth, with the best match so far handed on. -/
def growFrom (r : Runner) (key : Key) : Nat → Nat → Value → Engine → Run (Outcome × Engine)
  | 0, _, _, _ => .error .outOfFuel
  | fuel + 1, best, value, e => do
    let (outcome, after) ← (e.regrowing key best value).invoke r key.rule key.args
    let finished := (Outcome.matched best value, { after with pos := best, result := value })
    match outcome with
    | .matched stop longer =>
      if best < stop then growFrom r key fuel stop longer (after.settle key (.matched stop longer))
      else .ok finished
    | .failed => .ok finished

/-- The entry of the key has this end and this value. -/
def HasBest (key : Key) (best : Nat) (value : Value) (e : Engine) : Prop :=
  ∃ entry, e.memo.find? key = some entry ∧ entry.answer.stop = best ∧ entry.answer.value = value

/-- An entry records what is settled in it. -/
theorem HasBest.settled {m : Engine} {key : Key} (hsome : (m.memo.find? key).isSome) (stop : Nat)
    (value : Value) : (m.settle key (.matched stop value)).HasBest key stop value := by
  obtain ⟨entry, hfind⟩ := Option.isSome_iff_exists.1 hsome
  refine ⟨⟨.matched stop value, entry.uses⟩, ?_, rfl, rfl⟩
  rw [show (m.settle key (.matched stop value)).memo = m.memo.settle key (.matched stop value) from rfl,
    Memo.settle, Memo.find?_modify, if_pos rfl, hfind]
  rfl

/-- A best match is that of an entry. -/
theorem HasBest.isSome {e : Engine} {key : Key} {best : Nat} {value : Value}
    (h : e.HasBest key best value) : (e.memo.find? key).isSome := by
  obtain ⟨entry, hfind, -⟩ := h
  rw [hfind]
  rfl

/-- A best match is retained. -/
theorem HasBest.retained {e e' : Engine} {key : Key} {best : Nat} {value : Value}
    (h : e.HasBest key best value) (hkept : e.Retains e') : e'.HasBest key best value := by
  obtain ⟨entry, hfind, hstop, hvalue⟩ := h
  obtain ⟨entry', hfind', hstop', hvalue'⟩ := hkept key entry hfind
  exact ⟨entry', hfind', hstop'.trans hstop, hvalue'.trans hvalue⟩

/-- A growth ends with the best match, which is looked up in the entry. -/
theorem HasBest.grown {e : Engine} {key : Key} {best : Nat} {value : Value}
    (h : e.HasBest key best value) :
    e.grown key = (.matched best value, { e with pos := best, result := value }) := by
  obtain ⟨entry, hfind, rfl, rfl⟩ := h
  rcases e.grown_cases key with ⟨entry', hfind', heq⟩ | ⟨hnone, -⟩
  · obtain rfl := Option.some.inj (hfind'.symm.trans hfind)
    exact heq
  · rw [hfind] at hnone
    cases hnone

/-- One more round, and how the growth goes on behind it. -/
theorem growFrom_succ_eq_ok {r : Runner} {key : Key} {fuel best : Nat} {value : Value}
    {e after : Engine} {o : Outcome} (h : e.growFrom r key (fuel + 1) best value = .ok (o, after)) :
    ∃ round m, (e.regrowing key best value).invoke r key.rule key.args = .ok (round, m) ∧
      ((∃ stop longer, round = .matched stop longer ∧ best < stop ∧
          (m.settle key (.matched stop longer)).growFrom r key fuel stop longer = .ok (o, after)) ∨
       ((∀ stop longer, round = .matched stop longer → stop ≤ best) ∧ o = .matched best value ∧
          after = { m with pos := best, result := value })) := by
  obtain ⟨⟨round, m⟩, hround, h⟩ := bind_eq_ok h
  refine ⟨round, m, hround, ?_⟩
  cases round with
  | failed =>
    cases h
    exact .inr ⟨fun _ _ hne => (by cases hne), rfl, rfl⟩
  | matched stop longer =>
    simp only at h
    split at h
    case isTrue hlonger => exact .inl ⟨stop, longer, rfl, hlonger, h⟩
    case isFalse hlonger =>
      cases h
      exact .inr ⟨fun _ _ heq => (by cases heq; omega), rfl, rfl⟩

section

variable {r : Runner} (hr : r.Retains)
include hr

/-- **A growth finds the match that it has recorded last.** -/
theorem grow_eq_growFrom {key : Key} : ∀ (fuel : Nat) {best : Nat} {value : Value} {e : Engine},
    e.HasBest key best value → e.grow r key fuel = e.growFrom r key fuel best value
  | 0, _, _, _, _ => rfl
  | fuel + 1, best, value, e, hbest => by
    obtain ⟨⟨answer, uses⟩, hfind, rfl, rfl⟩ := id hbest
    unfold grow growFrom
    simp only [hfind]
    -- Both loops run the same round; what they look at afterwards is in the entry, if it has ended.
    cases hround : (e.regrowing key answer.stop answer.value).invoke r key.rule key.args with
    | error stop =>
      rw [regrowing] at hround
      rw [hround]
      rfl
    | ok result =>
      obtain ⟨round, m⟩ := result
      have hkept : m.HasBest key answer.stop answer.value := hbest.retained
        ((retains_regrowing key answer.stop answer.value e).trans
          (invoke_retains hr hround))
      rw [regrowing] at hround
      rw [hround]
      cases round with
      | failed => exact congrArg Except.ok hkept.grown
      | matched stop longer =>
        show (if answer.stop < stop then _ else _) = if answer.stop < stop then _ else _
        split
        · exact grow_eq_growFrom fuel (.settled hkept.isSome stop longer)
        · exact congrArg Except.ok hkept.grown

/-- The entry that a call has made is there when its body has been run. -/
theorem isSome_of_opening {key : Key} {rule : RuleId} {args : List Value} {e m : Engine}
    {first : Outcome} (h : (e.opening key).invoke r rule args = .ok (first, m)) :
    (m.memo.find? key).isSome := by
  refine (invoke_retains hr h).isSome ?_
  rw [show (e.opening key).memo = e.memo.start key from rfl, Memo.find?_start, if_pos rfl]
  rfl

/-- The growth that a call begins. -/
theorem grow_settled {key : Key} {rule : RuleId} {args : List Value} {e m : Engine} {first : Outcome}
    (h : (e.opening key).invoke r rule args = .ok (first, m)) (fuel stop : Nat) (value : Value) :
    (m.settle key (.matched stop value)).grow r key fuel =
      (m.settle key (.matched stop value)).growFrom r key fuel stop value :=
  grow_eq_growFrom hr fuel (.settled (isSome_of_opening hr h) stop value)

/-- What a call through the memo table has done, its growth by hand-over. -/
theorem apply_ends {fuel : Nat} {rule : RuleId} {args : List Value} {e after : Engine} {o : Outcome}
    (h : e.apply r fuel rule args = .ok (o, after)) :
    (∃ entry, e.memo.find? ⟨rule, e.pos, args⟩ = some entry ∧
      (o, after) = e.reuse ⟨rule, e.pos, args⟩ entry) ∨
    (e.memo.find? ⟨rule, e.pos, args⟩ = none ∧
      ∃ first m, (e.opening ⟨rule, e.pos, args⟩).invoke r rule args = .ok (first, m) ∧
        ((∃ stop value, first = .matched stop value ∧ m.sawItself ⟨rule, e.pos, args⟩ = true ∧
            (m.settle ⟨rule, e.pos, args⟩ (.matched stop value)).growFrom r ⟨rule, e.pos, args⟩ fuel
              stop value = .ok (o, after)) ∨
         (∃ stop value, first = .matched stop value ∧ m.sawItself ⟨rule, e.pos, args⟩ = false ∧
            o = first ∧ after = m.settle ⟨rule, e.pos, args⟩ (.matched stop value)) ∨
         (first = .failed ∧ o = .failed ∧
            after = m.settle ⟨rule, e.pos, args⟩ (.parked .failed e.pos)))) := by
  -- Only the growth is said in another way; the rest is what the call can do in any case.
  rcases apply_eq_ok h with hhit | ⟨hnone, first, m, hm, ⟨stop, value, hfirst, hsaw, hgrown⟩ | hrest⟩
  · exact .inl hhit
  · exact .inr ⟨hnone, first, m, hm, .inl ⟨stop, value, hfirst, hsaw,
      (grow_settled hr hm fuel stop value) ▸ hgrown⟩⟩
  · exact .inr ⟨hnone, first, m, hm, .inr hrest⟩

end

end Engine

/-- From the start of a growth by hand-over to its end, the relation holds if it does for the bodies. -/
theorem EngineOrder.growFrom {T : Engine → Engine → Prop} (h : EngineOrder T) {r : Runner}
    (hr : ∀ rule args e o e', r.body rule args e = .ok (o, e') → T e e') {key : Key} :
    ∀ {fuel best : Nat} {value : Value} {e : Engine} {o : Outcome} {e' : Engine},
      e.growFrom r key fuel best value = .ok (o, e') → T e e' := by
  intro fuel
  induction fuel with
  | zero => intro best value e o e' hrun; cases hrun
  | succ fuel ih =>
    intro best value e o e' hrun
    obtain ⟨round, m, hround, hgrown⟩ := Engine.growFrom_succ_eq_ok hrun
    have hm : T e m :=
      h.trans (h.trans (h.move e key.pos) (h.trans (h.result _ value) (h.noteKey _ _ key rfl)))
        (h.invoke hr key.rule key.args _ _ m hround)
    rcases hgrown with ⟨stop, longer, -, -, hrest⟩ | ⟨-, -, rfl⟩
    · exact h.trans hm (h.trans (h.settle _ _ _) (ih hrest))
    · exact h.trans hm (h.trans (h.move m best) (h.result _ value))

end MemoPeg
