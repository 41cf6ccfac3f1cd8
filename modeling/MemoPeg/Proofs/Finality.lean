import MemoPeg.Proofs.Contexts
import MemoPeg.Proofs.MemoTable
import MemoPeg.Regex.Reader

/-
  Answers of the memo table are final.

  An entry changes while its rule is being tried and while it grows.  From outside of that call it never changes
  again: this is what makes it an answer.

  1. **Recalling (`Engine.recalled`)** — a call that is answered from its entry counts a use, moves the
     cursor and takes over the value of a match; nothing else changes, and no body is run.
  2. **What a life has answered (`Engine.HasRun.holds`)** — the outcome of a call is what its entry holds
     from then on, whatever is called in between.
  3. **Bodies (`Engine.HasRun.bodies`)** — the events of a life say how often the body of a rule was entered
     for a key: once, and once more in each round of its growth, if it has grown.
  4. **Specification (`memo_answers_final`)** — both of any life of an engine, for calls of any depth: a later
     call need not come from the one who has asked before.

  That a call has returned cannot be seen from its entry: the entry of a growing rule holds a match, and is not
  final yet.  So 2 starts from the calls that are known to have ended, and follows their entries through
  what has happened since (`Engine.Meanwhile`).
-/

namespace MemoPeg

/-! ## Recalling -/

/-- The engine after a call of the key has been answered from its entry, with this outcome. -/
def Engine.recalled (key : Key) (e : Engine) : Outcome → Engine
  | .matched stop value =>
    { e with memo := e.memo.use key, pos := stop, result := value }.note (.foundMatch key)
  | .failed => { e with memo := e.memo.use key, pos := key.pos }.note (.foundFailure key)

/-- What has happened meanwhile leaves the outcome of a call in its entry. -/
theorem Engine.Meanwhile.holds {e m : Engine} {key : Key} {o : Outcome} (h : e.Meanwhile m)
    (hholds : e.Holds key (o.answer key.pos)) : m.Holds key (o.answer key.pos) := by
  obtain ⟨-, new, -, hkeys⟩ := h
  have hkey := hkeys key
  unfold Engine.Holds at hholds ⊢
  generalize m.memo.find? key = after at hkey ⊢
  generalize e.memo.find? key = before at hkey hholds
  cases hkey with
  | opened _ _ => cases hholds
  | settled hkey =>
    cases hkey with
    | unasked _ => cases hholds
    | used _ _ _ _ _ => exact hholds
    | trying _ _ _ _ => cases o <;> cases hholds
    | tried _ _ _ => cases hholds

section

variable [RegexLibrary]

/-- A key that holds the outcome of a call is answered with it. -/
theorem Engine.Holds.recall {e : Engine} {key : Key} {o : Outcome} (h : e.Holds key (o.answer key.pos))
    (hpos : e.pos = key.pos) (n : Nat) (rs : RuleSet) :
    e.applyRule n rs key.rule key.args = .ok (o, e.recalled key o) := by
  obtain ⟨⟨answer, uses⟩, hfind, hanswer⟩ := Option.map_eq_some_iff.1 h
  obtain ⟨rule, pos, args⟩ := key
  obtain rfl : e.pos = pos := hpos
  obtain rfl : answer = o.answer e.pos := hanswer
  simp only [Engine.applyRule, Engine.apply, hfind]
  cases o <;> rfl

/-- A call of a key that holds an outcome runs nothing and is answered with it. -/
theorem Engine.Holds.answers {t : Task} {key : Key} {o : Outcome}
    (h : t.engine.Holds key (o.answer key.pos)) (hkey : t.key? = some key) :
    (∀ u, ¬Starts t u) ∧ t.run = .ok (o, t.engine.recalled key o) := by
  obtain ⟨n, rs, rule, args, m, rfl, rfl⟩ := Task.key?_eq_some hkey
  refine ⟨fun u hstarts => ?_, h.recall rfl n rs⟩
  have hnone : m.memo.find? ⟨rule, m.pos, args⟩ = none := by
    cases hstarts with
    | first hfind => exact hfind
    | again hfind _ => exact hfind
  rw [Engine.Holds, show (Task.apply n rs rule args m).engine = m from rfl, hnone] at h
  cases h

omit [RegexLibrary] in
/-- Recalling counts a use of the entry, and leaves every other entry as it was. -/
theorem Engine.recalled_find? (e : Engine) (key other : Key) (o : Outcome) :
    (e.recalled key o).memo.find? other =
      if key = other then (e.memo.find? other).map fun entry => ⟨entry.answer, entry.uses + 1⟩
      else e.memo.find? other := by
  have hmemo : (e.recalled key o).memo = e.memo.use key := by cases o <;> rfl
  rw [hmemo, Memo.use, Memo.find?_modify]

/-- Whatever a call of a key runs, it enters the body with an event that says so. -/
theorem Starts.enters {t u : Task} {key : Key} (h : Starts t u) (hkey : t.key? = some key) :
    ∃ before event, event.enters? = some key ∧ u.engine.events = before ++ [event] := by
  cases h with
  | @first n rs rule args m _ =>
    cases hkey
    exact ⟨_, _, rfl, Engine.events_opening _ m⟩
  | @again n rs rule args m g best value _ _ =>
    cases hkey
    exact ⟨_, _, rfl, Engine.events_regrowing ⟨rule, m.pos, args⟩ best value g⟩
  | _ => cases hkey

/-- A call of a key without an entry holds its outcome when it ends, and it fails just if the first run of
    the body does. -/
theorem Engine.applyRule_first {n : Nat} {rs : RuleSet} {rule : RuleId} {args : List Value}
    {e m e' : Engine} {first o : Outcome} (hfind : e.memo.find? ⟨rule, e.pos, args⟩ = none)
    (hfirst : (e.opening ⟨rule, e.pos, args⟩).invoke (rs.runner n) rule args = .ok (first, m))
    (hrun : e.applyRule n rs rule args = .ok (o, e')) :
    e'.Holds ⟨rule, e.pos, args⟩ (o.answer e.pos) ∧ (o = .failed ↔ first = .failed) := by
  obtain ⟨new, hopened, -⟩ := Engine.Accounts.tried (rs.body_accounts n) hfind hrun
  refine ⟨by rw [Holds, hopened.entry]; rfl, ?_⟩
  rcases Engine.apply_ends (rs.runner_retains n) hrun with
    ⟨_, hsome, -⟩ | ⟨-, first', m', hm, hrest⟩
  · rw [hfind] at hsome
    cases hsome
  · obtain ⟨rfl, rfl⟩ := Prod.mk.inj (Except.ok.inj (hfirst.symm.trans hm))
    rcases hrest with ⟨stop, value, rfl, -, hgrown⟩ | ⟨stop, value, rfl, -, rfl, -⟩ | ⟨rfl, rfl, -⟩
    · obtain ⟨best, value', -, -, -, -, -, rfl, -⟩ := Engine.growFrom_ends hgrown (.seed hfirst)
      exact ⟨fun heq => (by cases heq), fun heq => by cases heq⟩
    · exact Iff.rfl
    · exact Iff.rfl

/-! ## Lives -/

namespace Engine.HasRun

variable {text : Text} {calls : List (Task × Outcome)} {e : Engine}

/-- All events of the engine account for its entries. -/
theorem accounts (h : e.HasRun text calls) : ∃ p, (Engine.startingAt text p).Accounts e := by
  induction h with
  | @start p hp => exact ⟨p, .refl _⟩
  | moved _ _ ih =>
    obtain ⟨p, hp⟩ := ih
    exact ⟨p, hp.trans (Engine.Accounts.drift.move _ _)⟩
  | called _ _ hrun ih =>
    obtain ⟨p, hp⟩ := ih
    exact ⟨p, hp.trans (Task.accounts hrun)⟩

/-- The body of a key with an entry was entered once, or once more in each round of its growth. -/
theorem bodies (h : e.HasRun text calls) {key : Key} {entry : Entry}
    (hfind : e.memo.find? key = some entry) :
    (key.entered e.events = 1 ∧ (key.reEntered e.events = false ∨ entry.answer.status = .failed)) ∨
    (key.entered e.events = 1 + (key.rounds e.events).length ∧ key.reEntered e.events = true ∧
      ∃ stop value, entry.answer = .matched stop value ∧ (key.rounds e.events).Pairwise (· < ·) ∧
        (key.rounds e.events).getLast? = some stop) := by
  obtain ⟨p, -, new, hevents, hkeys⟩ := h.accounts
  rw [(Engine.Blank.startingAt text p).1, List.nil_append] at hevents
  have hkey := hkeys key
  rw [hfind, ← hevents] at hkey
  rw [Key.entered_eq]
  cases hkey with
  | tried honce htried _ =>
    rw [honce]
    cases htried with
    | failed hrounds => rw [hrounds]; exact .inl ⟨rfl, .inr rfl⟩
    | matched hnot hrounds => rw [hrounds]; exact .inl ⟨rfl, .inl hnot⟩
    | grown hre hrounds hlast => exact .inr ⟨rfl, hre, _, _, rfl, hrounds, hlast⟩

/-- The outcome of a call is what its entry holds. -/
theorem holds (h : e.HasRun text calls) {s : Task} {o : Outcome} (hmem : (s, o) ∈ calls) {key : Key}
    (hkey : s.key? = some key) : e.Holds key (o.answer key.pos) := by
  induction h with
  | start _ => cases hmem
  | moved _ _ ih => exact ih hmem
  | @called calls t o' e' hlife _ hrun ih =>
    rcases List.mem_append.1 hmem with hmem | hmem
    · exact (Meanwhile.of_accounts (Task.accounts hrun)).holds (ih hmem)
    · obtain ⟨rfl, rfl⟩ := Prod.mk.inj (List.mem_singleton.1 hmem)
      obtain ⟨n, rs, rule, args, d, rfl, rfl⟩ := Task.key?_eq_some hkey
      cases hfind : d.memo.find? ⟨rule, d.pos, args⟩ with
      | none =>
        obtain ⟨new, hopened, -⟩ := Engine.Accounts.tried (rs.body_accounts n) hfind hrun
        rw [Holds, hopened.entry]
        rfl
      | some entry =>
        -- Nothing is in progress between calls, so that the entry holds an outcome already.
        obtain ⟨before, hbefore⟩ : ∃ before : Outcome,
            d.Holds ⟨rule, d.pos, args⟩ (before.answer d.pos) := by
          obtain ⟨⟨status, stop, value⟩, uses⟩ := entry
          cases status with
          | inProgress detected => exact absurd ⟨_, hfind, rfl⟩ (hlife.rests _)
          | matched => exact ⟨.matched stop value, by rw [Holds, hfind]; rfl⟩
          | failed =>
            have hparked := hlife.inText.2.parked hfind fun heq => by cases heq
            exact ⟨.failed, by rw [Holds, hfind]; exact congrArg some hparked⟩
        have hsame := (hbefore.recall rfl n rs).symm.trans hrun
        obtain ⟨rfl, -⟩ := Prod.mk.inj (Except.ok.inj hsame)
        exact (Meanwhile.of_accounts (Task.accounts hrun)).holds hbefore

end Engine.HasRun

/-- **Answers of the memo table are final, and bodies run once.**  Take the life of an engine and a key.
    When a call of the key has returned, every later call of it, from outside or from within other calls,
    is answered with the same outcome, runs nothing, and changes nothing but the uses of the entry, the cursor
    and the last result.  Over the whole life the body was entered once if the key was never found in progress
    or its first run failed, and else once more in each round of the growth, where each round but the last
    has got beyond the end before it.  Each of these entries is an invocation of the body by a call of the
    key. -/
theorem memo_answers_final {text : Text} {calls : List (Task × Outcome)} {e : Engine}
    (h : e.HasRun text calls) (key : Key) :
    (∀ s o, (s, o) ∈ calls → s.key? = some key → ∀ t t' : Task, t.engine = e → t.Performs t' →
      t'.engine.depth = e.depth → t'.key? = some key →
        (∀ u, ¬Starts t' u) ∧ t'.run = .ok (o, t'.engine.recalled key o) ∧
        ∀ other, (t'.engine.recalled key o).memo.find? other =
          if key = other then
            (t'.engine.memo.find? other).map fun entry => ⟨entry.answer, entry.uses + 1⟩
          else t'.engine.memo.find? other) ∧
    (∀ entry, e.memo.find? key = some entry →
      (key.entered e.events = 1 ∧ (key.reEntered e.events = false ∨ entry.answer.status = .failed)) ∨
      (key.entered e.events = 1 + (key.rounds e.events).length ∧ key.reEntered e.events = true ∧
        ∃ stop value, entry.answer = .matched stop value ∧ (key.rounds e.events).Pairwise (· < ·) ∧
          (key.rounds e.events).getLast? = some stop)) ∧
    (∀ n (rs : RuleSet) (m : Engine) first m' o e', m.pos = key.pos → m.memo.find? key = none →
      (m.opening key).invoke (rs.runner n) key.rule key.args = .ok (first, m') →
        m.applyRule n rs key.rule key.args = .ok (o, e') →
          e'.Holds key (o.answer key.pos) ∧ (o = .failed ↔ first = .failed)) ∧
    (∀ before event after, e.events = before ++ event :: after → event.enters? = some key →
      ∃ s u i, (∃ o, (s, o) ∈ calls) ∧ s.RunsHere u ∧ u.key? = some key ∧ u.Comes i ∧
        i.engine.events = before ++ [event]) ∧
    (∀ u i : Task, u.key? = some key → u.Comes i →
      ∃ before event, event.enters? = some key ∧ i.engine.events = before ++ [event]) := by
  refine ⟨fun s o hmem hkey t t' ht hperforms hdepth hkey' => ?_, fun entry hfind => h.bodies hfind,
    fun n rs m first m' o e' hpos hfind hfirst hrun => ?_, fun before event after heq henters => ?_,
    fun u i hkey hcomes => hcomes.1.enters hkey⟩
  · subst ht
    have hholds : t'.engine.Holds key (o.answer key.pos) := by
      rcases (Task.Performs.runs hperforms).meanwhile with hsame | hlt
      · exact hsame.holds (h.holds hmem hkey)
      · omega
    obtain ⟨hnothing, hrun⟩ := hholds.answers hkey'
    exact ⟨hnothing, hrun, fun other => t'.engine.recalled_find? key other o⟩
  · obtain ⟨rule, pos, args⟩ := key
    obtain rfl : m.pos = pos := hpos
    exact Engine.applyRule_first hfind hfirst hrun
  · obtain ⟨p, hp⟩ := h.explained
    obtain ⟨u, i, ⟨s, o, hmem, hu⟩, hkey, hcomes, hevents⟩ := (hp.of_blank rfl heq).entered key henters
    exact ⟨s, u, i, ⟨o, hmem⟩, hu, hkey, hcomes, hevents⟩

end

/-- The rule of letters matches two of them in two rounds of growth, so that its body is entered three times.
    Called again at the start, it is answered as before. -/
theorem memo_answers_final_letters : ∃ e', lettersRun.run = .ok (.matched 2 (.str "a"), e') ∧
    Key.rounds ⟨0, 0, []⟩ e'.events = [1, 2] ∧ Key.entered ⟨0, 0, []⟩ e'.events = 3 ∧
    ({ e' with pos := 0 } : Engine).applyRule 1 (.grammar lettersGrammar) 0 [] =
      .ok (.matched 2 (.str "a"),
        ({ e' with pos := 0 } : Engine).recalled ⟨0, 0, []⟩ (.matched 2 (.str "a"))) := by
  have hends : (lettersRun.run.map fun r => (r.1, Key.rounds ⟨0, 0, []⟩ r.2.events,
      (r.2.memo.find? ⟨0, 0, []⟩).isSome)).toOption = some (.matched 2 (.str "a"), [1, 2], true) := by
    decide +kernel
  cases hrun : lettersRun.run with
  | error stop => rw [hrun] at hends; cases hends
  | ok r =>
    obtain ⟨o, e'⟩ := r
    rw [hrun] at hends
    obtain ⟨rfl, hrest⟩ := Prod.mk.inj (Option.some.inj hends)
    obtain ⟨hrounds, hsome⟩ := Prod.mk.inj hrest
    have hlife := Engine.HasRun.called (.start (by decide : Text.IsBoundary "aab".toList 0)) rfl hrun
    have hback : ({ e' with pos := 0 } : Engine).HasRun "aab".toList
        [(lettersRun, .matched 2 (.str "a"))] := .moved hlife (by decide)
    obtain ⟨hlater, hbodies, -⟩ := memo_answers_final hback ⟨0, 0, []⟩
    obtain ⟨-, hagain, -⟩ := hlater lettersRun _ List.mem_cons_self rfl
      (.apply 1 (.grammar lettersGrammar) 0 [] { e' with pos := 0 }) _ rfl .refl rfl rfl
    refine ⟨e', rfl, hrounds, ?_, hagain⟩
    obtain ⟨entry, hentry⟩ := Option.isSome_iff_exists.1 hsome
    have hevents : ({ e' with pos := 0 } : Engine).events = e'.events := rfl
    rcases hbodies entry hentry with ⟨hone, -⟩ | ⟨hmore, -⟩
    · rw [hevents, Key.entered_eq, hrounds, show [1, 2].length = 2 from rfl] at hone
      omega
    · rw [hevents, hrounds] at hmore
      exact hmore

end MemoPeg
