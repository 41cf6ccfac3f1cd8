import MemoPeg.Proofs.Lockstep

/-
  What the memo table holds is what would be found without it.

  A run with a memo table and a run without one differ in how much they do.  They cannot be compared step by
  step: a call that is answered from the table stands against a whole run of the rule.  What makes them
  comparable is that the answer in the table is the result of that run, whenever it was found.

  1. **Answers** — the memo-free meaning of a key in a text: what a call past the memo table answers in
     the grammar where all calls are made so, and how far it fails on the way.  It does not depend on the
     engine, as long as that stands at the place and has no table.
  2. **The invariant (`Memo.Sound`, `Mirrors`)** — every answer in the table is the memo-free one, and
     the failures met in finding it have been reported.  Entries in progress belong to calls that
     are still running and have not called themselves.  Only entries of the rules in question are
     constrained; all others stay as they are.
  3. **One call** — what a call through the memo table does to the invariant when its answer is known
     (`hit`), when it begins (`opening`) and when it has ended (`settled`).

  The furthest failure is why an answer comes with its reach: the memo-free run meets those failures again
  where the other one looks the answer up, and they must be no news.  They are none if they lie within what
  has been reported already, and once they do they always will (`Memo.Sound.mono`).
-/

namespace MemoPeg

/-! ## Memo-free answers -/

/-- The answer that records an outcome of a rule at a position. -/
def Outcome.answer (pos : Nat) : Outcome → Answer
  | .matched stop value => .matched stop value
  | .failed => .parked .failed pos

/-- What is recorded of an outcome is not in progress. -/
theorem Outcome.status_answer_ne (o : Outcome) (pos : Nat) (detected : Bool) :
    (o.answer pos).status ≠ .inProgress detected := by
  cases o <;> exact fun heq => by cases heq

variable [RegexLibrary]

/-- Past every memo table, the call of a key in a text has this outcome, with failures up to
    `reach`. -/
def Answers (g : Grammar) (t : Text) (key : Key) (o : Outcome) (reach : Nat) : Prop :=
  ∃ n after, (Engine.startingAt t key.pos).invokeRule n (.grammar g.memoFree) key.rule key.args =
    .ok (o, after) ∧ after.memo = .empty ∧ after.furthest.offset = reach

/-- The call of a key needs more fuel than this, past every memo table. -/
def Starved (g : Grammar) (t : Text) (n : Nat) (key : Key) : Prop :=
  ¬∃ result, (Engine.startingAt t key.pos).invokeRule n (.grammar g.memoFree) key.rule key.args =
    .ok result

/-- An invocation that ends does so with more fuel. -/
theorem Engine.invokeRule_noLater (rs : RuleSet) (rule : RuleId) (args : List Value) (e : Engine)
    (m n : Nat) (hmn : m ≤ n) : NoLater (e.invokeRule m rs rule args) (e.invokeRule n rs rule args) :=
  Engine.invoke_noLater (RuleSet.runner_noLater hmn rs) rule args e

/-- What starves, starves with less fuel. -/
theorem Starved.of_le {g : Grammar} {t : Text} {m n : Nat} {key : Key} (h : Starved g t n key)
    (hmn : m ≤ n) : Starved g t m key := by
  rintro ⟨result, hrun⟩
  have hno := Engine.invokeRule_noLater (.grammar g.memoFree) key.rule key.args
    (Engine.startingAt t key.pos) m n hmn (by rw [hrun]; exact fun heq => by cases heq)
  exact h ⟨result, hno.trans hrun⟩

/-- A fresh engine, but for its records. -/
structure Engine.Bare (t : Text) (p : Nat) (d : Engine) : Prop where
  text : d.text = t
  pos : d.pos = p
  memo : d.memo = .empty
  depth : d.depth = 0

omit [RegexLibrary] in
/-- A bare engine is a fresh one over records. -/
theorem Engine.Bare.over {t : Text} {p : Nat} {d : Engine} (h : d.Bare t p) :
    Engine.Over d.history d.furthest.offset (Engine.startingAt t p) d where
  text := h.text
  pos := h.pos
  memo := h.memo
  depth := h.depth
  history := rfl
  furthest := (Nat.zero_max _).symm

omit [RegexLibrary] in
/-- An invocation leaves the cursor where its outcome says. -/
theorem Engine.invoke_pos {r : Runner} {rule : RuleId} {args : List Value} {e after : Engine}
    {o : Outcome} (h : e.invoke r rule args = .ok (o, after)) : after.pos = o.cursor e.pos := by
  obtain ⟨m, -, rfl⟩ := Engine.invoke_eq_ok h
  cases o <;> rfl

namespace Answers

variable {g : Grammar} {t : Text} {key : Key} {o : Outcome} {reach : Nat}

/-- An answer is found from every engine at the place. -/
theorem ends (h : Answers g t key o reach) {d : Engine} (hd : d.Bare t key.pos) :
    ∃ new after, Ends (fun n => d.invokeRule n (.grammar g.memoFree) key.rule key.args) (o, after) ∧
      d.Passed new reach o after := by
  obtain ⟨n, c, hrun, hmemo, rfl⟩ := h
  obtain ⟨⟨o', after⟩, hrun', ho, hover⟩ :=
    (Engine.invokeRule_ignoresRecords n _ _ _ _ _ _ _ hd.over).exists_right hrun
  cases ho
  obtain ⟨htext, hdepth, -⟩ :=
    extends_order.invoke (extends_order.bodies n _) key.rule key.args d o after hrun'
  refine ⟨c.history, after,
    .of_noLater (Engine.invokeRule_noLater _ key.rule key.args d) hrun', ?_⟩
  exact
    { text := htext
      pos := Engine.invoke_pos hrun'
      memo := hover.memo.trans (hmemo.trans hd.memo.symm)
      depth := hdepth
      history := hover.history
      furthest := hover.furthest.trans (Nat.max_comm _ _) }

/-- A run that leaves the memo table alone finds an answer. -/
theorem of_run {n : Nat} {d after : Engine} (hd : d.Bare t key.pos)
    (hrun : d.invokeRule n (.grammar g.memoFree) key.rule key.args = .ok (o, after))
    (hmemo : after.memo = .empty) : ∃ reach, Answers g t key o reach ∧
      after.furthest.offset = max reach d.furthest.offset := by
  obtain ⟨⟨o', c⟩, hrun', ho, hover⟩ :=
    (Engine.invokeRule_ignoresRecords n _ _ _ _ _ _ _ hd.over).exists_left hrun
  cases ho
  exact ⟨c.furthest.offset, ⟨n, c, hrun', hover.memo.symm.trans hmemo, rfl⟩, hover.furthest⟩

end Answers

/-- A call that is starved ends from no engine at the place. -/
theorem Starved.not_run {g : Grammar} {t : Text} {n : Nat} {key : Key} (h : Starved g t n key)
    {d after : Engine} {o : Outcome} (hd : d.Bare t key.pos) :
    d.invokeRule n (.grammar g.memoFree) key.rule key.args ≠ .ok (o, after) := by
  intro hrun
  obtain ⟨⟨o', c⟩, hrun', -⟩ :=
    (Engine.invokeRule_ignoresRecords n _ _ _ _ _ _ _ hd.over).exists_left hrun
  exact h ⟨_, hrun'⟩

/-- A call that ends has a least amount of fuel with which it does. -/
theorem exists_least_fuel {g : Grammar} {t : Text} {n : Nat} (key : Key) {d after : Engine}
    {o : Outcome} (hd : d.Bare t key.pos)
    (hrun : d.invokeRule n (.grammar g.memoFree) key.rule key.args = .ok (o, after)) :
    ∃ k, k ≤ n ∧ d.invokeRule k (.grammar g.memoFree) key.rule key.args = .ok (o, after) ∧
      ∀ m, m < k → Starved g t m key := by
  induction n with
  | zero => cases hrun
  | succ n ih =>
    by_cases hstarved : Starved g t n key
    · exact ⟨n + 1, Nat.le_refl _, hrun, fun m hm => hstarved.of_le (by omega)⟩
    · -- It ends with less fuel from a fresh engine, so it does from this one, in the same way.
      obtain ⟨result, hc⟩ := Classical.not_not.1 hstarved
      obtain ⟨⟨o₁, after₁⟩, hless, -⟩ :=
        (Engine.invokeRule_ignoresRecords n _ _ _ _ _ _ _ hd.over).exists_right hc
      have hsame : d.invokeRule (n + 1) (.grammar g.memoFree) key.rule key.args = .ok (o₁, after₁) :=
        (Engine.invokeRule_noLater _ _ _ d n (n + 1) (by omega)
          (by rw [hless]; exact fun heq => by cases heq)).trans hless
      obtain ⟨rfl, rfl⟩ := Prod.mk.inj (Except.ok.inj (hsame.symm.trans hrun))
      obtain ⟨k, hk, hkrun, hkleast⟩ := ih hless
      exact ⟨k, by omega, hkrun, hkleast⟩

/-! ## Sound memo tables -/

/-- Entries of the rules in `S` hold memo-free answers whose failures lie within `far`, or belong to
    running calls; entries of other rules are those of `M`. -/
structure Memo.Sound (g : Grammar) (t : Text) (S : RuleId → Prop) (M : Key → Option Entry)
    (busy : Key → Prop) (far : Nat) (memo : Memo) : Prop where
  elsewhere : ∀ key, ¬ S key.rule → memo.find? key = M key
  trying : ∀ key entry detected, S key.rule → memo.find? key = some entry →
    entry.answer.status = .inProgress detected → detected = false ∧ busy key
  sound : ∀ key entry, S key.rule → memo.find? key = some entry → entry.isInProgress = false →
    ∃ o reach, entry.answer = o.answer key.pos ∧ Answers g t key o reach ∧ reach ≤ far

omit [RegexLibrary] in
/-- Keys of different rules are different. -/
theorem Key.ne_of_rule {S : RuleId → Prop} {key other : Key} (hkey : S key.rule)
    (hother : ¬S other.rule) : key ≠ other := by
  rintro rfl
  exact hother hkey

namespace Memo.Sound

variable {g : Grammar} {t : Text} {S : RuleId → Prop} {M : Key → Option Entry} {busy : Key → Prop}
  {far : Nat} {memo : Memo} {key : Key}

/-- Failures that lie within an offset lie within a later one. -/
theorem mono (h : memo.Sound g t S M busy far) {far' : Nat} (hfar : far ≤ far') :
    memo.Sound g t S M busy far' where
  elsewhere := h.elsewhere
  trying := h.trying
  sound key entry hS hfind hended := by
    obtain ⟨o, reach, hanswer, hans, hreach⟩ := h.sound key entry hS hfind hended
    exact ⟨o, reach, hanswer, hans, by omega⟩

/-- An empty table says nothing that could be wrong. -/
theorem empty : Memo.empty.Sound g t S (fun _ => none) busy far where
  elsewhere _ _ := rfl
  trying _ _ _ _ hfind := by cases hfind
  sound _ _ _ hfind := by cases hfind

/-- Counting a use changes no answer. -/
theorem use (h : memo.Sound g t S M busy far) (hkey : S key.rule) :
    (memo.use key).Sound g t S M busy far := by
  -- Every entry after the change comes from one with the same answer.
  have hold : ∀ other entry, (memo.use key).find? other = some entry →
      ∃ old, memo.find? other = some old ∧ old.answer = entry.answer := by
    intro other entry hfind
    rw [Memo.use, Memo.find?_modify] at hfind
    split at hfind
    · obtain ⟨old, hold, rfl⟩ := Option.map_eq_some_iff.1 hfind
      exact ⟨old, hold, rfl⟩
    · exact ⟨entry, hfind, rfl⟩
  refine ⟨fun other hS => ?_, fun other entry detected hS hfind ha => ?_,
    fun other entry hS hfind hended => ?_⟩
  · rw [Memo.use, Memo.find?_modify, if_neg (Key.ne_of_rule hkey hS)]
    exact h.elsewhere other hS
  · obtain ⟨old, hfind', hans⟩ := hold other entry hfind
    exact h.trying other old detected hS hfind' ((congrArg Answer.status hans).trans ha)
  · obtain ⟨old, hfind', hans⟩ := hold other entry hfind
    rw [Entry.isInProgress, ← hans] at hended
    exact hans ▸ h.sound other old hS hfind' hended

/-- The call of a key begins. -/
theorem start (h : memo.Sound g t S M busy far) (hkey : S key.rule) :
    (memo.start key).Sound g t S M (fun other => other = key ∨ busy other) far := by
  refine ⟨fun other hS => ?_, fun other entry detected hS hfind ha => ?_,
    fun other entry hS hfind hended => ?_⟩
  · rw [Memo.find?_start, if_neg (Key.ne_of_rule hkey hS)]
    exact h.elsewhere other hS
  · rw [Memo.find?_start] at hfind
    by_cases heq : key = other
    · rw [if_pos heq] at hfind
      cases hfind
      cases ha
      exact ⟨rfl, .inl heq.symm⟩
    · rw [if_neg heq] at hfind
      obtain ⟨hfalse, hbusy⟩ := h.trying other entry detected hS hfind ha
      exact ⟨hfalse, .inr hbusy⟩
  · rw [Memo.find?_start] at hfind
    by_cases heq : key = other
    · rw [if_pos heq] at hfind
      cases hfind
      cases hended
    · rw [if_neg heq] at hfind
      exact h.sound other entry hS hfind hended

/-- The call of a key has ended with its memo-free answer. -/
theorem settle (h : memo.Sound g t S M (fun other => other = key ∨ busy other) far)
    (hkey : S key.rule) {o : Outcome} {reach : Nat} (hans : Answers g t key o reach)
    (hreach : reach ≤ far) : (memo.settle key (o.answer key.pos)).Sound g t S M busy far := by
  refine ⟨fun other hS => ?_, fun other entry detected hS hfind ha => ?_,
    fun other entry hS hfind hended => ?_⟩
  · rw [Memo.settle, Memo.find?_modify, if_neg (Key.ne_of_rule hkey hS)]
    exact h.elsewhere other hS
  · rw [Memo.settle, Memo.find?_modify] at hfind
    by_cases heq : key = other
    · rw [if_pos heq] at hfind
      obtain ⟨old, -, rfl⟩ := Option.map_eq_some_iff.1 hfind
      exact absurd ha (o.status_answer_ne key.pos detected)
    · rw [if_neg heq] at hfind
      obtain ⟨hfalse, hbusy⟩ := h.trying other entry detected hS hfind ha
      exact ⟨hfalse, hbusy.resolve_left fun h' => heq h'.symm⟩
  · rw [Memo.settle, Memo.find?_modify] at hfind
    by_cases heq : key = other
    · rw [if_pos heq] at hfind
      obtain ⟨old, -, rfl⟩ := Option.map_eq_some_iff.1 hfind
      exact ⟨o, reach, heq ▸ rfl, heq ▸ hans, hreach⟩
    · rw [if_neg heq] at hfind
      exact h.sound other entry hS hfind hended

end Memo.Sound

/-! ## Mirrors -/

/-- The second engine, whose memo table is sound, stands where the first one does, which has none, and
    has seen the same furthest failure.  Its re-entries are those of `base`, and those that the
    first one has seen in linked rule sets. -/
structure Mirrors (g : Grammar) (t : Text) (S : RuleId → Prop) (M : Key → Option Entry)
    (base : History) (busy : Key → Prop) (d e : Engine) : Prop where
  bare : d.Bare t d.pos
  text : e.text = d.text
  pos : e.pos = d.pos
  depth : e.depth = d.depth
  furthest : e.furthest.offset = d.furthest.offset
  history : ∀ m ∈ e.history, m.event.isReEntry → m ∈ base ∨ (0 < m.depth ∧ m ∈ d.history)
  memo : e.memo.Sound g t S M busy e.furthest.offset

namespace Mirrors

variable {g : Grammar} {t : Text} {S : RuleId → Prop} {M : Key → Option Entry} {base : History}
  {busy : Key → Prop} {d e : Engine}

/-- An event that both engines note, when it is no re-entry. -/
theorem note (h : Mirrors g t S M base busy d e) {event : Event} (hevent : event.isReEntry = false) :
    Mirrors g t S M base busy (d.note event) (e.note event) :=
  { h with
    bare := { h.bare with }
    history := by
      intro m hm hre
      rcases List.mem_cons.1 hm with rfl | hm
      · exact absurd hre (by simp [hevent])
      · rcases h.history m hm hre with hb | ⟨hdepth, hd⟩
        · exact .inl hb
        · exact .inr ⟨hdepth, List.mem_cons_of_mem _ hd⟩ }

/-- An event of the second engine alone, when it is no re-entry. -/
theorem noteRight (h : Mirrors g t S M base busy d e) {event : Event}
    (hevent : event.isReEntry = false) : Mirrors g t S M base busy d (e.note event) :=
  { h with
    history := by
      intro m hm hre
      rcases List.mem_cons.1 hm with rfl | hm
      · exact absurd hre (by simp [hevent])
      · exact h.history m hm hre }

/-- Both engines note a failure, and their furthest ones are the same again. -/
theorem blame (h : Mirrors g t S M base busy d e) (culprit : Culprit) (p : Nat) :
    Mirrors g t S M base busy (d.blame culprit p) (e.blame culprit p) := by
  have hmark : (e.furthest.mark culprit p).offset = (d.furthest.mark culprit p).offset := by
    rw [Furthest.offset_mark, Furthest.offset_mark, h.furthest]
  have marked : Mirrors g t S M base busy { d with furthest := d.furthest.mark culprit p }
      { e with furthest := e.furthest.mark culprit p } :=
    { h with
      bare := { h.bare with }
      furthest := hmark
      memo := h.memo.mono (by rw [Furthest.offset_mark]; omega) }
  exact marked.note rfl

/-- What both engines do keeps them mirrors of each other. -/
theorem lockstep {C : History → Prop} (hC : ∀ {m h}, C (m :: h) → C h) :
    EngineLockstep (Mirrors g t S M base busy) C where
  text h := h.text
  pos h := h.pos
  depth h := h.depth
  move h p := { h with bare := { h.bare with pos := rfl }, pos := rfl }
  result h v := { h with bare := { h.bare with } }
  note h event hevent := h.note hevent
  blame h culprit p := h.blame culprit p
  passed {d e new reach o after after'} h hdeep hp hp' :=
    { bare :=
        { text := hp.text.trans h.bare.text
          pos := rfl
          memo := hp.memo.trans h.bare.memo
          depth := hp.depth.trans h.bare.depth }
      text := by rw [hp'.text, hp.text, h.text]
      pos := by rw [hp'.pos, hp.pos, h.pos]
      depth := by rw [hp'.depth, hp.depth, h.depth]
      furthest := by rw [hp'.furthest, hp.furthest, h.furthest]
      history := by
        intro m hm hre
        rw [hp'.history] at hm
        rw [hp.history]
        rcases List.mem_append.1 hm with hm | hm
        · exact .inr ⟨Nat.zero_lt_of_lt (hdeep m hm hre), List.mem_append_left _ hm⟩
        · rcases h.history m hm hre with hb | ⟨hdepth, hd⟩
          · exact .inl hb
          · exact .inr ⟨hdepth, List.mem_append_right _ hd⟩
      memo := by
        rw [hp'.memo]
        exact h.memo.mono (by rw [hp'.furthest]; omega) }
  older := hC

/-! ## One call through the memo table -/

/-- A call whose answer is known: the memo-free call finds the same. -/
theorem hit (h : Mirrors g t S M base busy d e) {rule : RuleId} {args : List Value} (hS : S rule)
    {entry : Entry} (hfind : e.memo.find? ⟨rule, e.pos, args⟩ = some entry)
    (hended : entry.isInProgress = false) :
    ∃ o d' e', Ends (fun n => d.invokeRule n (.grammar g.memoFree) rule args) (o, d') ∧
      e.reuse ⟨rule, e.pos, args⟩ entry = (o, e') ∧ Mirrors g t S M base busy d' e' := by
  obtain ⟨o, reach, hanswer, hans, hreach⟩ :=
    h.memo.sound ⟨rule, e.pos, args⟩ entry hS hfind hended
  have hbare : d.Bare t e.pos := { h.bare with pos := h.pos.symm }
  obtain ⟨new, d', hends, hpassed⟩ := hans.ends hbare
  have huse : (e.memo.use ⟨rule, e.pos, args⟩).Sound g t S M busy e.furthest.offset := h.memo.use hS
  -- The answer has moved nothing but the cursor: its failures had been reported already.
  have hfar : d'.furthest.offset = e.furthest.offset := by
    rw [hpassed.furthest, ← h.furthest]
    omega
  have moved : ∀ (p : Nat) (v : Value) (event : Event), event.isReEntry = false → d'.pos = p →
      Mirrors g t S M base busy d' (({ e with
        memo := e.memo.use ⟨rule, e.pos, args⟩, pos := p, result := v } : Engine).note event) := by
    intro p v event hevent hp
    refine Mirrors.noteRight ?_ hevent
    exact
      { bare :=
          { text := hpassed.text.trans h.bare.text
            pos := rfl
            memo := hpassed.memo.trans h.bare.memo
            depth := hpassed.depth.trans h.bare.depth }
        text := h.text.trans hpassed.text.symm
        pos := hp.symm
        depth := h.depth.trans hpassed.depth.symm
        furthest := hfar.symm
        history := by
          intro m hm hre
          rw [hpassed.history]
          rcases h.history m hm hre with hb | ⟨hdepth, hd⟩
          · exact .inl hb
          · exact .inr ⟨hdepth, List.mem_append_right _ hd⟩
        memo := huse }
  obtain ⟨answer, uses⟩ := entry
  obtain rfl : answer = o.answer e.pos := hanswer
  cases o with
  | matched stop value =>
    exact ⟨_, d', _, hends, rfl, moved stop value (.foundMatch _) rfl hpassed.pos⟩
  | failed =>
    exact ⟨_, d', _, hends, rfl,
      moved e.pos e.result (.foundFailure _) rfl (hpassed.pos.trans h.pos.symm)⟩

/-- The call of a key begins. -/
theorem opening (h : Mirrors g t S M base busy d e) {key : Key} (hS : S key.rule) :
    Mirrors g t S M base (fun other => other = key ∨ busy other) d (e.opening key) := by
  have started : Mirrors g t S M base (fun other => other = key ∨ busy other) d
      { e with memo := e.memo.start key } := { h with memo := h.memo.start hS }
  exact started.noteRight rfl

/-- The rule of a running call has not called itself. -/
theorem sawItself (h : Mirrors g t S M base busy d e) {key : Key} (hS : S key.rule) :
    e.sawItself key = false := by
  unfold Engine.sawItself
  cases hfind : e.memo.find? key with
  | none => rfl
  | some entry =>
    refine decide_eq_false fun ha => ?_
    obtain ⟨hfalse, -⟩ := h.memo.trying key entry true hS hfind ha
    cases hfalse

/-- Fresh engines mirror each other. -/
theorem startingAt (g : Grammar) (t : Text) (S : RuleId → Prop) (busy : Key → Prop) (p : Nat) :
    Mirrors g t S (fun _ => none) [] busy (Engine.startingAt t p) (Engine.startingAt t p) where
  bare := ⟨rfl, rfl, rfl, rfl⟩
  text := rfl
  pos := rfl
  depth := rfl
  furthest := rfl
  history _ hm := absurd hm List.not_mem_nil
  memo := .empty

/-- The call of a key has ended as the memo-free call has. -/
theorem settled (key : Key) (h : Mirrors g t S M base (fun other => other = key ∨ busy other) d e)
    (hS : S key.rule) {o : Outcome} {d₀ : Engine} (hd₀ : d₀.Bare t key.pos) {n : Nat}
    (hrun : d₀.invokeRule n (.grammar g.memoFree) key.rule key.args = .ok (o, d)) :
    Mirrors g t S M base busy d (e.settle key (o.answer key.pos)) := by
  obtain ⟨reach, hans, hfar⟩ := Answers.of_run hd₀ hrun h.bare.memo
  exact { h with memo := h.memo.settle hS hans (by rw [h.furthest, hfar]; omega) }

end Mirrors

end MemoPeg
