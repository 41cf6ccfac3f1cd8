import MemoPeg.Proofs.Retention
import MemoPeg.Proofs.Settling

/-
  What left recursive rules of every kind have in common.

  A rule that calls itself at its own beginning is answered there from its entry: with a failure at first,
  and then with the match so far, as long as each round gives a longer one.  What a round does depends on the
  rule; here is what does not.

  1. **Runs** — choices, sequences and invocations end when their parts do.
  2. **Chains (`Grammar.ChainEnds`)** — from a match a row of operators goes on, with the value so far in
     its scope, as long as it gets further.  A chain says what a growth comes to without saying how an
     engine gets there; since a row settles in one way only, there is one end at most.
  3. **Known calls (`Engine.Ready.call_known`)** — a call whose key has an entry is answered from it; a
     rule that is being tried fails.
  4. **Growth (`Engine.GrowsTo`)** — a match so far is replaced by each longer one, until a round fails
     or does not get further.

  Growths are given with the match that they have come to as a parameter (`growFrom`), where the engine looks
  it up in the entry of the rule in each round.  The two are the same as long as no round changes that entry,
  and no round does.
-/

namespace MemoPeg

/-! ## Runs of choices and sequences -/

namespace Ends

variable {x : Nat → Step} {xs : Nat → List Step} {f m : Frame}

/-- A choice ends with its first alternative, if that matches. -/
theorem choice_matched {stop : Nat} {v : Value} (h : Ends (fun n => x n f) (.matched stop v, m)) :
    Ends (fun n => Step.choice (x n :: xs n) f) (.matched stop v, m) := h.bind (.const rfl)

/-- If its first alternative fails, a choice ends as the others do from there. -/
theorem choice_failed {r : Outcome × Frame} (h : Ends (fun n => x n f) (.failed, m))
    (k : Ends (fun n => Step.choice (xs n) m) r) : Ends (fun n => Step.choice (x n :: xs n) f) r :=
  h.bind k

/-- A choice of one alternative ends as that does. -/
theorem choice_last {o : Outcome} (h : Ends (fun n => x n f) (o, m)) :
    Ends (fun n => Step.choice [x n] f) (o, m) := by
  cases o with
  | matched stop v => exact h.bind (.const rfl)
  | failed => exact h.bind (.const rfl)

/-- If its first part matches, a sequence goes on with the others from there. -/
theorem sequence_matched {stop : Nat} {v : Value} {r : Outcome × Frame}
    (h : Ends (fun n => x n f) (.matched stop v, m))
    (k : Ends (fun n => Step.sequenceFrom f (xs n) v m) r) :
    Ends (fun n => Step.sequence (x n :: xs n) f) r := h.bind k

/-- If its first part fails, a sequence goes back and fails. -/
theorem sequence_failed (h : Ends (fun n => x n f) (.failed, m)) :
    Ends (fun n => Step.sequence (x n :: xs n) f) (.failed, m.back f) := h.bind (.const rfl)

variable [RegexLibrary]

/-- A run of an operator leaves the cursor where its outcome says. -/
theorem eval_pos {g : Grammar} {op : Operator} {o : Outcome} (h : Ends (fun n => g.eval n op f) (o, m))
    (hin : f.engine.InText) : m.engine.pos = o.cursor f.engine.pos := by
  obtain ⟨n, hn⟩ := h
  exact ((advances.everywhere n).2.1 g op f o m (hn n (Nat.le_refl n)) hin).pos

/-- An operator that calls a rule ends as the call does. -/
theorem eval_call {g : Grammar} {name : String} {rule : RuleId} (hl : g.lookup name = some rule)
    {e e' : Engine} {o : Outcome}
    (h : Ends (fun n => e.applyRule n (.grammar g) rule []) (o, e')) (scope : Scope) :
    Ends (fun n => g.eval n (.call name []) ⟨e, scope⟩) (o, ⟨e', scope⟩) := by
  refine .of_succ ?_
  simp only [Grammar.eval_call, Grammar.named, hl, Option.map_some, Option.getD_some, Step.call,
    Scope.resolve, List.map_nil]
  exact h.bind (.const rfl)

/-- A rule is invoked by running its body. -/
theorem invokeRule {g : Grammar} {rule : RuleId} {r : Rule} (hr : g.rules[rule]? = some r)
    {args : List Value} {e : Engine} {o : Outcome}
    (h : Ends (fun n => g.eval n r.body
      ⟨e.attempting ((RuleSet.grammar g).runner 0) rule, Scope.ofArgs r.params args⟩) (o, m)) :
    Ends (fun n => e.invokeRule n (.grammar g) rule args)
      (o, e.concluded ((RuleSet.grammar g).runner 0) rule m.engine o) := by
  refine .of_succ ?_
  have hbody : Ends (fun n => RuleSet.body (n + 1) (.grammar g) rule args
      (e.attempting ((RuleSet.grammar g).runner 0) rule)) (o, m.engine) := by
    simp only [RuleSet.body_grammar hr, Step.inScope]
    exact h.map fun res => (res.1, res.2.engine)
  simp only [Engine.invokeRule, Engine.invoke_eq]
  exact hbody.map fun res =>
    (res.1, e.concluded ((RuleSet.grammar g).runner 0) rule res.2 res.1)

end Ends

/-- Going back twice is going back to the earlier frame. -/
theorem Frame.back_back (m f start : Frame) (h : start.scope.mark ≤ f.scope.mark) :
    (m.back f).back start = m.back start := by
  unfold Frame.back Scope.rollback
  simp only [List.take_take, Nat.min_eq_left h]

/-- The rest of a sequence, as a sequence of its own that began later. -/
theorem Step.sequenceFrom_eq {start : Frame} (base : Frame) (h : start.scope.mark ≤ base.scope.mark) :
    ∀ (steps : List Step) (value : Value) (f : Frame),
      Step.sequenceFrom start steps value f =
        (Step.sequenceFrom base steps value f).map fun r =>
          (r.1, if r.1.isMatched then r.2 else r.2.back start) := by
  intro steps
  induction steps with
  | nil => intro value f; rfl
  | cons s ss ih =>
    intro value f
    unfold Step.sequenceFrom
    cases s f with
    | error stop => rfl
    | ok result =>
      obtain ⟨o, m⟩ := result
      cases o with
      | matched stop v => exact ih v m
      | failed =>
        show Except.ok _ = Except.ok _
        simp only [Outcome.isMatched, Frame.back_back m base start h]
        rfl

/-! ## Chains of matches -/

namespace Grammar

variable [RegexLibrary]

/-- From one match to a later one: the row goes on from the first, whose value is in its scope. -/
def Grows (g : Grammar) (t : Text) (scope : Value → Scope) (As : List Operator)
    (m m' : Nat × Value) : Prop :=
  g.Settles t (.sequence As) m.1 (scope m.2) (.matched m'.1 m'.2) ∧ m.1 < m'.1

/-- From one match to another in any number of such steps. -/
inductive Chain (g : Grammar) (t : Text) (scope : Value → Scope) (As : List Operator) :
    Nat × Value → Nat × Value → Prop
  | refl (m : Nat × Value) : Chain g t scope As m m
  | step {m m' last : Nat × Value} (h : g.Grows t scope As m m') (hs : Chain g t scope As m' last) :
    Chain g t scope As m last

/-- The chain from the first match ends at the last: the row does not get further from there. -/
def ChainEnds (g : Grammar) (t : Text) (scope : Value → Scope) (As : List Operator)
    (first last : Nat × Value) : Prop :=
  g.Chain t scope As first last ∧ ∀ m', ¬g.Grows t scope As last m'

/-- The row ends at every match of the chain. -/
def ChainSettles (g : Grammar) (t : Text) (scope : Value → Scope) (As : List Operator)
    (first : Nat × Value) : Prop :=
  ∀ m, g.Chain t scope As first m → ∃ o, g.Settles t (.sequence As) m.1 (scope m.2) o

section

variable {g : Grammar} {t : Text} {scope : Value → Scope} {As : List Operator}
  {m m' first last : Nat × Value}

/-- A match grows to a longer one. -/
theorem Grows.lt (h : g.Grows t scope As m m') : m.1 < m'.1 := h.2

/-- It grows to one match only. -/
theorem Grows.unique {m'' : Nat × Value} (h : g.Grows t scope As m m')
    (h' : g.Grows t scope As m m'') : m' = m'' := by
  obtain ⟨hstop, hvalue⟩ := Outcome.matched.inj (h.1.unique h'.1)
  exact Prod.ext hstop hvalue

/-- Where the row fails, the chain does not go on. -/
theorem not_grows_of_failed (h : g.Settles t (.sequence As) m.1 (scope m.2) .failed) :
    ¬g.Grows t scope As m m' := by
  intro hgrows
  have heq := h.unique hgrows.1
  cases heq

/-- A chain never leads back. -/
theorem Chain.le (h : g.Chain t scope As m m') : m.1 ≤ m'.1 := by
  induction h with
  | refl m => exact Nat.le_refl m.1
  | step hgrows _ ih => exact Nat.le_trans (Nat.le_of_lt hgrows.lt) ih

/-- A chain may be entered later. -/
theorem ChainSettles.next (h : g.ChainSettles t scope As m) (hgrows : g.Grows t scope As m m') :
    g.ChainSettles t scope As m' := fun last hlast => h last (.step hgrows hlast)

/-- Where the row fails there is nothing else to settle. -/
theorem ChainSettles.of_failed (h : g.Settles t (.sequence As) m.1 (scope m.2) .failed) :
    g.ChainSettles t scope As m := by
  intro last hlast
  cases hlast with
  | refl => exact ⟨.failed, h⟩
  | step hgrows _ => exact absurd hgrows (not_grows_of_failed h)

/-- A chain settles if its first step does and the rest. -/
theorem ChainSettles.of_grows (hgrows : g.Grows t scope As m m')
    (h : g.ChainSettles t scope As m') : g.ChainSettles t scope As m := by
  intro last hlast
  cases hlast with
  | refl => exact ⟨_, hgrows.1⟩
  | step hgrows' hrest =>
    obtain rfl := hgrows.unique hgrows'
    exact h last hrest

/-- Where the row fails the chain ends. -/
theorem ChainEnds.of_failed (h : g.Settles t (.sequence As) m.1 (scope m.2) .failed) :
    g.ChainEnds t scope As m m := ⟨.refl m, fun _ => not_grows_of_failed h⟩

/-- A chain ends where the rest of it ends. -/
theorem ChainEnds.of_grows (hgrows : g.Grows t scope As m m')
    (h : g.ChainEnds t scope As m' last) : g.ChainEnds t scope As m last := ⟨.step hgrows h.1, h.2⟩

/-- A chain ends where it begins if and only if it does not go on from there. -/
theorem ChainEnds.stop_eq_iff (h : g.ChainEnds t scope As first last) :
    first.1 = last.1 ↔ ∀ m', ¬g.Grows t scope As first m' := by
  obtain ⟨hchain, hstuck⟩ := h
  cases hchain with
  | refl => exact ⟨fun _ => hstuck, fun _ => rfl⟩
  | step hgrows hrest =>
    constructor
    · intro heq
      have hlt := hgrows.lt
      have hle := hrest.le
      omega
    · intro hnone
      exact absurd hgrows (hnone _)

/-- A chain ends at one match only. -/
theorem ChainEnds.unique {last' : Nat × Value} (h : g.ChainEnds t scope As first last)
    (h' : g.ChainEnds t scope As first last') : last = last' := by
  obtain ⟨hchain, hstuck⟩ := h
  induction hchain with
  | refl m =>
    obtain ⟨hchain', -⟩ := h'
    cases hchain' with
    | refl => rfl
    | step hgrows _ => exact absurd hgrows (hstuck _)
  | step hgrows _ ih =>
    obtain ⟨hchain', hstuck'⟩ := h'
    cases hchain' with
    | refl => exact absurd hgrows (hstuck' _)
    | step hgrows' hrest =>
      obtain rfl := hgrows.unique hgrows'
      exact ih ⟨hrest, hstuck'⟩ hstuck

end

end Grammar

/-! ## Calls in an engine that is ready -/

/-- The answer that an entry keeps when it is found. -/
def Answer.found (answer : Answer) : Answer :=
  match answer.status with
  | .inProgress _ => { answer with status := .inProgress true }
  | .matched | .failed => answer

/-- What a call is answered from an entry: a rule in progress fails. -/
def Answer.reply (answer : Answer) : Outcome :=
  match answer.status with
  | .matched => .matched answer.stop answer.value
  | .inProgress _ | .failed => .failed

variable [RegexLibrary]

/-- A call of a rule outside `S` whose key has an entry. -/
theorem Engine.Ready.call_known {g : Grammar} {t : Text} {S : RuleId → Prop} {e : Engine}
    (he : e.Ready g t S) {name : String} {rule : RuleId} (hl : g.lookup name = some rule)
    (hrule : ¬S rule) {answer : Answer} (hholds : e.Holds ⟨rule, e.pos, []⟩ answer)
    (scope : Scope) :
    ∃ e', Ends (fun n => g.eval n (.call name []) ⟨e, scope⟩) (answer.reply, ⟨e', scope⟩) ∧
      e'.Ready g t S ∧ e'.Holds ⟨rule, e.pos, []⟩ answer.found ∧
      e'.pos = answer.reply.cursor e.pos ∧
      ∀ key, key ≠ ⟨rule, e.pos, []⟩ → e'.memo.find? key = e.memo.find? key := by
  obtain ⟨⟨answer', uses⟩, hfind, ha⟩ := Option.map_eq_some_iff.1 hholds
  cases ha
  -- The call is answered from the entry, with any fuel.
  have hcall : Ends (fun n => g.eval n (.call name []) ⟨e, scope⟩)
      ((e.reuse ⟨rule, e.pos, []⟩ ⟨answer', uses⟩).1,
        ⟨(e.reuse ⟨rule, e.pos, []⟩ ⟨answer', uses⟩).2, scope⟩) := by
    refine .eval_call hl ?_ scope
    simp only [Engine.applyRule, Engine.apply, hfind]
    exact .const rfl
  have hused : ({ e with memo := e.memo.use ⟨rule, e.pos, []⟩ } : Engine).Ready g t S := he.use hrule
  have hholds' := hholds.use
  have huse : ∀ key, key ≠ (⟨rule, e.pos, []⟩ : Key) →
      (e.memo.use ⟨rule, e.pos, []⟩).find? key = e.memo.find? key := by
    intro key hne
    rw [Memo.use, Memo.find?_modify, if_neg hne.symm]
  -- Where the cursor goes is known from what fits the text.
  have hfits := he.inText.fits _ _ hfind
  obtain ⟨status, stop, value⟩ := answer'
  cases status with
  | inProgress detected =>
    obtain ⟨rfl, rfl⟩ : stop = e.pos ∧ value = .nil := hfits
    refine ⟨_, hcall, ?_, hholds'.settle _, rfl, fun key hne => ?_⟩
    · have hsettled : (({ e with memo := e.memo.use ⟨rule, e.pos, []⟩ } : Engine).settle
          ⟨rule, e.pos, []⟩ (.parked (.inProgress true) e.pos)).Ready g t S :=
        hused.settle hrule ⟨rfl, rfl⟩
      exact hsettled.note _
    · show ((e.memo.use _).settle _ _).find? key = _
      rw [Memo.settle, Memo.find?_modify, if_neg hne.symm, huse key hne]
  | matched =>
    obtain ⟨-, hstop⟩ := Answer.fits_matched.1 hfits
    exact ⟨_, hcall, ((hused.move (he.text ▸ hstop)).result value).note _, hholds', rfl, huse⟩
  | failed =>
    obtain ⟨rfl, rfl⟩ : stop = e.pos ∧ value = .nil := hfits
    exact ⟨_, hcall, hused.note _, hholds', rfl, huse⟩

namespace Engine.Ready

variable {g : Grammar} {t : Text} {S : RuleId → Prop} {e : Engine}

/-- An invocation of a rule, when its body has ended. -/
theorem invoked (he : e.Ready g t S) {rule : RuleId} {r : Rule} (hr : g.rules[rule]? = some r)
    (args : List Value) {o : Outcome} {m : Frame}
    (hbody : Ends (fun n => g.eval n r.body
      ⟨e.attempting ((RuleSet.grammar g).runner 0) rule, Scope.ofArgs r.params args⟩) (o, m))
    (hm : m.engine.Ready g t S) :
    ∃ e', Ends (fun n => e.invokeRule n (.grammar g) rule args) (o, e') ∧ e'.Ready g t S ∧
      e'.memo = m.engine.memo := by
  have hpos : m.engine.pos = o.cursor e.pos := hbody.eval_pos (he.inText.note _)
  have hcursor : t.IsBoundary (o.cursor e.pos) := by
    have hm' := hm.inText.cursor
    rw [hm.text, hpos] at hm'
    exact hm'
  refine ⟨_, .invokeRule hr hbody, ?_⟩
  cases o with
  | matched stop v => exact ⟨((hm.note _).move hcursor).result v, rfl⟩
  | failed => exact ⟨((hm.note _).move hcursor).blame _ _, rfl⟩

/-- Where the first alternative fails, the second one decides. -/
theorem falls_through (he : e.Ready g t S) (hS : g.ClosedUnderCalls S) {first B : Operator}
    (hwithin : B.Within g S true) {p : Nat} (hp : e.pos = p) {oB : Outcome}
    (hB : g.Settles t B p [] oB) {m : Frame} (hm : m.engine.Ready g t S)
    (hfirst : Ends (fun n => g.eval n first ⟨e, []⟩) (.failed, m.back ⟨e, []⟩)) :
    ∃ m', Ends (fun n => g.eval n (.choice [first, B]) ⟨e, []⟩) (oB, m') ∧
      m'.engine.Ready g t S ∧ m.engine.SameBut S m'.engine := by
  subst hp
  -- The first alternative has gone back to where it began, and the second one is tried there.
  obtain ⟨e', scope', hends, he', hsame, -⟩ :=
    hB.inContext hS hwithin (hm.move (he.text ▸ he.inText.cursor)) rfl [] fun _ => rfl
  exact ⟨⟨e', scope'⟩, .of_succ (.choice_failed hfirst (.choice_last hends)), he', hsame⟩

end Engine.Ready

/-! ## Growth -/

namespace Engine

/-- With enough fuel the growth of a match so far ends with the result. -/
def GrowsTo (rs : RuleSet) (key : Key) (best : Nat) (value : Value) (result : Outcome × Engine)
    (e : Engine) : Prop :=
  ∃ b, ∀ n, b ≤ n → ∀ fuel, b ≤ fuel → e.growFrom (rs.runner n) key fuel best value = .ok result

variable {rs : RuleSet} {key : Key} {best : Nat} {value : Value} {e after : Engine}

/-- A round that gets further is followed by the growth of its match. -/
theorem GrowsTo.further {stop : Nat} {longer : Value} {result : Outcome × Engine}
    (hround : Ends (fun n => (e.regrowing key best value).invokeRule n rs key.rule key.args)
      (.matched stop longer, after)) (hlt : best < stop)
    (hrest : (after.settle key (.matched stop longer)).GrowsTo rs key stop longer result) :
    e.GrowsTo rs key best value result := by
  obtain ⟨b, hb⟩ : ∃ b, ∀ n, b ≤ n → (e.regrowing key best value).invoke (rs.runner n) key.rule
      key.args = .ok (.matched stop longer, after) := hround
  obtain ⟨b', hb'⟩ := hrest
  refine ⟨max b b' + 1, fun n hn fuel hfuel => ?_⟩
  obtain ⟨k, rfl⟩ : ∃ k, fuel = k + 1 := ⟨fuel - 1, by omega⟩
  show (e.regrowing key best value).invoke _ key.rule key.args >>= _ = _
  rw [hb n (by omega)]
  exact (if_pos hlt).trans (hb' n (by omega) k (by omega))

/-- A round that fails or does not get further is the last. -/
theorem GrowsTo.last {o : Outcome}
    (hround : Ends (fun n => (e.regrowing key best value).invokeRule n rs key.rule key.args)
      (o, after)) (hshort : ∀ stop longer, o = .matched stop longer → ¬best < stop) :
    e.GrowsTo rs key best value
      (.matched best value, { after with pos := best, result := value }) := by
  obtain ⟨b, hb⟩ : ∃ b, ∀ n, b ≤ n → (e.regrowing key best value).invoke (rs.runner n) key.rule
      key.args = .ok (o, after) := hround
  refine ⟨b + 1, fun n hn fuel hfuel => ?_⟩
  obtain ⟨k, rfl⟩ : ∃ k, fuel = k + 1 := ⟨fuel - 1, by omega⟩
  show (e.regrowing key best value).invoke _ key.rule key.args >>= _ = _
  rw [hb n (by omega)]
  cases o with
  | matched stop longer => exact if_neg (hshort stop longer rfl)
  | failed => rfl

end Engine

/-- A first call of a rule that has called itself and still matches ends as its growth does. -/
theorem Ends.apply_grown {rs : RuleSet} {rule : RuleId} {args : List Value} {e after : Engine}
    {stop : Nat} {value : Value} {result : Outcome × Engine}
    (hfind : e.memo.find? ⟨rule, e.pos, args⟩ = none)
    (hfirst : Ends (fun n => (e.opening ⟨rule, e.pos, args⟩).invokeRule n rs rule args)
      (.matched stop value, after))
    (hsaw : after.sawItself ⟨rule, e.pos, args⟩ = true)
    (hgrows : (after.settle ⟨rule, e.pos, args⟩ (.matched stop value)).GrowsTo rs
      ⟨rule, e.pos, args⟩ stop value result) :
    Ends (fun n => e.applyRule n rs rule args) result := by
  obtain ⟨b, hb⟩ := hgrows
  obtain ⟨b', hb'⟩ := hfirst
  refine ⟨max b b', fun n hn => ?_⟩
  have hinvoke : (e.opening ⟨rule, e.pos, args⟩).invoke (rs.runner n) rule args =
    .ok (.matched stop value, after) := hb' n (by omega)
  have hgrow := (Engine.grow_settled (rs.runner_retains n) hinvoke n stop value).trans
    (hb n (by omega) n (by omega))
  simp only [Engine.applyRule, Engine.apply, hfind, hinvoke]
  exact (if_pos hsaw).trans hgrow

end MemoPeg
