import MemoPeg.Proofs.Mirror
import MemoPeg.Regex.Reader

/-
  The memo table is transparent.

  A memo table is to make parsing faster and to change nothing else.  It does change something: a rule that
  calls itself on the left is stopped and grown by means of its entry.  Where no rule re-enters, nothing is
  changed.

  1. **Forward (`Mirrors.forward`)** — where the memo-free run ends, the run with the memo table ends
     alike.  It meets no entry in progress: that key would have to end within the fuel of its own
     memo-free call, which was made with the least fuel that suffices.
  2. **Backward (`Mirrors.backward`)** — where a run with the memo table ends without a re-entry, the
     memo-free run ends alike.
  3. **Specification (`memoization_transparent`)** — on a fresh engine, a rule called through the memo
     table has the outcome of the rule called in the grammar without one, and the same furthest
     failure, and no rule re-enters.

  The two directions do not follow from each other.  Forward, it is not known beforehand that nothing
  re-enters; this has to come out of the fact that the memo-free run ends, and it does because a call that
  contained itself would need more fuel than it has.  So the keys that are being tried are carried along, each
  with the fuel for which it is known to starve.  Backward, there is no bound on the fuel of the memo-free run,
  but it is given that no rule re-enters, and an entry that is found is then one that has been answered.

  What an entry answers was found out at an earlier time, when the furthest failure was another and the
  history shorter.  That the answer is the same now is part of the relation between the engines (`Mirrors`),
  which is why the relation is about the table and not only about the calls that are made.
-/

namespace MemoPeg

section

variable [RegexLibrary]

/-! ## What a run can enter -/

/-- The operator calls rules in `S` only and, where the scope cannot be relied on, does not look at
    it. -/
structure Operator.Within (g : Grammar) (S : RuleId → Prop) (sees : Bool) (op : Operator) : Prop where
  calls : ∀ name ∈ op.callees, ∀ rule, g.lookup name = some rule → S rule
  blind : sees = false → op.ScopeFree

namespace Operator.Within

variable {g : Grammar} {S : RuleId → Prop} {sees : Bool} {op : Operator}

/-- What an operator can enter, its parts can. -/
theorem child (h : op.Within g S sees) {c : Operator} (hc : c ∈ op.children) : c.Within g S sees where
  calls name hname := h.calls name (mem_callees_of_child hc hname)
  blind hs := (h.blind hs).child hc

/-- A rule that is called is one that can be entered. -/
theorem callee (h : op.Within g S sees) {name : String} {rule : RuleId}
    (hname : op.callee? = some name) (hrule : g.lookup name = some rule) : S rule :=
  h.calls name (mem_callees op.mem_nodes_self hname) rule hrule

/-- Bodies of the rules in `S` call rules in `S`. -/
theorem body (hS : g.ClosedUnderCalls S) {rule : RuleId} {r : Rule} (hrule : S rule)
    (hr : g.rules[rule]? = some r) : r.body.Within g S true where
  calls name hname rule' hrule' := hS rule r name rule' hrule hr hname hrule'
  blind hs := absurd hs (by decide)

/-- An operator with an action needs its scope. -/
theorem scopes (h : op.Within g S sees) {T : Engine → Engine → Prop} :
    ∀ o ∈ op.nodes, o.action?.isSome → ∀ f f', Framed T sees f f' → f'.scope = f.scope := by
  intro o ho ha f f' hf
  cases sees with
  | true => exact hf.2 rfl
  | false =>
    have hblind := h.blind rfl o ho
    cases o with
    | action a => cases hblind
    | _ => cases ha

/-- The arguments of a call are the same. -/
theorem resolve_eq (h : op.Within g S sees) {T : Engine → Engine → Prop} {args : List Arg}
    (hargs : op.readsScope = args.any Arg.isBinding) (f f' : Frame) (hf : Framed T sees f f') :
    f'.scope.resolve args = f.scope.resolve args := by
  cases sees with
  | true => rw [hf.2 rfl]
  | false => exact Scope.resolve_of_constant (hargs.symm.trans (h.blind rfl).self) _ _

end Operator.Within

/-! ## Calls from operators -/

namespace Grammar

/-- A call by name; a name that means no rule never matches. -/
def named (g : Grammar) (name : String) (step : RuleId → Step) : Step :=
  ((g.lookup name).map step).getD Step.fail

/-- A call is a call of the rule that its name means. -/
theorem eval_call (g : Grammar) (n : Nat) (name : String) (args : List Arg) :
    g.eval (n + 1) (.call name args) =
      g.named name fun rule => Step.call (Engine.applyRule n (.grammar g) rule) args := by
  simp only [Grammar.eval, named]
  cases g.lookup name <;> rfl

/-- So is a call past the memo table, which runs the body. -/
theorem eval_direct (g : Grammar) (n : Nat) (name : String) (args : List Arg) :
    g.eval (n + 1) (.direct name args) =
      g.named name fun rule => Step.call (Engine.invokeRule n (.grammar g) rule) args := by
  simp only [Grammar.eval, named]
  cases g.lookup name <;> rfl

/-- The names of the rules are the same without the memo table. -/
theorem ruleName_memoFree (g : Grammar) :
    (RuleSet.grammar g.memoFree).ruleName = (RuleSet.grammar g).ruleName := by
  funext rule
  simp only [RuleSet.ruleName, RuleSet.nameOf?_grammar, rule_memoFree, Option.map_map, Function.comp_def,
    Rule.name_mapBody]

end Grammar

namespace EngineLockstep

variable {T : Engine → Engine → Prop} {C : History → Prop} (hT : EngineLockstep T C)
include hT

/-- Calls into linked grammars follow where the links are the same. -/
theorem eval_foreign (g g' : Grammar) (hlinks : g'.link? = g.link?) {sees : Bool}
    {grammar name : String} {args : List Arg}
    (hargs : ∀ f f', Framed T sees f f' → f'.scope.resolve args = f.scope.resolve args) (n : Nat) :
    Follows (Framed T sees) C (g.eval (n + 1) (.foreign grammar name args))
      fun m => g'.eval (m + 1) (.foreign grammar name args) := by
  simp only [Grammar.eval, hlinks]
  cases g.link? grammar with
  | none => exact .fail
  | some callee =>
    simp only
    cases callee.lookup name with
    | none => exact .fail
    | some rule => exact call hargs (hT.callForeign callee n grammar rule)

end EngineLockstep

/-- A call by name follows where the name means rules whose calls follow. -/
theorem Follows.named {R : Frame → Frame → Prop} {C : History → Prop} {g g' : Grammar}
    {name : String} {x : RuleId → Step} {y : Nat → RuleId → Step}
    (hnone : g.lookup name = none → g'.lookup name = none)
    (hsome : ∀ rule, g.lookup name = some rule → ∃ rule', g'.lookup name = some rule' ∧
      Follows R C (x rule) fun m => y m rule') :
    Follows R C (g.named name x) fun m => g'.named name (y m) := by
  unfold Grammar.named
  cases hl : g.lookup name with
  | none =>
    rw [hnone hl]
    exact .fail
  | some rule =>
    obtain ⟨rule', hl', hfollow⟩ := hsome rule hl
    rw [hl']
    exact hfollow

/-- A call by name follows where the name means the same rule and the call of this rule follows. -/
theorem Follows.named_same {R : Frame → Frame → Prop} {C : History → Prop} {g g' : Grammar}
    {name : String} {x : RuleId → Step} {y : Nat → RuleId → Step}
    (hsame : g'.lookup name = g.lookup name)
    (hsome : ∀ rule, g.lookup name = some rule → Follows R C (x rule) fun m => y m rule) :
    Follows R C (g.named name x) fun m => g'.named name (y m) :=
  .named hsame.trans fun rule hl => ⟨rule, hsame.trans hl, hsome rule hl⟩

omit [RegexLibrary] in
/-- Following may begin with one piece of fuel less. -/
theorem Follows.of_succ {R : Frame → Frame → Prop} {C : History → Prop} {x : Step} {y : Nat → Step}
    (h : Follows R C x fun n => y (n + 1)) : Follows R C x y := by
  intro f o g hrun hC
  obtain ⟨hCf, hfollow⟩ := h f o g hrun hC
  refine ⟨hCf, fun f' hf => ?_⟩
  obtain ⟨g', hg', hgg'⟩ := hfollow f' hf
  exact ⟨g', .of_succ hg', hgg'⟩

omit [RegexLibrary] in
/-- A run that starves is followed by any. -/
theorem Follows.starved {R : Frame → Frame → Prop} {C : History → Prop} {y : Nat → Step} :
    Follows R C (fun _ => .error .outOfFuel) y := by
  intro f o g hrun
  cases hrun

/-- A first call ends as the invocation does, if the rule has failed or has not called itself. -/
theorem Ends.apply_first {rs : RuleSet} {rule : RuleId} {args : List Value} {e after : Engine}
    {o : Outcome} (hfind : e.memo.find? ⟨rule, e.pos, args⟩ = none)
    (hends : Ends (fun n => (e.opening ⟨rule, e.pos, args⟩).invokeRule n rs rule args) (o, after))
    (hsaw : o.isMatched → after.sawItself ⟨rule, e.pos, args⟩ = false) :
    Ends (fun n => e.applyRule n rs rule args) (o, after.settle ⟨rule, e.pos, args⟩ (o.answer e.pos)) := by
  simp only [Engine.applyRule, Engine.apply, hfind]
  refine hends.bind ?_
  cases o with
  | matched stop value =>
    simp only [hsaw rfl]
    exact .const rfl
  | failed => exact .const rfl

/-! ## Forward -/

section

variable {g : Grammar} {t : Text} {S : RuleId → Prop} {M : Key → Option Entry} {base : History}

/-- With this much fuel for the memo-free run, the run with the memo table follows it while no key that
    is being tried could be answered. -/
def ForwardAt (g : Grammar) (t : Text) (S : RuleId → Prop) (M : Key → Option Entry)
    (base : History) (n : Nat) : Prop :=
  ∀ busy, (∀ key, busy key → Starved g t n key) → ∀ sees (op : Operator), op.Within g S sees →
    Follows (Framed (Mirrors g t S M base busy) sees) (fun _ => True)
      (g.memoFree.eval n op.memoFree) fun m => g.eval m op

/-- Running a body follows running the memo-free body. -/
theorem forward_invoke (hS : g.ClosedUnderCalls S) {n : Nat}
    (ih : ∀ k, k < n → ForwardAt g t S M base k) {busy : Key → Prop}
    (hbusy : ∀ k, k < n → ∀ key, busy key → Starved g t k key) {rule : RuleId} (hrule : S rule)
    (args : List Value) :
    CallFollows (Mirrors g t S M base busy) (fun _ => True)
      (Engine.invokeRule n (.grammar g.memoFree) rule args)
      fun m => Engine.invokeRule m (.grammar g) rule args := by
  refine (Mirrors.lockstep fun _ => trivial).invoke
    (fun m => (congrFun g.ruleName_memoFree rule).symm) (EngineLockstep.body ?_ ?_ args)
  · intro hnone
    rw [Grammar.rule_memoFree, Option.map_eq_none_iff] at hnone
    exact hnone
  · intro r hr
    rw [Grammar.rule_memoFree] at hr
    obtain ⟨r', hr', rfl⟩ := Option.map_eq_some_iff.1 hr
    exact ⟨r', hr', rfl, fun k hk => ih k hk busy (hbusy k hk) true r'.body (.body hS hrule hr')⟩

/-- A call through the memo table follows the memo-free call. -/
theorem forward_apply (hS : g.ClosedUnderCalls S) {n : Nat}
    (ih : ∀ k, k < n → ForwardAt g t S M base k) {busy : Key → Prop}
    (hbusy : ∀ key, busy key → Starved g t n key) {rule : RuleId} (hrule : S rule)
    (args : List Value) :
    CallFollows (Mirrors g t S M base busy) (fun _ => True)
      (Engine.invokeRule n (.grammar g.memoFree) rule args)
      fun m => Engine.applyRule m (.grammar g) rule args := by
  intro d o d' hrun _
  refine ⟨trivial, fun e h => ?_⟩
  have hbare : d.Bare t e.pos := { h.bare with pos := h.pos.symm }
  cases hfind : e.memo.find? ⟨rule, e.pos, args⟩ with
  | some entry =>
    cases hended : entry.isInProgress with
    | true =>
      -- The key is being tried, so its memo-free call would not have ended.
      obtain ⟨detected, ha⟩ := Entry.isInProgress_iff.1 hended
      obtain ⟨-, hkey⟩ := h.memo.trying ⟨rule, e.pos, args⟩ entry detected hrule hfind ha
      exact absurd hrun ((hbusy ⟨rule, e.pos, args⟩ hkey).not_run hbare)
    | false =>
      obtain ⟨o', d₁, e₁, hends, hreuse, hm⟩ := h.hit hrule hfind hended
      have hrun' : Ends (fun k => d.invokeRule k (.grammar g.memoFree) rule args) (o, d') :=
        .of_noLater (Engine.invokeRule_noLater _ rule args d) hrun
      obtain ⟨rfl, rfl⟩ := Prod.mk.inj (hends.unique hrun')
      refine ⟨e₁, ?_, hm⟩
      simp only [Engine.applyRule, Engine.apply, hfind, hreuse]
      exact .const rfl
  | none =>
    -- Within the least fuel for the call, its own key is starved too.
    obtain ⟨k, hk, hkrun, hleast⟩ :=
      exists_least_fuel ⟨rule, e.pos, args⟩ hbare hrun
    have hbusy' : ∀ m, m < k → ∀ key, key = ⟨rule, e.pos, args⟩ ∨ busy key → Starved g t m key := by
      intro m hm key hkey
      rcases hkey with rfl | hkey
      · exact hleast m hm
      · exact (hbusy key hkey).of_le (by omega)
    have hfollow := forward_invoke hS (fun m hm => ih m (by omega)) hbusy' hrule args
    obtain ⟨e', hends, hm⟩ := (hfollow d o d' hkrun trivial).2 _ (h.opening hrule)
    exact ⟨_, .apply_first hfind hends fun _ => hm.sawItself hrule,
      hm.settled ⟨rule, e.pos, args⟩ hrule hbare hkrun⟩

/-- **Forward.**  The run with the memo table follows the memo-free run. -/
theorem Mirrors.forward (hS : g.ClosedUnderCalls S) : ∀ n, ForwardAt g t S M base n := by
  intro n
  induction n using Nat.strongRecOn with
  | ind n ih =>
    intro busy hbusy sees op hop
    cases n with
    | zero => exact .starved
    | succ n =>
      have hT : EngineLockstep (Mirrors g t S M base busy) fun _ => True :=
        Mirrors.lockstep fun _ => trivial
      have hbusy' : ∀ k, k ≤ n → ∀ key, busy key → Starved g t k key :=
        fun k hk key hkey => (hbusy key hkey).of_le (by omega)
      refine .of_succ ((hT.frames sees).eval Operator.changesCalls_memoFree Operator.changesCalls_id
        op (fun c hc => ih n (by omega) busy (hbusy' n (by omega)) sees c (hop.child hc)) hop.scopes
        fun hcall => ?_)
      cases op with
      | call name args =>
        simp only [Operator.memoFree, Grammar.eval_direct, Grammar.eval_call]
        refine .named_same (g.lookup_memoFree name).symm fun rule hl => ?_
        have hrule : S rule := hop.callee rfl ((g.lookup_memoFree name).symm.trans hl)
        exact EngineLockstep.call (hop.resolve_eq rfl) fun values =>
          forward_apply hS (fun k hk => ih k (by omega)) (hbusy' n (by omega)) hrule values
      | direct name args =>
        simp only [Operator.memoFree, Grammar.eval_direct]
        refine .named_same (g.lookup_memoFree name).symm fun rule hl => ?_
        have hrule : S rule := hop.callee rfl ((g.lookup_memoFree name).symm.trans hl)
        exact EngineLockstep.call (hop.resolve_eq rfl) fun values =>
          forward_invoke hS (fun k hk => ih k (by omega)) (fun k hk => hbusy' k (by omega)) hrule
            values
      | «foreign» grammar name args =>
        exact hT.eval_foreign g.memoFree g rfl (hop.resolve_eq rfl) n
      | _ => cases hcall

/-! ## Backward -/

/-- No rule has re-entered in an engine at depth zero. -/
def History.Quiet (h : History) : Prop := ∀ m ∈ h, m.event.isReEntry → 0 < m.depth

omit [RegexLibrary] in
/-- What was quiet up to now was so before. -/
theorem History.Quiet.older {m : Moment} {h : History} (hq : History.Quiet (m :: h)) : h.Quiet :=
  fun n hn => hq n (List.mem_cons_of_mem m hn)

omit [RegexLibrary] in
/-- An engine that is quiet at the end of a run was so all along. -/
theorem Engine.Extends.quiet {e e' : Engine} (h : e.Extends e') (hq : e'.history.Quiet) :
    e.history.Quiet := by
  obtain ⟨-, -, new, hnew, -⟩ := h
  intro m hm
  exact hq m (hnew ▸ List.mem_append_right new hm)

omit [RegexLibrary] in
/-- A call whose rule is being tried is a re-entry. -/
theorem Engine.reuse_history (key : Key) (entry : Entry) (e : Engine) :
    ∃ event, (e.reuse key entry).2.history = ⟨e.depth, event⟩ :: e.history ∧
      (entry.isInProgress = true → event.isReEntry = true) := by
  obtain ⟨⟨status, stop, value⟩, uses⟩ := entry
  cases status with
  | inProgress detected => exact ⟨.foundInProgress key, rfl, fun _ => rfl⟩
  | matched => exact ⟨.foundMatch key, rfl, fun h => by cases h⟩
  | failed => exact ⟨.foundFailure key, rfl, fun h => by cases h⟩

/-- More keys may be being tried. -/
theorem Mirrors.relax {busy busy' : Key → Prop} {d e : Engine} (h : Mirrors g t S M base busy d e)
    (hbusy : ∀ key, busy key → busy' key) : Mirrors g t S M base busy' d e :=
  { h with
    memo :=
      { h.memo with
        trying := fun key entry detected hS hfind ha =>
          ⟨(h.memo.trying key entry detected hS hfind ha).1,
            hbusy key (h.memo.trying key entry detected hS hfind ha).2⟩ } }

/-- The memo-free engine, with respect to the one with a memo table, whatever is being tried. -/
abbrev MirroredBy (g : Grammar) (t : Text) (S : RuleId → Prop) (M : Key → Option Entry)
    (base : History) (e d : Engine) : Prop := Mirrors g t S M base (fun _ => True) d e

/-- Engines stay alike when both do the same, seen from the other side too. -/
theorem mirroredBy_lockstep : EngineLockstep (MirroredBy g t S M base) History.Quiet :=
  (Mirrors.lockstep (C := fun _ => True) fun _ => trivial).flip History.Quiet.older

/-- With this much fuel for the run with the memo table, the memo-free run follows it while no rule
    re-enters. -/
def BackwardAt (g : Grammar) (t : Text) (S : RuleId → Prop) (M : Key → Option Entry)
    (base : History) (n : Nat) : Prop :=
  ∀ sees (op : Operator), op.Within g S sees →
    Follows (Framed (MirroredBy g t S M base) sees) History.Quiet
      (g.eval n op) fun m => g.memoFree.eval m op.memoFree

/-- Running a memo-free body follows running the body. -/
theorem backward_invoke (hS : g.ClosedUnderCalls S) {n : Nat}
    (ih : ∀ k, k < n → BackwardAt g t S M base k) {rule : RuleId} (hrule : S rule)
    (args : List Value) :
    CallFollows (MirroredBy g t S M base) History.Quiet (Engine.invokeRule n (.grammar g) rule args)
      fun m => Engine.invokeRule m (.grammar g.memoFree) rule args := by
  refine mirroredBy_lockstep.invoke (fun m => congrFun g.ruleName_memoFree rule)
    (EngineLockstep.body ?_ ?_ args)
  · intro hnone
    rw [Grammar.rule_memoFree, hnone, Option.map_none]
  · intro r hr
    refine ⟨r.mapBody Operator.memoFree, ?_, rfl, fun k hk =>
      ih k hk true r.body (.body hS hrule hr)⟩
    rw [Grammar.rule_memoFree, hr, Option.map_some]

/-- The memo-free call follows a call through the memo table. -/
theorem backward_apply (hS : g.ClosedUnderCalls S) {n : Nat}
    (ih : ∀ k, k < n → BackwardAt g t S M base k) {rule : RuleId} (hrule : S rule)
    (args : List Value) :
    CallFollows (MirroredBy g t S M base) History.Quiet (Engine.applyRule n (.grammar g) rule args)
      fun m => Engine.invokeRule m (.grammar g.memoFree) rule args := by
  intro e o e' hrun hquiet
  rcases Engine.apply_eq_ok hrun with ⟨entry, hfind, heq⟩ | ⟨hfind, first, m, hfirst, hrest⟩
  · -- The answer was known, or the rule was being tried and has re-entered.
    obtain ⟨event, hhistory, hre⟩ := e.reuse_history ⟨rule, e.pos, args⟩ entry
    rw [← heq] at hhistory
    refine ⟨(hhistory ▸ hquiet : History.Quiet (_ :: _)).older, fun d h => ?_⟩
    cases hended : entry.isInProgress with
    | true =>
      have hdeep : 0 < e.depth := hquiet ⟨e.depth, event⟩ (hhistory ▸ List.mem_cons_self) (hre hended)
      rw [h.depth, h.bare.depth] at hdeep
      omega
    | false =>
      obtain ⟨o', d', e₁, hends, hreuse, hm⟩ := h.hit hrule hfind hended
      obtain ⟨rfl, rfl⟩ := Prod.mk.inj (heq.trans hreuse)
      exact ⟨d', hends, hm⟩
  · have hquiet_m : m.history.Quiet := by
      rcases hrest with ⟨stop, value, -, -, hgrown⟩ | ⟨stop, value, -, -, -, rfl⟩ | ⟨-, -, rfl⟩
      · have hgrows := extends_order.grow (extends_order.bodies n (.grammar g)) _ n _ o e' hgrown
        exact hgrows.quiet hquiet
      · exact hquiet
      · exact hquiet
    obtain ⟨hquiet_e, hfollow⟩ := backward_invoke hS ih hrule args _ first m hfirst hquiet_m
    refine ⟨hquiet_e.older, fun d h => ?_⟩
    obtain ⟨d', hends, hm⟩ := hfollow d ((h.opening hrule).relax fun _ _ => trivial)
    have hsaw : m.sawItself ⟨rule, e.pos, args⟩ = false := hm.sawItself hrule
    -- The rule has not called itself, so the first try is the answer.
    obtain ⟨rfl, rfl⟩ : o = first ∧ e' = m.settle ⟨rule, e.pos, args⟩ (first.answer e.pos) := by
      rcases hrest with ⟨stop, value, -, hsaw', -⟩ | ⟨stop, value, rfl, -, rfl, rfl⟩ | ⟨rfl, rfl, rfl⟩
      · rw [hsaw] at hsaw'
        cases hsaw'
      · exact ⟨rfl, rfl⟩
      · exact ⟨rfl, rfl⟩
    have hbare : d.Bare t e.pos := { h.bare with pos := h.pos.symm }
    have hends' : Ends (fun k => d.invokeRule k (.grammar g.memoFree) rule args) (o, d') := hends
    obtain ⟨k, hk⟩ := hends'
    exact ⟨d', hends, (hm.relax fun _ _ => Or.inr trivial).settled ⟨rule, e.pos, args⟩ hrule
      hbare (hk k (Nat.le_refl k))⟩

/-- **Backward.**  The memo-free run follows a run with the memo table in which no rule re-enters. -/
theorem Mirrors.backward (hS : g.ClosedUnderCalls S) : ∀ n, BackwardAt g t S M base n := by
  intro n
  induction n using Nat.strongRecOn with
  | ind n ih =>
    intro sees op hop
    cases n with
    | zero => exact .starved
    | succ n =>
      have hT : EngineLockstep (MirroredBy g t S M base) History.Quiet := mirroredBy_lockstep
      refine .of_succ ((hT.frames sees).eval Operator.changesCalls_id Operator.changesCalls_memoFree
        op (fun c hc => ih n (by omega) sees c (hop.child hc)) hop.scopes fun hcall => ?_)
      cases op with
      | call name args =>
        simp only [Operator.memoFree, Grammar.eval_direct, Grammar.eval_call]
        refine .named_same (g.lookup_memoFree name) fun rule hl => ?_
        exact EngineLockstep.call (hop.resolve_eq rfl) fun values =>
          backward_apply hS (fun k hk => ih k (by omega)) (hop.callee rfl hl) values
      | direct name args =>
        simp only [Operator.memoFree, Grammar.eval_direct]
        refine .named_same (g.lookup_memoFree name) fun rule hl => ?_
        exact EngineLockstep.call (hop.resolve_eq rfl) fun values =>
          backward_invoke hS (fun k hk => ih k (by omega)) (hop.callee rfl hl) values
      | «foreign» grammar name args =>
        exact hT.eval_foreign g g.memoFree rfl (hop.resolve_eq rfl) n
      | _ => cases hcall

end

/-! ## Transparency -/

/-- **The memo table is transparent.**  Where a rule called past every memo table ends, the rule called
    through the memo table ends on a fresh engine: with the same outcome and the same offset of the
    furthest failure.  No entry of its memo table is found in progress; rules that re-enter are
    rules of linked grammars, in memo tables of their own, as they are in the memo-free run. -/
theorem memoization_transparent {g : Grammar} {t : Text} {p : Nat} {rule : RuleId}
    {args : List Value} {fuel : Nat} {outcome : Outcome} {d : Engine}
    (h : (Engine.startingAt t p).invokeRule fuel (.grammar g.memoFree) rule args =
      .ok (outcome, d)) :
    ∃ fuel' e, (Engine.startingAt t p).applyRule fuel' (.grammar g) rule args = .ok (outcome, e) ∧
      e.furthest.offset = d.furthest.offset ∧
      ∀ m ∈ e.history, m.event.isReEntry → 0 < m.depth ∧ m ∈ d.history := by
  have hstart := Mirrors.startingAt g t (fun _ => True) (fun _ => False) p
  have hfollow : CallFollows (Mirrors g t (fun _ => True) (fun _ => none) [] fun _ => False)
      (fun _ => True) (Engine.invokeRule fuel (.grammar g.memoFree) rule args)
      fun m => Engine.applyRule m (.grammar g) rule args :=
    forward_apply g.closedUnderCalls_all (fun k _ => Mirrors.forward g.closedUnderCalls_all k)
      (fun _ hkey => False.elim hkey) trivial args
  obtain ⟨e, ⟨fuel', hfuel⟩, hm⟩ := (hfollow _ outcome d h trivial).2 _ hstart
  refine ⟨fuel', e, hfuel fuel' (Nat.le_refl _), hm.furthest, fun m hmem hre => ?_⟩
  exact (hm.history m hmem hre).resolve_left List.not_mem_nil

end

/-- A digit in brackets or without, tried in this order: the digit is read twice. -/
def bracketed : Grammar :=
  .ofRules "brackets"
    [⟨"item", [], .choice [.sequence [.call "digit" [], .literal ")"], .call "digit" []]⟩,
      ⟨"digit", [], .range "0" "9"⟩]
    0 [] []

/-- The second try of the digit is answered from the memo table. -/
theorem memoization_transparent_bracketed :
    ∃ d fuel e, (Engine.startingAt "7".toList 0).invokeRule 9 (.grammar bracketed.memoFree) 0 [] =
        .ok (.matched 1 (.char '7'), d) ∧
      (Engine.startingAt "7".toList 0).applyRule fuel (.grammar bracketed) 0 [] =
        .ok (.matched 1 (.char '7'), e) ∧
      e.furthest.offset = d.furthest.offset ∧
      ∀ m ∈ e.history, m.event.isReEntry → 0 < m.depth ∧ m ∈ d.history := by
  obtain ⟨d, hd⟩ := ends_with_outcome (x := (Engine.startingAt "7".toList 0).invokeRule 9
    (.grammar bracketed.memoFree) 0 []) (o := .matched 1 (.char '7')) (by decide +kernel)
  obtain ⟨fuel, e, he⟩ := memoization_transparent hd
  exact ⟨d, fuel, e, hd, he⟩

/-- A grammar whose only rule is a call of a left recursive rule of a linked grammar. -/
def acrossToSums : Grammar :=
  .ofRules "across" [⟨"start", [], .foreign "sums" "sum" []⟩] 0
    [("sums", .grammar
      (.ofRules "sums" [⟨"sum", [], .choice [.sequence [.call "sum" [], .literal "+"], .literal "x"]⟩] 0 []
        [["sum"]]))]
    []

/-- The grammar itself is not left recursive: its rule ends past the memo table.  Through the memo table
    it cannot end without a re-entry, in the linked grammar. -/
theorem reenters_across_link :
    (∃ d, (Engine.startingAt "x+".toList 0).invokeRule 20 (.grammar acrossToSums.memoFree) 0 [] =
      .ok (.matched 2 (.str "+"), d)) ∧
    ∀ fuel outcome e, (Engine.startingAt "x+".toList 0).applyRule fuel (.grammar acrossToSums) 0 [] =
      .ok (outcome, e) → ∃ m ∈ e.history, m.event.isReEntry = true := by
  refine ⟨ends_with_outcome (by decide +kernel), fun fuel outcome e he => ?_⟩
  have hseen : (((Engine.startingAt "x+".toList 0).applyRule 20 (.grammar acrossToSums) 0 []).map
      fun r => r.2.history.any (·.event.isReEntry)).toOption = some true := by
    decide +kernel
  cases hrun : (Engine.startingAt "x+".toList 0).applyRule 20 (.grammar acrossToSums) 0 [] with
  | error stop => rw [hrun] at hseen; cases hseen
  | ok result =>
    have hsame : result = (outcome, e) := Engine.applyRule_unique hrun he
    rw [hrun, hsame] at hseen
    exact List.any_eq_true.1 (Option.some.inj hseen)

end MemoPeg
