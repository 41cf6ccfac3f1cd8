import MemoPeg.Proofs.Compilation
import MemoPeg.Regex.Reader

/-
  What operators do to the bindings.

  Tags, texts and bounds put values into the scope of the rule that is run; actions and arguments read
  them.  What one alternative has bound must not be seen by the next one.

  1. **Exposed nodes** — the nodes of an operator that stand outside all of its predicates, and the names
     that tags, texts and bounds among them bind.
  2. **Specification** — an operator that fails leaves the bindings as they were.  One that matches adds
     bindings at the end, under names that its exposed nodes bind.  A predicate leaves them as they
     were either way.
  3. **The crux (`Step.Binds`)** — a part that fails has added nothing, so a choice and a repetition that
     stops have nothing to undo; a sequence, a repetition with too few rounds and a predicate go back
     to a mark that lies before all that was added.
  4. **The induction** — over fuel, for all operators at once, since the rounds of a repetition and the rest
     of a sequence run with less of it.  Compiled code is known to do the same and inherits the result.

  A mark is a length, and going back to it cuts the scope off there.  That this restores the scope is
  `GrowsBy.rollback`; it needs that nothing below the mark has changed in between, which is why 2 says that
  bindings are added *at the end* and not only which names are bound.
-/

namespace MemoPeg

/-! ## Names that an operator binds -/

namespace Operator

variable [RegexLibrary]

mutual

/-- The operator and everything below it that is below no predicate. -/
def exposed : Operator → List Operator
  | .sequence ops => .sequence ops :: exposedAll ops
  | .choice ops => .choice ops :: exposedAll ops
  | .repetition op min max captures => .repetition op min max captures :: exposed op
  | .tag op name => .tag op name :: exposed op
  | .collect op => .collect op :: exposed op
  | .bounds op => .bounds op :: exposed op
  | op => [op]

/-- The exposed nodes of a row of operators. -/
def exposedAll : List Operator → List Operator
  | [] => []
  | op :: ops => exposed op ++ exposedAll ops

end

/-- The name under which an operator binds its own value, if it does. -/
def boundName? : Operator → Option String
  | .tag _ name => some name
  | .collect _ => some "text"
  | .bounds _ => some "bounds"
  | _ => none

/-- A node of the operator outside its predicates binds the name. -/
def BindsName (op : Operator) (name : String) : Prop :=
  ∃ node ∈ op.exposed, node.boundName? = some name

/-- The operator looks ahead. -/
def isPredicate : Operator → Bool
  | .ahead _ | .notAhead _ => true
  | _ => false

/-- What is tagged below a predicate is not exposed. -/
example : (Operator.sequence [.tag .any "x", .ahead (.tag .any "y"), .collect .any]).exposed.filterMap
    boundName? = ["x", "text"] := rfl

/-- What a part exposes is exposed in the row. -/
theorem mem_exposedAll {ops : List Operator} {op o : Operator} (hop : op ∈ ops)
    (ho : o ∈ op.exposed) : o ∈ exposedAll ops := by
  induction ops with
  | nil => cases hop
  | cons op' ops ih =>
    rcases List.mem_cons.1 hop with rfl | hop
    · exact List.mem_append_left _ ho
    · exact List.mem_append_right _ (ih hop)

/-- What a part of a sequence binds, the sequence binds. -/
theorem BindsName.sequence {ops : List Operator} {op : Operator} {name : String} (hop : op ∈ ops)
    (h : op.BindsName name) : (Operator.sequence ops).BindsName name := by
  obtain ⟨node, hnode, hname⟩ := h
  exact ⟨node, List.mem_cons_of_mem _ (mem_exposedAll hop hnode), hname⟩

/-- What an alternative binds, the choice binds. -/
theorem BindsName.choice {ops : List Operator} {op : Operator} {name : String} (hop : op ∈ ops)
    (h : op.BindsName name) : (Operator.choice ops).BindsName name := by
  obtain ⟨node, hnode, hname⟩ := h
  exact ⟨node, List.mem_cons_of_mem _ (mem_exposedAll hop hnode), hname⟩

/-- What is exposed in the only part of an operator that is no predicate is exposed in the operator. -/
theorem BindsName.of_part {part : Operator} {name : String} (h : part.BindsName name) (op : Operator)
    (hop : op.exposed = op :: part.exposed) : op.BindsName name := by
  obtain ⟨node, hnode, hname⟩ := h
  exact ⟨node, hop ▸ List.mem_cons_of_mem _ hnode, hname⟩

/-- An operator binds its own name. -/
theorem BindsName.self {op : Operator} {name : String} (hop : op ∈ op.exposed)
    (h : op.boundName? = some name) : op.BindsName name := ⟨op, hop, h⟩

end Operator

/-! ## Growing scopes -/

/-- The second scope has bindings of these names on top of the first. -/
def Scope.GrowsBy (names : String → Prop) (s s' : Scope) : Prop :=
  ∃ new : Scope, s' = s ++ new ∧ ∀ b ∈ new, names b.1

namespace Scope.GrowsBy

variable {names : String → Prop} {s s' s'' : Scope}

/-- A scope to which nothing is added. -/
theorem refl (names : String → Prop) (s : Scope) : GrowsBy names s s :=
  ⟨[], (List.append_nil s).symm, fun _ hb => absurd hb List.not_mem_nil⟩

/-- What is added later comes on top of what was added before. -/
theorem trans (h : GrowsBy names s s') (k : GrowsBy names s' s'') : GrowsBy names s s'' := by
  obtain ⟨new, rfl, hnew⟩ := h
  obtain ⟨newer, rfl, hnewer⟩ := k
  refine ⟨new ++ newer, List.append_assoc _ _ _, fun b hb => ?_⟩
  exact (List.mem_append.1 hb).elim (hnew b) (hnewer b)

/-- A new binding is added at the end. -/
theorem bind (h : GrowsBy names s s') {name : String} (hname : names name) (v : Value) :
    GrowsBy names s (s'.bind name v) := by
  refine h.trans ⟨[(name, v)], rfl, fun b hb => ?_⟩
  rw [List.mem_singleton.1 hb]
  exact hname

/-- More names may be allowed. -/
theorem mono (h : GrowsBy names s s') {names' : String → Prop}
    (hnames : ∀ name, names name → names' name) : GrowsBy names' s s' := by
  obtain ⟨new, rfl, hnew⟩ := h
  exact ⟨new, rfl, fun b hb => hnames b.1 (hnew b hb)⟩

/-- Going back to the mark takes away all that was added. -/
theorem rollback (h : GrowsBy names s s') : s'.rollback s.mark = s := by
  obtain ⟨new, rfl, -⟩ := h
  exact Scope.rollback_append s new

end Scope.GrowsBy

/-! ## What steps do to the bindings -/

/-- The step adds bindings of these names only, and none if it fails. -/
def Step.Binds (names : String → Prop) (s : Step) : Prop :=
  ∀ f o g, s f = .ok (o, g) → f.scope.GrowsBy names g.scope ∧ (o = .failed → g.scope = f.scope)

namespace Step.Binds

variable {names : String → Prop} {s : Step}

/-- A step that leaves every scope as it was. -/
theorem of_kept (h : ∀ f o g, s f = .ok (o, g) → g.scope = f.scope) : s.Binds names := by
  intro f o g hrun
  have hkept := h f o g hrun
  exact ⟨hkept ▸ .refl names f.scope, fun _ => hkept⟩

/-- A step may be allowed more names than it binds. -/
theorem mono (h : s.Binds names) {names' : String → Prop}
    (hnames : ∀ name, names name → names' name) : s.Binds names' := fun f o g hrun =>
  ⟨(h f o g hrun).1.mono hnames, (h f o g hrun).2⟩

/-- A terminal leaves the scope alone. -/
theorem terminal {α : Type} (read : Engine → Run (Option (α × Engine))) (toValue : α → Value) :
    (Step.terminal read toValue).Binds names := by
  refine of_kept fun f o g hrun => ?_
  rcases Step.terminal_eq_ok hrun with ⟨a, e, -, -, rfl⟩ | ⟨-, -, rfl⟩
  · rfl
  · rfl

/-- The rest of a sequence adds to what its first parts have added since the start. -/
theorem sequenceFrom {start : Frame} : ∀ (steps : List Step), (∀ s ∈ steps, s.Binds names) →
    ∀ (value : Value) f o g, Step.sequenceFrom start steps value f = .ok (o, g) →
      start.scope.GrowsBy names f.scope →
        start.scope.GrowsBy names g.scope ∧ (o = .failed → g.scope = start.scope) := by
  intro steps
  induction steps with
  | nil =>
    intro _ value f o g hrun hgrown
    cases hrun
    exact ⟨hgrown, fun h => by cases h⟩
  | cons s ss ih =>
    intro hs value f o g hrun hgrown
    rcases Step.sequenceFrom_cons_eq_ok hrun with ⟨stop, v, m, hm, hrest⟩ | ⟨m, hm, rfl, rfl⟩
    · have hpart := (hs s List.mem_cons_self f _ m hm).1
      exact ih (fun t ht => hs t (List.mem_cons_of_mem s ht)) v m o g hrest (hgrown.trans hpart)
    · -- The mark of the start lies below what this part and the ones before it have added.
      have hpart := (hs s List.mem_cons_self f _ m hm).1
      have hback : (m.back start).scope = start.scope := (hgrown.trans hpart).rollback
      exact ⟨hback ▸ .refl names start.scope, fun _ => hback⟩

/-- A sequence adds what its parts add, and takes it back if one of them fails. -/
theorem sequence {steps : List Step} (hs : ∀ s ∈ steps, s.Binds names) :
    (Step.sequence steps).Binds names := fun f o g hrun =>
  sequenceFrom steps hs .nil f o g hrun (.refl names f.scope)

/-- A choice adds what one of its alternatives adds. -/
theorem choice : ∀ {steps : List Step}, (∀ s ∈ steps, s.Binds names) →
    (Step.choice steps).Binds names := by
  intro steps
  induction steps with
  | nil =>
    intro _ f o g hrun
    cases hrun
    exact ⟨.refl names f.scope, fun _ => rfl⟩
  | cons s ss ih =>
    intro hs f o g hrun
    rcases Step.choice_cons_eq_ok hrun with ⟨stop, v, hm, rfl⟩ | ⟨m, hm, hrest⟩
    · exact hs s List.mem_cons_self f _ g hm
    · -- An alternative that fails has left the scope as it was.
      have hkept : m.scope = f.scope := (hs s List.mem_cons_self f _ m hm).2 rfl
      have hnext := ih (fun t ht => hs t (List.mem_cons_of_mem s ht)) m o g hrest
      rw [hkept] at hnext
      exact hnext

/-- Rounds add up; a last one that fails has added nothing. -/
theorem rounds (hs : s.Binds names) : ∀ (fuel : Nat) (left : Option Nat) (values : List Value)
    f values' g, Step.rounds s fuel left values f = .ok (values', g) →
      f.scope.GrowsBy names g.scope := by
  intro fuel
  induction fuel with
  | zero => intro left values f values' g hrun; cases hrun
  | succ fuel ih =>
    intro left values f values' g hrun
    rcases Step.rounds_succ_eq_ok hrun with ⟨-, -, rfl⟩ | ⟨-, hm, -⟩ |
      ⟨-, stop, v, m, hm, ⟨-, -, -, rfl⟩ | ⟨-, hrest⟩⟩
    · exact .refl names g.scope
    · exact (hs f _ g hm).1
    · exact (hs f _ g hm).1
    · exact (hs f _ m hm).1.trans (ih _ _ m values' g hrest)

/-- A repetition adds what its rounds add, and takes it back if there were too few. -/
theorem repetition (hs : s.Binds names) (min : Nat) (max : Option Nat) (captures : Bool)
    (fuel : Nat) : (Step.repetition s min max captures fuel).Binds names := by
  intro f o g hrun
  obtain ⟨values, m, hm, hrest⟩ := Step.repetition_eq_ok hrun
  have hrounds := hs.rounds fuel max [] f values m hm
  rcases hrest with ⟨-, rfl, rfl⟩ | ⟨-, rfl, rfl⟩
  · have hback : (m.back f).scope = f.scope := hrounds.rollback
    exact ⟨hback ▸ .refl names f.scope, fun _ => hback⟩
  · exact ⟨hrounds, fun h => by cases h⟩

/-- A predicate leaves the scope as it was, whatever its operator binds. -/
theorem ahead (hs : s.Binds names) (names' : String → Prop) : (Step.ahead s).Binds names' := by
  refine of_kept fun f o g hrun => ?_
  obtain ⟨part, m, hm, rfl, -⟩ := Step.ahead_eq_ok hrun
  exact (hs f part m hm).1.rollback

/-- So does a negated one. -/
theorem notAhead (hs : s.Binds names) (names' : String → Prop) :
    (Step.notAhead s).Binds names' := by
  refine of_kept fun f o g hrun => ?_
  obtain ⟨part, m, hm, rfl, -⟩ := Step.notAhead_eq_ok hrun
  exact (hs f part m hm).1.rollback

/-- An action that is tested adds nothing: it is given the scope and gives back a value. -/
theorem test (a : Action) (wanted : Bool) : (Step.test a wanted).Binds names := by
  refine of_kept fun f o g hrun => ?_
  obtain ⟨rfl, -⟩ := Step.test_eq_ok hrun
  rfl

theorem action (a : Action) : (Step.action a).Binds names := by
  refine of_kept fun f o g hrun => ?_
  obtain ⟨-, rfl⟩ := Step.action_eq_ok hrun
  rfl

/-- A binding adds its name last. -/
theorem binding (hs : s.Binds names) {name : String} (hname : names name)
    (value : Frame → Nat → Value → Value) : (Step.binding s name value).Binds names := by
  intro f o g hrun
  rcases Step.binding_eq_ok hrun with ⟨stop, v, m, hm, rfl, rfl⟩ | ⟨hm, rfl⟩
  · exact ⟨(hs f _ m hm).1.bind hname _, fun h => by cases h⟩
  · exact hs f _ g hm

/-- A step that always fails leaves the scope as it was. -/
theorem fail : Step.fail.Binds names := by
  refine of_kept fun f o g hrun => ?_
  cases hrun
  rfl

/-- A rule runs in a scope of its own, so calling it adds nothing. -/
theorem call (run : List Value → Engine → Run (Outcome × Engine)) (args : List Arg) :
    (Step.call run args).Binds names := by
  refine of_kept fun f o g hrun => ?_
  obtain ⟨e, -, rfl⟩ := Step.call_eq_ok hrun
  rfl

end Step.Binds

section

variable [RegexLibrary]

/-! ## Operators -/

/-- An operator adds bindings under the names that its exposed nodes bind, a predicate none at all. -/
theorem Grammar.eval_binds (g : Grammar) : ∀ (n : Nat) (op : Operator),
    (g.eval n op).Binds op.BindsName ∧ (op.isPredicate → (g.eval n op).Binds fun _ => False) := by
  intro n
  induction n with
  | zero =>
    intro op
    exact ⟨fun f o g hrun => (by cases hrun), fun _ f o g hrun => by cases hrun⟩
  | succ n ih =>
    intro op
    have part : ∀ op : Operator, (g.eval n op).Binds op.BindsName := fun op => (ih op).1
    -- All that is not a predicate has to be looked at for its names only.
    have plain : ∀ {op : Operator}, op.isPredicate = false → (g.eval (n + 1) op).Binds op.BindsName →
        (g.eval (n + 1) op).Binds op.BindsName ∧
          (op.isPredicate → (g.eval (n + 1) op).Binds fun _ => False) := by
      intro op hop h
      exact ⟨h, fun hpredicate => absurd hpredicate (by rw [hop]; decide)⟩
    -- A predicate adds nothing, under whatever names.
    have predicate : ∀ {op : Operator}, (∀ names, (g.eval (n + 1) op).Binds names) →
        (g.eval (n + 1) op).Binds op.BindsName ∧
          (op.isPredicate → (g.eval (n + 1) op).Binds fun _ => False) :=
      fun h => ⟨h _, fun _ => h _⟩
    cases op with
    | any => exact plain rfl (.terminal (fun e => .ok e.readChar) .char)
    | literal s => exact plain rfl (.terminal (·.readLiteral s.toList) Step.textValue)
    | pattern p => exact plain rfl (.terminal (·.readPattern p.matcher) Step.textValue)
    | range lo hi =>
      refine plain rfl ?_
      simp only [Grammar.eval]
      cases singleChars lo hi with
      | none => exact .fail
      | some bounds => exact .terminal (fun e => .ok (e.readRange bounds.1 bounds.2)) .char
    | sequence ops =>
      refine plain rfl (.sequence fun s hs => ?_)
      obtain ⟨op, hop, rfl⟩ := List.mem_map.1 hs
      exact (part op).mono fun name hname => hname.sequence hop
    | choice ops =>
      refine plain rfl (.choice fun s hs => ?_)
      obtain ⟨op, hop, rfl⟩ := List.mem_map.1 hs
      exact (part op).mono fun name hname => hname.choice hop
    | repetition op min max captures =>
      have hop := (part op).mono fun name hname =>
        hname.of_part (.repetition op min max captures) rfl
      exact plain rfl (hop.repetition min max captures n)
    | ahead op =>
      refine predicate fun names => ?_
      cases op with
      | action a => exact .test a true
      | _ => exact (part _).ahead names
    | notAhead op =>
      refine predicate fun names => ?_
      cases op with
      | action a => exact .test a false
      | _ => exact (part _).notAhead names
    | tag op name =>
      have hop := (part op).mono fun other hother => hother.of_part (.tag op name) rfl
      exact plain rfl (hop.binding (.self List.mem_cons_self rfl) _)
    | action a => exact plain rfl (.action a)
    | collect op =>
      have hop := (part op).mono fun other hother => hother.of_part (.collect op) rfl
      exact plain rfl (hop.binding (.self List.mem_cons_self rfl) _)
    | bounds op =>
      have hop := (part op).mono fun other hother => hother.of_part (.bounds op) rfl
      exact plain rfl (hop.binding (.self List.mem_cons_self rfl) _)
    | call name args =>
      refine plain rfl ?_
      simp only [Grammar.eval]
      cases g.lookup name with
      | none => exact .fail
      | some rule => exact .call _ args
    | direct name args =>
      refine plain rfl ?_
      simp only [Grammar.eval]
      cases g.lookup name with
      | none => exact .fail
      | some rule => exact .call _ args
    | «foreign» grammar name args =>
      refine plain rfl ?_
      simp only [Grammar.eval]
      cases g.link? grammar with
      | none => exact .fail
      | some callee =>
        simp only
        cases callee.lookup name with
        | none => exact .fail
        | some rule => exact .call _ args

/-- **Bindings are kept or added.**  Let an operator of a grammar, or its code in the compiled grammar,
    end in any engine and scope.  If it has failed, the scope is what it was.  If it has matched,
    the scope before is the beginning of the scope after, and each binding that was added has a
    name that a tag, a text or a bounds node of the operator outside its predicates binds.  A
    predicate has left the scope as it was. -/
theorem bindings_kept_or_added (g : Grammar) (op : Operator) (n : Nat) (f f' : Frame) (o : Outcome)
    (h : g.eval n op f = .ok (o, f') ∨ g.compile.exec n (g.compileOp op) f = .ok (o, f')) :
    (o = .failed → f'.scope = f.scope) ∧
    (∀ stop v, o = .matched stop v → ∃ new : Scope, f'.scope = f.scope ++ new ∧
      ∀ b ∈ new, ∃ node ∈ op.exposed, node.boundName? = some b.1) ∧
    (op.isPredicate → f'.scope = f.scope) := by
  have hrun : g.eval n op f = .ok (o, f') := by
    rcases h with h | h
    · exact h
    · rw [exec_compileOp g n (fun m _ => agreeWith m _ _ (.compile g)) op] at h
      exact h
  obtain ⟨hbinds, hpredicate⟩ := g.eval_binds n op
  obtain ⟨hgrown, hfailed⟩ := hbinds f o f' hrun
  refine ⟨hfailed, fun _ _ _ => hgrown, fun hop => ?_⟩
  obtain ⟨new, hnew, hnone⟩ := (hpredicate hop f o f' hrun).1
  obtain rfl : new = [] := List.eq_nil_iff_forall_not_mem.2 fun b hb => hnone b hb
  rw [hnew, List.append_nil]

end

/-- A letter that must stand before another one and a mark; else a letter before another one. -/
def peekedPair : Operator :=
  .choice [.sequence [.tag .any "x", .ahead (.tag .any "x"), .any, .literal "!"],
    .sequence [.tag .any "y", .ahead (.tag .any "x")]]

/-- A grammar of one rule that matches such a pair. -/
def peeking : Grammar := .ofRules "peeking" [⟨"pair", ["n"], peekedPair⟩] 0 [] []

/-- On `ab` the first alternative binds `x` and fails.  The second one binds `y`, and what it tags ahead
    is not bound. -/
theorem bindings_kept_or_added_peekedPair :
    ∃ f', peeking.eval 9 peekedPair ⟨Engine.startingAt "ab".toList 0, [("n", .nil)]⟩ =
        .ok (.matched 1 (.char 'b'), f') ∧ f'.scope = [("n", .nil), ("y", .char 'a')] ∧
      ∃ new : Scope, f'.scope = [("n", .nil)] ++ new ∧
        ∀ b ∈ new, ∃ node ∈ peekedPair.exposed, node.boundName? = some b.1 := by
  have hends : ((peeking.eval 9 peekedPair ⟨Engine.startingAt "ab".toList 0, [("n", .nil)]⟩).map
      fun r => (r.1, r.2.scope)).toOption =
      some (.matched 1 (.char 'b'), [("n", .nil), ("y", .char 'a')]) := by decide +kernel
  cases hrun : peeking.eval 9 peekedPair ⟨Engine.startingAt "ab".toList 0, [("n", .nil)]⟩ with
  | error stop => rw [hrun] at hends; cases hends
  | ok r =>
    obtain ⟨o, f'⟩ := r
    rw [hrun] at hends
    obtain ⟨rfl, hscope⟩ := Prod.mk.inj (Option.some.inj hends)
    obtain ⟨-, hadded, -⟩ := bindings_kept_or_added peeking peekedPair 9 _ f' _ (.inl hrun)
    exact ⟨f', rfl, hscope, hadded 1 (.char 'b') rfl⟩

end MemoPeg
