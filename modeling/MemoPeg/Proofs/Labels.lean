import MemoPeg.Proofs.Compilation
import MemoPeg.Proofs.Lockstep

/-
  Labels of actions are seen in renderings only.

  A module has no labels in it: two grammars that were emitted alike may show other texts for their
  actions.  What they do must not differ for that.

  1. **Trees (`Operator.mapActions`)** — an operator with each of its actions replaced.
  2. **Alike (`RuleSet.RunAlike`)** — two rule sets cannot be told apart by running them, from whatever
     engine and with whatever fuel, nor by how failures are reported.
  3. **Relabelled grammars (`Grammar.Relabelled`)** — the second has the rules of the first, with actions
     replaced, and links that lead to the same rule sets.
  4. **The crux (`Grammar.Relabelled.agree`)** — if the new actions do what the old ones did, then bodies and
     operators do what they did: one induction on the fuel carries both, since a body needs its operator
     and a call needs the body of its rule, each with less fuel.

  Rendered bodies are in the registry and show labels, and reports of failures quote them.  So that two
  grammars run alike takes equal registries as well; it does not follow from 4 alone.
-/

namespace MemoPeg

/-! ## Trees and their actions -/

namespace Operator

variable [RegexLibrary]

mutual

/-- The operator with each action replaced. -/
def mapActions (f : Action → Action) : Operator → Operator
  | .sequence ops => .sequence (mapActionsAll f ops)
  | .choice ops => .choice (mapActionsAll f ops)
  | .repetition op min max captures => .repetition (mapActions f op) min max captures
  | .ahead op => .ahead (mapActions f op)
  | .notAhead op => .notAhead (mapActions f op)
  | .tag op name => .tag (mapActions f op) name
  | .action a => .action (f a)
  | .collect op => .collect (mapActions f op)
  | .bounds op => .bounds (mapActions f op)
  | op => op

/-- The operators with each action replaced. -/
def mapActionsAll (f : Action → Action) : List Operator → List Operator
  | [] => []
  | op :: ops => mapActions f op :: mapActionsAll f ops

end

end Operator

namespace Operator

variable [RegexLibrary]

/-- Actions are replaced part by part. -/
theorem mapActionsAll_eq (f : Action → Action) (ops : List Operator) :
    mapActionsAll f ops = ops.map (mapActions f) := by
  induction ops with
  | nil => rfl
  | cons op ops ih => rw [mapActionsAll, ih, List.map_cons]

/-- An operator that is an action is one with its action replaced. -/
theorem action?_mapActions (f : Action → Action) (op : Operator) :
    (op.mapActions f).action? = op.action?.map f := by
  cases op <;> rfl

end Operator

variable [RegexLibrary]

/-! ## Alike -/

/-- Nothing that a run or a report shows tells the rule sets apart. -/
structure RuleSet.RunAlike (rs rs' : RuleSet) : Prop where
  body : ∀ (fuel : Nat) (rule : RuleId) (args : List Value) (e : Engine),
    rs'.body fuel rule args e = rs.body fuel rule args e
  invoke : ∀ (fuel : Nat) (rule : RuleId) (args : List Value) (e : Engine),
    e.invokeRule fuel rs' rule args = e.invokeRule fuel rs rule args
  apply : ∀ (fuel : Nat) (rule : RuleId) (args : List Value) (e : Engine),
    e.applyRule fuel rs' rule args = e.applyRule fuel rs rule args
  parse : ∀ (fuel : Nat) (start : Option String) (toEnd : Bool) (e : Engine),
    Parser.parse fuel start ⟨rs', toEnd, e⟩ =
      (Parser.parse fuel start ⟨rs, toEnd, e⟩).map fun (ok, p) => (ok, { p with rules := rs' })
  reports : ∀ (furthest : Furthest) (t : Text),
    furthest.error t rs' = furthest.error t rs ∧ furthest.report t rs' = furthest.report t rs

/-- Rule sets with the same registry, root, names and bodies run alike. -/
theorem RuleSet.RunAlike.of_bodies {rs rs' : RuleSet} (hregistry : rs'.registry = rs.registry)
    (hroot : rs'.root = rs.root) (hlookup : ∀ name, rs'.lookup name = rs.lookup name)
    (hbody : ∀ fuel, rs'.body fuel = rs.body fuel) : rs.RunAlike rs' := by
  have hrunner : ∀ fuel, rs'.runner fuel = rs.runner fuel := fun fuel => by
    rw [RuleSet.runner, RuleSet.runner, RuleSet.ruleName_congr hregistry, hbody]
  exact
    { body := fun fuel rule args e => by rw [hbody]
      invoke := fun fuel rule args e => by rw [Engine.invokeRule, Engine.invokeRule, hrunner]
      apply := fun fuel rule args e => by rw [Engine.applyRule, Engine.applyRule, hrunner]
      parse := fun fuel start => Parser.parse_congr (Parser.startRule_congr hroot hlookup start) (hrunner fuel)
      reports := Furthest.diagnostics_congr hregistry }

/-! ## Relabelled grammars -/

/-- The rules of the second grammar are those of the first with each action replaced, and the links lead
    to the same rule sets. -/
structure Grammar.Relabelled (f : Action → Action) (g g' : Grammar) : Prop where
  rules : g'.rules = g.rules.map (Rule.mapBody (Operator.mapActions f))
  links : ∀ name, g'.link? name = g.link? name

omit [RegexLibrary] in
/-- What an action does to an engine depends on what it does, not on its label. -/
theorem Engine.perform_congr {a b : Action} (h : a.run = b.run) (scope : Scope) (e : Engine) :
    e.perform a scope = e.perform b scope := by
  rw [perform, perform, h]

omit [RegexLibrary] in
/-- Steps of such actions are the same. -/
theorem Step.action_congr {a b : Action} (h : a.run = b.run) : Step.action a = Step.action b := by
  funext frame
  simp only [Step.action, Engine.perform_congr h]

omit [RegexLibrary] in
/-- So are tests of them. -/
theorem Step.test_congr {a b : Action} (h : a.run = b.run) (wanted : Bool) :
    Step.test a wanted = Step.test b wanted := by
  funext frame
  simp only [Step.test, Engine.perform_congr h]

namespace Grammar

namespace Relabelled

variable {f : Action → Action} {g g' : Grammar}

/-- Rules keep their names. -/
theorem lookup_eq (h : Relabelled f g g') (name : String) : g'.lookup name = g.lookup name := by
  rw [g'.lookup_eq, g.lookup_eq, h.rules, List.findIdx?_map]
  rfl

/-- They keep their names in messages too. -/
theorem ruleName_eq (h : Relabelled f g g') :
    (RuleSet.grammar g').ruleName = (RuleSet.grammar g).ruleName := by
  funext rule
  simp only [RuleSet.ruleName, RuleSet.nameOf?_grammar, h.rules, List.getElem?_map, Option.map_map]
  rfl

/-- **Relabelling changes no run**, if the new actions do what the old ones did. -/
theorem agree (h : Relabelled f g g') (hf : ∀ a, (f a).run = a.run) : ∀ fuel,
    RuleSet.body fuel (.grammar g') = RuleSet.body fuel (.grammar g) ∧
    ∀ op : Operator, eval fuel g' (op.mapActions f) = eval fuel g op := by
  intro fuel
  induction fuel with
  | zero => exact ⟨rfl, fun op => rfl⟩
  | succ fuel ih =>
    obtain ⟨bodies, part⟩ := ih
    have parts : ∀ ops : List Operator,
        (Operator.mapActionsAll f ops).map (eval fuel g') = ops.map (eval fuel g) := by
      intro ops
      rw [Operator.mapActionsAll_eq, List.map_map]
      exact List.map_congr_left fun op _ => part op
    -- Bodies first: a body is the operator of its rule, run with less fuel.
    constructor
    · funext rule args e
      simp only [RuleSet.body, h.rules, List.getElem?_map]
      cases g.rules[rule]? with
      | none => rfl
      | some r => simp only [Option.map_some, Rule.body_mapBody, Rule.params_mapBody, part]
    · intro op
      cases op with
      | any => rfl
      | literal s => rfl
      | pattern p => rfl
      | range lo hi => rfl
      | sequence ops => simp only [Operator.mapActions, eval, parts]
      | choice ops => simp only [Operator.mapActions, eval, parts]
      | repetition op min max captures => simp only [Operator.mapActions, eval, part]
      | ahead op =>
        -- An action below a predicate is run as a test, and then there is no operand to compare.
        cases haction : op.action? with
        | none =>
          have hmapped : (op.mapActions f).action? = none := by
            rw [Operator.action?_mapActions, haction, Option.map_none]
          rw [Operator.mapActions, eval_ahead _ _ hmapped, eval_ahead _ _ haction, part]
        | some a =>
          cases op <;> cases haction
          exact Step.test_congr (hf a) true
      | notAhead op =>
        cases haction : op.action? with
        | none =>
          have hmapped : (op.mapActions f).action? = none := by
            rw [Operator.action?_mapActions, haction, Option.map_none]
          rw [Operator.mapActions, eval_notAhead _ _ hmapped, eval_notAhead _ _ haction, part]
        | some a =>
          cases op <;> cases haction
          exact Step.test_congr (hf a) false
      | tag op name => simp only [Operator.mapActions, eval, part]
      | action a => exact Step.action_congr (hf a)
      | collect op => simp only [Operator.mapActions, eval, part]
      | bounds op => simp only [Operator.mapActions, eval, part]
      | call name args =>
        simp only [Operator.mapActions, eval, h.lookup_eq, h.ruleName_eq, bodies]
      | direct name args =>
        simp only [Operator.mapActions, eval, h.lookup_eq, h.ruleName_eq, bodies]
      | «foreign» grammar name args => simp only [Operator.mapActions, eval, h.links]

end Relabelled

end Grammar

/-- The program of a grammar runs the bodies of the grammar. -/
theorem RuleSet.body_compile (g : Grammar) (fuel : Nat) :
    RuleSet.body fuel (.program g.compile) = RuleSet.body fuel (.grammar g) :=
  congrArg Runner.body (agreeWith fuel _ _ (.compile g))

/-- Grammars that can be relabelled to one run alike, as written and compiled, if their registries and
    roots are the same. -/
theorem Grammar.Relabelled.runAlike {f : Action → Action} {g h common : Grammar}
    (hf : ∀ a, (f a).run = a.run) (hg : g.Relabelled f common) (hh : h.Relabelled f common)
    (hregistry : h.registry = g.registry) (hroot : h.root = g.root) :
    (RuleSet.grammar g).RunAlike (.grammar h) ∧
    (RuleSet.program g.compile).RunAlike (.program h.compile) := by
  have hlookup : ∀ name, h.lookup name = g.lookup name := fun name =>
    (hh.lookup_eq name).symm.trans (hg.lookup_eq name)
  have hbody : ∀ fuel, RuleSet.body fuel (.grammar h) = RuleSet.body fuel (.grammar g) := fun fuel =>
    (hh.agree hf fuel).1.symm.trans (hg.agree hf fuel).1
  constructor
  · exact .of_bodies hregistry (congrArg some hroot) hlookup hbody
  -- Programs run the bodies of their grammars, so what was shown of these is all there is to show.
  · refine .of_bodies hregistry (congrArg some hroot) (fun name => ?_) fun fuel => ?_
    · rw [(CompiledForm.compile h).lookup_eq, (CompiledForm.compile g).lookup_eq]
      exact hlookup name
    · rw [RuleSet.body_compile, RuleSet.body_compile, hbody]

end MemoPeg
