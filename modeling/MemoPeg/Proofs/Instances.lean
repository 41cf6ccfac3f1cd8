import MemoPeg.Emit.Instance
import MemoPeg.Proofs.Lossless

/-
  What modules make.

  A module is emitted without the actions of its grammar: it takes them, as a list, when a parser is made of it.
  So the same module makes many parsers, and a parser made with the actions of the grammar should run like the
  grammar.

  1. **Refilling** — a tree that is given what its own actions do is itself again
     (`Operator.refill_actions`).  What becomes of a tree does not depend on what its actions were, but for
     their labels (`Operator.unlabelled_refill`): a tree with other actions in the same places takes a list
     in the same way.
  2. **Own actions (`Grammar.instantiate_actions`)** — with the actions and the links of its grammar, a module
     makes the program of the grammar.
  3. **The theorem (`stream_determines_instance`)** — modules that are the same token stream make parsers that
     run alike of whatever actions and links, or refuse them alike.

  3 is what makes it right to say that a module, and not the grammar behind it, makes the parser.  It is not
  immediate: from a stream the grammar is known only up to its actions, and the parser is defined by way of
  the grammar.  That the actions have no influence, in places as in number, is 1.

  A list of actions that is too long or too short is refused, as the count in the module is compared with it.
-/

namespace MemoPeg

namespace Operator

variable [RegexLibrary]

/-! ## Refilling -/

/-- The trees of a row take what their own actions do, one after the other. -/
theorem refillAll_actions {ops : List Operator}
    (h : ∀ op ∈ ops, ∀ rest, op.refill (op.actions.map Action.run ++ rest) = op) (rest : List ActionRun) :
    refillAll ops ((ops.flatMap actions).map Action.run ++ rest) = ops := by
  induction ops generalizing rest with
  | nil => rfl
  | cons op ops ih =>
    have hlength : (op.actions.map Action.run).length = op.actions.length := List.length_map _
    rw [List.flatMap_cons, List.map_append, List.append_assoc, refillAll, h op List.mem_cons_self,
      List.drop_left' hlength, ih fun o ho => h o (List.mem_cons_of_mem op ho)]

/-- **A tree takes what its own actions do as itself**, and leaves the rest of the list. -/
theorem refill_actions (op : Operator) (rest : List ActionRun) :
    op.refill (op.actions.map Action.run ++ rest) = op := by
  rw [actions_eq]
  cases op with
  | sequence ops | choice ops =>
    have hparts : ∀ o ∈ ops, ∀ rest, o.refill (o.actions.map Action.run ++ rest) = o := fun o ho rest => by
      have hless : sizeOf o < sizeOf ops := List.sizeOf_lt_of_mem ho
      exact refill_actions o rest
    simp only [action?, children, Option.toList_none, List.nil_append, refill, refillAll_actions hparts]
  | repetition c _ _ _ | ahead c | notAhead c | tag c _ | collect c | bounds c =>
    simp only [action?, children, Option.toList_none, List.nil_append, List.flatMap_singleton, refill,
      refill_actions c]
  | action a => rfl
  | _ => rfl
termination_by sizeOf op

/-- Other actions stand in the same parts. -/
theorem children_mapActions (f : Action → Action) (op : Operator) :
    (op.mapActions f).children = op.children.map (mapActions f) := by
  cases op with
  | sequence ops | choice ops => exact mapActionsAll_eq f ops
  | _ => rfl

/-- The actions of a tree with each action replaced. -/
theorem actions_mapActions (f : Action → Action) (op : Operator) :
    (op.mapActions f).actions = op.actions.map f := by
  have hchildren : (op.children.map (mapActions f)).flatMap actions = (op.children.flatMap actions).map f := by
    rw [List.flatMap_map, List.map_flatMap]
    refine List.flatMap_congr fun c hc => ?_
    have hless : sizeOf c < sizeOf op := sizeOf_child hc
    exact actions_mapActions f c
  rw [actions_eq, actions_eq, action?_mapActions, children_mapActions, hchildren, List.map_append]
  cases op.action? <;> rfl
termination_by sizeOf op

/-- What becomes of a row does not depend on what its actions were. -/
theorem unlabelled_refillAll (f : Action → Action) {ops : List Operator}
    (h : ∀ op ∈ ops, ∀ runs, ((op.mapActions f).refill runs).mapActions Action.unlabelled =
      (op.refill runs).mapActions Action.unlabelled) (runs : List ActionRun) :
    mapActionsAll Action.unlabelled (refillAll (mapActionsAll f ops) runs) =
      mapActionsAll Action.unlabelled (refillAll ops runs) := by
  induction ops generalizing runs with
  | nil => rfl
  | cons op ops ih =>
    simp only [mapActionsAll, refillAll, actions_mapActions, List.length_map]
    rw [h op List.mem_cons_self, ih fun o ho => h o (List.mem_cons_of_mem op ho)]

/-- **What becomes of a tree does not depend on what its actions were**, but for their labels. -/
theorem unlabelled_refill (f : Action → Action) (op : Operator) (runs : List ActionRun) :
    ((op.mapActions f).refill runs).mapActions Action.unlabelled =
      (op.refill runs).mapActions Action.unlabelled := by
  cases op with
  | sequence ops | choice ops =>
    have hparts : ∀ o ∈ ops, ∀ runs, ((o.mapActions f).refill runs).mapActions Action.unlabelled =
        (o.refill runs).mapActions Action.unlabelled := fun o ho runs => by
      have hless : sizeOf o < sizeOf ops := List.sizeOf_lt_of_mem ho
      exact unlabelled_refill f o runs
    simp only [mapActions, refill, unlabelled_refillAll f hparts]
  | repetition c _ _ _ | ahead c | notAhead c | tag c _ | collect c | bounds c =>
    simp only [mapActions, refill, unlabelled_refill f c]
  | _ => rfl
termination_by sizeOf op

/-- A row is written the same whatever its actions do. -/
theorem renderAll_refillAll (place : Place) {ops : List Operator}
    (h : ∀ op ∈ ops, ∀ place runs, (op.refill runs).renderAt place = op.renderAt place)
    (runs : List ActionRun) : renderAll place (refillAll ops runs) = renderAll place ops := by
  induction ops generalizing runs with
  | nil => rfl
  | cons op ops ih =>
    rw [refillAll, renderAll, renderAll, h op List.mem_cons_self,
      ih fun o ho => h o (List.mem_cons_of_mem op ho)]

/-- Refilling does not show: the labels stay. -/
theorem renderAt_refill (op : Operator) (place : Place) (runs : List ActionRun) :
    (op.refill runs).renderAt place = op.renderAt place := by
  cases op with
  | sequence ops | choice ops =>
    have hparts : ∀ o ∈ ops, ∀ place runs, (o.refill runs).renderAt place = o.renderAt place :=
      fun o ho place runs => by
        have hless : sizeOf o < sizeOf ops := List.sizeOf_lt_of_mem ho
        exact renderAt_refill o place runs
    -- A row of one is written as its only part, and so does not go by the law of rows.
    match ops with
    | [] => rfl
    | [o] => exact hparts o List.mem_cons_self place runs
    | o :: o' :: ops =>
      have hrow := fun place => renderAll_refillAll place hparts runs
      simp only [refillAll] at hrow
      simp only [refill, refillAll, renderAt, hrow, List.isEmpty_cons]
  | repetition c _ _ _ | ahead c | notAhead c | tag c _ | collect c | bounds c =>
    simp only [refill, renderAt, renderAt_refill c]
  | _ => rfl
termination_by sizeOf op

/-- The text of a tree is the same whatever its actions do. -/
theorem render_refill (op : Operator) (runs : List ActionRun) : (op.refill runs).render = op.render :=
  congrArg String.ofList (op.renderAt_refill .open runs)

end Operator

variable [RegexLibrary]

/-! ## Rules -/

/-- Rules that take what their own actions do are themselves again. -/
theorem refillRules_actions : ∀ (rules : List DeclaredRule) (rest : List ActionRun),
    refillRules rules ((rules.flatMap fun r => r.body.actions).map Action.run ++ rest) = rules
  | [], _ => rfl
  | r :: rules, rest => by
    have hlength : (r.body.actions.map Action.run).length = r.body.actions.length := List.length_map _
    rw [List.flatMap_cons, List.map_append, List.append_assoc, refillRules, Operator.refill_actions,
      List.drop_left' hlength, refillRules_actions rules rest]

/-- What becomes of rules does not depend on what their actions were. -/
theorem unlabelled_refillRules (f : Action → Action) : ∀ (rules : List DeclaredRule) (runs : List ActionRun),
    (refillRules (rules.map (DeclaredRule.mapActions f)) runs).map (DeclaredRule.mapActions Action.unlabelled) =
      (refillRules rules runs).map (DeclaredRule.mapActions Action.unlabelled)
  | [], _ => rfl
  | r :: rules, runs => by
    simp only [List.map_cons, refillRules, DeclaredRule.mapActions, Operator.actions_mapActions,
      List.length_map, Operator.unlabelled_refill]
    rw [← unlabelled_refillRules f rules]

/-- What a registry says about rules stays. -/
theorem map_summary_refillRules : ∀ (rules : List DeclaredRule) (runs : List ActionRun),
    (numberRules (refillRules rules runs)).map Rule.summary = (numberRules rules).map Rule.summary := by
  intro rules runs
  rw [map_summary_numberRules, map_summary_numberRules]
  induction rules generalizing runs with
  | nil => rfl
  | cons r rules ih => rw [refillRules, List.map_cons, List.map_cons, ih, Operator.render_refill]

/-! ## Modules -/

namespace Grammar

/-- The actions of a grammar are those of its declared rules, in their order. -/
theorem actions_eq_declared (g : Grammar) : g.actions = g.declared.flatMap fun r => r.body.actions := by
  rw [actions, declared, List.flatMap_map]

/-- **With its own actions and links**, the module of a grammar makes the program of the grammar. -/
theorem instantiate_actions (g : Grammar) :
    g.instantiate (g.actions.map Action.run) g.links = .ok g.compile := by
  have hown : g.refill (g.actions.map Action.run) g.links = g := by
    have hrules : refillRules g.declared (g.actions.map Action.run) = g.declared := by
      rw [actions_eq_declared, ← List.append_nil (List.map _ _), refillRules_actions]
    rw [refill, hrules, ofRules_declared]
  rw [instantiate, if_pos (List.length_map _).symm, hown]

/-- Refilling changes the bodies of the rules as they are declared. -/
theorem declared_refill (g : Grammar) (runs : List ActionRun) (links : List (String × RuleSet)) :
    (g.refill runs links).declared = refillRules g.declared runs := map_toDeclaredRule_numberRules _

/-- Refilling leaves the registry. -/
theorem registry_refill (g : Grammar) (runs : List ActionRun) (links : List (String × RuleSet)) :
    (g.refill runs links).registry = g.registry := by
  show (numberRules (refillRules g.declared runs)).map Rule.summary = g.registry
  rw [map_summary_refillRules, g.numberRules_declared, g.tabulates.registry_eq]

/-- Grammars of equal sources are the same, but for labels, once their actions do the same. -/
theorem SameSource.unlabelled_refill {g h : Grammar} (hsame : g.SameSource h) (runs : List ActionRun)
    (links : List (String × RuleSet)) :
    (g.refill runs links).unlabelled.rules = (h.refill runs links).unlabelled.rules := by
  let blank : Action → Action := fun _ => ⟨none, fun _ => (.nil, [])⟩
  have hblank : g.actions.map blank = h.actions.map blank := by
    rw [List.map_const', List.map_const', hsame.count]
  have hdeclared : g.declared.map (DeclaredRule.mapActions blank) =
      h.declared.map (DeclaredRule.mapActions blank) := hsame.declared hblank
  -- What the actions do is replaced, so it may be made blank before; then both have the same rules.
  have hrefilled : ∀ k : Grammar, (k.refill runs links).unlabelled.rules =
      numberRules ((refillRules (k.declared.map (DeclaredRule.mapActions blank)) runs).map
        (DeclaredRule.mapActions Action.unlabelled)) := by
    intro k
    rw [unlabelled_refillRules, ← k.declared_refill runs links]
    rfl
  rw [hrefilled, hrefilled, hdeclared]

/-- Equal sources make parsers that run alike. -/
theorem SameSource.instantiate {g h : Grammar} (hsame : g.SameSource h) (runs : List ActionRun)
    (links : List (String × RuleSet)) :
    (∃ err, g.instantiate runs links = .error err ∧ h.instantiate runs links = .error err) ∨
    ∃ p q, g.instantiate runs links = .ok p ∧ h.instantiate runs links = .ok q ∧
      (RuleSet.program p).RunAlike (.program q) := by
  unfold Grammar.instantiate
  rw [← hsame.count]
  by_cases hcount : g.actions.length = runs.length
  -- As many actions as are called: made without labels, both are the same grammar.
  · rw [if_pos hcount, if_pos hcount]
    refine .inr ⟨_, _, rfl, rfl, ?_⟩
    have hg : (g.refill runs links).Relabelled Action.unlabelled (g.refill runs links).unlabelled :=
      ⟨rules_mapBodies _ _, fun _ => rfl⟩
    have hh : (h.refill runs links).Relabelled Action.unlabelled (g.refill runs links).unlabelled :=
      ⟨(hsame.unlabelled_refill runs links).trans (rules_mapBodies _ _), fun _ => rfl⟩
    have hregistry : (h.refill runs links).registry = (g.refill runs links).registry := by
      rw [registry_refill, registry_refill, hsame.registry]
    exact (Relabelled.runAlike (f := Action.unlabelled) (fun _ => rfl) hg hh hregistry hsame.root.symm).2
  · rw [if_neg hcount, if_neg hcount]
    exact .inl ⟨_, rfl, rfl⟩

end Grammar

/-- **A module determines what it makes.**  If the modules of two built grammars are the same token stream,
    then with the same actions and links either both refuse the number of the actions, with the same
    error, or both make a parser, and the two parsers run alike. -/
theorem stream_determines_instance {d d' : Declaration} {g h : Grammar} (hg : d.build = .ok g)
    (hh : d'.build = .ok h) (hstream : g.stream = h.stream) (runs : List ActionRun)
    (links : List (String × RuleSet)) :
    (∃ err, g.instantiate runs links = .error err ∧ h.instantiate runs links = .error err) ∨
    ∃ p q, g.instantiate runs links = .ok p ∧ h.instantiate runs links = .ok q ∧
      (RuleSet.program p).RunAlike (.program q) :=
  ((Declaration.checked hg).sameSource (Declaration.checked hh) hstream).instantiate runs links

end MemoPeg
