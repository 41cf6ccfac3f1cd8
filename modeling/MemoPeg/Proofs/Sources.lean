import MemoPeg.Emit.Module
import MemoPeg.Proofs.Checked

/-
  What emitted source says.

  Emission walks an operator, writes tokens and hands out numbers as it goes.  To reason about what was written
  one wants neither the walk nor the counter: this module replaces both by a relation.

  1. **Order of nodes** — the actions and the patterns of an operator are its own and then those of its
     children, from the first to the last.
  2. **Sources (`Emit.Source`)** — which rows of tokens are the source of an operator, whatever numbers
     stand in them.  The relation lists the number by which each action is called and the number by
     which each pattern is scanned.
  3. **Emission (`Emit.body_source`)** — the numbers that emission hands out are consecutive, from those
     that it begins with, in the order of nodes; and it hands out one for each action and each pattern.
  4. **Modules (`Grammar.emit_eq`)** — a module is its tables and, for each rule, the function around the
     source of its body.

  `Source` has a constructor for each phrase, not for each operator: a test of an action is written in another
  way than a predicate on anything else, and so there are two constructors for each of the two predicates.
  Operators that lack something, such as a call by a name that means no rule, have no source at all; in a
  checked grammar there are none of these (`Grammar.Checked.complete`).
-/

namespace MemoPeg

/-! ## The order of nodes -/

namespace Operator

variable [RegexLibrary]

/-- The pattern, if the operator is one. -/
def pattern? : Operator → Option Pattern
  | .pattern p => some p
  | _ => none

/-- The patterns of an operator in the order of its nodes. -/
def patterns (op : Operator) : List Pattern := op.nodes.filterMap pattern?

/-- The nodes of a row, part by part. -/
theorem nodesAll_eq (ops : List Operator) : nodesAll ops = ops.flatMap nodes := by
  induction ops with
  | nil => rfl
  | cons op ops ih => rw [nodesAll, ih, List.flatMap_cons]

/-- The operator first, then what is below its children. -/
theorem nodes_eq (op : Operator) : op.nodes = op :: op.children.flatMap nodes := by
  cases op with
  | sequence ops | choice ops =>
    show _ :: nodesAll ops = _ :: ops.flatMap nodes
    rw [nodesAll_eq]
  | repetition c _ _ _ | ahead c | notAhead c | tag c _ | collect c | bounds c =>
    show _ :: c.nodes = _ :: [c].flatMap nodes
    rw [List.flatMap_singleton]
  | _ => rfl

/-- The actions of an operator are its own and those of its parts. -/
theorem actions_eq (op : Operator) : op.actions = op.action?.toList ++ op.children.flatMap actions := by
  rw [actions, nodes_eq, List.filterMap_cons, List.filterMap_flatMap]
  cases op.action? <;> rfl

/-- The patterns of an operator are its own and those of its parts. -/
theorem patterns_eq (op : Operator) : op.patterns = op.pattern?.toList ++ op.children.flatMap patterns := by
  rw [patterns, nodes_eq, List.filterMap_cons, List.filterMap_flatMap]
  cases op.pattern? <;> rfl

/-- The operator itself lacks nothing of what its source is made of. -/
def Complete (lookup : String → Option RuleId) : Operator → Prop
  | .range lo hi => (singleChars lo hi).isSome
  | .choice ops => ops ≠ []
  | .call name _ | .direct name _ => (lookup name).isSome
  | _ => True

end Operator

variable [RegexLibrary]

/-- The patterns of a grammar: rules as declared, operators parents first. -/
def Grammar.patterns (g : Grammar) : List Pattern := g.rules.flatMap fun r => r.body.patterns

/-- The nodes of a checked grammar lack nothing. -/
theorem Grammar.Checked.complete {g : Grammar} (hg : g.Checked) {r : Rule} (hr : r ∈ g.rules)
    {op : Operator} (hop : op ∈ r.body.nodes) : op.Complete g.lookup := by
  have herrors : nodeErrors g.rules g.links r.name op = [] := hg.nodes r hr op hop
  cases op with
  | range lo hi =>
    by_cases hchars : (singleChars lo hi).isSome
    · exact hchars
    · rw [nodeErrors, if_neg hchars] at herrors
      cases herrors
  | choice ops =>
    rintro rfl
    cases herrors
  | call name args =>
    obtain ⟨r', hr', -⟩ := hg.callee hr (.inl hop)
    obtain ⟨rule, hlookup, -⟩ := Grammar.rule?_eq_some.1 hr'
    exact Option.isSome_of_eq_some hlookup
  | direct name args =>
    obtain ⟨r', hr', -⟩ := hg.callee hr (.inr hop)
    obtain ⟨rule, hlookup, -⟩ := Grammar.rule?_eq_some.1 hr'
    exact Option.isSome_of_eq_some hlookup
  | _ => trivial

namespace Emit

/-! ## Sources -/

/-- Actions with the numbers by which they are called. -/
abbrev Calls := List (Action × Nat)

/-- Patterns with the numbers by which they are scanned. -/
abbrev Scans := List (Pattern × Nat)

mutual

/-- The tokens are a source of the operator.  In it each action, alone or ahead, is called by the number
    listed with it, and each pattern is scanned by the number listed with it, in the order of nodes. -/
inductive Source (lookup : String → Option RuleId) :
    Operator → Calls → Scans → List Token → Prop
  | any : Source lookup .any [] [] readAny
  | literal (s : String) : Source lookup (.literal s) [] [] (readLiteral s)
  | pattern (p : Pattern) (i : Nat) : Source lookup (.pattern p) [] [(p, i)] (readPattern i)
  | range {lo hi : String} {a b : Char} (h : singleChars lo hi = some (a, b)) :
    Source lookup (.range lo hi) [] [] (readRange a b)
  | sequence {ops : List Operator} {calls : Calls} {scans : Scans} {rows : List (List Token)}
      (h : Sources lookup ops calls scans rows) :
    Source lookup (.sequence ops) calls scans (sequence rows)
  | choice {ops : List Operator} {calls : Calls} {scans : Scans} {rows : List (List Token)}
      (hne : ops ≠ []) (h : Sources lookup ops calls scans rows) :
    Source lookup (.choice ops) calls scans (choice rows)
  | repetition {op : Operator} {calls : Calls} {scans : Scans} {ts : List Token}
      (h : Source lookup op calls scans ts) (min : Nat) (max : Option Nat) (captures : Bool) :
    Source lookup (.repetition op min max captures) calls scans (repetition ts min max captures)
  | holds (a : Action) (i : Nat) :
    Source lookup (.ahead (.action a)) [(a, i)] [] (holds (actionCall i))
  | ahead {op : Operator} {calls : Calls} {scans : Scans} {ts : List Token}
      (hop : op.action? = none) (h : Source lookup op calls scans ts) :
    Source lookup (.ahead op) calls scans (predicate ts aheadArms)
  | holdsNot (a : Action) (i : Nat) :
    Source lookup (.notAhead (.action a)) [(a, i)] [] (holdsNot (actionCall i))
  | notAhead {op : Operator} {calls : Calls} {scans : Scans} {ts : List Token}
      (hop : op.action? = none) (h : Source lookup op calls scans ts) :
    Source lookup (.notAhead op) calls scans (predicate ts notAheadArms)
  | tag {op : Operator} {calls : Calls} {scans : Scans} {ts : List Token}
      (h : Source lookup op calls scans ts) (name : String) :
    Source lookup (.tag op name) calls scans (tagged ts name)
  | action (a : Action) (i : Nat) :
    Source lookup (.action a) [(a, i)] [] (matchedOutcome cursor (actionCall i))
  | collect {op : Operator} {calls : Calls} {scans : Scans} {ts : List Token}
      (h : Source lookup op calls scans ts) : Source lookup (.collect op) calls scans (collected ts)
  | bounds {op : Operator} {calls : Calls} {scans : Scans} {ts : List Token}
      (h : Source lookup op calls scans ts) : Source lookup (.bounds op) calls scans (bounded ts)
  | call {name : String} {rule : RuleId} (h : lookup name = some rule) (args : List Arg) :
    Source lookup (.call name args) [] [] (ruleCall "apply" rule args)
  | direct {name : String} {rule : RuleId} (h : lookup name = some rule) (args : List Arg) :
    Source lookup (.direct name args) [] [] (ruleCall "invoke" rule args)
  | «foreign» (grammar rule : String) (args : List Arg) :
    Source lookup (.foreign grammar rule args) [] [] (foreignCall grammar rule args)

/-- The rows of tokens are sources of the operators. -/
inductive Sources (lookup : String → Option RuleId) :
    List Operator → Calls → Scans → List (List Token) → Prop
  | nil : Sources lookup [] [] [] []
  | cons {op : Operator} {ops : List Operator} {calls calls' : Calls} {scans scans' : Scans}
      {ts : List Token} {rows : List (List Token)} (h : Source lookup op calls scans ts)
      (hs : Sources lookup ops calls' scans' rows) :
    Sources lookup (op :: ops) (calls ++ calls') (scans ++ scans') (ts :: rows)

end

/-- There is one source for each operator. -/
theorem Sources.length_eq {lookup : String → Option RuleId} {ops : List Operator} {calls : Calls}
    {scans : Scans} {rows : List (List Token)} (h : Sources lookup ops calls scans rows) :
    rows.length = ops.length := by
  match h with
  | .nil => rfl
  | .cons _ hs => rw [List.length_cons, List.length_cons, hs.length_eq]

/-- Where there are operators there are sources. -/
theorem Sources.rows_ne_nil {lookup : String → Option RuleId} {ops : List Operator} {calls : Calls}
    {scans : Scans} {rows : List (List Token)} (h : Sources lookup ops calls scans rows) (hne : ops ≠ []) :
    rows ≠ [] := by
  rintro rfl
  exact hne (List.length_eq_zero_iff.1 h.length_eq.symm)

/-! ## Emission -/

namespace Numbering

/-- The numbering when these actions and patterns have been met as well. -/
def after (n : Numbering) (as : List Action) (ps : List Pattern) : Numbering :=
  { actions := n.actions + as.length
    patterns := n.patterns ++ ps.map fun p => anchored p.source }

/-- Nothing has been met. -/
theorem after_nil (n : Numbering) : n.after [] [] = n := by
  simp only [after, List.length_nil, Nat.add_zero, List.map_nil, List.append_nil]

/-- What is met later comes behind what was met before. -/
theorem after_after (n : Numbering) (as as' : List Action) (ps ps' : List Pattern) :
    (n.after as ps).after as' ps' = n.after (as ++ as') (ps ++ ps') := by
  simp only [after, List.length_append, Nat.add_assoc, List.map_append, List.append_assoc]

end Numbering

/-- Emission that begins with the numbering has numbered these actions and patterns, and they stand in the
    source by their numbers. -/
structure Emitted {α : Type} (n : Numbering) (as : List Action) (ps : List Pattern)
    (result : α × Numbering) (source : Calls → Scans → α → Prop) : Prop where
  numbering : result.2 = n.after as ps
  source : source (as.zipIdx n.actions) (ps.zipIdx n.patterns.length) result.1

namespace Emitted

variable {α β : Type} {n : Numbering} {as as' : List Action} {ps ps' : List Pattern}

/-- What is around a source changes nothing in the numbers. -/
theorem map {result : α × Numbering} {source : Calls → Scans → α → Prop}
    {source' : Calls → Scans → β → Prop} (h : Emitted n as ps result source) (f : α → β)
    (hf : ∀ calls scans ts, source calls scans ts → source' calls scans (f ts)) :
    Emitted n as ps (f result.1, result.2) source' := ⟨h.numbering, hf _ _ _ h.source⟩

/-- What has neither actions nor patterns is emitted without a change of the numbering. -/
theorem plain {source : Calls → Scans → α → Prop} {ts : α} (h : source [] [] ts) :
    Emitted n [] [] (ts, n) source := ⟨n.after_nil.symm, h⟩

/-- An action takes the next number. -/
theorem next (a : Action) {source : Calls → Scans → α → Prop} {ts : α}
    (h : source [(a, n.actions)] [] ts) :
    Emitted n [a] [] (ts, { n with actions := n.actions + 1 }) source := by
  refine ⟨?_, h⟩
  show (⟨n.actions + 1, n.patterns⟩ : Numbering) = ⟨n.actions + 1, n.patterns ++ []⟩
  rw [List.append_nil]

/-- Two rows in a row. -/
theorem cons {lookup : String → Option RuleId} {op : Operator} {ops : List Operator}
    {first : List Token × Numbering} {rest : List (List Token) × Numbering}
    (h : Emitted n as ps first (Source lookup op))
    (hs : Emitted first.2 as' ps' rest (Sources lookup ops)) :
    Emitted n (as ++ as') (ps ++ ps') (first.1 :: rest.1, rest.2) (Sources lookup (op :: ops)) := by
  have hfirst : first.2 = n.after as ps := h.numbering
  constructor
  · show rest.2 = _
    rw [hs.numbering, hfirst, Numbering.after_after]
  · have hrest := hs.source
    rw [hfirst] at hrest
    -- The numbers of the rest go on where those of the first end.
    have hactions : (n.after as ps).actions = n.actions + as.length := rfl
    have hpatterns : (n.after as ps).patterns.length = n.patterns.length + ps.length := by
      simp only [Numbering.after, List.length_append, List.length_map]
    rw [hactions, hpatterns] at hrest
    rw [List.zipIdx_append, List.zipIdx_append]
    exact .cons h.source hrest

end Emitted

/-- A predicate on an operator is written around the source of the operator. -/
theorem body_ahead {g : Grammar} {op : Operator} (h : op.action? = none) (n : Numbering) :
    body g (.ahead op) n = (predicate (body g op n).1 aheadArms, (body g op n).2) := by
  cases op <;> first | rfl | cases h

/-- A negated predicate is written likewise. -/
theorem body_notAhead {g : Grammar} {op : Operator} (h : op.action? = none) (n : Numbering) :
    body g (.notAhead op) n = (predicate (body g op n).1 notAheadArms, (body g op n).2) := by
  cases op <;> first | rfl | cases h

/-- Only actions have an action of their own. -/
theorem exists_of_action?_ne_none {op : Operator} (h : op.action? ≠ none) : ∃ a, op = .action a := by
  cases op with
  | action a => exact ⟨a, rfl⟩
  | _ => exact absurd rfl h

mutual

/-- **Emission numbers in the order of nodes.**  It emits a source of the operator in which the actions
    and patterns stand by consecutive numbers. -/
theorem body_source (g : Grammar) (op : Operator) (h : ∀ o ∈ op.nodes, o.Complete g.lookup)
    (n : Numbering) :
    Emitted n op.actions op.patterns (body g op n) (Source g.lookup op) := by
  have hself : op.Complete g.lookup := h op op.mem_nodes_self
  have hchild : ∀ c ∈ op.children, ∀ o ∈ c.nodes, o.Complete g.lookup :=
    fun c hc o ho => h o (Operator.mem_nodes_of_child hc ho)
  rw [Operator.actions_eq, Operator.patterns_eq]
  cases op with
  | any => exact .plain .any
  | literal s => exact .plain (.literal s)
  | pattern p => exact ⟨rfl, .pattern p n.patterns.length⟩
  | range lo hi =>
    obtain ⟨⟨a, b⟩, hab⟩ := Option.isSome_iff_exists.1 hself
    rw [body, hab]
    exact .plain (.range hab)
  | sequence ops => exact (bodies_source g ops hchild n).map sequence fun _ _ _ => .sequence
  | choice ops => exact (bodies_source g ops hchild n).map choice fun _ _ _ => .choice hself
  | repetition op min max captures =>
    have hop := body_source g op (hchild op (List.mem_singleton_self op)) n
    simp only [Operator.children, List.flatMap_singleton]
    exact hop.map (repetition · min max captures) fun _ _ _ hts => .repetition hts min max captures
  | ahead op =>
    by_cases hop : op.action? = none
    · have hop' := body_source g op (hchild op (List.mem_singleton_self op)) n
      simp only [Operator.children, List.flatMap_singleton]
      rw [body_ahead hop]
      exact hop'.map (predicate · aheadArms) fun _ _ _ => .ahead hop
    · obtain ⟨a, rfl⟩ := exists_of_action?_ne_none hop
      exact .next a (.holds a n.actions)
  | notAhead op =>
    by_cases hop : op.action? = none
    · have hop' := body_source g op (hchild op (List.mem_singleton_self op)) n
      simp only [Operator.children, List.flatMap_singleton]
      rw [body_notAhead hop]
      exact hop'.map (predicate · notAheadArms) fun _ _ _ => .notAhead hop
    · obtain ⟨a, rfl⟩ := exists_of_action?_ne_none hop
      exact .next a (.holdsNot a n.actions)
  | tag op name =>
    have hop := body_source g op (hchild op (List.mem_singleton_self op)) n
    simp only [Operator.children, List.flatMap_singleton]
    exact hop.map (tagged · name) fun _ _ _ hts => .tag hts name
  | action a => exact .next a (.action a n.actions)
  | collect op =>
    have hop := body_source g op (hchild op (List.mem_singleton_self op)) n
    simp only [Operator.children, List.flatMap_singleton]
    exact hop.map collected fun _ _ _ => .collect
  | bounds op =>
    have hop := body_source g op (hchild op (List.mem_singleton_self op)) n
    simp only [Operator.children, List.flatMap_singleton]
    exact hop.map bounded fun _ _ _ => .bounds
  | call name args =>
    obtain ⟨rule, hrule⟩ := Option.isSome_iff_exists.1 hself
    rw [body, hrule]
    exact .plain (.call hrule args)
  | direct name args =>
    obtain ⟨rule, hrule⟩ := Option.isSome_iff_exists.1 hself
    rw [body, hrule]
    exact .plain (.direct hrule args)
  | «foreign» grammar name args => exact .plain (.foreign grammar name args)

/-- The bodies of a row take numbers one after the other. -/
theorem bodies_source (g : Grammar) (ops : List Operator)
    (h : ∀ op ∈ ops, ∀ o ∈ op.nodes, o.Complete g.lookup) (n : Numbering) :
    Emitted n (ops.flatMap Operator.actions) (ops.flatMap Operator.patterns) (bodies g ops n)
      (Sources g.lookup ops) := by
  cases ops with
  | nil => exact .plain .nil
  | cons op ops =>
    have hfirst := body_source g op (h op List.mem_cons_self) n
    have hrest := bodies_source g ops (fun o ho => h o (List.mem_cons_of_mem op ho)) (body g op n).2
    exact hfirst.cons hrest

end

/-! ## Modules -/

/-- The functions of the rules are made from the sources of their bodies. -/
theorem ruleFunctions_eq (g : Grammar) : ∀ (rules : List Rule) (n : Numbering),
    ruleFunctions g rules n =
      ((List.zipWith functionOf rules (bodies g (rules.map (·.body)) n).1).flatten,
        (bodies g (rules.map (·.body)) n).2)
  | [], _ => rfl
  | r :: rules, n => by
    show (_ ++ (ruleFunctions g rules (body g r.body n).2).1, _) = _
    rw [ruleFunctions_eq g rules]
    rfl

end Emit

/-- The numbering when a whole grammar has been emitted. -/
def Grammar.numbering (g : Grammar) : Emit.Numbering := Emit.Numbering.after {} g.actions g.patterns

/-- **What a module is.**  Before the functions it has the tables with the numbers of all actions and
    patterns; the functions are made of sources of the bodies, in which the actions and patterns of the
    grammar stand by their places. -/
theorem Grammar.Checked.emit_eq {g : Grammar} (hg : g.Checked) :
    ∃ inners, g.emit =
        Emit.preamble g g.numbering ++ (List.zipWith Emit.functionOf g.rules inners).flatten ∧
      Emit.Sources g.lookup (g.rules.map (·.body)) g.actions.zipIdx g.patterns.zipIdx inners := by
  have hbodies := Emit.bodies_source g (g.rules.map (·.body))
    (fun op hop o ho => by
      obtain ⟨r, hr, rfl⟩ := List.mem_map.1 hop
      exact hg.complete hr ho) {}
  have hactions : (g.rules.map (·.body)).flatMap Operator.actions = g.actions := List.flatMap_map _ _ _
  have hpatterns : (g.rules.map (·.body)).flatMap Operator.patterns = g.patterns := List.flatMap_map _ _ _
  rw [hactions, hpatterns] at hbodies
  refine ⟨_, ?_, hbodies.source⟩
  show Emit.preamble g (Emit.ruleFunctions g g.rules {}).2 ++ (Emit.ruleFunctions g g.rules {}).1 = _
  rw [Emit.ruleFunctions_eq]
  show Emit.preamble g (Emit.bodies g _ {}).2 ++ _ = _
  rw [hbodies.numbering]
  rfl

end MemoPeg
