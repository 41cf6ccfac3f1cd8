import MemoPeg.RuleSet.Basic

/-
  What operators call and what they read.

  1. **Nodes** — everything that stands in an operator, itself included.  Most properties of operators here
     are of the form: no node of this kind; such a property passes to the parts.
  2. **Callees** — the rules of its own grammar that an operator names, and the rules it can reach
     through them.  A row of rules that is closed under calls is all that a run can enter.
  3. **Scope** — an operator without actions and without arguments taken from bindings does not look
     at its scope.  Other operators may bind, but nobody reads what they have bound.
  4. **Memo-free grammars** — every call is made past the memo table; that is the specification of
     what the memo table must not change.  The translation (`Operator.memoFree`) changes calls and
     nothing else (`ChangesCalls`), so one induction serves it and the identity.

  Calls into linked grammars are not among the callees.  Such a call has an engine of its own and cannot
  re-enter a rule of the grammar that makes it.
-/

namespace MemoPeg

namespace Operator

variable [RegexLibrary]

/-! ## Nodes below -/

/-- An operator is a node of itself. -/
theorem mem_nodes_self (op : Operator) : op ∈ op.nodes := by
  cases op <;> exact List.mem_cons_self

/-- The nodes of a row are those of its members. -/
theorem mem_nodesAll {ops : List Operator} {o : Operator} :
    o ∈ nodesAll ops ↔ ∃ c ∈ ops, o ∈ c.nodes := by
  induction ops with
  | nil => simp [nodesAll]
  | cons op ops ih => simp [nodesAll, ih]

/-- What is below a child is below the operator. -/
theorem mem_nodes_of_child {op c o : Operator} (hc : c ∈ op.children) (ho : o ∈ c.nodes) :
    o ∈ op.nodes := by
  cases op with
  | sequence ops => exact List.mem_cons_of_mem _ (mem_nodesAll.2 ⟨c, hc, ho⟩)
  | choice ops => exact List.mem_cons_of_mem _ (mem_nodesAll.2 ⟨c, hc, ho⟩)
  | repetition op min max captures =>
    rw [List.mem_singleton.1 hc] at ho
    exact List.mem_cons_of_mem _ ho
  | ahead op => exact List.mem_cons_of_mem _ (List.mem_singleton.1 hc ▸ ho)
  | notAhead op => exact List.mem_cons_of_mem _ (List.mem_singleton.1 hc ▸ ho)
  | tag op name => exact List.mem_cons_of_mem _ (List.mem_singleton.1 hc ▸ ho)
  | collect op => exact List.mem_cons_of_mem _ (List.mem_singleton.1 hc ▸ ho)
  | bounds op => exact List.mem_cons_of_mem _ (List.mem_singleton.1 hc ▸ ho)
  | _ => cases hc

/-- A node is the operator itself or a node of a child. -/
theorem mem_nodes_iff {op o : Operator} : o ∈ op.nodes ↔ o = op ∨ ∃ c ∈ op.children, o ∈ c.nodes := by
  constructor
  · intro h
    cases op with
    | sequence ops | choice ops =>
      rcases List.mem_cons.1 h with rfl | h
      · exact .inl rfl
      · exact .inr (mem_nodesAll.1 h)
    | repetition c _ _ _ | ahead c | notAhead c | tag c _ | collect c | bounds c =>
      rcases List.mem_cons.1 h with rfl | h
      · exact .inl rfl
      · exact .inr ⟨c, List.mem_singleton_self c, h⟩
    | _ => exact .inl (List.mem_singleton.1 h)
  · rintro (rfl | ⟨c, hc, ho⟩)
    · exact mem_nodes_self o
    · exact mem_nodes_of_child hc ho

/-- Parts are smaller, so that recursion over parts ends. -/
theorem sizeOf_child {op c : Operator} (h : c ∈ op.children) : sizeOf c < sizeOf op := by
  cases op with
  | sequence ops | choice ops =>
    have hmem : sizeOf c < sizeOf ops := List.sizeOf_lt_of_mem h
    simp
    omega
  | repetition c' _ _ _ | ahead c' | notAhead c' | tag c' _ | collect c' | bounds c' =>
    obtain rfl := List.mem_singleton.1 h
    simp +arith
  | _ => cases h

/-- The nodes of a node are nodes. -/
theorem mem_nodes_trans {o p : Operator} (op : Operator) (ho : o ∈ op.nodes) (hp : p ∈ o.nodes) :
    p ∈ op.nodes := by
  rcases mem_nodes_iff.1 ho with rfl | ⟨c, hc, ho'⟩
  · exact hp
  · have hless := sizeOf_child hc
    exact mem_nodes_of_child hc (mem_nodes_trans c ho' hp)
termination_by sizeOf op

/-! ## Callees -/

/-- The operator is a call of a rule, here or in a linked grammar. -/
def isCall : Operator → Bool
  | .call _ _ | .direct _ _ | .foreign _ _ _ => true
  | _ => false

/-- The rule of its own grammar that an operator calls, if it is such a call. -/
def callee? : Operator → Option String
  | .call name _ | .direct name _ => some name
  | _ => none

/-- The names of the rules that an operator calls. -/
def callees (op : Operator) : List String := op.nodes.filterMap callee?

/-- What a node calls, the operator calls. -/
theorem mem_callees {op o : Operator} {name : String} (ho : o ∈ op.nodes)
    (h : o.callee? = some name) : name ∈ op.callees := List.mem_filterMap.2 ⟨o, ho, h⟩

/-- What a part calls, the operator calls. -/
theorem mem_callees_of_child {op c : Operator} {name : String} (hc : c ∈ op.children)
    (h : name ∈ c.callees) : name ∈ op.callees := by
  obtain ⟨o, ho, hname⟩ := List.mem_filterMap.1 h
  exact mem_callees (mem_nodes_of_child hc ho) hname

/-- Calls into linked grammars are not among the callees. -/
example : (Operator.sequence [.call "a" [], .foreign "g" "b" [], .notAhead (.direct "c" [])]).callees =
    ["a", "c"] := rfl

/-- What a sequence calls, one of its parts calls. -/
theorem mem_callees_sequence {ops : List Operator} {name : String}
    (h : name ∈ (Operator.sequence ops).callees) : ∃ op ∈ ops, name ∈ op.callees := by
  obtain ⟨o, ho, hname⟩ := List.mem_filterMap.1 h
  rcases List.mem_cons.1 ho with rfl | ho
  · cases hname
  · obtain ⟨op, hop, ho⟩ := mem_nodesAll.1 ho
    exact ⟨op, hop, mem_callees ho hname⟩

/-! ## Scope -/

end Operator

/-- The argument is taken from a binding. -/
def Arg.isBinding : Arg → Bool
  | .binding _ => true
  | .value _ => false

/-- Arguments that are constants are the same in every scope. -/
theorem Scope.resolve_of_constant {args : List Arg} (h : args.any Arg.isBinding = false)
    (s t : Scope) : s.resolve args = t.resolve args := by
  refine List.map_congr_left fun arg harg => ?_
  have hconst := List.any_eq_false.1 h arg harg
  cases arg with
  | value v => rfl
  | binding name => exact absurd rfl hconst

namespace Operator

variable [RegexLibrary]

/-- The operator itself looks at the bindings. -/
def readsScope : Operator → Bool
  | .action _ => true
  | .call _ args | .direct _ args | .foreign _ _ args => args.any Arg.isBinding
  | _ => false

/-- No actions, and no arguments taken from bindings. -/
def ScopeFree (op : Operator) : Prop := ∀ o ∈ op.nodes, o.readsScope = false

instance (op : Operator) : Decidable op.ScopeFree :=
  inferInstanceAs (Decidable (∀ o ∈ op.nodes, o.readsScope = false))

/-- The parts of an operator that does not look at its scope do not either. -/
theorem ScopeFree.child {op c : Operator} (h : op.ScopeFree) (hc : c ∈ op.children) : c.ScopeFree :=
  fun o ho => h o (mem_nodes_of_child hc ho)

theorem ScopeFree.self {op : Operator} (h : op.ScopeFree) : op.readsScope = false :=
  h op op.mem_nodes_self

/-- A sequence looks at its scope only where a part of it does. -/
theorem ScopeFree.sequence {ops : List Operator} (h : ∀ op ∈ ops, op.ScopeFree) :
    (Operator.sequence ops).ScopeFree := by
  intro o ho
  rcases List.mem_cons.1 ho with rfl | ho
  · rfl
  · obtain ⟨op, hop, ho⟩ := mem_nodesAll.1 ho
    exact h op hop o ho

/-! ## Without the memo table -/

mutual

/-- The operator with every call made past the memo table. -/
def memoFree : Operator → Operator
  | .sequence ops => .sequence (memoFreeAll ops)
  | .choice ops => .choice (memoFreeAll ops)
  | .repetition op min max captures => .repetition (memoFree op) min max captures
  | .ahead op => .ahead (memoFree op)
  | .notAhead op => .notAhead (memoFree op)
  | .tag op name => .tag (memoFree op) name
  | .collect op => .collect (memoFree op)
  | .bounds op => .bounds (memoFree op)
  | .call name args => .direct name args
  | op => op

/-- A row of operators with every call made past the memo table. -/
def memoFreeAll : List Operator → List Operator
  | [] => []
  | op :: ops => memoFree op :: memoFreeAll ops

end

/-- Rows are translated part by part. -/
theorem memoFreeAll_eq_map (ops : List Operator) : memoFreeAll ops = ops.map memoFree := by
  induction ops with
  | nil => rfl
  | cons op ops ih => rw [memoFreeAll, ih, List.map_cons]

/-- A translation of operators that changes nothing but calls. -/
structure ChangesCalls (φ : Operator → Operator) : Prop where
  any : φ .any = .any
  literal : ∀ s, φ (.literal s) = .literal s
  pattern : ∀ p, φ (.pattern p) = .pattern p
  range : ∀ lo hi, φ (.range lo hi) = .range lo hi
  sequence : ∀ ops, φ (.sequence ops) = .sequence (ops.map φ)
  choice : ∀ ops, φ (.choice ops) = .choice (ops.map φ)
  repetition : ∀ op min max captures,
    φ (.repetition op min max captures) = .repetition (φ op) min max captures
  ahead : ∀ op, φ (.ahead op) = .ahead (φ op)
  notAhead : ∀ op, φ (.notAhead op) = .notAhead (φ op)
  tag : ∀ op name, φ (.tag op name) = .tag (φ op) name
  action : ∀ a, φ (.action a) = .action a
  collect : ∀ op, φ (.collect op) = .collect (φ op)
  bounds : ∀ op, φ (.bounds op) = .bounds (φ op)
  action? : ∀ op, (φ op).action? = op.action?

/-- Translating nothing changes no calls. -/
theorem changesCalls_id : ChangesCalls fun op => op where
  any := rfl
  literal _ := rfl
  pattern _ := rfl
  range _ _ := rfl
  sequence ops := by rw [List.map_id']
  choice ops := by rw [List.map_id']
  repetition _ _ _ _ := rfl
  ahead _ := rfl
  notAhead _ := rfl
  tag _ _ := rfl
  action _ := rfl
  collect _ := rfl
  bounds _ := rfl
  action? _ := rfl

/-- Calling past the memo table changes nothing else. -/
theorem changesCalls_memoFree : ChangesCalls memoFree where
  any := rfl
  literal _ := rfl
  pattern _ := rfl
  range _ _ := rfl
  sequence ops := by rw [memoFree, memoFreeAll_eq_map]
  choice ops := by rw [memoFree, memoFreeAll_eq_map]
  repetition _ _ _ _ := rfl
  ahead _ := rfl
  notAhead _ := rfl
  tag _ _ := rfl
  action _ := rfl
  collect _ := rfl
  bounds _ := rfl
  action? op := by cases op <;> rfl

end Operator

namespace Grammar

variable [RegexLibrary]

/-- The rules that a run of the operator can enter in its own grammar. -/
inductive Reaches (g : Grammar) (op : Operator) : RuleId → Prop
  | call {name : String} {rule : RuleId} (hname : name ∈ op.callees)
      (hrule : g.lookup name = some rule) : Reaches g op rule
  | next {rule rule' : RuleId} {r : Rule} {name : String} (h : Reaches g op rule)
      (hr : g.rules[rule]? = some r) (hname : name ∈ r.body.callees)
      (hrule : g.lookup name = some rule') : Reaches g op rule'

/-- What a sequence reaches, one of its parts reaches. -/
theorem Reaches.of_sequence {g : Grammar} {ops : List Operator} {rule : RuleId}
    (h : g.Reaches (.sequence ops) rule) : ∃ op ∈ ops, g.Reaches op rule := by
  induction h with
  | call hname hrule =>
    obtain ⟨op, hop, hname⟩ := Operator.mem_callees_sequence hname
    exact ⟨op, hop, .call hname hrule⟩
  | next _ hr hname hrule ih =>
    obtain ⟨op, hop, hreach⟩ := ih
    exact ⟨op, hop, hreach.next hr hname hrule⟩

/-- A sequence reaches no more than its parts. -/
theorem not_reaches_sequence {g : Grammar} {ops : List Operator} {rule : RuleId}
    (h : ∀ op ∈ ops, ¬g.Reaches op rule) : ¬g.Reaches (.sequence ops) rule := by
  intro hreach
  obtain ⟨op, hop, hreach'⟩ := hreach.of_sequence
  exact h op hop hreach'

/-- Calls in the bodies of these rules lead to these rules only. -/
def ClosedUnderCalls (g : Grammar) (S : RuleId → Prop) : Prop :=
  ∀ rule r name rule', S rule → g.rules[rule]? = some r → name ∈ r.body.callees →
    g.lookup name = some rule' → S rule'

/-- All rules are closed under calls. -/
theorem closedUnderCalls_all (g : Grammar) : g.ClosedUnderCalls fun _ => True :=
  fun _ _ _ _ _ _ _ _ => trivial

/-- What an operator reaches is closed under calls. -/
theorem closedUnderCalls_reaches (g : Grammar) (op : Operator) :
    g.ClosedUnderCalls (g.Reaches op) := fun _ _ _ _ h hr hname hrule => h.next hr hname hrule

/-- Rules that are closed under calls hold all that an operator reaches from them. -/
theorem Reaches.mem_of_closed {g : Grammar} {S : RuleId → Prop} (hS : g.ClosedUnderCalls S)
    {op : Operator} (hop : ∀ name ∈ op.callees, ∀ rule, g.lookup name = some rule → S rule)
    {rule : RuleId} (h : g.Reaches op rule) : S rule := by
  induction h with
  | call hname hrule => exact hop _ hname _ hrule
  | next _ hr hname hrule ih => exact hS _ _ _ _ ih hr hname hrule

/-- The grammar with every call made past the memo table. -/
def memoFree (g : Grammar) : Grammar :=
  g.mapBodies Operator.memoFree

/-- Rules are found by their names as before. -/
theorem lookup_memoFree (g : Grammar) (name : String) : g.memoFree.lookup name = g.lookup name :=
  g.lookup_mapBodies Operator.memoFree name

/-- Rules keep their places, and all but their bodies. -/
theorem rule_memoFree (g : Grammar) (rule : RuleId) :
    g.memoFree.rules[rule]? = g.rules[rule]?.map (Rule.mapBody Operator.memoFree) := by
  rw [memoFree, rules_mapBodies, List.getElem?_map]

end Grammar

end MemoPeg
