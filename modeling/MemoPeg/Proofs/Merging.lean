import MemoPeg.Proofs.Pairing
import MemoPeg.Proofs.WellFormed

/-
  Adding the rules of a linked grammar.

  Linking a grammar is meant as a way of using its rules without copying them.  Here the copy is made: the
  rules are added under new names, and calls across the link become calls of them.  That both parse alike is
  shown elsewhere; this is the construction and what it comes to when it is built.

  1. **Redirection** — every call in an operator leads elsewhere: own rules are called under other names,
     rules across a link as own ones.  Nothing but calls is changed.
  2. **Merging (`Declaration.merging`)** — the rules of a linked grammar are added under new names behind
     the own rules, and calls across the link become calls of them.
  3. **What is built (`Grammar.Merges`)** — own rules keep their names and places, added rules are as many
     places later; each is paired with the rule that it comes from, and so are their calls.

  Places matter more than names: a memo table is about places, and so are the pairs in 3.  Names matter for
  building, where no two rules may have the same one; it is a hypothesis that the merged declaration is built,
  and a choice of new names that clash is thereby excluded.

  The linked grammar must not call across links of its own, for these are not links of the first grammar.
-/

namespace MemoPeg

/-! ## Calls that lead elsewhere -/

/-- The names under which rules of the own grammar are called instead, and for each link those under which
    rules across it are, if they are called as own ones. -/
structure Redirection where
  own : String → String
  across : String → Option (String → String)

namespace Redirection

/-- Own rules are called under other names. -/
def renamed (rename : String → String) : Redirection := ⟨rename, fun _ => none⟩

/-- Rules across a link are called as own ones under other names. -/
def inlined (link : String) (rename : String → String) : Redirection :=
  ⟨id, fun grammar => if grammar = link then some rename else none⟩

end Redirection

namespace Operator

variable [RegexLibrary]

mutual

/-- The operator with every call redirected. -/
def redirect (ρ : Redirection) : Operator → Operator
  | .sequence ops => .sequence (redirectAll ρ ops)
  | .choice ops => .choice (redirectAll ρ ops)
  | .repetition op min max captures => .repetition (redirect ρ op) min max captures
  | .ahead op => .ahead (redirect ρ op)
  | .notAhead op => .notAhead (redirect ρ op)
  | .tag op name => .tag (redirect ρ op) name
  | .collect op => .collect (redirect ρ op)
  | .bounds op => .bounds (redirect ρ op)
  | .call name args => .call (ρ.own name) args
  | .direct name args => .direct (ρ.own name) args
  | .foreign grammar name args =>
    match ρ.across grammar with
    | some rename => .call (rename name) args
    | none => .foreign grammar name args
  | op => op

/-- A row of operators with every call redirected. -/
def redirectAll (ρ : Redirection) : List Operator → List Operator
  | [] => []
  | op :: ops => redirect ρ op :: redirectAll ρ ops

end

/-- Rows are redirected part by part. -/
theorem redirectAll_eq_map (ρ : Redirection) (ops : List Operator) :
    redirectAll ρ ops = ops.map (redirect ρ) := by
  induction ops with
  | nil => rfl
  | cons op ops ih => rw [redirectAll, ih, List.map_cons]

/-- Redirection changes nothing but calls. -/
theorem changesCalls_redirect (ρ : Redirection) : ChangesCalls (redirect ρ) where
  any := rfl
  literal _ := rfl
  pattern _ := rfl
  range _ _ := rfl
  sequence ops := by rw [redirect, redirectAll_eq_map]
  choice ops := by rw [redirect, redirectAll_eq_map]
  repetition _ _ _ _ := rfl
  ahead _ := rfl
  notAhead _ := rfl
  tag _ _ := rfl
  action _ := rfl
  collect _ := rfl
  bounds _ := rfl
  action? op := by
    cases op with
    | «foreign» grammar name args =>
      rw [redirect]
      cases ρ.across grammar <;> rfl
    | _ => rfl

/-- A call across the link becomes a call of an own rule under its new name. -/
theorem redirect_linked (link : String) (rename : String → String) (name : String) (args : List Arg) :
    (Operator.foreign link name args).redirect (.inlined link rename) = .call (rename name) args := by
  simp only [redirect, Redirection.inlined, if_pos]

/-- A call across another link stays one. -/
theorem redirect_other {link grammar : String} (h : grammar ≠ link) (rename : String → String)
    (name : String) (args : List Arg) :
    (Operator.foreign grammar name args).redirect (.inlined link rename) = .foreign grammar name args := by
  simp only [redirect, Redirection.inlined, if_neg h]

/-- The operator is a call into a linked grammar. -/
def isForeign : Operator → Bool
  | .foreign _ _ _ => true
  | _ => false

/-- A call is one of an own rule or one into a linked grammar. -/
theorem isCall_cases {op : Operator} (h : op.isCall) : op.callee?.isSome ∨ op.isForeign := by
  cases op with
  | call name args | direct name args => exact .inl rfl
  | «foreign» grammar name args => exact .inr rfl
  | _ => cases h

end Operator

variable [RegexLibrary]

/-- The rule under its new name, with every call in its body redirected. -/
def DeclaredRule.redirect (ρ : Redirection) (r : DeclaredRule) : DeclaredRule :=
  { r with name := ρ.own r.name, body := r.body.redirect ρ }

/-- The declaration with the rules of a grammar added under new names, and with calls of these rules in
    place of calls across the link to it. -/
def Declaration.merging (d : Declaration) (link : String) (h : Grammar)
    (rename : String → String) : Declaration :=
  { d with rules := d.rules.map (DeclaredRule.redirect (.inlined link rename)) ++
      h.declared.map (DeclaredRule.redirect (.renamed rename)) }

/-! ## Merged grammars -/

namespace Grammar

/-- The operator stands in the body of a rule of the grammar. -/
def HasNode (g : Grammar) (op : Operator) : Prop := ∃ r ∈ g.rules, op ∈ r.body.nodes

/-- What is below an operator stands where it does. -/
theorem HasNode.child {g : Grammar} {op c : Operator} (h : g.HasNode op) (hc : c ∈ op.children) :
    g.HasNode c := by
  obtain ⟨r, hr, hop⟩ := h
  have hbelow : c ∈ op.nodes := Operator.mem_nodes_of_child hc (Operator.mem_nodes_self c)
  exact ⟨r, hr, Operator.mem_nodes_trans r.body hop hbelow⟩

/-- A body stands in its rule. -/
theorem HasNode.body {g : Grammar} {i : RuleId} {r : Rule} (hr : g.rules[i]? = some r) :
    g.HasNode r.body := ⟨r, List.mem_of_getElem? hr, Operator.mem_nodes_self r.body⟩

/-- The rules that bodies call by name are there. -/
def Closed (g : Grammar) : Prop :=
  ∀ op name, g.HasNode op → op.callee? = some name → ∃ i, g.lookup name = some i

/-- The first grammar is linked to the second one, which calls rules of its own only.  The third one has
    the rules of the first one and, behind them, those of the second one, with all calls redirected. -/
structure Merges (g h : Grammar) (link : String) (rename : String → String) (m : Grammar) : Prop where
  closed : g.Closed
  inner : h.Closed
  inside : ∀ op, h.HasNode op → op.isForeign = false
  linked : g.link? link = some (.grammar h)
  across : ∀ name args, g.HasNode (.foreign link name args) → ∃ i, h.lookup name = some i
  declared : m.declared = g.declared.map (DeclaredRule.redirect (.inlined link rename)) ++
    h.declared.map (DeclaredRule.redirect (.renamed rename))
  links : m.link? = g.link?
  checked : m.Checked

/-- Where the rules of a grammar stand in another one, with their bodies translated, they are paired. -/
theorem Pairs.of_rules {g m : Grammar} {ψ : Operator → Operator} {offset : Nat}
    (hψ : Operator.ChangesCalls ψ) (hrules : ∀ i r, g.rules[i]? = some r →
      ∃ r', m.rules[offset + i]? = some r' ∧ r'.params = r.params ∧ r'.body = ψ r.body) :
    g.Pairs m (fun op => op) ψ (Shifted g.rules.length offset) g.HasNode where
  left := Operator.changesCalls_id
  right := hψ
  below _ hop _ hc := hop.child hc
  bodies i j hij := by
    obtain ⟨hi, rfl⟩ := hij
    have hr := List.getElem?_eq_getElem hi
    obtain ⟨r', hr', hparams, hbody⟩ := hrules i _ hr
    exact ⟨_, r', _, hr, hr', hparams, rfl, hbody, .body hr⟩

/-- Where its rules have names in another grammar and calls by names are translated accordingly, they are
    calls of paired rules. -/
theorem Closed.callPairs {g m : Grammar} (hg : g.Closed) {ψ : Operator → Operator} {own : String → String}
    {offset : Nat} (hlookup : ∀ name i, g.lookup name = some i → m.lookup (own name) = some (offset + i))
    (hcall : ∀ name args, ψ (.call name args) = .call (own name) args)
    (hdirect : ∀ name args, ψ (.direct name args) = .direct (own name) args) {op : Operator}
    (hop : g.HasNode op) (hcallee : op.callee?.isSome) :
    g.CallPairs m (Shifted g.rules.length offset) op (ψ op) := by
  -- Calls are found under their new names, at places further on by the offset.
  cases op with
  | call name args =>
    obtain ⟨i, hl⟩ := hg _ name hop rfl
    rw [hcall]
    exact .call hl (hlookup name i hl) ⟨lookup_lt hl, rfl⟩
  | direct name args =>
    obtain ⟨i, hl⟩ := hg _ name hop rfl
    rw [hdirect]
    exact .direct hl (hlookup name i hl) ⟨lookup_lt hl, rfl⟩
  | _ => cases hcallee

end Grammar

section Building

variable {d d' : Declaration} {g h m : Grammar}

/-- All that stands in a built grammar is allowed by its declaration. -/
theorem Declaration.allows (hbuild : d.build = .ok g) {op : Operator} (hop : g.HasNode op) :
    d.Allows op := by
  obtain ⟨r, hr, hmem⟩ := hop
  have hwell : d.WellFormed := build_iff.1 ⟨g, hbuild⟩
  rw [(build_eq_ok hbuild).1] at hr
  exact hwell.nodes _ (mem_numberRules hr) op hmem

/-- The calls of a built grammar lead to rules of it. -/
theorem Declaration.closed (hbuild : d.build = .ok g) : g.Closed := by
  intro op name hop hname
  cases op with
  | call _ args | direct _ args =>
    cases hname
    have htakes : d.Takes name args.length := allows hbuild hop
    obtain ⟨i, hl, -⟩ := htakes.lookup hbuild
    exact ⟨i, hl⟩
  | _ => cases hname

/-- What is built of a declaration and of the one with the rules of a linked grammar added. -/
theorem Declaration.merges {link : String} {rename : String → String} (hg : d.build = .ok g)
    (hh : d'.build = .ok h) (hlink : g.link? link = some (.grammar h))
    (hinside : ∀ r ∈ h.rules, ∀ op ∈ r.body.nodes, op.isForeign = false)
    (hm : (d.merging link h rename).build = .ok m) : g.Merges h link rename m where
  closed := closed hg
  inner := closed hh
  inside := by
    rintro op ⟨r, hr, hop⟩
    exact hinside r hr op hop
  linked := hlink
  across name args hop := by
    have hallowed : d.LinkTakes link name args.length := allows hg hop
    obtain ⟨callee, i, hcallee, hl, -⟩ := hallowed.lookup hg
    -- Links are found by name, so the callee of the call is the grammar that is merged.
    obtain rfl : callee = .grammar h := Option.some.inj (hcallee.symm.trans hlink)
    exact ⟨i, hl⟩
  declared := by
    rw [declared_eq hm, declared_eq hg]
    rfl
  links := by
    funext name
    rw [Grammar.link?, Grammar.link?, links_eq hm, links_eq hg]
    rfl
  checked := checked hm

end Building

namespace Grammar.Merges

variable {g h m : Grammar} {link : String} {rename : String → String} (hM : g.Merges h link rename m)
include hM

/-- Own rules stay at their places, with their calls redirected. -/
theorem rule {i : RuleId} {r : Rule} (hr : g.rules[i]? = some r) :
    m.rules[i]? = some ((r.redirect (.inlined link rename)).number i) := by
  have hdeclared : g.declared[i]? = some r.toDeclaredRule := getElem?_declared hr
  obtain ⟨hi, -⟩ := List.getElem?_eq_some_iff.1 hdeclared
  refine rule_of_declared ?_
  rw [hM.declared, List.getElem?_append_left (by rw [List.length_map]; exact hi), List.getElem?_map,
    hdeclared]
  rfl

/-- Added rules stand behind the own ones, with their calls renamed. -/
theorem added {i : RuleId} {r : Rule} (hr : h.rules[i]? = some r) :
    m.rules[g.rules.length + i]? =
      some ((r.redirect (.renamed rename)).number (g.rules.length + i)) := by
  have hlength : (g.declared.map (DeclaredRule.redirect (.inlined link rename))).length = g.rules.length := by
    rw [List.length_map, g.length_declared]
  refine rule_of_declared ?_
  rw [hM.declared, List.getElem?_append_right (by omega), hlength, Nat.add_sub_cancel_left,
    List.getElem?_map, getElem?_declared hr]
  rfl

/-- Own rules keep their names and places. -/
theorem lookup {name : String} {i : RuleId} (hl : g.lookup name = some i) : m.lookup name = some i := by
  obtain ⟨r, hr, rfl⟩ := lookup_rule hl
  have hkept := hM.checked.lookup_of_rule (hM.rule hr)
  exact hkept

/-- Added rules are found under their new names. -/
theorem lookup_added {name : String} {i : RuleId} (hl : h.lookup name = some i) :
    m.lookup (rename name) = some (g.rules.length + i) := by
  obtain ⟨r, hr, rfl⟩ := lookup_rule hl
  exact hM.checked.lookup_of_rule (hM.added hr)

/-- Own rules are paired with themselves. -/
theorem pairs : g.Pairs m (fun op => op) (Operator.redirect (.inlined link rename))
    (Shifted g.rules.length 0) g.HasNode := by
  refine .of_rules (Operator.changesCalls_redirect _) fun i r hr =>
    ⟨(r.redirect (.inlined link rename)).number i, ?_, rfl, rfl⟩
  rw [Nat.zero_add]
  exact hM.rule hr

/-- Calls of own rules are calls of the same rules in the merged grammar. -/
theorem calls_own {op : Operator} (hop : g.HasNode op) (hcallee : op.callee?.isSome) :
    g.CallPairs m (Shifted g.rules.length 0) op (op.redirect (.inlined link rename)) := by
  refine hM.closed.callPairs (fun name i hl => ?_) (fun _ _ => rfl) (fun _ _ => rfl) hop hcallee
  rw [Nat.zero_add]
  exact hM.lookup hl

/-- The rules of the linked grammar are paired with the added ones. -/
theorem pairs_added : h.Pairs m (fun op => op) (Operator.redirect (.renamed rename))
    (Shifted h.rules.length g.rules.length) h.HasNode :=
  .of_rules (Operator.changesCalls_redirect _) fun _ _ hr => ⟨_, hM.added hr, rfl, rfl⟩

/-- Calls in the linked grammar are calls of its own rules. -/
theorem inner_callee {op : Operator} (hop : h.HasNode op) (hcall : op.isCall) : op.callee?.isSome := by
  refine (Operator.isCall_cases hcall).resolve_right fun hforeign => ?_
  rw [hM.inside op hop] at hforeign
  cases hforeign

/-- They are calls of added rules where they stand now. -/
theorem calls_added {op : Operator} (hop : h.HasNode op) (hcall : op.isCall) :
    h.CallPairs m (Shifted h.rules.length g.rules.length) op (op.redirect (.renamed rename)) := by
  have hcallee := hM.inner_callee hop hcall
  exact hM.inner.callPairs (fun name i hl => hM.lookup_added hl) (fun _ _ => rfl) (fun _ _ => rfl) hop
    hcallee

/-- They are calls of themselves in the linked grammar. -/
theorem calls_self {op : Operator} (hop : h.HasNode op) (hcall : op.isCall) :
    h.CallPairs h (Shifted h.rules.length 0) op op := by
  have hcallee := hM.inner_callee hop hcall
  refine hM.inner.callPairs (ψ := fun op => op) (fun name i hl => ?_) (fun _ _ => rfl) (fun _ _ => rfl) hop
    hcallee
  rw [Nat.zero_add]
  exact hl

/-- A call across a link is a call of an added rule in the merged grammar, or leads elsewhere and stays as
    it is. -/
theorem foreign_cases {op : Operator} (hop : g.HasNode op) (hforeign : op.isForeign) :
    (∃ i args, i < h.rules.length ∧
      (∀ n, g.eval (n + 1) op = Step.call (Engine.callForeignRule n link (.grammar h) i) args) ∧
      ∀ n, m.eval (n + 1) (op.redirect (.inlined link rename)) =
        Step.call (Engine.applyRule n (.grammar m) (g.rules.length + i)) args) ∨
    ∃ grammar name args, op = .foreign grammar name args ∧ op.redirect (.inlined link rename) = op := by
  cases op with
  | «foreign» grammar name args =>
    -- Of calls into linked grammars, only those into the one that is merged are redirected.
    by_cases hlink : grammar = link
    · subst hlink
      obtain ⟨i, hl⟩ := hM.across name args hop
      refine .inl ⟨i, args, lookup_lt hl, fun n => ?_, fun n => ?_⟩
      · have hfound : (RuleSet.grammar h).lookup name = some i := hl
        simp only [Grammar.eval, hM.linked, hfound]
        rfl
      · simp only [Operator.redirect_linked, eval_call, named, hM.lookup_added hl]
        rfl
    · exact .inr ⟨grammar, name, args, rfl, Operator.redirect_other hlink rename name args⟩
  | _ => cases hforeign

end Grammar.Merges

end MemoPeg
