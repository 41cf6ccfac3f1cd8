import MemoPeg.Proofs.Settling

/-
  Grammars that agree on some of their rules.

  To compare two ways of writing a rule one compares two grammars.  They have other rules in common, on which
  the rule is built, and these should match the same in both, though they are not at the same places.

  1. **Agreement (`Grammar.Agrees`)** — the rules of some names have the same parameters and bodies in
     both grammars, and call rules of these names only.  They may stand at other places among other
     rules.
  2. **The crux (`Agrees.follows`)** — memo-free runs in both grammars are in lockstep; engines need only
     be at the same place, since ids of rules go into records and nowhere else.
  3. **Specification (`Agrees.settles`)** — an operator that calls rules of these names settles on the
     same outcome in both.

  Runs with a memo table would be harder to compare, for ids are part of keys.  Settling has been shown to be a
  memo-free matter, and that is what makes 2 enough.
-/

namespace MemoPeg

namespace Grammar

variable [RegexLibrary]

/-- The rule that a name means. -/
def rule? (g : Grammar) (name : String) : Option Rule := do g.rules[← g.lookup name]?

/-- The declaration that a name means. -/
def declared? (g : Grammar) (name : String) : Option DeclaredRule := (g.rule? name).map (·.toDeclaredRule)

/-- A name means a rule of that name. -/
theorem lookup_rule {g : Grammar} {name : String} {rule : RuleId} (h : g.lookup name = some rule) :
    ∃ r, g.rules[rule]? = some r ∧ r.name = name := by
  rw [g.lookup_eq] at h
  obtain ⟨hlt, hname, -⟩ := List.findIdx?_eq_some_iff_getElem.1 h
  exact ⟨g.rules[rule], List.getElem?_eq_getElem hlt, eq_of_beq hname⟩

/-- A rule has one name. -/
theorem lookup_inj {g : Grammar} {name name' : String} {rule : RuleId}
    (h : g.lookup name = some rule) (h' : g.lookup name' = some rule) : name = name' := by
  obtain ⟨r, hr, rfl⟩ := lookup_rule h
  obtain ⟨r', hr', rfl⟩ := lookup_rule h'
  rw [hr] at hr'
  exact congrArg (·.name) (Option.some.inj hr')

/-- A rule of a name is the one that the name is looked up to. -/
theorem rule?_eq_some {g : Grammar} {name : String} {r : Rule} :
    g.rule? name = some r ↔ ∃ rule, g.lookup name = some rule ∧ g.rules[rule]? = some r :=
  Option.bind_eq_some_iff

/-- There is no rule of a name that is not found. -/
theorem rule?_eq_none {g : Grammar} {name : String} : g.rule? name = none ↔ g.lookup name = none := by
  constructor
  · intro h
    cases hl : g.lookup name with
    | none => rfl
    | some rule =>
      obtain ⟨r, hr, -⟩ := lookup_rule hl
      have hsome := rule?_eq_some.2 ⟨rule, hl, hr⟩
      rw [h] at hsome
      cases hsome
  · intro h
    unfold rule?
    rw [h]
    rfl

/-- The declaration of a name is that of its rule. -/
theorem declared?_eq_some {g : Grammar} {name : String} {d : DeclaredRule} :
    g.declared? name = some d ↔ ∃ r, g.rule? name = some r ∧ r.toDeclaredRule = d :=
  Option.map_eq_some_iff

/-- There is no declaration of a name that is not found. -/
theorem declared?_eq_none {g : Grammar} {name : String} : g.declared? name = none ↔ g.lookup name = none :=
  Option.map_eq_none_iff.trans rule?_eq_none

/-- The rule has one of these names. -/
def Named (g : Grammar) (N : String → Prop) (rule : RuleId) : Prop :=
  ∃ name, N name ∧ g.lookup name = some rule

/-- A name that the operator reaches if it means a rule at all. -/
def ReachesName (g : Grammar) (op : Operator) (name : String) : Prop :=
  ∀ rule, g.lookup name = some rule → g.Reaches op rule

/-- A sequence reaches what a part of it calls. -/
theorem reachesName_of_mem {g : Grammar} {ops : List Operator} {op : Operator} (hop : op ∈ ops)
    {name : String} (hname : name ∈ op.callees) : g.ReachesName (.sequence ops) name :=
  fun _ hl => .call (Operator.mem_callees_of_child hop hname) hl

/-- The rules of these names are declared alike in both grammars, and call rules of these names only. -/
structure Agrees (g g' : Grammar) (N : String → Prop) : Prop where
  links : g'.links = g.links
  rules : ∀ name, N name → g'.declared? name = g.declared? name
  closed : ∀ name d, N name → g.declared? name = some d → ∀ callee ∈ d.body.callees, N callee

end Grammar

/-- Engines at the same place, whatever they have recorded. -/
structure Engine.SamePlace (e e' : Engine) : Prop where
  text : e'.text = e.text
  pos : e'.pos = e.pos
  depth : e'.depth = e.depth

/-- Engines that stand at the same place go on together. -/
theorem Engine.samePlace_lockstep : EngineLockstep Engine.SamePlace fun _ => True where
  text h := h.text
  pos h := h.pos
  depth h := h.depth
  move h _ := ⟨h.text, rfl, h.depth⟩
  result h _ := ⟨h.text, h.pos, h.depth⟩
  note h _ _ := ⟨h.text, h.pos, h.depth⟩
  blame h _ _ := ⟨h.text, h.pos, h.depth⟩
  passed {e e' new reach o after after'} h _ hp hp' :=
    { text := by rw [hp'.text, hp.text, h.text]
      pos := by rw [hp'.pos, hp.pos, h.pos]
      depth := by rw [hp'.depth, hp.depth, h.depth] }
  older _ := trivial

namespace Grammar.Agrees

variable [RegexLibrary]

variable {g g' : Grammar} {N : String → Prop}

/-- Two grammars agree with each other. -/
theorem symm (h : g.Agrees g' N) : g'.Agrees g N where
  links := h.links.symm
  rules name hname := (h.rules name hname).symm
  closed name d hname hd := h.closed name d hname ((h.rules name hname).symm.trans hd)

/-- Where the rules that an operator reaches are the same, the grammars agree on them. -/
theorem of_reaches {op : Operator} (hlinks : g'.links = g.links)
    (hsame : ∀ name, g.ReachesName op name → g'.declared? name = g.declared? name) :
    g.Agrees g' (g.ReachesName op) where
  links := hlinks
  rules := hsame
  closed := by
    intro name d hname hd callee hcallee rule' hl'
    obtain ⟨r, hr, rfl⟩ := declared?_eq_some.1 hd
    obtain ⟨rule, hl, hrule⟩ := rule?_eq_some.1 hr
    exact (hname rule hl).next hrule hcallee hl'

/-- The rules of these names are closed under calls. -/
theorem closedUnderCalls (h : g.Agrees g' N) : g.ClosedUnderCalls (g.Named N) := by
  rintro rule r callee rule' ⟨name, hname, hl⟩ hr hcallee hl'
  have hmeant := declared?_eq_some.2 ⟨r, rule?_eq_some.2 ⟨rule, hl, hr⟩, rfl⟩
  exact ⟨callee, h.closed name _ hname hmeant callee hcallee, hl'⟩

/-- Past the memo table, the rules of one of these names run alike. -/
theorem invoke_follows (h : g.Agrees g' N) {n : Nat}
    (ih : ∀ k, k < n → ∀ op : Operator, (∀ name ∈ op.callees, N name) →
      Follows (Framed Engine.SamePlace true) (fun _ => True) (g.memoFree.eval k op.memoFree)
        fun m => g'.memoFree.eval m op.memoFree)
    {name : String} (hname : N name) {rule rule' : RuleId} (hl : g.lookup name = some rule)
    (hl' : g'.lookup name = some rule') (args : List Value) :
    CallFollows Engine.SamePlace (fun _ => True)
      (Engine.invokeRule n (.grammar g.memoFree) rule args)
      fun m => Engine.invokeRule m (.grammar g'.memoFree) rule' args := by
  obtain ⟨r, hr, -⟩ := lookup_rule hl
  obtain ⟨r', hr', -⟩ := lookup_rule hl'
  -- Both ids stand for rules that are declared alike.
  have hmeant := declared?_eq_some.2 ⟨r, rule?_eq_some.2 ⟨rule, hl, hr⟩, rfl⟩
  have hsame : r'.toDeclaredRule = r.toDeclaredRule := by
    have hmeant' := declared?_eq_some.2 ⟨r', rule?_eq_some.2 ⟨rule', hl', hr'⟩, rfl⟩
    rw [h.rules name hname, hmeant] at hmeant'
    exact (Option.some.inj hmeant').symm
  refine EngineLockstep.invoke_of (fun _ => trivial) (fun _ => rfl)
    (fun e e' he => ⟨he.text, he.pos, he.depth⟩) (fun e e' b b' o he hb => ?_)
    (EngineLockstep.body ?_ ?_ args)
  · cases o with
    | matched stop value => exact ⟨hb.text, rfl, hb.depth⟩
    | failed => exact ⟨hb.text, he.pos, hb.depth⟩
  · intro hnone
    rw [rule_memoFree, hr] at hnone
    cases hnone
  · intro s hs
    rw [rule_memoFree, hr] at hs
    cases hs
    refine ⟨r'.mapBody Operator.memoFree, ?_, ?_, fun k hk => ?_⟩
    · rw [rule_memoFree, hr', Option.map_some]
    · rw [Rule.params_mapBody, Rule.params_mapBody, hsame]
    · rw [Rule.body_mapBody, Rule.body_mapBody, hsame]
      exact ih k hk r.body (h.closed name _ hname hmeant)

/-- **In lockstep.**  An operator that calls rules of these names runs alike in both grammars. -/
theorem follows (h : g.Agrees g' N) : ∀ (n : Nat) (op : Operator), (∀ name ∈ op.callees, N name) →
    Follows (Framed Engine.SamePlace true) (fun _ => True) (g.memoFree.eval n op.memoFree)
      fun m => g'.memoFree.eval m op.memoFree := by
  intro n
  induction n using Nat.strongRecOn with
  | ind n ih =>
    intro op hop
    cases n with
    | zero => exact .starved
    | succ n =>
      have hT : EngineLockstep Engine.SamePlace fun _ => True := Engine.samePlace_lockstep
      have hargs : ∀ (args : List Arg) (f f' : Frame), Framed Engine.SamePlace true f f' →
          f'.scope.resolve args = f.scope.resolve args := by
        intro args f f' hf
        rw [hf.2 rfl]
      refine .of_succ ((hT.frames true).eval Operator.changesCalls_memoFree
        Operator.changesCalls_memoFree op
        (fun c hc => ih n (by omega) c fun name hname =>
          hop name (Operator.mem_callees_of_child hc hname))
        (fun _ _ _ f f' hf => hf.2 rfl) fun hcall => ?_)
      -- A call through the memo table and one past it are the same here.
      have direct : ∀ name args, N name →
          Follows (Framed Engine.SamePlace true) (fun _ => True)
            (g.memoFree.eval (n + 1) (.direct name args))
            fun m => g'.memoFree.eval (m + 1) (.direct name args) := by
        intro name args hname
        simp only [eval_direct]
        refine .named (fun hnone => ?_) fun rule hl => ?_
        · rw [lookup_memoFree] at hnone ⊢
          rw [← declared?_eq_none, h.rules name hname, declared?_eq_none]
          exact hnone
        · rw [lookup_memoFree] at hl
          obtain ⟨r, hr, -⟩ := lookup_rule hl
          have hmeant := declared?_eq_some.2 ⟨r, rule?_eq_some.2 ⟨rule, hl, hr⟩, rfl⟩
          obtain ⟨r', hr', -⟩ := declared?_eq_some.1 ((h.rules name hname).trans hmeant)
          obtain ⟨rule', hl', -⟩ := rule?_eq_some.1 hr'
          exact ⟨rule', (g'.lookup_memoFree name).trans hl',
            EngineLockstep.call (hargs args) fun values =>
              h.invoke_follows (fun k hk => ih k (by omega)) hname hl hl' values⟩
      cases op with
      | call name args =>
        exact direct name args (hop name (Operator.mem_callees (Operator.mem_nodes_self _) rfl))
      | direct name args =>
        exact direct name args (hop name (Operator.mem_callees (Operator.mem_nodes_self _) rfl))
      | «foreign» grammar name args =>
        have hlinks : g'.memoFree.link? = g.memoFree.link? := by
          funext name
          show g'.link? name = g.link? name
          unfold link?
          rw [h.links]
        exact hT.eval_foreign g.memoFree g'.memoFree hlinks (hargs args) n
      | _ => cases hcall

/-- **What an operator settles on** depends on the rules that it reaches, and on nothing else of the
    grammar. -/
theorem settles (h : g.Agrees g' N) {op : Operator} (hop : ∀ name ∈ op.callees, N name) {t : Text}
    {p : Nat} {scope : Scope} {o : Outcome} (hs : g.Settles t op p scope o) :
    g'.Settles t op p scope o := by
  obtain ⟨n, f, hrun⟩ := Settles.iff_memoFree.1 hs
  obtain ⟨f', ⟨k, hk⟩, -⟩ := (h.follows n op hop _ o f hrun trivial).2 ⟨_, scope⟩
    ⟨⟨rfl, rfl, rfl⟩, fun _ => rfl⟩
  exact Settles.iff_memoFree.2 ⟨k, f', hk k (Nat.le_refl k)⟩

end Grammar.Agrees

variable [RegexLibrary]

/-- What an operator calls by these names are rules of these names. -/
theorem Operator.Within.named {g : Grammar} {N : String → Prop} {op : Operator}
    (hop : ∀ name ∈ op.callees, N name) : op.Within g (g.Named N) true where
  calls name hname _ hrule := ⟨name, hop name hname, hrule⟩
  blind hs := by cases hs

end MemoPeg
