import Mathlib.Data.Finset.Prod
import Mathlib.Order.Filter.AtTopBot.Basic
import Mathlib.Order.Filter.Finite
import MemoPeg.Proofs.Checked
import MemoPeg.Proofs.Compilation
import MemoPeg.Proofs.Contract
import MemoPeg.Regex.Reader

/-
  Parsing ends.

  Rules may call themselves, on the left too, and repetitions have no limit.  That a parse ends all the same
  is due to the memo table: a call for which there is an entry is answered from it.

  1. **Plain rule sets** — built grammars without parameters and without calls past the memo table, their
     compiled forms, and links to such rule sets only.  A parameter may take ever new values, and then each
     call has an entry of its own; a call past the memo table looks none up.
  2. **Measure (`Engine.unseen`)** — the rules at places of the text that have no entry yet.  Entries are
     never removed, so that no run adds to them, and a call that is tried takes one away.
  3. **Growth and repetition** — a growing rule and an unlimited repetition get further in each round but
     the last, and a limited repetition has its limit.
  4. **The crux (`Grammar.eventually_halts`)** — by induction on the places that are left and, for each
     number of them, on the operator, with enough fuel every operator ends with an outcome.

  How much fuel is enough is not computed.  It is enough that there is an amount from which on all runs of the
  operator end, whatever the engine (`∀ᶠ n in atTop`): such amounts for finitely many parts have one in
  common, and for a rule that calls itself the measure goes down.  The same amount must do for all engines
  at once, since a repetition runs its body in engines that are not known beforehand.

  A call that is answered from the table runs nothing, so nothing has to go down there; and a rule that grows
  runs its body again with the entry in place, in which case the round is known to end by the hypothesis on
  fewer places.
-/

namespace MemoPeg

open Filter

section

variable [RegexLibrary]

/-! ## Plain rule sets -/

/-- No parameters and no calls past the memo table, here and in all rule sets that are linked. -/
inductive RuleSet.Plain : RuleSet → Prop
  | vacant (name : String) : Plain (.vacant name)
  | grammar {d : Declaration} {g : Grammar} (hbuild : d.build = .ok g)
      (hparams : ∀ r ∈ g.rules, r.params = [])
      (hdirect : ∀ r ∈ g.rules, ∀ name args, .direct name args ∉ r.body.nodes)
      (hlinks : ∀ l ∈ g.links, Plain l.2) : Plain (.grammar g)
  | compiled {g : Grammar} (h : Plain (.grammar g)) : Plain (.program g.compile)

/-- The operator is not a call, or a call through the memo table without arguments, or one into a linked
    rule set. -/
def Operator.isPlain : Operator → Bool
  | .direct _ _ => false
  | .call _ args => args.isEmpty
  | _ => true

/-- The bodies of a plain grammar are made of plain nodes. -/
theorem Grammar.isPlain_of_built {d : Declaration} {g : Grammar} (hbuild : d.build = .ok g)
    (hparams : ∀ r ∈ g.rules, r.params = [])
    (hdirect : ∀ r ∈ g.rules, ∀ name args, .direct name args ∉ r.body.nodes) {r : Rule}
    (hr : r ∈ g.rules) {op : Operator} (hop : op ∈ r.body.nodes) : op.isPlain := by
  cases op with
  | direct name args => exact absurd hop (hdirect r hr name args)
  | call name args =>
    obtain ⟨r', hcallee, hcount⟩ := (Declaration.checked hbuild).callee hr (.inl hop)
    obtain ⟨rule, -, hr'⟩ := Grammar.rule?_eq_some.1 hcallee
    rw [hparams r' (List.mem_of_getElem? hr')] at hcount
    exact List.isEmpty_iff.2 (List.eq_nil_of_length_eq_zero hcount.symm)
  | _ => rfl

/-! ## Places without an entry -/

/-- What the second engine has no entry for, the first has none for. -/
def Engine.Remembers (e e' : Engine) : Prop :=
  ∀ key, e'.memo.find? key = none → e.memo.find? key = none

omit [RegexLibrary] in
/-- A change makes entries only of entries. -/
theorem Memo.find?_eq_none_of_modify {f : Entry → Entry} {memo : Memo} {key other : Key}
    (h : (memo.modify f key).find? other = none) : memo.find? other = none := by
  rw [Memo.find?_modify] at h
  split at h
  · exact Option.map_eq_none_iff.1 h
  · exact h

omit [RegexLibrary] in
/-- A new entry is of its key, and no other goes away. -/
theorem Memo.find?_eq_none_of_start {memo : Memo} {key other : Key}
    (h : (memo.start key).find? other = none) : key ≠ other ∧ memo.find? other = none := by
  rw [Memo.find?_start] at h
  split at h
  · cases h
  · exact ⟨‹_›, h⟩

omit [RegexLibrary] in
/-- **Entries are never removed.** -/
theorem remembers_order : EngineOrder Engine.Remembers where
  refl _ _ h := h
  trans h k key hnone := h key (k key hnone)
  move _ _ _ h := h
  result _ _ _ h := h
  note _ _ _ _ _ h := h
  noteKey _ _ _ _ _ h := h
  blame _ _ _ _ h := h
  start _ _ _ h := (Memo.find?_eq_none_of_start h).2
  settle _ _ _ _ h := Memo.find?_eq_none_of_modify h
  use _ _ _ h := Memo.find?_eq_none_of_modify h
  nested _ _ _ _ h := h

/-- The rules, at places of the text, whose calls without arguments have no entry yet. -/
def Engine.unseen (g : Grammar) (e : Engine) : Finset (RuleId × Nat) :=
  (Finset.range g.rules.length ×ˢ Finset.range (e.text.size + 1)).filter fun c =>
    e.memo.find? ⟨c.1, c.2, []⟩ = none

/-- A place is unseen if it is one, and has no entry. -/
theorem Engine.mem_unseen {g : Grammar} {e : Engine} {rule : RuleId} {p : Nat} :
    (rule, p) ∈ e.unseen g ↔
      (rule < g.rules.length ∧ p < e.text.size + 1) ∧ e.memo.find? ⟨rule, p, []⟩ = none := by
  simp only [unseen, Finset.mem_filter, Finset.mem_product, Finset.mem_range]

/-- The engine is on a boundary of the text, and has no more than so many places unseen. -/
structure Engine.Remaining (g : Grammar) (t : Text) (k : Nat) (e : Engine) : Prop where
  text : e.text = t
  inText : e.InText
  unseen : (e.unseen g).card ≤ k

namespace Engine.Remaining

variable {g : Grammar} {t : Text} {k : Nat} {e e' : Engine}

/-- There are no more places than rules times offsets. -/
theorem of_inText (g : Grammar) (htext : e.text = t) (h : e.InText) :
    e.Remaining g t (g.rules.length * (t.size + 1)) := by
  refine ⟨htext, h, (Finset.card_filter_le _ _).trans_eq ?_⟩
  rw [Finset.card_product, Finset.card_range, Finset.card_range, htext]

/-- Runs see no fewer places. -/
theorem after (h : e.Remaining g t k) (htext : e'.text = e.text) (hin : e'.InText)
    (hmemo : e.Remembers e') : e'.Remaining g t k := by
  refine ⟨htext.trans h.text, hin, (Finset.card_le_card fun c hc => ?_).trans h.unseen⟩
  obtain ⟨rule, p⟩ := c
  obtain ⟨hplace, hnone⟩ := Engine.mem_unseen.1 hc
  exact Engine.mem_unseen.2 ⟨htext ▸ hplace, hmemo _ hnone⟩

/-- A run that has advanced has no more places left than before. -/
theorem advanced (h : e.Remaining g t k) {o : Outcome} (had : e.Advanced o e')
    (hmemo : e.Remembers e') : e'.Remaining g t k := h.after had.text had.inText hmemo

/-- The history plays no part. -/
theorem note (h : e.Remaining g t k) (event : Event) : (e.note event).Remaining g t k :=
  ⟨h.text, h.inText.note event, h.unseen⟩

/-- The cursor stays within the text. -/
theorem size (h : e.Remaining g t k) : e.pos ≤ t.size := h.text ▸ h.inText.cursor.le_size

/-- Trying a call leaves one place less unseen. -/
theorem opening (h : e.Remaining g t k) {rule : RuleId} (hrule : rule < g.rules.length)
    (hfind : e.memo.find? ⟨rule, e.pos, []⟩ = none) :
    ∃ j, k = j + 1 ∧ (e.opening ⟨rule, e.pos, []⟩).Remaining g t j := by
  have hpos : e.pos < e.text.size + 1 := by
    have := h.inText.cursor.le_size
    omega
  have hless : (e.opening ⟨rule, e.pos, []⟩).unseen g ⊂ e.unseen g := by
    refine Finset.ssubset_iff_subset_ne.2 ⟨fun c hc => ?_, fun heq => ?_⟩
    · obtain ⟨hplace, hnone⟩ := Engine.mem_unseen.1 hc
      exact Engine.mem_unseen.2 ⟨hplace, (Memo.find?_eq_none_of_start hnone).2⟩
    · -- The place of the call itself is not unseen any more.
      have hmem : (rule, e.pos) ∈ e.unseen g := Engine.mem_unseen.2 ⟨⟨hrule, hpos⟩, hfind⟩
      rw [← heq] at hmem
      exact (Memo.find?_eq_none_of_start (Engine.mem_unseen.1 hmem).2).1 rfl
  have hcard := Finset.card_lt_card hless
  have hk := h.unseen
  exact ⟨k - 1, by omega, h.text, h.inText.opening _, by omega⟩

end Engine.Remaining

/-! ## Steps that end -/

omit [RegexLibrary] in
/-- A run goes on with a result to a result. -/
theorem bind_ends {α β : Type} {x : Run α} {k : α → Run β} {a : α} (hx : x = .ok a)
    (hk : ∃ r, k a = .ok r) : ∃ r, x >>= k = .ok r := by
  subst hx
  exact hk

/-- With no more than so many places unseen, the step ends with an outcome. -/
def Step.Halts (g : Grammar) (t : Text) (k : Nat) (s : Step) : Prop :=
  ∀ f, f.engine.Remaining g t k → ∃ o m, s f = .ok (o, m) ∧ f.engine.Advanced o m.engine ∧
    m.engine.Remaining g t k

namespace Step.Halts

variable {g : Grammar} {t : Text} {k : Nat} {s : Step} {f : Frame}

/-- An operator that ends has advanced and keeps its entries. -/
theorem of_ends {n : Nat} {op : Operator}
    (h : ∀ f, f.engine.Remaining g t k → ∃ r, g.eval n op f = .ok r) :
    (g.eval n op).Halts g t k := by
  intro f hf
  obtain ⟨⟨o, m⟩, hm⟩ := h f hf
  have had := (MemoPeg.advances.everywhere n).2.1 g op f o m hm hf.inText
  exact ⟨o, m, hm, had, hf.advanced had ((remembers_order.stepProperty.everywhere n).2.1 g op f o m hm)⟩

/-- A sequence ends after as many parts as it has. -/
theorem sequenceFrom : ∀ {steps : List Step}, (∀ s ∈ steps, s.Halts g t k) →
    ∀ (start : Frame) (value : Value) {f : Frame}, f.engine.Remaining g t k →
      ∃ r, Step.sequenceFrom start steps value f = .ok r := by
  intro steps
  induction steps with
  | nil => intro _ start value f _; exact ⟨_, rfl⟩
  | cons s ss ih =>
    intro hs start value f hf
    obtain ⟨o, m, hm, -, hmleft⟩ := hs s List.mem_cons_self f hf
    refine bind_ends hm ?_
    cases o with
    | failed => exact ⟨_, rfl⟩
    | matched stop v => exact ih (fun s' hs' => hs s' (List.mem_cons_of_mem s hs')) start v hmleft

/-- A choice ends after as many alternatives as it has. -/
theorem choice : ∀ {steps : List Step}, (∀ s ∈ steps, s.Halts g t k) → ∀ {f : Frame},
    f.engine.Remaining g t k → ∃ r, Step.choice steps f = .ok r := by
  intro steps
  induction steps with
  | nil => intro _ f _; exact ⟨_, rfl⟩
  | cons s ss ih =>
    intro hs f hf
    obtain ⟨o, m, hm, -, hmleft⟩ := hs s List.mem_cons_self f hf
    refine bind_ends hm ?_
    cases o with
    | matched stop v => exact ⟨_, rfl⟩
    | failed => exact ih (fun s' hs' => hs s' (List.mem_cons_of_mem s hs')) hmleft

/-- The rounds that a repetition can still have: those that its limit leaves, or as many as the text
    that is left has offsets. -/
def roundsLeft (t : Text) (left : Option Nat) (p : Nat) : Nat := left.getD (t.size - p)

/-- Rounds end when fuel exceeds the rounds that are left, which go down with each round. -/
theorem rounds (hs : s.Halts g t k) : ∀ (fuel : Nat) (left : Option Nat) (values : List Value)
    (f : Frame), f.engine.Remaining g t k → roundsLeft t left f.engine.pos < fuel →
      ∃ r, Step.rounds s fuel left values f = .ok r := by
  intro fuel
  induction fuel with
  | zero => intro left values f _ hfuel; exact absurd hfuel (Nat.not_lt_zero _)
  | succ fuel ih =>
    intro left values f hf hfuel
    unfold Step.rounds
    split
    case isTrue => exact ⟨_, rfl⟩
    case isFalse hleft =>
      obtain ⟨o, m, hm, had, hmleft⟩ := hs f hf
      refine bind_ends hm ?_
      cases o with
      | failed => exact ⟨_, rfl⟩
      | matched stop v =>
        simp only
        split
        case isTrue => exact ⟨_, rfl⟩
        case isFalse hmoved =>
          refine ih _ _ m hmleft ?_
          -- A limit goes down; without one the round has read something.
          cases left with
          | some limit =>
            have hlimit : limit ≠ 0 := fun h => hleft (by rw [h])
            simp only [roundsLeft, Option.map_some, Option.getD_some] at hfuel ⊢
            omega
          | none =>
            have hpos : m.engine.pos = stop := had.pos
            have hle : f.engine.pos ≤ stop := had.le
            have hne : stop ≠ f.engine.pos := fun h => hmoved ⟨h, rfl⟩
            have hsize := hmleft.size
            simp only [roundsLeft, Option.map_none, Option.getD_none] at hfuel ⊢
            omega

/-- A repetition ends with its rounds. -/
theorem repetition (hs : s.Halts g t k) (hf : f.engine.Remaining g t k) (min : Nat)
    (max : Option Nat) (captures : Bool) {fuel : Nat}
    (hfuel : roundsLeft t max f.engine.pos < fuel) :
    ∃ r, Step.repetition s min max captures fuel f = .ok r := by
  obtain ⟨⟨values, m⟩, hm⟩ := hs.rounds fuel max [] f hf hfuel
  refine bind_ends hm ?_
  simp only
  split <;> exact ⟨_, rfl⟩

/-- A predicate ends with its operator. -/
theorem ahead (hs : s.Halts g t k) (hf : f.engine.Remaining g t k) :
    ∃ r, Step.ahead s f = .ok r := by
  obtain ⟨o, m, hm, -, -⟩ := hs f hf
  refine bind_ends hm ?_
  cases o <;> exact ⟨_, rfl⟩

theorem notAhead (hs : s.Halts g t k) (hf : f.engine.Remaining g t k) :
    ∃ r, Step.notAhead s f = .ok r := by
  obtain ⟨o, m, hm, -, -⟩ := hs f hf
  refine bind_ends hm ?_
  cases o <;> exact ⟨_, rfl⟩

/-- A binding ends with its part. -/
theorem binding (hs : s.Halts g t k) (hf : f.engine.Remaining g t k) (name : String)
    (value : Frame → Nat → Value → Value) : ∃ r, Step.binding s name value f = .ok r := by
  obtain ⟨o, m, hm, -, -⟩ := hs f hf
  refine bind_ends hm ?_
  cases o <;> exact ⟨_, rfl⟩

end Step.Halts

/-! ## Calls that end -/

namespace Grammar

variable {g : Grammar} {t : Text} {k n : Nat} {rule : RuleId} {args : List Value}

/-- With no more than so many places unseen, the body of the rule ends with an outcome. -/
def BodyHalts (g : Grammar) (t : Text) (k n : Nat) (rule : RuleId) (args : List Value) : Prop :=
  ∀ e, e.Remaining g t k → ∃ result, RuleSet.body n (.grammar g) rule args e = .ok result

/-- The body of a rule ends if its operator does. -/
theorem bodyHalts_of_rules (h : ∀ r ∈ g.rules, (g.eval n r.body).Halts g t k) (rule : RuleId)
    (args : List Value) : g.BodyHalts t k (n + 1) rule args := by
  intro e he
  cases hr : g.rules[rule]? with
  | none => exact ⟨_, by rw [RuleSet.body_grammar_none hr]⟩
  | some r =>
    obtain ⟨o, m, hm, -, -⟩ :=
      h r (List.mem_of_getElem? hr) ⟨e, Scope.ofArgs r.params args⟩ he
    refine ⟨(o, m.engine), ?_⟩
    rw [RuleSet.body_grammar hr, Step.inScope, hm]
    rfl

/-- Running the body of a rule ends, and leaves the engine as it should be. -/
theorem BodyHalts.invoke (h : g.BodyHalts t k n rule args) {e : Engine} (he : e.Remaining g t k) :
    ∃ o e', e.invokeRule n (.grammar g) rule args = .ok (o, e') ∧ e.Advanced o e' ∧
      e'.Remaining g t k := by
  obtain ⟨⟨o, m⟩, hm⟩ := h _ (he.note (.attempting rule ((RuleSet.grammar g).ruleName rule) e.pos))
  have hrun : e.invokeRule n (.grammar g) rule args =
      .ok (o, e.concluded ((RuleSet.grammar g).runner n) rule m o) := by
    rw [Engine.invokeRule, Engine.invoke_eq]
    exact congrArg _ hm
  have had := CallAdvances.invoke (RuleSet.body_advances n (.grammar g)) rule args _ _ _ hrun he.inText
  have hmemo := remembers_order.invoke (remembers_order.bodies n (.grammar g)) rule args _ _ _ hrun
  exact ⟨o, _, hrun, had, he.advanced had hmemo⟩

/-- A growing rule ends, since it gets further with each round. -/
theorem BodyHalts.growFrom {key : Key} (h : g.BodyHalts t k n key.rule key.args)
    (hkey : t.IsBoundary key.pos) : ∀ (fuel best : Nat) (value : Value) (e : Engine),
      e.Remaining g t k → best ≤ t.size → t.size < best + fuel →
        ∃ result, e.growFrom ((RuleSet.grammar g).runner n) key fuel best value = .ok result := by
  intro fuel
  induction fuel with
  | zero => intro best value e _ hbest hfuel; omega
  | succ fuel ih =>
    intro best value e he hbest hfuel
    have hagain : (e.regrowing key best value).Remaining g t k :=
      ⟨he.text, he.inText.regrowing (he.text ▸ hkey) best value, he.unseen⟩
    obtain ⟨o, m, hm, had, hleft⟩ := h.invoke hagain
    refine bind_ends hm ?_
    cases o with
    | failed => exact ⟨_, rfl⟩
    | matched stop longer =>
      simp only
      split
      case isFalse => exact ⟨_, rfl⟩
      case isTrue hlonger =>
        have hpos : m.pos = stop := had.pos
        have hsettled : (m.settle key (.matched stop longer)).Remaining g t k :=
          hleft.after rfl (had.settle rfl) (remembers_order.settle m key _)
        have hsize : stop ≤ t.size := hpos ▸ hleft.size
        exact ih stop longer _ hsettled hsize (by omega)

/-- A call through the memo table ends if the body of the rule does in the engine with its entry. -/
theorem BodyHalts.apply (h : g.BodyHalts t k n rule args) (hfuel : t.size < n) {e : Engine}
    (htext : e.text = t)  (hin : e.InText)
    (hopened : e.memo.find? ⟨rule, e.pos, args⟩ = none →
      (e.opening ⟨rule, e.pos, args⟩).Remaining g t k) :
    ∃ result, e.applyRule n (.grammar g) rule args = .ok result := by
  simp only [Engine.applyRule, Engine.apply]
  cases hfind : e.memo.find? ⟨rule, e.pos, args⟩ with
  | some entry => exact ⟨_, rfl⟩
  | none =>
    -- The entry is made first, so the body runs with one place less.
    obtain ⟨o, m, hm, had, hleft⟩ := h.invoke (hopened hfind)
    refine bind_ends hm ?_
    cases o with
    | failed => exact ⟨_, rfl⟩
    | matched stop v =>
      simp only
      split
      case isFalse => exact ⟨_, rfl⟩
      case isTrue =>
        have hpos : m.pos = stop := had.pos
        have hstop : m.text.IsBoundary stop := hpos ▸ had.inText.cursor
        have hsettled : (m.settle ⟨rule, e.pos, args⟩ (.matched stop v)).Remaining g t k := by
          refine hleft.after rfl ?_ (remembers_order.settle m _ _)
          exact had.inText.settle _ ⟨had.le, hstop⟩
        have hsize : stop ≤ t.size := hpos ▸ hleft.size
        rw [Engine.grow_settled ((RuleSet.grammar g).runner_retains n) hm]
        exact BodyHalts.growFrom h (htext ▸ hin.cursor) n stop v _ hsettled hsize (by omega)

end Grammar

/-! ## Operators that end -/

/-- With enough fuel, every call of a rule of the rule set ends with an outcome on this text. -/
def RuleSet.Halts (t : Text) (rs : RuleSet) : Prop :=
  ∀ᶠ n in atTop, ∀ e : Engine, e.text = t → e.InText → ∀ rule args,
    ∃ result, e.applyRule n rs rule args = .ok result

/-- A call to a linked rule set ends if that rule set does: its engine is fresh and on the same text. -/
theorem RuleSet.Halts.callForeign {t : Text} {rs : RuleSet} (h : rs.Halts t) (grammar : String) :
    ∀ᶠ n in atTop, ∀ e : Engine, e.text = t → e.InText → ∀ rule args,
      ∃ result, e.callForeignRule n grammar rs rule args = .ok result := by
  filter_upwards [h] with n hn e htext hin rule args
  have hfresh : (e.crossing (rs.runner n) grammar rule).InText :=
    ⟨hin.cursor, Memo.allAnswers_empty⟩
  obtain ⟨result, hresult⟩ := hn (e.crossing (rs.runner n) grammar rule) htext hfresh rule args
  refine ⟨(result.1, e.returned (rs.runner n) grammar rule result.2.history result.1), ?_⟩
  rw [Engine.callForeignRule, Engine.callForeign_eq]
  exact congrArg _ hresult

omit [RegexLibrary] in
/-- What holds from some fuel on of the next fuel, holds from some fuel on. -/
theorem eventually_of_succ {P : Nat → Prop} (h : ∀ᶠ n in atTop, P (n + 1)) : ∀ᶠ n in atTop, P n := by
  rw [← map_add_atTop_eq_nat 1]
  exact h

/-- A rule set that is found under a name is linked. -/
theorem mem_of_link? {g : Grammar} {name : String} {rs : RuleSet} (h : g.link? name = some rs) :
    ∃ l ∈ g.links, l.2 = rs := by
  obtain ⟨l, hl, rfl⟩ := Option.map_eq_some_iff.1 h
  exact ⟨l, List.mem_reverse.1 (List.mem_of_find?_eq_some hl), rfl⟩

/-- An operator without parts ends. -/
theorem Grammar.eventually_halts_of_leaf {g : Grammar} {t : Text} {k : Nat} {op : Operator} {l : Leaf}
    (h : op.shape g = .leaf l) : ∀ᶠ n in atTop, (g.eval n op).Halts g t k := by
  refine eventually_of_succ (.of_forall fun n => .of_ends fun f hf => ?_)
  rw [Grammar.eval_shape, h]
  exact l.step_ends hf.inText

/-- A predicate or a binding ends if its part does. -/
theorem Grammar.eventually_halts_of_part {g : Grammar} {t : Text} {k : Nat} {op part : Operator}
    (hpart : (op.shape g).part? = some (.operator g part))
    (h : ∀ᶠ n in atTop, (g.eval n part).Halts g t k) : ∀ᶠ n in atTop, (g.eval n op).Halts g t k := by
  refine eventually_of_succ ?_
  filter_upwards [h] with n hn
  refine .of_ends fun f hf => ?_
  rw [Grammar.eval_shape]
  cases hshape : op.shape g with
  | ahead p => rw [hshape] at hpart; cases hpart; exact hn.ahead hf
  | notAhead p => rw [hshape] at hpart; cases hpart; exact hn.notAhead hf
  | tag p name =>
    rw [hshape] at hpart
    cases hpart
    rw [Shape.step, Step.tag]
    exact hn.binding hf name _
  | collect p =>
    rw [hshape] at hpart
    cases hpart
    rw [Shape.step, Step.collect]
    exact hn.binding hf "text" _
  | bounds p =>
    rw [hshape] at hpart
    cases hpart
    rw [Shape.step, Step.bounds]
    exact hn.binding hf "bounds" _
  | _ => rw [hshape] at hpart; cases hpart

omit [RegexLibrary] in
/-- A call ends if what it runs does. -/
theorem Step.call_ends {run : List Value → Engine → Run (Outcome × Engine)} {args : List Arg}
    {f : Frame} (h : ∃ result, run (f.scope.resolve args) f.engine = .ok result) :
    ∃ r, Step.call run args f = .ok r := by
  obtain ⟨result, hresult⟩ := h
  exact bind_ends hresult ⟨_, rfl⟩

/-- With no more than so many places unseen and enough fuel, calls without arguments end. -/
def Grammar.CallsHalt (g : Grammar) (t : Text) (k : Nat) : Prop :=
  ∀ rule, rule < g.rules.length → ∀ᶠ n in atTop, ∀ e : Engine, e.Remaining g t k →
    ∃ result, e.applyRule n (.grammar g) rule [] = .ok result

mutual

/-- With enough fuel an operator ends, if the calls of rules do. -/
theorem Grammar.eventually_halts {g : Grammar} {t : Text} {k : Nat} (hcalls : g.CallsHalt t k)
    (hlinks : ∀ l ∈ g.links, l.2.Halts t) : ∀ op : Operator, (∀ o ∈ op.nodes, o.isPlain) →
      ∀ᶠ n in atTop, (g.eval n op).Halts g t k
  | .any, _ => eventually_halts_of_leaf rfl
  | .literal s, _ => eventually_halts_of_leaf (l := .literal s) rfl
  | .pattern p, _ => eventually_halts_of_leaf (l := .scan p.matcher) rfl
  | .range lo hi, _ => by
    cases hchars : singleChars lo hi with
    | none => exact eventually_halts_of_leaf (l := .fail) (by simp only [Operator.shape, hchars])
    | some bounds =>
      exact eventually_halts_of_leaf (l := .range bounds.1 bounds.2)
        (by simp only [Operator.shape, hchars])
  | .sequence ops, hop => by
    refine eventually_of_succ ?_
    filter_upwards [Grammar.eventually_haltsAll hcalls hlinks ops fun o ho => hop o (List.mem_cons_of_mem _ ho)]
      with n hn
    refine .of_ends fun f hf => ?_
    refine Step.Halts.sequenceFrom (fun s hs => ?_) f .nil hf
    obtain ⟨op, hop, rfl⟩ := List.mem_map.1 hs
    exact hn op hop
  | .choice ops, hop => by
    refine eventually_of_succ ?_
    filter_upwards [Grammar.eventually_haltsAll hcalls hlinks ops fun o ho => hop o (List.mem_cons_of_mem _ ho)]
      with n hn
    refine .of_ends fun f hf => ?_
    refine Step.Halts.choice (fun s hs => ?_) hf
    obtain ⟨op, hop, rfl⟩ := List.mem_map.1 hs
    exact hn op hop
  | .repetition op min max captures, hop => by
    refine eventually_of_succ ?_
    filter_upwards [Grammar.eventually_halts hcalls hlinks op fun o ho => hop o (List.mem_cons_of_mem _ ho),
      eventually_gt_atTop (max.getD t.size)] with n hn hfuel
    refine .of_ends fun f hf => hn.repetition hf min max captures ?_
    refine Nat.lt_of_le_of_lt ?_ hfuel
    cases max with
    | none => exact Nat.sub_le _ _
    | some limit => exact Nat.le_refl _
  | .ahead op, hop => by
    have part := Grammar.eventually_halts hcalls hlinks op fun o ho => hop o (List.mem_cons_of_mem _ ho)
    cases op with
    | action a => exact eventually_halts_of_leaf (l := .test a true) rfl
    | _ => exact eventually_halts_of_part rfl part
  | .notAhead op, hop => by
    have part := Grammar.eventually_halts hcalls hlinks op fun o ho => hop o (List.mem_cons_of_mem _ ho)
    cases op with
    | action a => exact eventually_halts_of_leaf (l := .test a false) rfl
    | _ => exact eventually_halts_of_part rfl part
  | .tag op name, hop =>
    eventually_halts_of_part rfl
      (Grammar.eventually_halts hcalls hlinks op fun o ho => hop o (List.mem_cons_of_mem _ ho))
  | .action a, _ => eventually_halts_of_leaf (l := .action a) rfl
  | .collect op, hop =>
    eventually_halts_of_part rfl
      (Grammar.eventually_halts hcalls hlinks op fun o ho => hop o (List.mem_cons_of_mem _ ho))
  | .bounds op, hop =>
    eventually_halts_of_part rfl
      (Grammar.eventually_halts hcalls hlinks op fun o ho => hop o (List.mem_cons_of_mem _ ho))
  | .call name args, hop => by
    obtain rfl : args = [] := List.isEmpty_iff.1 (hop _ List.mem_cons_self)
    cases hlookup : g.lookup name with
    | none => exact eventually_halts_of_leaf (l := .fail) (by simp only [Operator.shape, hlookup])
    | some rule =>
      obtain ⟨r, hr, -⟩ := Grammar.lookup_rule hlookup
      refine eventually_of_succ ?_
      filter_upwards [hcalls rule (List.getElem?_eq_some_iff.1 hr).1] with n hn
      refine .of_ends fun f hf => ?_
      rw [Grammar.eval_shape]
      simp only [Operator.shape, hlookup]
      exact Step.call_ends (hn f.engine hf)
  | .direct name args, hop => by cases hop (.direct name args) List.mem_cons_self
  | .foreign grammar name args, _ => by
    cases hlink : g.link? grammar with
    | none => exact eventually_halts_of_leaf (l := .fail) (by simp only [Operator.shape, hlink])
    | some callee =>
      cases hlookup : callee.lookup name with
      | none =>
        exact eventually_halts_of_leaf (l := .fail) (by simp only [Operator.shape, hlink, hlookup])
      | some rule =>
        obtain ⟨l, hl, rfl⟩ := mem_of_link? hlink
        refine eventually_of_succ ?_
        filter_upwards [(hlinks l hl).callForeign grammar] with n hn
        refine .of_ends fun f hf => ?_
        rw [Grammar.eval_shape]
        simp only [Operator.shape, hlink, hlookup]
        exact Step.call_ends (hn f.engine hf.text hf.inText rule _)

/-- With enough fuel all operators of a row end. -/
theorem Grammar.eventually_haltsAll {g : Grammar} {t : Text} {k : Nat} (hcalls : g.CallsHalt t k)
    (hlinks : ∀ l ∈ g.links, l.2.Halts t) : ∀ ops : List Operator,
      (∀ o ∈ Operator.nodesAll ops, o.isPlain) →
        ∀ᶠ n in atTop, ∀ op ∈ ops, (g.eval n op).Halts g t k
  | [], _ => .of_forall fun _ _ hop => absurd hop List.not_mem_nil
  | op :: ops, hops => by
    filter_upwards [Grammar.eventually_halts hcalls hlinks op fun o ho => hops o (List.mem_append_left _ ho),
      Grammar.eventually_haltsAll hcalls hlinks ops fun o ho => hops o (List.mem_append_right _ ho)]
      with n hfirst hrest op' hop'
    rcases List.mem_cons.1 hop' with rfl | hop'
    · exact hfirst
    · exact hrest op' hop'

end

/-! ## Rule sets that end -/

/-- With enough fuel the bodies of all rules of a plain grammar end, however many places are unseen. -/
theorem Grammar.eventually_bodies {g : Grammar} {t : Text}
    (hplain : ∀ r ∈ g.rules, ∀ op ∈ r.body.nodes, op.isPlain) (hlinks : ∀ l ∈ g.links, l.2.Halts t) :
    ∀ k, ∀ᶠ n in atTop, ∀ r ∈ g.rules, (g.eval n r.body).Halts g t k := by
  -- The bodies end with so many places unseen if the calls do.
  have bodies : ∀ {k}, g.CallsHalt t k → ∀ᶠ n in atTop, ∀ r ∈ g.rules, (g.eval n r.body).Halts g t k :=
    fun hcalls => (eventually_all_finite (List.finite_toSet g.rules)).2 fun r hr =>
      Grammar.eventually_halts hcalls hlinks r.body (hplain r hr)
  intro k
  induction k with
  | zero =>
    refine bodies fun rule hrule => .of_forall fun n e he => ?_
    -- No call can be tried when no place is unseen.
    cases hfind : e.memo.find? ⟨rule, e.pos, []⟩ with
    | some entry => exact ⟨_, by simp only [Engine.applyRule, Engine.apply, hfind]; rfl⟩
    | none =>
      obtain ⟨j, hj, -⟩ := he.opening hrule hfind
      cases hj
  | succ k ih =>
    refine bodies fun rule hrule => eventually_of_succ ?_
    filter_upwards [ih, eventually_gt_atTop t.size] with n hn hfuel e he
    refine (Grammar.bodyHalts_of_rules hn rule []).apply (by omega) he.text he.inText fun hfind => ?_
    obtain ⟨j, hj, hopened⟩ := he.opening hrule hfind
    cases hj
    exact hopened

/-- With enough fuel every call of a rule of a plain rule set ends. -/
theorem RuleSet.Plain.halts {rs : RuleSet} (h : rs.Plain) (t : Text) : rs.Halts t := by
  induction h with
  | vacant name =>
    refine eventually_of_succ (.of_forall fun n e _ _ rule args => ?_)
    simp only [Engine.applyRule, Engine.apply]
    cases e.memo.find? ⟨rule, e.pos, args⟩ with
    | some entry => exact ⟨_, rfl⟩
    | none => exact ⟨_, rfl⟩
  | @grammar d g hbuild hparams hdirect _ ih =>
    have hplain : ∀ r ∈ g.rules, ∀ op ∈ r.body.nodes, op.isPlain :=
      fun r hr op hop => Grammar.isPlain_of_built hbuild hparams hdirect hr hop
    refine eventually_of_succ ?_
    filter_upwards [Grammar.eventually_bodies hplain ih (g.rules.length * (t.size + 1)),
      eventually_gt_atTop t.size] with n hn hfuel e htext hin rule args
    exact (Grammar.bodyHalts_of_rules hn rule args).apply (by omega) htext hin fun _ =>
      .of_inText g htext (hin.opening _)
  | @compiled g _ ih =>
    filter_upwards [ih] with n hn e htext hin rule args
    rw [Engine.applyRule, agreeWith n _ _ (.compile g)]
    exact hn e htext hin rule args

/-- **Parsing ends.**  For a plain rule set and a text there is an amount of fuel that suffices: with
    any more of it, every call of every rule, in every engine that has been reached on the text,
    ends with an outcome. -/
theorem parsing_ends {rs : RuleSet} (h : rs.Plain) (t : Text) :
    ∃ bound, ∀ n, bound ≤ n → ∀ e : Engine, e.Reached t → ∀ rule args,
      ∃ o e', e.applyRule n rs rule args = .ok (o, e') := by
  obtain ⟨bound, hbound⟩ := eventually_atTop.1 (h.halts t)
  refine ⟨bound, fun n hn e he rule args => ?_⟩
  obtain ⟨⟨o, e'⟩, hrun⟩ := hbound n hn e he.inText.1 he.inText.2 rule args
  exact ⟨o, e', hrun⟩

end

/-- Signs, to be linked. -/
def signs : Declaration := ⟨"signs", [⟨"sign", [], .plus (.literal "-")⟩], none, []⟩

/-- The grammar of signs. -/
def signsGrammar : Grammar := .ofRules "signs" signs.rules 0 [] []

/-- A list that calls itself behind signs that may be missing. -/
def signedList : Operator :=
  .choice [.sequence [.optional (.foreign "signs" "sign" []), .call "list" [], .literal "x"],
    .literal "y"]

/-- A grammar of such lists, linked to the signs in their compiled form. -/
def signedLists : Declaration :=
  ⟨"lists", [⟨"list", [], signedList⟩], none, [("signs", .program signsGrammar.compile)]⟩

/-- The left recursion shows in the cycles. -/
def signedListsGrammar : Grammar :=
  .ofRules "lists" signedLists.rules 0 signedLists.links [["list", "list"]]

/-- The signed lists have no parameters and no direct calls, and neither have the linked signs. -/
theorem signedLists_plain : (RuleSet.grammar signedListsGrammar).Plain := by
  have hsigns : (RuleSet.grammar signsGrammar).Plain := by
    refine @RuleSet.Plain.grammar _ signs signsGrammar rfl (by decide) ?_
      (by simp [signsGrammar, Grammar.ofRules])
    intro r hr name args hop
    obtain rfl := List.mem_singleton.1 hr
    simp [Operator.plus, Operator.nodes] at hop
  refine @RuleSet.Plain.grammar _ signedLists signedListsGrammar rfl (by decide) ?_ ?_
  · intro r hr name args hop
    obtain rfl := List.mem_singleton.1 hr
    simp [signedList, Operator.optional, Operator.nodes, Operator.nodesAll] at hop
  · intro l hl
    obtain rfl := List.mem_singleton.1 hl
    exact .compiled hsigns

/-- The list calls itself where it is tried, and still every call ends. -/
theorem parsing_ends_signedLists :
    signedLists.build = .ok signedListsGrammar ∧
      ∃ bound, ∀ n, bound ≤ n → ∀ e : Engine, e.Reached "-yxx".toList → ∀ rule args,
        ∃ o e', e.applyRule n (.grammar signedListsGrammar) rule args = .ok (o, e') :=
  ⟨rfl, parsing_ends signedLists_plain "-yxx".toList⟩

end MemoPeg
