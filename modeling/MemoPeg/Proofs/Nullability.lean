import MemoPeg.Proofs.Agreement
import MemoPeg.Proofs.Meaning
import MemoPeg.Proofs.Saturation

/-
  Rules that need not read.

  The checks of a grammar ask which operators can match without reading, and answer by a judgement on
  trees.  Here the judgement is held against what operators do.

  1. **Solid operators (`Operator.isSolid`)** — no expressions, no calls into linked grammars and no empty
     literals, which the judgement takes for reading though they can match without.
  2. **Steps (`Leaf.step_reads`)** — a solid step that matches goes on, or it is a test or an action, which
     the judgement knows to be idle.
  3. **Specification (`Derives.reads`)** — in a grammar of solid operators, whatever matches without
     reading is nullable, and no match ends before it begins.

  The two halves of 3 are proved together, in one induction over derivations: a row that ends where it began has
  parts that all did, but only because none of them went back.  A call that is answered by a seed is where the
  induction has nothing to say, so that seeds keep the same is carried along (`Seed.Reads`); the seed of a later
  round is a match of an earlier one, of which it has been shown.
-/

namespace MemoPeg

variable [RegexLibrary]

/-! ## Solid operators -/

/-- The node is no expression, no call into a linked grammar and no empty literal. -/
def Operator.isSolid : Operator → Bool
  | .pattern _ | .foreign _ _ _ => false
  | .literal s => s ≠ ""
  | _ => true

/-- All nodes of the operator are solid. -/
def Operator.Solid (op : Operator) : Prop := ∀ o ∈ op.nodes, o.isSolid

/-- The parts of a solid operator are solid. -/
theorem Operator.Solid.child {op c : Operator} (h : op.Solid) (hc : c ∈ op.children) : c.Solid :=
  fun o ho => h o (Operator.mem_nodes_of_child hc ho)

/-- The step is no expression and no empty literal. -/
def Leaf.isSolid : Leaf → Bool
  | .scan _ => false
  | .literal s => s ≠ ""
  | _ => true

/-- The step can match without reading. -/
def Leaf.isIdle : Leaf → Bool
  | .test _ _ | .action _ => true
  | _ => false

/-- The leaf that a solid operator is made from is solid, and nullable if it can match without reading. -/
theorem Operator.Solid.leaf {g : Grammar} {op : Operator} {l : Leaf} (hop : op.isSolid)
    (h : op.shape g = .leaf l) :
    l.isSolid ∧ (l.isIdle → ∀ known, op.isNullable g.rules known) := by
  unfold Operator.shape at h
  (repeat' split at h) <;> cases h
  case h_2 => exact ⟨hop, fun h => by cases h⟩
  case h_3 => cases hop
  -- What is left is either not idle, or a predicate or an action, which count as nullable.
  all_goals refine ⟨rfl, fun h known => ?_⟩
  all_goals first | (cases h; done) | simp only [Operator.isNullable]

omit [RegexLibrary] in
/-- A literal with a character in it ends behind its start. -/
theorem Text.lt_literalEnd {t literal : Text} {n stop : Nat} (hliteral : literal ≠ [])
    (h : t.literalEnd n literal = some stop) : n < stop := by
  obtain ⟨c, literal, rfl⟩ := List.exists_cons_of_ne_nil hliteral
  simp only [Text.literalEnd, List.isEmpty_cons, Bool.false_eq_true, if_false] at h
  split at h
  case h_2 => cases h
  case h_1 =>
    split at h
    case isFalse => cases h
    case isTrue =>
      cases h
      have hc := c.utf8Size_pos
      rw [Text.size_cons]
      omega

omit [RegexLibrary] in
/-- A character takes at least one byte. -/
theorem Engine.lt_readChar {e e' : Engine} {c : Char} (h : e.readChar = some (c, e')) :
    e.pos < e'.pos := by
  obtain ⟨d, -, heq⟩ := Option.map_eq_some_iff.1 h
  cases heq
  exact Nat.lt_add_of_pos_right c.utf8Size_pos

omit [RegexLibrary] in
/-- A literal that is not empty takes at least one byte. -/
theorem Engine.lt_readLiteral {e e' : Engine} {literal read : Text} (hliteral : literal ≠ [])
    (h : e.readLiteral literal = .ok (some (read, e'))) : e.pos < e'.pos := by
  unfold Engine.readLiteral Engine.readTo at h
  cases hend : e.text.literalEnd e.pos literal with
  | none => rw [hend] at h; cases h
  | some stop =>
    rw [hend] at h
    simp only at h
    split at h
    · cases h
      exact Text.lt_literalEnd hliteral hend
    · cases h

omit [RegexLibrary] in
/-- A solid step that matches goes on, or is idle. -/
theorem Leaf.step_reads {l : Leaf} (hl : l.isSolid) {f m : Frame} {stop : Nat} {v : Value}
    (h : l.step f = .ok (.matched stop v, m)) :
    f.engine.pos ≤ stop ∧ (stop = f.engine.pos → l.isIdle) := by
  -- A step that goes on need not be idle.
  have further : f.engine.pos < stop →
      f.engine.pos ≤ stop ∧ (stop = f.engine.pos → l.isIdle) :=
    fun hlt => ⟨Nat.le_of_lt hlt, fun heq => absurd heq (Nat.ne_of_gt hlt)⟩
  cases l with
  | any =>
    rw [Leaf.step, Step.any] at h
    rcases Step.terminal_eq_ok h with ⟨c, e, hread, heq, -⟩ | ⟨-, heq, -⟩ <;> cases heq
    exact further (Engine.lt_readChar (Except.ok.inj hread))
  | range lo hi =>
    rw [Leaf.step, Step.range] at h
    rcases Step.terminal_eq_ok h with ⟨c, e, hread, heq, -⟩ | ⟨-, heq, -⟩ <;> cases heq
    exact further (Engine.lt_readChar (Option.filter_eq_some_iff.1 (Except.ok.inj hread)).1)
  | literal s =>
    have hs : s.toList ≠ [] := by
      have hne : s ≠ "" := of_decide_eq_true hl
      exact fun hnil => hne (String.toList_eq_nil_iff.1 hnil)
    rw [Leaf.step, Step.literal] at h
    rcases Step.terminal_eq_ok h with ⟨read, e, hread, heq, -⟩ | ⟨-, heq, -⟩ <;> cases heq
    exact further (Engine.lt_readLiteral hs hread)
  | scan m => cases hl
  | test a wanted =>
    obtain ⟨-, ⟨-, heq⟩ | ⟨-, heq⟩⟩ := Step.test_eq_ok h <;> cases heq
    exact ⟨Nat.le_refl _, fun _ => rfl⟩
  | action a =>
    obtain ⟨heq, -⟩ := Step.action_eq_ok h
    cases heq
    exact ⟨Nat.le_refl _, fun _ => rfl⟩
  | fail => cases h

/-! ## What matches without reading -/

/-- The grammar has solid bodies only, and these names are closed. -/
structure Grammar.Solid (g : Grammar) (known : List String) : Prop where
  bodies : ∀ r ∈ g.rules, r.body.Solid
  closed : NullableClosed g.rules known

/-- A call of a rule is nullable if the rule is. -/
theorem Grammar.isKnown_of_lookup {g : Grammar} {known : List String} {name : String} {rule : RuleId}
    (hlookup : g.lookup name = some rule)
    (hknown : ∀ r, g.rules[rule]? = some r → r.name ∈ known) :
    ((findRule g.rules name).isSome && known.contains name) = true := by
  obtain ⟨r, hr, rfl⟩ := Grammar.lookup_rule hlookup
  rw [Bool.and_eq_true, findRule_isSome_iff, List.contains_iff_mem]
  exact ⟨⟨r, List.mem_of_getElem? hr, rfl⟩, hknown r hr⟩

/-- A match of the rule that begins and ends there goes on, or the rule is nullable. -/
def Grammar.Reads (g : Grammar) (known : List String) (rule : RuleId) (start stop : Nat) : Prop :=
  start ≤ stop ∧ (stop = start → ∀ r, g.rules[rule]? = some r → r.name ∈ known)

/-- The match of a seed goes on, or its rule is nullable. -/
def Seed.Reads (g : Grammar) (known : List String) (σ : Seed) : Prop :=
  ∀ stop v, σ.outcome = .matched stop v → g.Reads known σ.key.rule σ.key.pos stop

/-- What an answer has to say about reading. -/
def Question.Reads (g : Grammar) (known : List String) : Question → Outcome → Prop
  | .phrase σ x p, o => ∀ op, x = .operator g op → op.Solid → σ.Reads g known → ∀ stop v,
      o = .matched stop v → p.pos ≤ stop ∧ (stop = p.pos → op.isNullable g.rules known)
  | .rest σ _ parts _ p, o => ∀ ops : List Operator, parts = ops.map (.operator g) →
      (∀ op ∈ ops, op.Solid) → σ.Reads g known → ∀ stop v,
        o = .matched stop v → p.pos ≤ stop ∧ (stop = p.pos → Operator.allNullable g.rules known ops)
  | .first σ parts p, o => ∀ ops : List Operator, parts = ops.map (.operator g) →
      (∀ op ∈ ops, op.Solid) → σ.Reads g known → ∀ stop v,
        o = .matched stop v → p.pos ≤ stop ∧ (stop = p.pos → Operator.anyNullable g.rules known ops)
  | .rounds σ part _ values p, o => ∀ op, part = .operator g op → op.Solid → σ.Reads g known →
      ∀ stop v, o = .matched stop v → p.pos ≤ stop ∧ ∃ new, v = .list (new ++ values) ∧
        (stop = p.pos → new ≠ [] → op.isNullable g.rules known)
  | .body σ rs rule _ pos, o => rs = .grammar g → σ.Reads g known → ∀ stop v,
      o = .matched stop v → g.Reads known rule pos stop
  | .call rs key, o => rs = .grammar g → ∀ stop v,
      o = .matched stop v → g.Reads known key.rule key.pos stop
  | .growth rs key best _, o => rs = .grammar g → g.Reads known key.rule key.pos best → ∀ stop v,
      o = .matched stop v → g.Reads known key.rule key.pos stop

/-- **What matches without reading is nullable**, and no match ends before it begins. -/
theorem Derives.reads {g : Grammar} {known : List String} (hg : g.Solid known) {t : Text}
    {q : Question} {r : Reply} (h : Derives t q r) : q.Reads g known r.outcome := by
  induction h with
  | leaf hx hrun =>
    rintro op rfl hop - stop v rfl
    obtain ⟨hl, hidle⟩ := Operator.Solid.leaf (hop op op.mem_nodes_self) hx
    obtain ⟨hle, hstop⟩ := Leaf.step_reads hl hrun
    exact ⟨hle, fun heq => hidle (hstop heq) known⟩
  | sequence hx _ ih =>
    rintro op rfl hop hσ stop v ho
    obtain ⟨ops, rfl, rfl⟩ := Operator.shape_eq_sequence hx
    obtain ⟨hle, hnull⟩ := ih ops rfl (fun _ => hop.child) hσ stop v ho
    exact ⟨hle, fun heq => by rw [Operator.isNullable]; exact hnull heq⟩
  | restNil =>
    rintro ops hops - - stop v heq
    cases heq
    obtain rfl : ops = [] := List.map_eq_nil_iff.1 hops.symm
    exact ⟨Nat.le_refl _, fun _ => rfl⟩
  | restFailed => intro ops _ _ _ stop v heq; cases heq
  | restMatched _ _ ih ihrest =>
    rintro ops hops hsolid hσ stop v ho
    obtain ⟨op, ops, rfl, rfl, rfl⟩ := List.map_eq_cons_iff.1 hops.symm
    obtain ⟨hle, hnull⟩ := ih op rfl (hsolid op List.mem_cons_self) hσ _ _ rfl
    obtain ⟨hle', hnull'⟩ :=
      ihrest ops rfl (fun op' hop' => hsolid op' (List.mem_cons_of_mem _ hop')) hσ stop v ho
    refine ⟨Nat.le_trans hle hle', fun heq => ?_⟩
    -- A sequence that reads nothing has parts that read nothing.
    simp only at hle'
    rw [Operator.allNullable, hnull (by omega), hnull' (by simp only; omega)]
    rfl
  | choice hx _ ih =>
    rintro op rfl hop hσ stop v ho
    obtain ⟨ops, rfl, rfl⟩ := Operator.shape_eq_choice hx
    obtain ⟨hle, hnull⟩ := ih ops rfl (fun _ => hop.child) hσ stop v ho
    exact ⟨hle, fun heq => by rw [Operator.isNullable]; exact hnull heq⟩
  | firstNil => intro ops _ _ _ stop v heq; cases heq
  | firstMatched _ ih =>
    rintro ops hops hsolid hσ stop v ho
    obtain ⟨op, ops, rfl, rfl, rfl⟩ := List.map_eq_cons_iff.1 hops.symm
    obtain ⟨hle, hnull⟩ := ih op rfl (hsolid op List.mem_cons_self) hσ stop v ho
    exact ⟨hle, fun heq => by rw [Operator.anyNullable, hnull heq]; rfl⟩
  | firstFailed _ _ _ ihrest =>
    rintro ops hops hsolid hσ stop v ho
    obtain ⟨op, ops, rfl, rfl, rfl⟩ := List.map_eq_cons_iff.1 hops.symm
    obtain ⟨hle, hnull⟩ :=
      ihrest ops rfl (fun op' hop' => hsolid op' (List.mem_cons_of_mem _ hop')) hσ stop v ho
    exact ⟨hle, fun heq => by rw [Operator.anyNullable, hnull heq, Bool.or_true]⟩
  | @repetition σ x part p min max captures values stop s a hx _ ih =>
    rintro op rfl hop hσ stop' v ho
    obtain ⟨c, rfl, rfl⟩ := Operator.shape_eq_repetition hx
    obtain ⟨hle, new, hnew, hnull⟩ :=
      ih c rfl (hop.child (List.mem_singleton_self c)) hσ stop _ rfl
    rw [List.append_nil] at hnew
    cases hnew
    unfold repetitionReply at ho
    split at ho
    case isTrue => cases ho
    case isFalse hmin =>
      cases ho
      refine ⟨hle, fun heq => ?_⟩
      rw [Operator.isNullable, Bool.or_eq_true]
      -- Without a round the least number of them is nothing.
      cases values with
      | nil => exact .inl (beq_iff_eq.2 (Nat.le_zero.1 (Nat.le_of_not_lt hmin)))
      | cons v values => exact .inr (hnull heq (List.cons_ne_nil v values))
  | roundsSpent =>
    rintro op - - - stop v heq
    cases heq
    exact ⟨Nat.le_refl _, [], rfl, fun _ hne => absurd rfl hne⟩
  | roundsFailed =>
    rintro op - - - stop v heq
    cases heq
    exact ⟨Nat.le_refl _, [], rfl, fun _ hne => absurd rfl hne⟩
  | roundsIdle _ ih =>
    rintro op rfl hop hσ stop v heq
    cases heq
    obtain ⟨hle, hnull⟩ := ih op rfl hop hσ _ _ rfl
    exact ⟨hle, [_], rfl, fun heq _ => hnull heq⟩
  | roundsNext _ _ _ _ ih ihrest =>
    rintro op rfl hop hσ stop v ho
    obtain ⟨hle, hnull⟩ := ih op rfl hop hσ _ _ rfl
    obtain ⟨hle', new, hnew, -⟩ := ihrest op rfl hop hσ stop v ho
    refine ⟨Nat.le_trans hle hle', new ++ [_], by rw [hnew, List.append_assoc]; rfl, fun heq _ => ?_⟩
    simp only at hle'
    exact hnull (by omega)
  | @ahead σ x part p r hx _ ih =>
    rintro op rfl hop hσ stop v ho
    obtain ⟨c, rfl, rfl⟩ := Operator.shape_eq_ahead hx
    have hstop : stop = p.pos := by
      cases hr : r.outcome with
      | matched _ _ => rw [hr] at ho; cases ho; rfl
      | failed => rw [hr] at ho; cases ho
    exact ⟨Nat.le_of_eq hstop.symm, fun _ => by rw [Operator.isNullable]⟩
  | @notAhead σ x part p r hx _ ih =>
    rintro op rfl hop hσ stop v ho
    obtain ⟨c, rfl, rfl⟩ := Operator.shape_eq_notAhead hx
    have hstop : stop = p.pos := by
      cases hr : r.outcome with
      | matched _ _ => rw [hr] at ho; cases ho
      | failed => rw [hr] at ho; cases ho; rfl
    exact ⟨Nat.le_of_eq hstop.symm, fun _ => by rw [Operator.isNullable]⟩
  | @binding σ x part p name value r hx _ ih =>
    rintro op rfl hop hσ stop v ho
    obtain ⟨v', hr⟩ : ∃ v', r.outcome = .matched stop v' := by
      cases hr : r.outcome with
      | matched _ _ => rw [hr] at ho; cases ho; exact ⟨_, rfl⟩
      | failed => rw [hr] at ho; cases ho
    obtain ⟨c, rfl, hc⟩ := Operator.shape_eq_binding hx
    have hpart := ih c rfl
    rcases hc with ⟨_, rfl⟩ | rfl | rfl
    all_goals
      obtain ⟨hle, hnull⟩ := hpart (hop.child (List.mem_singleton_self c)) hσ stop v' hr
      exact ⟨hle, fun heq => by rw [Operator.isNullable]; exact hnull heq⟩
  | again hx hkey =>
    rintro op rfl - hσ stop v ho
    obtain ⟨name, rfl, rfl, hlookup⟩ := Operator.shape_eq_apply hx
    obtain ⟨hle, hname⟩ := hσ stop v ho
    rw [← hkey] at hle hname
    refine ⟨hle, fun heq => ?_⟩
    rw [Operator.isNullable]
    exact Grammar.isKnown_of_lookup hlookup (hname heq)
  | other hx _ _ ih =>
    rintro op rfl - hσ stop v ho
    obtain ⟨name, rfl, rfl, hlookup⟩ := Operator.shape_eq_apply hx
    obtain ⟨hle, hname⟩ := ih rfl stop v ho
    refine ⟨hle, fun heq => ?_⟩
    rw [Operator.isNullable]
    exact Grammar.isKnown_of_lookup hlookup (hname heq)
  | direct hx _ ih =>
    rintro op rfl - hσ stop v ho
    obtain ⟨name, rfl, rfl, hlookup⟩ := Operator.shape_eq_invoke hx
    obtain ⟨hle, hname⟩ := ih rfl hσ stop v ho
    refine ⟨hle, fun heq => ?_⟩
    rw [Operator.isNullable]
    exact Grammar.isKnown_of_lookup hlookup (hname heq)
  | body hx _ ih =>
    rintro rfl hσ stop v ho
    obtain ⟨r, hr, heq⟩ := Option.map_eq_some_iff.1 hx
    cases heq
    have hmem := List.mem_of_getElem? hr
    obtain ⟨hle, hnull⟩ := ih r.body rfl (hg.bodies r hmem) hσ stop v ho
    refine ⟨hle, fun heq r' hr' => ?_⟩
    rw [hr] at hr'
    cases hr'
    exact hg.closed r hmem (hnull heq)
  | noBody => intro _ _ stop v heq; cases heq
  | callFailed => intro _ stop v heq; cases heq
  | callMatched _ ho _ ih =>
    rintro rfl stop v heq
    cases heq
    exact ih rfl (fun _ _ heq => by cases heq) _ _ ho
  | callGrown _ ho _ _ ih ihgrown =>
    rintro rfl stop v heq
    exact ihgrown rfl (ih rfl (fun _ _ heq => by cases heq) _ _ ho) stop v heq
  | longer _ ho _ _ ih ihgrown =>
    rintro rfl hbest stop v heq
    have hseed := ih rfl (fun stop v heq => by cases heq; exact hbest) _ _ ho
    exact ihgrown rfl hseed stop v heq
  | grown =>
    rintro - hbest stop v heq
    cases heq
    exact hbest

end MemoPeg
