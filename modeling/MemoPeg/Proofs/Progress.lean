import MemoPeg.Proofs.MemoTable
import MemoPeg.Proofs.Tracking
import MemoPeg.Regex.Reader

/-
  Operators that are not nullable read.

  The check that refuses idle loops goes by a judgement on operators, made before anything is parsed.  It would
  be of no use if a run could match without reading where the judgement says that it reads.

  1. **Honest tables (`Engine.Honest`)** — a match in the memo table that has read nothing is that of a
     nullable rule.  Seeds are matches in the table like others.
  2. **The crux (`Grammar.operatorsRead`)** — by induction on the fuel, a solid operator leaves an honest
     table behind it, and is nullable if it has matched where it began.  The table answers for a call
     that is found there; a rule that grows goes further with every round, so that only its first match
     can have read nothing.
  3. **Everything that runs (`Task.Honest`)** — what a call of a rule of the grammar runs are rules and
     operators of the grammar, each with an honest table.
  4. **Empty literals** — the judgement takes every literal for reading.  The empty one matches without,
     so that a grammar that repeats it without limit passes the checks (`emptyLiteral_reads_nothing`).

  A solid operator is one of which the judgement is not a guess.  It has to be one for patterns, of which only
  the expression is known, and for calls across links; of these it is assumed that they read.  4 is another
  matter: an empty literal is there to be looked at.
-/

namespace MemoPeg

section

variable [RegexLibrary]

/-! ## Honest tables -/

/-- The matches in the memo table that have read nothing are those of nullable rules. -/
def Engine.Honest (g : Grammar) (known : List String) (e : Engine) : Prop :=
  ∀ key value r, e.Holds key (.matched key.pos value) → g.rules[key.rule]? = some r → r.name ∈ known

namespace Engine.Honest

variable {g : Grammar} {known : List String} {e e' : Engine}

/-- An empty table is honest. -/
theorem startingAt (t : Text) (p : Nat) : (Engine.startingAt t p).Honest g known :=
  fun _ _ _ hholds => by cases hholds

/-- Honesty is a matter of the table. -/
theorem of_memo (h : e.Honest g known) (hmemo : e'.memo = e.memo) : e'.Honest g known :=
  fun key value r hholds => h key value r (hholds.of_memo hmemo.symm)

/-- A call that is opened has not matched. -/
theorem opening (h : e.Honest g known) (key : Key) : (e.opening key).Honest g known := by
  intro other value r hholds hr
  rcases Holds.of_opening hholds with rfl | hbefore
  · -- The new entry is no match.
    have hnew := Holds.opening e other
    rw [Holds] at hnew hholds
    rw [hnew] at hholds
    cases hholds
  · exact h other value r hbefore hr

/-- Counting a use makes no match. -/
theorem use (h : e.Honest g known) {key : Key} (hmemo : e'.memo = e.memo.use key) :
    e'.Honest g known :=
  fun other value r hholds => h other value r (hholds.of_use hmemo)

/-- An answer may be recorded if, being a match that has read nothing, it is that of a nullable rule. -/
theorem settle (h : e.Honest g known) {key : Key} {answer : Answer}
    (hanswer : ∀ value r, answer = .matched key.pos value → g.rules[key.rule]? = some r →
      r.name ∈ known) : (e.settle key answer).Honest g known := by
  intro other value r hholds hr
  by_cases heq : other = key
  · subst heq
    -- There is an entry, and what it holds is the answer.
    have hanswer' : answer = .matched other.pos value := by
      unfold Holds at hholds
      rw [show (e.settle other answer).memo = e.memo.settle other answer from rfl, Memo.settle,
        Memo.find?_modify, if_pos rfl] at hholds
      cases hfind : e.memo.find? other with
      | none => rw [hfind] at hholds; cases hholds
      | some entry => rw [hfind] at hholds; exact Option.some.inj hholds
    exact hanswer value r hanswer' hr
  · rcases Holds.of_settle hholds with rfl | hbefore
    · exact absurd rfl heq
    · exact h other value r hbefore hr

end Engine.Honest

/-! ## Runs keep tables honest -/

/-- Solid operators, run with this much fuel, keep the table honest, and are nullable if they match where
    they begin. -/
def Grammar.OperatorsRead (g : Grammar) (known : List String) (n : Nat) : Prop :=
  ∀ op : Operator, op.Solid → ∀ (f : Frame) (o : Outcome) (m : Frame), g.eval n op f = .ok (o, m) →
    f.engine.InText → f.engine.Honest g known →
      m.engine.Honest g known ∧ ∀ v, o = .matched f.engine.pos v → op.isNullable g.rules known

/-- Invocations with this much fuel keep the table honest, and are of nullable rules if they match where
    they begin. -/
def Grammar.InvocationsRead (g : Grammar) (known : List String) (n : Nat) : Prop :=
  ∀ (rule : RuleId) (args : List Value) (e : Engine) (o : Outcome) (e' : Engine),
    e.invokeRule n (.grammar g) rule args = .ok (o, e') → e.InText → e.Honest g known →
      e'.Honest g known ∧
        ∀ v r, o = .matched e.pos v → g.rules[rule]? = some r → r.name ∈ known

/-- Phrases that have failed one after the other leave the cursor where it was. -/
theorem Ran.pos_of_failed {n : Nat} {parts : List Phrase} {f m : Frame} (hran : Ran n false parts f m)
    (hin : f.engine.InText) : m.engine.pos = f.engine.pos := by
  induction hran with
  | nil f => rfl
  | @cons x xs f m m' o hx ho hs ih =>
    have had := Phrase.advances _ n f o m hx hin
    cases o with
    | matched _ _ => cases ho
    | failed =>
      have hpos : m.engine.pos = f.engine.pos := had.pos
      exact (ih had.inText).trans hpos

section Parts

variable {g : Grammar} {known : List String} {n : Nat} (h : g.OperatorsRead known n)
include h

/-- Operators that have run one after the other have kept the table honest. -/
theorem Ran.honest {matching : Bool} {f m : Frame} {parts : List Phrase} (hran : Ran n matching parts f m) :
    ∀ {ops : List Operator}, parts = ops.map (.operator g) → (∀ op ∈ ops, op.Solid) →
      f.engine.InText → f.engine.Honest g known → m.engine.Honest g known := by
  induction hran with
  | nil f => exact fun _ _ _ hf => hf
  | @cons x xs f m m' o hx ho hs ih =>
    intro ops hops hsolid hin hf
    obtain ⟨op, ops, rfl, rfl, rfl⟩ := List.map_eq_cons_iff.1 hops.symm
    have hm := (h op (hsolid op List.mem_cons_self) f o m hx hin hf).1
    have hmin := (Phrase.advances _ n f o m hx hin).inText
    exact ih rfl (fun op' hop' => hsolid op' (List.mem_cons_of_mem _ hop')) hmin hm

/-- Operators that have matched one after the other go on, and are nullable if they have read nothing. -/
theorem Ran.nullable {f m : Frame} {parts : List Phrase} (hran : Ran n true parts f m) :
    ∀ {ops : List Operator}, parts = ops.map (.operator g) → (∀ op ∈ ops, op.Solid) →
      f.engine.InText → f.engine.Honest g known →
        f.engine.pos ≤ m.engine.pos ∧
          (m.engine.pos = f.engine.pos → ∀ op ∈ ops, op.isNullable g.rules known) := by
  induction hran with
  | nil f =>
    intro ops hops _ _ _
    obtain rfl : ops = [] := List.map_eq_nil_iff.1 hops.symm
    exact ⟨Nat.le_refl _, fun _ op hop => absurd hop List.not_mem_nil⟩
  | @cons x xs f m m' o hx ho hs ih =>
    intro ops hops hsolid hin hf
    obtain ⟨op, ops, rfl, rfl, rfl⟩ := List.map_eq_cons_iff.1 hops.symm
    obtain ⟨hm, hop⟩ := h op (hsolid op List.mem_cons_self) f o m hx hin hf
    have had := Phrase.advances _ n f o m hx hin
    obtain ⟨hle', hnullable⟩ :=
      ih rfl (fun op' hop' => hsolid op' (List.mem_cons_of_mem _ hop')) had.inText hm
    cases o with
    | failed => cases ho
    | matched stop v =>
      have hpos : m.engine.pos = stop := had.pos
      have hle : f.engine.pos ≤ stop := had.le
      refine ⟨by omega, fun heq op' hop' => ?_⟩
      -- Nothing is read in all only if nothing is read on the way.
      obtain rfl : stop = f.engine.pos := by omega
      rcases List.mem_cons.1 hop' with rfl | hop'
      · exact hop v rfl
      · exact hnullable (by omega) op' hop'

/-- A binding reads as its part does. -/
theorem Grammar.OperatorsRead.binding {op : Operator} (hop : op.Solid) {name : String}
    {value : Frame → Nat → Value → Value} {f m : Frame} {o : Outcome}
    (hrun : Step.binding (g.eval n op) name value f = .ok (o, m)) (hin : f.engine.InText)
    (hf : f.engine.Honest g known) :
    m.engine.Honest g known ∧ ∀ v, o = .matched f.engine.pos v → op.isNullable g.rules known := by
  rcases Step.binding_eq_ok hrun with ⟨stop, v, m', hpart, rfl, rfl⟩ | ⟨hpart, rfl⟩
  · obtain ⟨hm, hnullable⟩ := h op hop f _ m' hpart hin hf
    refine ⟨hm, fun v' heq => ?_⟩
    cases heq
    exact hnullable v rfl
  · exact h op hop f _ m hpart hin hf

/-- The rounds of a repetition go on, and have read something unless there was none or the operator is
    nullable. -/
theorem Grammar.OperatorsRead.rounds {op : Operator} (hop : op.Solid) : ∀ {fuel : Nat} {left : Option Nat}
    {values values' : List Value} {f m : Frame},
      Step.rounds (g.eval n op) fuel left values f = .ok (values', m) → f.engine.InText →
        f.engine.Honest g known →
          m.engine.Honest g known ∧
            (m.engine.pos = f.engine.pos → values' = values ∨ op.isNullable g.rules known) := by
  intro fuel
  induction fuel with
  | zero => intro left values values' f m hrun; cases hrun
  | succ fuel ih =>
    intro left values values' f m hrun hin hf
    rcases Step.rounds_succ_eq_ok hrun with ⟨-, rfl, rfl⟩ | ⟨-, hround, rfl⟩ |
      ⟨-, stop, v, m', hround, hend⟩
    · exact ⟨hf, fun _ => .inl rfl⟩
    · exact ⟨(h op hop f _ m hround hin hf).1, fun _ => .inl rfl⟩
    · obtain ⟨hm', hnullable⟩ := h op hop f _ m' hround hin hf
      have had := Phrase.advances (.operator g op) n f _ m' hround hin
      have hpos : m'.engine.pos = stop := had.pos
      have hle : f.engine.pos ≤ stop := had.le
      rcases hend with ⟨rfl, -, -, rfl⟩ | ⟨-, hrest⟩
      · exact ⟨hm', fun _ => .inr (hnullable v rfl)⟩
      · obtain ⟨hm, -⟩ := ih hrest had.inText hm'
        have hle' : m'.engine.pos ≤ m.engine.pos :=
          (Step.Advances.rounds (Phrase.advances (.operator g op) n) fuel _ _ m' values' m hrest
            had.inText).2.1
        refine ⟨hm, fun heq => .inr ?_⟩
        obtain rfl : stop = f.engine.pos := by omega
        exact hnullable v rfl

end Parts

section Calls

variable {g : Grammar} {known : List String} {n : Nat} (h : g.InvocationsRead known n)
include h

/-- A rule that has grown keeps the table honest, and its match with it. -/
theorem GrownTo.honest {key : Key} {e e' : Engine} {best : Nat} {value : Value}
    (hgrown : GrownTo ((RuleSet.grammar g).runner n) key e best value e') (hin : e.InText)
    (hkey : key.pos = e.pos) (he : e.Honest g known) :
    e'.Honest g known ∧ key.pos ≤ best ∧
      (best = key.pos → ∀ r, g.rules[key.rule]? = some r → r.name ∈ known) := by
  have hadvances := CallAdvances.invoke ((RuleSet.grammar g).body_advances n) key.rule key.args
  induction hgrown with
  | @seed m stop value hfirst =>
    obtain ⟨hm, hnullable⟩ := h _ _ _ _ _ hfirst (hin.opening key) (he.opening key)
    have hle : e.pos ≤ stop := (hadvances _ _ _ hfirst (hin.opening key)).le
    have hmatch : stop = key.pos → ∀ r, g.rules[key.rule]? = some r → r.name ∈ known := by
      intro heq r hr
      exact hnullable value r (by rw [heq, hkey]; rfl) hr
    refine ⟨hm.settle fun v r heq hr => ?_, by omega, hmatch⟩
    cases heq
    exact hmatch rfl r hr
  | @longer e' m best stop value longer hgrown hround hlonger ih =>
    obtain ⟨he', hbest, -⟩ := ih
    have hin' := hgrown.inText hin hkey
    have hcursor : e'.text.IsBoundary key.pos := by
      rw [hin'.1, hkey]
      exact hin.cursor
    obtain ⟨hm, -⟩ := h _ _ _ _ _ hround (hin'.2.regrowing hcursor best value) (he'.of_memo rfl)
    -- A longer match has read something.
    have hread : stop ≠ key.pos := by omega
    refine ⟨hm.settle fun v r heq => ?_, by omega, fun heq => absurd heq hread⟩
    cases heq
    exact absurd rfl hread

/-- Calls through an honest memo table keep it so. -/
theorem Grammar.InvocationsRead.apply {rule : RuleId} {args : List Value} {e e' : Engine} {o : Outcome}
    (hrun : e.applyRule n (.grammar g) rule args = .ok (o, e')) (hin : e.InText) (he : e.Honest g known) :
    e'.Honest g known ∧ ∀ v r, o = .matched e.pos v → g.rules[rule]? = some r → r.name ∈ known := by
  rcases Engine.apply_ends ((RuleSet.grammar g).runner_retains n) hrun with
    ⟨⟨⟨status, stop, value⟩, uses⟩, hfind, heq⟩ | ⟨-, first, m, hfirst, hrest⟩
  · cases status with
    | inProgress detected =>
      cases heq
      have hused : ({ e with memo := e.memo.use ⟨rule, e.pos, args⟩ } : Engine).Honest g known :=
        he.use rfl
      have hmarked : (({ e with memo := e.memo.use ⟨rule, e.pos, args⟩ } : Engine).settle
          ⟨rule, e.pos, args⟩ ⟨.inProgress true, stop, value⟩).Honest g known :=
        hused.settle fun _ _ heq => by cases heq
      exact ⟨hmarked.of_memo rfl, fun _ _ heq => by cases heq⟩
    | matched =>
      cases heq
      refine ⟨he.use rfl, fun v r heq hr => ?_⟩
      cases heq
      have hholds : e.Holds ⟨rule, e.pos, args⟩ (.matched e.pos value) := by
        rw [Engine.Holds, hfind]
        rfl
      exact he _ _ r hholds hr
    | failed =>
      cases heq
      exact ⟨he.use rfl, fun _ _ heq => by cases heq⟩
  · obtain ⟨hm, hnullable⟩ := h _ _ _ _ _ hfirst (hin.opening _) (he.opening _)
    rcases hrest with ⟨stop, value, rfl, -, hgrown⟩ | ⟨stop, value, rfl, -, rfl, rfl⟩ |
      ⟨rfl, rfl, rfl⟩
    · obtain ⟨best, value', m', round, m'', hgrown', hround, rfl, rfl⟩ :=
        Engine.growFrom_ends hgrown (.seed hfirst)
      obtain ⟨hm', -, hbest⟩ := GrownTo.honest h hgrown' hin rfl he
      have hin' := hgrown'.inText hin rfl
      have hcursor : m'.text.IsBoundary e.pos := by
        rw [hin'.1]
        exact hin.cursor
      obtain ⟨hlast, -⟩ := h _ _ _ _ _ hround (hin'.2.regrowing hcursor best value') (hm'.of_memo rfl)
      refine ⟨hlast.of_memo rfl, fun v r heq hr => ?_⟩
      cases heq
      exact hbest rfl r hr
    · refine ⟨hm.settle fun v r heq hr => ?_, fun v r heq hr => ?_⟩
      · cases heq
        exact hnullable _ r rfl hr
      · cases heq
        exact hnullable _ r rfl hr
    · exact ⟨hm.settle fun _ _ heq => (by cases heq), fun _ _ heq => (by cases heq)⟩

end Calls

/-! ## Every run keeps tables honest -/

/-- The operators that a row of phrases has before one of them, and that one. -/
theorem Operator.split_parts {g : Grammar} {ops : List Operator} {before after : List Phrase}
    {part : Phrase} (h : before ++ part :: after = ops.map (.operator g)) :
    ∃ earlier op later, ops = earlier ++ op :: later ∧ before = earlier.map (.operator g) ∧
      part = .operator g op := by
  obtain ⟨earlier, rest, rfl, hbefore, hrest⟩ := List.map_eq_append_iff.1 h.symm
  obtain ⟨op, later, rfl, hop, -⟩ := List.map_eq_cons_iff.1 hrest
  exact ⟨earlier, op, later, rfl, hbefore.symm, hop.symm⟩

namespace Grammar

variable {g : Grammar} {known : List String} {n : Nat}

/-- What holds of operators holds of invocations, which run bodies. -/
theorem OperatorsRead.invocations (hg : g.Solid known) (h : g.OperatorsRead known n) :
    g.InvocationsRead known (n + 1) := by
  intro rule args e o e' hrun hin he
  obtain ⟨m, hm, rfl⟩ := Engine.invoke_eq_ok hrun
  have hmemo := e.concluded_memo ((RuleSet.grammar g).runner (n + 1)) rule m o
  simp only [RuleSet.runner] at hm
  cases hr : g.rules[rule]? with
  | none =>
    rw [RuleSet.body_grammar_none hr] at hm
    cases hm
    exact ⟨he.of_memo hmemo, fun _ _ heq => by cases heq⟩
  | some r =>
    rw [RuleSet.body_grammar hr] at hm
    obtain ⟨m', hm', rfl⟩ := Step.inScope_eq_ok hm
    have hmem : r ∈ g.rules := List.mem_of_getElem? hr
    obtain ⟨hhonest, hnullable⟩ := h r.body (hg.bodies r hmem) _ o m' hm' (hin.note _) (he.of_memo rfl)
    refine ⟨hhonest.of_memo hmemo, fun v r' heq hr' => ?_⟩
    cases hr'
    exact hg.closed r hmem (hnullable v heq)

/-- What holds of the parts of an operator, and of invocations, holds of the operator. -/
theorem OperatorsRead.succ (h : g.OperatorsRead known n) (hcalls : g.InvocationsRead known n) :
    g.OperatorsRead known (n + 1) := by
  intro op hop f o m hrun hin hf
  have had := Phrase.advances (.operator g op) (n + 1) f o m hrun hin
  rw [Grammar.eval_shape] at hrun
  cases hx : op.shape g with
  | leaf l =>
    rw [hx] at hrun
    obtain ⟨hl, hidle⟩ := Operator.Solid.leaf (hop op op.mem_nodes_self) hx
    refine ⟨hf.of_memo (Leaf.step_fresh hrun).1, fun v ho => ?_⟩
    subst ho
    exact hidle ((Leaf.step_reads hl hrun).2 rfl) known
  | sequence parts =>
    rw [hx] at hrun
    obtain ⟨ops, rfl, rfl⟩ := Operator.shape_eq_sequence hx
    have hsolid : ∀ c ∈ ops, c.Solid := fun c hc => hop.child hc
    rcases Step.sequenceFrom_ran hrun with
      ⟨hran, v, rfl⟩ | ⟨rfl, before, part, after, m', m'', hparts, hran, hpart, rfl⟩
    · refine ⟨Ran.honest h hran rfl hsolid hin hf, fun v heq => ?_⟩
      have hpos : m.engine.pos = f.engine.pos := (Outcome.matched.inj heq).1
      have hall := (Ran.nullable h hran rfl hsolid hin hf).2 hpos
      rw [Operator.isNullable]
      exact Operator.allNullable_iff.2 hall
    · obtain ⟨earlier, c, later, rfl, rfl, rfl⟩ := Operator.split_parts hparts.symm
      have hc : c.Solid := hsolid c (List.mem_append_right _ List.mem_cons_self)
      have hbefore : m'.engine.Honest g known :=
        Ran.honest h hran rfl (fun c hc => hsolid c (List.mem_append_left _ hc)) hin hf
      have hm'' := (h c hc m' _ m'' hpart (hran.inText hin).2 hbefore).1
      exact ⟨hm''.of_memo rfl, fun _ heq => by cases heq⟩
  | choice parts =>
    rw [hx] at hrun
    obtain ⟨ops, rfl, rfl⟩ := Operator.shape_eq_choice hx
    have hsolid : ∀ c ∈ ops, c.Solid := fun c hc => hop.child hc
    rcases Step.choice_ran hrun with ⟨hran, rfl⟩ | ⟨before, part, after, m', hparts, hran, hpart⟩
    · exact ⟨Ran.honest h hran rfl hsolid hin hf, fun _ heq => by cases heq⟩
    · obtain ⟨earlier, c, later, rfl, rfl, rfl⟩ := Operator.split_parts hparts.symm
      have hc : c ∈ earlier ++ c :: later := List.mem_append_right _ List.mem_cons_self
      have hbefore : m'.engine.Honest g known :=
        Ran.honest h hran rfl (fun c hc => hsolid c (List.mem_append_left _ hc)) hin hf
      obtain ⟨hm, hnullable⟩ := h c (hsolid c hc) m' o m hpart (hran.inText hin).2 hbefore
      refine ⟨hm, fun v ho => ?_⟩
      -- The alternatives before have failed, and left the cursor where it was.
      rw [← hran.pos_of_failed hin] at ho
      rw [Operator.isNullable]
      exact Operator.anyNullable_iff.2 ⟨c, hc, hnullable v ho⟩
  | repetition part min max captures =>
    rw [hx] at hrun
    obtain ⟨c, rfl, rfl⟩ := Operator.shape_eq_repetition hx
    have hc : c.Solid := hop.child (List.mem_singleton_self c)
    obtain ⟨values, m', hrounds, hend⟩ := Step.repetition_eq_ok hrun
    obtain ⟨hm', hnullable⟩ := OperatorsRead.rounds h hc hrounds hin hf
    rcases hend with ⟨-, rfl, rfl⟩ | ⟨hmin, rfl, rfl⟩
    · exact ⟨hm'.of_memo rfl, fun _ heq => by cases heq⟩
    · refine ⟨hm', fun v ho => ?_⟩
      have hpos : m.engine.pos = f.engine.pos := (Outcome.matched.inj ho).1
      rw [Operator.isNullable, Bool.or_eq_true]
      rcases hnullable hpos with rfl | hnullable
      · -- Without a round the least number of them is nothing.
        exact .inl (beq_iff_eq.2 (Nat.le_zero.1 hmin))
      · exact .inr hnullable
  | ahead part =>
    rw [hx] at hrun
    obtain ⟨c, rfl, rfl⟩ := Operator.shape_eq_ahead hx
    obtain ⟨part, m', hpart, rfl, -⟩ := Step.ahead_eq_ok hrun
    have hm' := (h c (hop.child (List.mem_singleton_self c)) f part m' hpart hin hf).1
    exact ⟨hm'.of_memo rfl, fun _ _ => by rw [Operator.isNullable]⟩
  | notAhead part =>
    rw [hx] at hrun
    obtain ⟨c, rfl, rfl⟩ := Operator.shape_eq_notAhead hx
    obtain ⟨part, m', hpart, rfl, -⟩ := Step.notAhead_eq_ok hrun
    have hm' := (h c (hop.child (List.mem_singleton_self c)) f part m' hpart hin hf).1
    exact ⟨hm'.of_memo rfl, fun _ _ => by rw [Operator.isNullable]⟩
  | tag part _ | collect part | bounds part =>
    obtain ⟨b, hbinding⟩ : ∃ b, (op.shape g).binding? = some (part, b) := by rw [hx]; exact ⟨_, rfl⟩
    obtain ⟨c, rfl, hc⟩ := Operator.shape_eq_binding hbinding
    have hsolid : c.Solid := by
      rcases hc with ⟨_, rfl⟩ | rfl | rfl <;> exact hop.child (List.mem_singleton_self c)
    rw [hx, Shape.step_binding rfl] at hrun
    obtain ⟨hm, hnullable⟩ := OperatorsRead.binding h hsolid hrun hin hf
    refine ⟨hm, fun v ho => ?_⟩
    rcases hc with ⟨_, rfl⟩ | rfl | rfl <;> (rw [Operator.isNullable]; exact hnullable v ho)
  | apply rs rule args =>
    rw [hx] at hrun
    obtain ⟨name, rfl, rfl, hlookup⟩ := Operator.shape_eq_apply hx
    obtain ⟨e, he, rfl⟩ := Step.call_eq_ok hrun
    obtain ⟨hhonest, hnullable⟩ := InvocationsRead.apply hcalls he hin hf
    refine ⟨hhonest, fun v ho => ?_⟩
    rw [Operator.isNullable]
    exact Grammar.isKnown_of_lookup hlookup (hnullable v · ho)
  | invoke rs rule args =>
    rw [hx] at hrun
    obtain ⟨name, rfl, rfl, hlookup⟩ := Operator.shape_eq_invoke hx
    obtain ⟨e, he, rfl⟩ := Step.call_eq_ok hrun
    obtain ⟨hhonest, hnullable⟩ := hcalls _ _ _ _ _ he hin hf
    refine ⟨hhonest, fun v ho => ?_⟩
    rw [Operator.isNullable]
    exact Grammar.isKnown_of_lookup hlookup (hnullable v · ho)
  | cross grammar rs rule args =>
    obtain ⟨name, rfl⟩ := Operator.shape_eq_cross hx
    have hsolid := hop _ (Operator.mem_nodes_self _)
    cases hsolid

/-- **Every run of a solid grammar keeps honest tables honest, and reads unless what runs is nullable.** -/
theorem Solid.reads (hg : g.Solid known) (n : Nat) :
    g.OperatorsRead known n ∧ g.InvocationsRead known n := by
  induction n with
  | zero => exact ⟨fun op hop f o m hrun => (by cases hrun), fun rule args e o e' hrun => (by cases hrun)⟩
  | succ n ih => exact ⟨ih.1.succ ih.2, ih.1.invocations hg⟩

end Grammar

/-! ## Everything that runs -/

/-- The only part of an operator is its child, and makes its left calls. -/
theorem Operator.part?_child {g : Grammar} {op : Operator} {part : Phrase}
    (h : (op.shape g).part? = some part) :
    ∃ c, part = .operator g c ∧ c ∈ op.children ∧
      ∀ rules known, op.leftCalls rules known = c.leftCalls rules known := by
  unfold shape at h
  (repeat' split at h) <;> cases h <;>
    exact ⟨_, rfl, List.mem_singleton_self _, fun _ _ => by rw [leftCalls]⟩

/-- The task is a call of a rule of the grammar, through the memo table or past it. -/
def Task.Calls (g : Grammar) : Task → Prop
  | .apply _ rs _ _ _ | .invoke _ rs _ _ _ => rs = .grammar g
  | .cross _ _ _ _ _ _ | .phrase _ _ _ => False

/-- The task is a call of a rule of the grammar or a solid operator of it, and is given an engine with its
    cursor in the text and an honest table. -/
structure Task.Honest (g : Grammar) (t : Task) : Prop where
  solid : t.Calls g ∨ ∃ n op f, t = .phrase n (.operator g op) f ∧ op.Solid
  inText : t.engine.InText
  honest : t.engine.Honest g g.nullable

/-- What a solid operator starts is a part of it, further on or with its left calls, or a call of a rule
    that it names on the left. -/
theorem Starts.of_operator {g : Grammar} (hg : g.Solid g.nullable) {n : Nat} {op : Operator} {f : Frame}
    {t : Task} (h : Starts (.phrase n (.operator g op) f) t) (hop : op.Solid) (hin : f.engine.InText)
    (hf : f.engine.Honest g g.nullable) :
    ∃ n', (∃ c m, t = .phrase n' (.operator g c) m ∧ c.Solid ∧ m.engine.Honest g g.nullable ∧
        f.engine.Accounts m.engine ∧ f.engine.pos ≤ m.engine.pos ∧
        (m.engine.pos = f.engine.pos →
          ∀ d ∈ c.leftCalls g.rules g.nullable, d ∈ op.leftCalls g.rules g.nullable)) ∨
      ∃ name rule args, g.lookup name = some rule ∧ name ∈ op.leftCalls g.rules g.nullable ∧
        (t = .apply n' (.grammar g) rule args f.engine ∨ t = .invoke n' (.grammar g) rule args f.engine) := by
  have hreads := fun n => (hg.reads n).1
  cases h with
  | @ofSequence n _ part before after _ m hx hran =>
    obtain ⟨ops, rfl, hparts⟩ := Operator.shape_eq_sequence hx
    obtain ⟨earlier, c, later, rfl, rfl, rfl⟩ := Operator.split_parts hparts
    have hearlier : ∀ c' ∈ earlier, c'.Solid := fun c' hc' => hop.child (List.mem_append_left _ hc')
    have hc : c.Solid := hop.child (List.mem_append_right _ List.mem_cons_self)
    have hm := Ran.honest (hreads n) hran rfl hearlier hin hf
    obtain ⟨hle, hnullable⟩ := Ran.nullable (hreads n) hran rfl hearlier hin hf
    refine ⟨n, .inl ⟨c, m, rfl, hc, hm, hran.accounts, hle, fun hpos d hd => ?_⟩⟩
    rw [Operator.leftCalls]
    exact Operator.mem_leftCallsOfSequence (hnullable hpos) hd
  | @ofChoice n _ part before after _ m hx hran =>
    obtain ⟨ops, rfl, hparts⟩ := Operator.shape_eq_choice hx
    obtain ⟨earlier, c, later, rfl, rfl, rfl⟩ := Operator.split_parts hparts
    have hearlier : ∀ c' ∈ earlier, c'.Solid := fun c' hc' => hop.child (List.mem_append_left _ hc')
    have hc : c ∈ earlier ++ c :: later := List.mem_append_right _ List.mem_cons_self
    have hm := Ran.honest (hreads n) hran rfl hearlier hin hf
    have hle : f.engine.pos ≤ m.engine.pos := Nat.le_of_eq (hran.pos_of_failed hin).symm
    refine ⟨n, .inl ⟨c, m, rfl, hop.child hc, hm, hran.accounts, hle, fun _ d hd => ?_⟩⟩
    rw [Operator.leftCalls]
    exact Operator.mem_leftCallsOfChoice hc hd
  | @ofRepetition n k min max captures _ part _ m hx hran =>
    obtain ⟨c, rfl, rfl⟩ := Operator.shape_eq_repetition hx
    have hc : c.Solid := hop.child (List.mem_singleton_self c)
    have hrounds : ∀ c' ∈ List.replicate k c, c'.Solid := fun c' hc' => List.eq_of_mem_replicate hc' ▸ hc
    rw [show List.replicate k (Phrase.operator g c) = (List.replicate k c).map (.operator g) by
      rw [List.map_replicate]] at hran
    have hm := Ran.honest (hreads n) hran rfl hrounds hin hf
    obtain ⟨hle, -⟩ := Ran.nullable (hreads n) hran rfl hrounds hin hf
    refine ⟨n, .inl ⟨c, m, rfl, hc, hm, hran.accounts, hle, fun _ d hd => ?_⟩⟩
    rw [Operator.leftCalls]
    exact hd
  | @ofPart n _ part _ hx =>
    obtain ⟨c, rfl, hc, hcalls⟩ := Operator.part?_child hx
    exact ⟨n, .inl ⟨c, f, rfl, hop.child hc, hf, .refl _, Nat.le_refl _, fun _ d hd =>
      hcalls g.rules g.nullable ▸ hd⟩⟩
  | @ofApply n _ rs rule args _ hx =>
    obtain ⟨name, rfl, rfl, hlookup⟩ := Operator.shape_eq_apply hx
    exact ⟨n, .inr ⟨name, rule, _, hlookup, by rw [Operator.leftCalls]; exact List.mem_singleton_self _,
      .inl rfl⟩⟩
  | @ofInvoke n _ rs rule args _ hx =>
    obtain ⟨name, rfl, rfl, hlookup⟩ := Operator.shape_eq_invoke hx
    exact ⟨n, .inr ⟨name, rule, _, hlookup, by rw [Operator.leftCalls]; exact List.mem_singleton_self _,
      .inr rfl⟩⟩
  | ofCross hx =>
    obtain ⟨name, rfl⟩ := Operator.shape_eq_cross hx
    cases hop _ (Operator.mem_nodes_self _)

/-- What a task starts is given an honest table, if the task is. -/
theorem Starts.honest {g : Grammar} (hg : g.Solid g.nullable) {t t' : Task} (h : Starts t t')
    (ht : t.Honest g) : t'.Honest g := by
  obtain ⟨hcall | ⟨n, op, f, rfl, hop⟩, hin, hhonest⟩ := ht
  · have hin' : t'.engine.InText := (h.inText ⟨rfl, hin⟩).2
    cases h with
    | first hfind => exact ⟨.inl hcall, hin', hhonest.opening _⟩
    | again hfind hgrown =>
      obtain rfl := hcall
      exact ⟨.inl rfl, hin', (hgrown.honest (hg.reads _).2 hin rfl hhonest).1.of_memo rfl⟩
    | body hbody =>
      obtain rfl := hcall
      obtain ⟨r, hr, heq⟩ := Option.map_eq_some_iff.1 hbody
      cases heq
      have hr' : r.body.Solid := hg.bodies r (List.mem_of_getElem? hr)
      exact ⟨.inr ⟨_, _, _, rfl, hr'⟩, hin', hhonest.of_memo rfl⟩
    | _ => exact hcall.elim
  · have hin' : t'.engine.InText := (h.inText ⟨rfl, hin⟩).2
    obtain ⟨n', ⟨c, m, rfl, hc, hm, -⟩ | ⟨name, rule, args, -, -, rfl | rfl⟩⟩ :=
      h.of_operator hg hop hin hhonest
    · exact ⟨.inr ⟨_, _, _, rfl, hc⟩, hin', hm⟩
    · exact ⟨.inl rfl, hin', hhonest⟩
    · exact ⟨.inl rfl, hin', hhonest⟩

/-- Whatever a task runs is given an honest table, if the task is. -/
theorem Task.Runs.honest {g : Grammar} (hg : g.Solid g.nullable) {t t' : Task} (h : t.Runs t')
    (ht : t.Honest g) : t'.Honest g := by
  induction h with
  | refl => exact ht
  | tail _ hstarts ih => exact hstarts.honest hg ih

/-- An engine that has only run rules of the grammar has an honest table. -/
theorem Engine.HasRun.honest {g : Grammar} (hg : g.Solid g.nullable) {text : Text}
    {calls : List (Task × Outcome)} {e : Engine} (h : e.HasRun text calls)
    (hcalls : ∀ s o, (s, o) ∈ calls → s.Calls g) : e.Honest g g.nullable := by
  induction h with
  | start hp => exact .startingAt _ _
  | moved _ _ ih => exact (ih hcalls).of_memo rfl
  | @called calls t o e' hbefore _ hrun ih =>
    have hearlier := ih fun s o' hmem => hcalls s o' (List.mem_append_left _ hmem)
    have hcall : t.Calls g := hcalls t o (List.mem_append_right _ List.mem_cons_self)
    have hin := hbefore.inText.2
    cases t with
    | apply n rs rule args e =>
      obtain rfl : rs = .grammar g := hcall
      exact (Grammar.InvocationsRead.apply (hg.reads n).2 hrun hin hearlier).1
    | invoke n rs rule args e =>
      obtain rfl : rs = .grammar g := hcall
      exact ((hg.reads n).2 rule args e o e' hrun hin hearlier).1
    | cross _ _ _ _ _ _ => exact hcall.elim
    | phrase _ _ _ => exact hcall.elim

/-! ## Operators that are not nullable -/

/-- A repetition without limit that has passed the checks has a body that is not nullable. -/
theorem Declaration.body_reads {d : Declaration} {g : Grammar} (hbuild : d.build = .ok g) {r : Rule}
    (hr : r ∈ g.rules) {op : Operator} {min : Nat} {captures : Bool}
    (hop : .repetition op min none captures ∈ r.body.nodes) : op.isNullable g.rules g.nullable = false := by
  obtain ⟨-, herrors, -⟩ := build_eq_ok hbuild
  obtain ⟨-, hloops⟩ := List.append_eq_nil_iff.1 herrors
  have hrule : loopErrors g.rules g.nullable r = [] := List.flatMap_eq_nil_iff.1 hloops r hr
  have hnone := List.filter_eq_nil_iff.1 (List.map_eq_nil_iff.1 hrule) _ hop
  simpa [isIdleLoop] using hnone

/-- **Operators that are not nullable read.**  Let a grammar of solid operators be built, and let an engine
    that has only run rules of it be given another call of one.  In every engine that the call runs
    anything with, and with any bindings, an operator of the grammar that is not nullable matches only
    beyond where it began.  So does the body of every repetition without limit: whichever round it is
    run for, it reads something or fails. -/
theorem unnullable_operators_read {d : Declaration} {g : Grammar} (hbuild : d.build = .ok g)
    (hsolid : ∀ r ∈ g.rules, ∀ op ∈ r.body.nodes, op.isSolid) {text : Text}
    {calls : List (Task × Outcome)} {t t' : Task} (hrun : t.engine.HasRun text calls)
    (hcalls : ∀ s o, (s, o) ∈ calls → s.Calls g) (hcall : t.Calls g) (hruns : t.Runs t')
    {r : Rule} (hr : r ∈ g.rules) :
    (∀ op ∈ r.body.nodes, op.isNullable g.rules g.nullable = false → ∀ n scope stop v m,
      g.eval n op ⟨t'.engine, scope⟩ = .ok (.matched stop v, m) → t'.engine.pos < stop) ∧
    ∀ op min captures, .repetition op min none captures ∈ r.body.nodes → ∀ n scope stop v m,
      g.eval n op ⟨t'.engine, scope⟩ = .ok (.matched stop v, m) → t'.engine.pos < stop := by
  have hg : g.Solid g.nullable := ⟨hsolid, nullableRules_closed g.rules⟩
  have ht : t.Honest g := ⟨.inl hcall, hrun.inText.2, hrun.honest hg hcalls⟩
  obtain ⟨-, hin, hhonest⟩ := hruns.honest hg ht
  have hreads : ∀ op ∈ r.body.nodes, op.isNullable g.rules g.nullable = false → ∀ n scope stop v m,
      g.eval n op ⟨t'.engine, scope⟩ = .ok (.matched stop v, m) → t'.engine.pos < stop := by
    intro op hop hnot n scope stop v m heval
    have hopSolid : op.Solid := fun o ho => hsolid r hr o (Operator.mem_nodes_trans r.body hop ho)
    have hle : t'.engine.pos ≤ stop := (Phrase.advances (.operator g op) n _ _ m heval hin).le
    have hidle := ((hg.reads n).1 op hopSolid _ _ m heval hin hhonest).2
    refine Nat.lt_of_le_of_ne hle fun heq => ?_
    subst heq
    rw [hidle v rfl] at hnot
    cases hnot
  refine ⟨hreads, fun op min captures hop => ?_⟩
  have hchild : op ∈ r.body.nodes := by
    refine Operator.mem_nodes_trans r.body hop ?_
    exact Operator.mem_nodes_of_child (List.mem_singleton_self op) op.mem_nodes_self
  exact hreads op hchild (Declaration.body_reads hbuild hr hop)

end

/-- Words with spaces between them, in a repetition without limit. -/
def spacedWords : Declaration :=
  { name := "words"
    rules :=
      [⟨"list", [], .star (.sequence [.call "word" [], .optional (.literal " ")])⟩,
        ⟨"word", [], .plus (.range "a" "z")⟩]
    root := none
    links := [] }

/-- What the declaration builds. -/
def spacedWordsGrammar : Grammar := .ofRules "words" spacedWords.rules 0 [] []

/-- When the first word of `ab c` is known already, the list takes it from the memo table; with the space
    behind it, its first round has read three characters. -/
theorem unnullable_operators_read_spacedWords :
    spacedWords.build = .ok spacedWordsGrammar ∧
    ∃ (e : Engine) (calls : List (Task × Outcome)) (m : Frame),
      e.HasRun "ab c".toList calls ∧
      spacedWordsGrammar.eval 20 (.sequence [.call "word" [], .optional (.literal " ")])
        ⟨e, Scope.ofArgs [] []⟩ = .ok (.matched 3 (.str " "), m) ∧
      e.pos < 3 := by
  have hbuild : spacedWords.build = .ok spacedWordsGrammar := rfl
  have hends : (((Engine.new "ab c".toList).applyRule 20 (.grammar spacedWordsGrammar) 1 [] >>= fun r =>
      (spacedWordsGrammar.eval 20 (.sequence [.call "word" [], .optional (.literal " ")])).inScope
        (Scope.ofArgs [] []) { r.2 with pos := 0 }).map (·.1)).toOption =
          some (.matched 3 (.str " ")) := by decide +kernel
  obtain ⟨e'', hboth⟩ := ends_with_outcome hends
  obtain ⟨⟨o, e'⟩, hword, hround⟩ := bind_eq_ok hboth
  obtain ⟨m, heval, -⟩ := Step.inScope_eq_ok hround
  have hstart : Text.IsBoundary "ab c".toList 0 := rfl
  have hcalled : e'.HasRun "ab c".toList
      [(.apply 20 (.grammar spacedWordsGrammar) 1 [] (Engine.new "ab c".toList), o)] :=
    .called (t := .apply 20 (.grammar spacedWordsGrammar) 1 [] (Engine.new "ab c".toList))
      (Engine.HasRun.start hstart) rfl hword
  have hback : ({ e' with pos := 0 } : Engine).HasRun "ab c".toList _ := hcalled.moved hstart
  have hsolid : ∀ r ∈ spacedWordsGrammar.rules, ∀ op ∈ r.body.nodes, op.isSolid := by decide
  refine ⟨hbuild, { e' with pos := 0 }, _, m, hback, heval, ?_⟩
  have hcalls : ∀ s o', (s, o') ∈ [(Task.apply 20 (.grammar spacedWordsGrammar) 1 []
      (Engine.new "ab c".toList), o)] → s.Calls spacedWordsGrammar := by
    intro s o' hmem
    obtain rfl := (Prod.mk.inj (List.mem_singleton.1 hmem)).1
    rfl
  exact (unnullable_operators_read (t := .apply 20 (.grammar spacedWordsGrammar) 0 [] { e' with pos := 0 })
    hbuild hsolid hback hcalls rfl .refl List.mem_cons_self).2 _ 0 false List.mem_cons_self _ _ _ _ _ heval

/-- An empty literal, repeated without limit. -/
def emptyLiterals : Declaration :=
  { name := "empties", rules := [⟨"start", [], .star (.literal "")⟩], root := none, links := [] }

/-- What the declaration builds. -/
def emptyLiteralsGrammar : Grammar := .ofRules "empties" emptyLiterals.rules 0 [] []

/-- **Where solidity is needed.**  The repetition passes the checks, since literals count as reading, but
    each of its rounds matches without. -/
theorem emptyLiteral_reads_nothing :
    emptyLiterals.build = .ok emptyLiteralsGrammar ∧
    (Operator.literal "").isNullable emptyLiteralsGrammar.rules emptyLiteralsGrammar.nullable = false ∧
    ∃ m, emptyLiteralsGrammar.eval 9 (.literal "") ⟨Engine.new "a".toList, Scope.ofArgs [] []⟩ =
      .ok (.matched 0 (.str ""), m) :=
  ⟨rfl, rfl, _, rfl⟩

end MemoPeg
