import MemoPeg.Proofs.Contexts

/-
  Runs answer as is derived.

  A derivation says what a call comes to, by seeds: a rule that calls itself is answered with the match so far,
  and is derived anew with each longer one.  That the engine finds the same is what is shown here, for runs
  that end, in steady grammars.

  1. **Places** — a step without parts looks at the place only, so that a fresh engine there does the same.
  2. **Allowed operators (`Rule.Allows`)** — those of a body that, where the body began, call on the left
     no more than it does.  A part of a sequence keeps to this behind parts that have read nothing, since
     these are nullable.
  3. **Calls** — a call through the memo table is answered as is derived if the body of its rule is: from
     its entry, or tried with a failure as the seed, or grown.
  4. **The crux (`tracks`)** — by induction on the fuel, every operator and every body that ends answers
     as is derived, and the call that is being tried is still in the memo table as it was, apart from
     the mark that it has been asked for.

  2 is what links the analysis of a grammar, which is done before anything runs, to a run.  That a rule calls
  another on the left is found out from the operators; that a run makes the call where the rule began
  is a fact about the run.  The two meet where a sequence has run some of its parts and is still at its start:
  each of these parts has matched without reading, so the analysis has taken it for nullable and has gone on
  to the next part as well.
-/

namespace MemoPeg

/-! ## Places -/

/-- The second frame stands where the first one does, with the same bindings; the first one has the memo
    table. -/
structure Frame.Beside (memo : Memo) (f f' : Frame) : Prop where
  text : f'.engine.text = f.engine.text
  pos : f'.engine.pos = f.engine.pos
  scope : f'.scope = f.scope
  memo : f.engine.memo = memo

/-- Steps without parts never look at the memo table. -/
theorem Frame.beside_lockstep (memo : Memo) : Lockstep (Frame.Beside memo) fun _ => True where
  text h := h.text
  pos h := h.pos
  move h _ := ⟨h.text, rfl, h.scope, h.memo⟩
  back {start start' m m'} hstart h := by
    refine ⟨h.text, hstart.pos, ?_, h.memo⟩
    show m'.scope.rollback start'.scope.mark = m.scope.rollback start.scope.mark
    rw [h.scope, hstart.scope]
  bind h name v := ⟨h.text, h.pos, congrArg (Scope.bind · name v) h.scope, h.memo⟩
  performed h _ _ := ⟨h.text, h.pos, h.scope, h.memo⟩
  older _ := trivial

/-- A step without parts follows itself. -/
theorem Leaf.follows {R : Frame → Frame → Prop} {C : History → Prop} (hR : Lockstep R C)
    (hscope : ∀ f f', R f f' → f'.scope = f.scope) (l : Leaf) : Follows R C l.step fun _ => l.step := by
  cases l with
  | any => exact hR.terminal isRead_readChar .char
  | literal s => exact hR.terminal (isRead_readTo fun t p => t.literalEnd p s.toList) Step.textValue
  | scan m => exact hR.terminal (isRead_readTo fun t p => t.patternEnd p m) Step.textValue
  | range lo hi => exact hR.terminal (isRead_readRange lo hi) .char
  | test a wanted => exact hR.test hscope a wanted
  | action a => exact hR.action hscope a
  | fail => exact .fail

/-- A step without parts leaves the memo table, and does the same in a fresh engine at the place. -/
theorem Leaf.step_fresh {l : Leaf} {f m : Frame} {o : Outcome} (h : l.step f = .ok (o, m)) :
    m.engine.memo = f.engine.memo ∧ ∃ m',
      l.step ⟨Engine.startingAt f.engine.text f.engine.pos, f.scope⟩ = .ok (o, m') ∧
        m'.scope = m.scope := by
  have hfollows := l.follows (Frame.beside_lockstep f.engine.memo) fun _ _ h => h.scope
  obtain ⟨m', ⟨n, hn⟩, hbeside⟩ := (hfollows f o m h trivial).2
    ⟨Engine.startingAt f.engine.text f.engine.pos, f.scope⟩ ⟨rfl, rfl, rfl, rfl⟩
  exact ⟨hbeside.memo, m', hn n (Nat.le_refl n), hbeside.scope⟩

variable [RegexLibrary]

/-! ## Allowed operators -/

/-- These nodes are of the body of the rule that is being run from the first offset, and these calls, where
    it began, are left calls of the body. -/
structure Rule.Allows (g : Grammar) (r : Rule) (q : Nat) (nodes : List Operator) (calls : List String)
    (p : Nat) : Prop where
  nodes : ∀ o ∈ nodes, o ∈ r.body.nodes
  le : q ≤ p
  calls : p = q → ∀ d ∈ calls, d ∈ r.body.leftCalls g.rules g.nullable

namespace Rule.Allows

variable {g : Grammar} {r : Rule} {p p' q : Nat} {σ : Seed} {others : Key → Prop}
  {nodes nodes' : List Operator} {calls calls' : List String}

/-- A part may be run later on, or at once with no more calls. -/
theorem part (h : r.Allows g q nodes calls p) (hnodes : ∀ o ∈ nodes', o ∈ nodes) (hle : p ≤ p')
    (hcalls : p' = p → ∀ d ∈ calls', d ∈ calls) : r.Allows g q nodes' calls' p' := by
  refine ⟨fun o ho => h.nodes o (hnodes o ho), Nat.le_trans h.le hle, fun heq d hd => ?_⟩
  obtain rfl : p = q := Nat.le_antisymm (heq ▸ hle) h.le
  exact h.calls rfl d (hcalls heq d hd)

/-- The only part of an operator that calls what the part does. -/
theorem child {op c : Operator} (h : r.Allows g q op.nodes (op.leftCalls g.rules g.nullable) p)
    (hc : c ∈ op.children) (hcalls : op.leftCalls g.rules g.nullable = c.leftCalls g.rules g.nullable) :
    r.Allows g q c.nodes (c.leftCalls g.rules g.nullable) p :=
  h.part (fun _ ho => Operator.mem_nodes_of_child hc ho) (Nat.le_refl p) fun _ _ hd => hcalls ▸ hd

/-- The first of a row of operators. -/
theorem head {op : Operator} {ops : List Operator}
    (h : r.Allows g q (Operator.nodesAll (op :: ops)) (op.leftCalls g.rules g.nullable ++ calls) p) :
    r.Allows g q op.nodes (op.leftCalls g.rules g.nullable) p :=
  h.part (fun _ ho => List.mem_append_left _ ho) (Nat.le_refl p) fun _ _ hd =>
    List.mem_append_left _ hd

/-- An allowed operator is solid, as the bodies are. -/
theorem solid (hg : g.Steady) (hctx : Context g r q σ others) {op : Operator}
    (h : r.Allows g q op.nodes calls p) : op.Solid :=
  fun o ho => hg.bodies r hctx.mem_rules o (h.nodes o ho)

/-- The rule that an allowed call names may be called. -/
theorem reaches (hg : g.Steady) (hctx : Context g r q σ others) {op : Operator} {name : String}
    {args : List Arg} {rule : RuleId} (h : r.Allows g q op.nodes (op.leftCalls g.rules g.nullable) p)
    (hop : op = .call name args ∨ op = .direct name args) (hlookup : g.lookup name = some rule) :
    ∃ r', g.rules[rule]? = some r' ∧ r'.name = name ∧ r'.params.length = args.length ∧
      r.Reaches g q r' p := by
  obtain ⟨r', hr', hname⟩ := Grammar.lookup_rule hlookup
  have hdeclared := Grammar.rule?_eq_some.2 ⟨rule, hlookup, hr'⟩
  have hnode := h.nodes op op.mem_nodes_self
  have hargs : r'.params.length = args.length := by
    obtain ⟨r'', hr'', hargs⟩ := hg.checked.callee hctx.mem_rules (hop.imp (· ▸ hnode) (· ▸ hnode))
    rw [hdeclared] at hr''
    cases hr''
    exact hargs
  have hcalls : op.leftCalls g.rules g.nullable = [name] := by
    rcases hop with rfl | rfl <;> rw [Operator.leftCalls]
  refine ⟨r', hr', hname, hargs, hname.symm ▸ hdeclared, h.le, fun heq => ?_⟩
  refine ⟨r, hctx.declared, h.calls heq r'.name ?_⟩
  rw [hcalls, hname]
  exact List.mem_singleton_self name

end Rule.Allows

/-! ## Answered questions -/

/-- A run from one engine to the other has answered the question as is derived.  The call is still being
    tried, and the entries of the other busy ones are untouched. -/
def Question.Answered (g : Grammar) (t : Text) (σ : Seed) (others : Key → Prop) (asked : Bool)
    (question : Question) (e : Engine) (o : Outcome) (s : Scope) (e' : Engine) : Prop :=
  ∃ a, Derives t question ⟨o, s, a⟩ ∧ e'.Trying g t σ others (asked || a) ∧ e.Keeps others e'

namespace Question.Answered

variable {g : Grammar} {t : Text} {σ : Seed} {others : Key → Prop} {asked : Bool}
  {question rest : Question} {e m e' : Engine} {o : Outcome} {s : Scope}

/-- An answer without asking for the call that is being tried. -/
theorem unasked (hd : Derives t question ⟨o, s, false⟩) (h : e'.Trying g t σ others asked)
    (hkeeps : e.Keeps others e') : question.Answered g t σ others asked e o s e' :=
  ⟨false, hd, by rwa [Bool.or_false], hkeeps⟩

/-- What is left of a question has been answered after its first part. -/
theorem after {a : Bool} (h : rest.Answered g t σ others (asked || a) m o s e')
    (hkeeps : e.Keeps others m)
    (hd : ∀ a', Derives t rest ⟨o, s, a'⟩ → Derives t question ⟨o, s, a || a'⟩) :
    question.Answered g t σ others asked e o s e' := by
  obtain ⟨a', hrest, htrying, hkeeps'⟩ := h
  exact ⟨a || a', hd a' hrest, by rwa [← Bool.or_assoc], hkeeps.trans hkeeps'⟩

end Question.Answered

/-- In the body of the rule that is run from the offset, the operator answers as is derived. -/
def Operator.Tracks (g : Grammar) (t : Text) (r : Rule) (q : Nat) (σ : Seed) (others : Key → Prop)
    (n : Nat) (op : Operator) : Prop :=
  ∀ asked f o m, r.Allows g q op.nodes (op.leftCalls g.rules g.nullable) f.engine.pos →
    f.engine.Trying g t σ others asked → g.eval n op f = .ok (o, m) →
      Question.Answered g t σ others asked (.phrase σ (.operator g op) ⟨f.engine.pos, f.scope⟩)
        f.engine o m.scope m.engine

/-- The bodies of all rules answer as is derived. -/
def Grammar.BodiesTrack (g : Grammar) (t : Text) (n : Nat) : Prop :=
  ∀ rule args σ others asked e o e',
    (∀ r, g.rules[rule]? = some r → Context g r e.pos σ others) → e.Trying g t σ others asked →
      RuleSet.body n (.grammar g) rule args e = .ok (o, e') →
        ∃ s, Question.Answered g t σ others asked (.body σ (.grammar g) rule args e.pos) e o s e'

/-! ## Operators made of others -/

namespace Operator.Tracks

variable {g : Grammar} {t : Text} {r : Rule} {q n : Nat} {σ : Seed} {others : Key → Prop}
  {asked : Bool} {f m : Frame} {o : Outcome} {op : Operator}

/-- A sequence answers as is derived if its parts do. -/
theorem sequenceFrom (hg : g.Steady) (hctx : Context g r q σ others) {start : Frame}
    (hstart : t.IsBoundary start.engine.pos) : ∀ {ops : List Operator},
      (∀ op ∈ ops, op.Tracks g t r q σ others n) → ∀ {asked : Bool} {f : Frame} {value : Value},
        r.Allows g q (nodesAll ops) (leftCallsOfSequence g.rules g.nullable ops) f.engine.pos →
        f.engine.Trying g t σ others asked →
        Step.sequenceFrom start (ops.map (g.eval n)) value f = .ok (o, m) →
          Question.Answered g t σ others asked
            (.rest σ start.scope (ops.map (.operator g)) value ⟨f.engine.pos, f.scope⟩)
            f.engine o m.scope m.engine := by
  intro ops
  induction ops with
  | nil =>
    intro _ asked f value _ hf hrun
    cases hrun
    exact .unasked .restNil hf (.of_memo rfl)
  | cons op ops ih =>
    intro hops asked f value hallows hf hrun
    have hfirst : r.Allows g q op.nodes (op.leftCalls g.rules g.nullable) f.engine.pos := hallows.head
    rcases Step.sequenceFrom_cons_eq_ok hrun with ⟨stop, v, m₁, hm, hrest⟩ | ⟨m₁, hm, rfl, rfl⟩
    · obtain ⟨a, hd, htrying, hkeeps⟩ := hops op List.mem_cons_self asked f _ m₁ hfirst hf hm
      have hpos : m₁.engine.pos = stop := (Phrase.advances (.operator g op) n f _ m₁ hm hf.inText).pos
      obtain ⟨hle, hnullable⟩ :=
        hd.reads hg.solid op rfl (hfirst.solid hg hctx) hctx.reads stop v rfl
      -- The parts behind one that has read nothing still are where the body began.
      have hnext : r.Allows g q (nodesAll ops) (leftCallsOfSequence g.rules g.nullable ops) m₁.engine.pos := by
        refine hallows.part (fun _ ho => List.mem_append_right _ ho) (hpos ▸ hle) fun heq d hd => ?_
        rw [leftCallsOfSequence, if_pos (hnullable (hpos.symm.trans heq))]
        exact List.mem_append_right _ hd
      have hanswered := ih (fun o ho => hops o (List.mem_cons_of_mem _ ho)) hnext htrying hrest
      rw [hpos] at hanswered
      exact hanswered.after hkeeps fun a' hd' => .restMatched hd hd'
    · obtain ⟨a, hd, htrying, hkeeps⟩ := hops op List.mem_cons_self asked f _ m₁ hfirst hf hm
      exact ⟨a, .restFailed hd, htrying.back hstart, hkeeps⟩

/-- A choice answers as is derived if its alternatives do. -/
theorem choice : ∀ {ops : List Operator}, (∀ op ∈ ops, op.Tracks g t r q σ others n) →
    ∀ {asked : Bool} {f : Frame},
      r.Allows g q (nodesAll ops) (leftCallsOfChoice g.rules g.nullable ops) f.engine.pos →
      f.engine.Trying g t σ others asked → Step.choice (ops.map (g.eval n)) f = .ok (o, m) →
        Question.Answered g t σ others asked
          (.first σ (ops.map (.operator g)) ⟨f.engine.pos, f.scope⟩) f.engine o m.scope m.engine := by
  intro ops
  induction ops with
  | nil =>
    intro _ asked f _ hf hrun
    cases hrun
    exact .unasked .firstNil hf (.of_memo rfl)
  | cons op ops ih =>
    intro hops asked f hallows hf hrun
    have hfirst : r.Allows g q op.nodes (op.leftCalls g.rules g.nullable) f.engine.pos := hallows.head
    rcases Step.choice_cons_eq_ok hrun with ⟨stop, v, hm, rfl⟩ | ⟨m₁, hm, hrest⟩
    · obtain ⟨a, hd, htrying, hkeeps⟩ := hops op List.mem_cons_self asked f _ m hfirst hf hm
      exact ⟨a, .firstMatched hd, htrying, hkeeps⟩
    · obtain ⟨a, hd, htrying, hkeeps⟩ := hops op List.mem_cons_self asked f _ m₁ hfirst hf hm
      have hpos : m₁.engine.pos = f.engine.pos :=
        (Phrase.advances (.operator g op) n f _ m₁ hm hf.inText).pos
      have hnext : r.Allows g q (nodesAll ops) (leftCallsOfChoice g.rules g.nullable ops) m₁.engine.pos :=
        hallows.part (fun _ ho => List.mem_append_right _ ho) (Nat.le_of_eq hpos.symm) fun _ _ hd =>
          List.mem_append_right _ hd
      have hanswered := ih (fun o ho => hops o (List.mem_cons_of_mem _ ho)) hnext htrying hrest
      rw [hpos] at hanswered
      exact hanswered.after hkeeps fun a' hd' => .firstFailed hd hd'

/-- So do the rounds of a repetition. -/
theorem rounds (h : op.Tracks g t r q σ others n) : ∀ (fuel : Nat) {left : Option Nat}
    {values values' : List Value} {asked : Bool} {f : Frame},
      r.Allows g q op.nodes (op.leftCalls g.rules g.nullable) f.engine.pos →
      f.engine.Trying g t σ others asked →
      Step.rounds (g.eval n op) fuel left values f = .ok (values', m) →
        Question.Answered g t σ others asked
          (.rounds σ (.operator g op) left values ⟨f.engine.pos, f.scope⟩) f.engine
          (.matched m.engine.pos (.list values')) m.scope m.engine := by
  intro fuel
  induction fuel with
  | zero => intro left values values' asked f _ _ hrun; cases hrun
  | succ fuel ih =>
    intro left values values' asked f hallows hf hrun
    have advances := Phrase.advances (.operator g op) n f
    rcases Step.rounds_succ_eq_ok hrun with
      ⟨rfl, rfl, rfl⟩ | ⟨hleft, hm, rfl⟩ | ⟨hleft, stop, v, m₁, hm, hrest⟩
    · exact .unasked .roundsSpent hf (.of_memo rfl)
    · obtain ⟨a, hd, htrying, hkeeps⟩ := h asked f _ m hallows hf hm
      have hpos : m.engine.pos = f.engine.pos := (advances _ m hm hf.inText).pos
      rw [hpos]
      exact ⟨a, .roundsFailed hleft hd, htrying, hkeeps⟩
    · obtain ⟨a, hd, htrying, hkeeps⟩ := h asked f _ m₁ hallows hf hm
      have had := advances _ m₁ hm hf.inText
      have hpos : m₁.engine.pos = stop := had.pos
      rcases hrest with ⟨rfl, hnone, rfl, rfl⟩ | ⟨hgo, hrest⟩
      · obtain rfl : left = none := Option.isNone_iff_eq_none.1 hnone
        rw [hpos]
        exact ⟨a, .roundsIdle hd, htrying, hkeeps⟩
      · have hnext := hallows.part (fun _ ho => ho) (hpos ▸ had.le) fun _ _ hd => hd
        have hanswered := ih hnext htrying hrest
        rw [hpos] at hanswered
        exact hanswered.after hkeeps fun a' hd' => .roundsNext hleft hd hgo hd'

/-- A repetition answers as its rounds are counted. -/
theorem repetition {c : Operator} {min : Nat} {max : Option Nat} {captures : Bool} {fuel : Nat}
    (h : c.Tracks g t r q σ others n)
    (hallows : r.Allows g q c.nodes (c.leftCalls g.rules g.nullable) f.engine.pos)
    (hf : f.engine.Trying g t σ others asked)
    (hrun : Step.repetition (g.eval n c) min max captures fuel f = .ok (o, m)) :
    Question.Answered g t σ others asked
      (.phrase σ (.operator g (.repetition c min max captures)) ⟨f.engine.pos, f.scope⟩)
      f.engine o m.scope m.engine := by
  obtain ⟨values, m₁, hrounds, hrest⟩ := Step.repetition_eq_ok hrun
  obtain ⟨a, hd, htrying, hkeeps⟩ := h.rounds fuel hallows hf hrounds
  have hd' := Derives.repetition (x := .operator g (.repetition c min max captures)) rfl hd
  unfold repetitionReply at hd'
  rcases hrest with ⟨hfew, rfl, rfl⟩ | ⟨hmany, rfl, rfl⟩
  · rw [if_pos hfew] at hd'
    exact ⟨a, hd', htrying.back hf.boundary, hkeeps⟩
  · rw [if_neg (Nat.not_lt.2 hmany)] at hd'
    exact ⟨a, hd', htrying, hkeeps⟩

/-- Looking ahead answers as the operator does, and goes back. -/
theorem ahead {x : Phrase} {c : Operator} (hx : x.shape = .ahead (.operator g c))
    (h : c.Tracks g t r q σ others n)
    (hallows : r.Allows g q c.nodes (c.leftCalls g.rules g.nullable) f.engine.pos)
    (hf : f.engine.Trying g t σ others asked) (hrun : Step.ahead (g.eval n c) f = .ok (o, m)) :
    Question.Answered g t σ others asked (.phrase σ x ⟨f.engine.pos, f.scope⟩) f.engine o m.scope
      m.engine := by
  obtain ⟨part, m₁, hm, rfl, hpart⟩ := Step.ahead_eq_ok hrun
  obtain ⟨a, hd, htrying, hkeeps⟩ := h asked f part m₁ hallows hf hm
  have hd' := Derives.ahead hx hd
  rcases hpart with ⟨_, _, rfl, rfl⟩ | ⟨rfl, rfl⟩ <;>
    exact ⟨a, hd', htrying.back hf.boundary, hkeeps⟩

/-- A negated predicate answers the other way round. -/
theorem notAhead {x : Phrase} {c : Operator} (hx : x.shape = .notAhead (.operator g c))
    (h : c.Tracks g t r q σ others n)
    (hallows : r.Allows g q c.nodes (c.leftCalls g.rules g.nullable) f.engine.pos)
    (hf : f.engine.Trying g t σ others asked) (hrun : Step.notAhead (g.eval n c) f = .ok (o, m)) :
    Question.Answered g t σ others asked (.phrase σ x ⟨f.engine.pos, f.scope⟩) f.engine o m.scope
      m.engine := by
  obtain ⟨part, m₁, hm, rfl, hpart⟩ := Step.notAhead_eq_ok hrun
  obtain ⟨a, hd, htrying, hkeeps⟩ := h asked f part m₁ hallows hf hm
  have hd' := Derives.notAhead hx hd
  rcases hpart with ⟨_, _, rfl, rfl⟩ | ⟨rfl, rfl⟩ <;>
    exact ⟨a, hd', htrying.back hf.boundary, hkeeps⟩

/-- A binding answers as its part does, and binds what is derived. -/
theorem binding {x : Phrase} {c : Operator} {name : String}
    {value : Text → Nat → Nat → Value → Value}
    (hx : x.shape.binding? = some (.operator g c, name, value)) (h : c.Tracks g t r q σ others n)
    (hallows : r.Allows g q c.nodes (c.leftCalls g.rules g.nullable) f.engine.pos)
    (hf : f.engine.Trying g t σ others asked) (hrun : x.shape.step n f = .ok (o, m)) :
    Question.Answered g t σ others asked (.phrase σ x ⟨f.engine.pos, f.scope⟩) f.engine o m.scope
      m.engine := by
  rw [Shape.step_binding hx] at hrun
  rcases Step.binding_eq_ok hrun with ⟨stop, v, m₁, hm, rfl, rfl⟩ | ⟨hm, rfl⟩
  · obtain ⟨a, hd, htrying, hkeeps⟩ := h asked f _ m₁ hallows hf hm
    rw [hf.text]
    exact ⟨a, .binding hx hd, htrying, hkeeps⟩
  · obtain ⟨a, hd, htrying, hkeeps⟩ := h asked f _ m hallows hf hm
    exact ⟨a, .binding hx hd, htrying, hkeeps⟩

/-- A step without parts answers by itself. -/
theorem leaf {x : Phrase} {l : Leaf} (hx : x.shape = .leaf l)
    (hf : f.engine.Trying g t σ others asked) (hrun : x.shape.step n f = .ok (o, m)) :
    Question.Answered g t σ others asked (.phrase σ x ⟨f.engine.pos, f.scope⟩) f.engine o m.scope
      m.engine := by
  have had := Phrase.advances x (n + 1) f o m (by rwa [Phrase.step_succ]) hf.inText
  rw [hx] at hrun
  obtain ⟨hmemo, m', hfresh, hscope⟩ := Leaf.step_fresh hrun
  rw [hf.text] at hfresh
  rw [← hscope]
  exact .unasked (.leaf hx hfresh) (hf.same had.text had.inText hmemo) (.of_memo hmemo)

end Operator.Tracks

/-! ## Calls -/

omit [RegexLibrary] in
/-- Concluding an invocation leaves the memo table. -/
theorem Engine.concluded_memo (r : Runner) (rule : RuleId) (e after : Engine) (o : Outcome) :
    (e.concluded r rule after o).memo = after.memo := by cases o <;> rfl

namespace Grammar.BodiesTrack

variable {g : Grammar} {t : Text} {n : Nat} {rule : RuleId} {args : List Value} {σ : Seed}
  {others busy : Key → Prop} {asked : Bool} {e e' : Engine} {o : Outcome} {key : Key}

/-- An invocation answers as the body does. -/
theorem invoke (h : g.BodiesTrack t n)
    (hctx : ∀ r, g.rules[rule]? = some r → Context g r e.pos σ others)
    (he : e.Trying g t σ others asked)
    (hrun : e.invokeRule n (.grammar g) rule args = .ok (o, e')) :
    ∃ s, Question.Answered g t σ others asked (.body σ (.grammar g) rule args e.pos) e o s e' := by
  have had := CallAdvances.invoke (RuleSet.body_advances n _) rule args e o e' hrun he.inText
  obtain ⟨m, hm, rfl⟩ := Engine.invoke_eq_ok hrun
  let attempting : Engine := e.attempting ((RuleSet.grammar g).runner n) rule
  have hattempting : attempting.Trying g t σ others asked := he.same rfl (he.inText.note _) rfl
  obtain ⟨s, a, hd, htrying, hkeeps⟩ :=
    h rule args σ others asked attempting o m hctx hattempting hm
  have hmemo := e.concluded_memo ((RuleSet.grammar g).runner n) rule m o
  refine ⟨s, a, hd, htrying.same ?_ had.inText hmemo, hkeeps.trans (.of_memo hmemo)⟩
  exact had.text.trans (he.text.trans htrying.text.symm)

/-- A growing rule answers as is derived, and the last match is recorded. -/
theorem growFrom (h : g.BodiesTrack t n) (hg : g.Steady) (hkey : t.IsBoundary key.pos)
    (hnew : ¬busy key)
    (hctx : ∀ r, g.rules[key.rule]? = some r → Context g r key.pos ⟨key, .failed⟩ busy) :
    ∀ (fuel best : Nat) (v : Value) (asked : Bool) (e : Engine),
      e.Trying g t ⟨key, .matched best v⟩ busy asked → t.IsBoundary best →
      g.Reads g.nullable key.rule key.pos best →
      e.growFrom ((RuleSet.grammar g).runner n) key fuel best v = .ok (o, e') →
        ∃ r, Derives t (.growth (.grammar g) key best v) r ∧ r.outcome = o ∧
          (e'.Settled g t fun other => busy other ∨ other = key) ∧
          e'.Holds key (o.answer key.pos) ∧ e.Keeps busy e' := by
  intro fuel
  induction fuel with
  | zero => intro best v asked e _ _ _ hrun; cases hrun
  | succ fuel ih =>
    intro best v asked e he hbest hreads hrun
    have hseed : Seed.Reads g g.nullable ⟨key, .matched best v⟩ := by
      intro stop v' heq
      cases heq
      exact hreads
    have hagain : (e.regrowing key best v).Trying g t ⟨key, .matched best v⟩ busy asked :=
      he.same rfl (he.inText.regrowing (he.text ▸ hkey) best v) rfl
    obtain ⟨round, m, hround, hrest⟩ := Engine.growFrom_succ_eq_ok hrun
    have had := CallAdvances.invoke (RuleSet.body_advances n _) key.rule key.args _ _ _ hround
      hagain.inText
    obtain ⟨s, a, hd, htrying, hkeeps⟩ :=
      h.invoke (fun r hr => (hctx r hr).reseed hseed) hagain hround
    have hkeeps : e.Keeps busy m := hkeeps
    rcases hrest with ⟨stop, longer, rfl, hlonger, hrest⟩ | ⟨hspent, rfl, rfl⟩
    · obtain ⟨hsettled, hholds⟩ := htrying.settle (.matched stop longer) (had.settle rfl)
      obtain ⟨r, hr, hout, hsettled', hholds', hkeeps'⟩ :=
        ih stop longer (asked || a) _ ⟨hsettled, hholds⟩ (htrying.text ▸ had.boundary)
          (hd.reads hg.solid rfl hseed stop longer rfl) hrest
      exact ⟨r, .longer hd rfl hlonger hr, hout, hsettled', hholds',
        (hkeeps.trans (.modify hnew rfl)).trans hkeeps'⟩
    · have hin := (had.inText.move (htrying.text.symm ▸ hbest)).result v
      have hfinished : ({ m with pos := best, result := v } : Engine).Trying g t
          ⟨key, .matched best v⟩ busy (asked || a) := htrying.same rfl hin rfl
      exact ⟨_, .grown hd hspent, rfl, hfinished.settled, hfinished.seed,
        hkeeps.trans (.of_memo rfl)⟩

/-- **A call through the memo table answers as is derived**: from its entry, or by trying it. -/
theorem apply (h : g.BodiesTrack t n) (hg : g.Steady) (he : e.Settled g t busy) (hpos : key.pos = e.pos)
    (hnew : ¬busy key)
    (hctx : ∀ r, g.rules[key.rule]? = some r → Context g r key.pos ⟨key, .failed⟩ busy)
    (hrun : e.applyRule n (.grammar g) key.rule key.args = .ok (o, e')) :
    key.Answered g t busy e o e' := by
  have hkey : ⟨key.rule, e.pos, key.args⟩ = key := by rw [← hpos]
  have had := CallAdvances.apply (RuleSet.body_advances n _) n key.rule key.args e o e' hrun he.inText
  have hcases := Engine.apply_ends ((RuleSet.grammar g).runner_retains n) hrun
  rw [hkey] at hcases
  rcases hcases with ⟨entry, hfind, heq⟩ | ⟨-, first, m, hm, hrest⟩
  · exact he.reuse hnew hfind heq had.text had.inText
  -- The call is tried with a failure as its seed, and asks for itself or does not.
  have hopened := he.opening key
  have hfirst := CallAdvances.invoke (RuleSet.body_advances n _) key.rule key.args _ _ _ hm
    hopened.inText
  obtain ⟨s, a, hd, htrying, hkeeps⟩ := h.invoke (e := e.opening key) (hpos ▸ hctx) hopened hm
  have hd : Derives t (.body ⟨key, .failed⟩ (.grammar g) key.rule key.args key.pos) ⟨first, s, a⟩ :=
    hpos ▸ hd
  have hkept : e.Keeps busy m := (Engine.Keeps.opening hnew).trans hkeeps
  have hseen : m.sawItself key = a := by
    rw [htrying.seed.sawItself]
    cases a <;> rfl
  rw [hseen] at hrest
  rcases hrest with ⟨stop, v, rfl, hsaw, hgrown⟩ | ⟨stop, v, rfl, hsaw, rfl, rfl⟩ | ⟨rfl, rfl, rfl⟩
  · obtain ⟨hsettled, hholds⟩ := htrying.settle (.matched stop v) (hfirst.settle hpos)
    have hstart : t.IsBoundary key.pos := hpos ▸ he.text ▸ he.inText.cursor
    have hstop : t.IsBoundary stop := htrying.text ▸ hfirst.boundary
    have hreads := hd.reads hg.solid rfl (fun _ _ heq => by cases heq) stop v rfl
    obtain ⟨r, hr, rfl, hsettled', hholds', hkeeps'⟩ :=
      h.growFrom hg hstart hnew hctx n stop v a _ ⟨hsettled, hholds⟩ hstop hreads hgrown
    have hcall : Derives t (.call (.grammar g) key) r := .callGrown hd rfl hsaw hr
    exact ⟨r, hcall, rfl, hsettled'.close hcall hholds',
      (hkept.trans (.modify hnew rfl)).trans hkeeps'⟩
  · exact htrying.answered hnew hkept (.callMatched hd rfl hsaw) (hfirst.settle hpos)
  · rw [← hpos]
    exact htrying.answered hnew hkept (.callFailed hd rfl) (hfirst.inText.settle key ⟨rfl, rfl⟩)

end Grammar.BodiesTrack

namespace Operator.Tracks

variable {g : Grammar} {t : Text} {r : Rule} {q n : Nat} {σ : Seed} {others : Key → Prop}
  {asked : Bool} {f m : Frame} {o : Outcome} {name : String} {args : List Arg} {rule : RuleId}

/-- A call through the memo table asks for the call that is being tried, or is one of its own. -/
theorem call (hg : g.Steady) (hbodies : g.BodiesTrack t n) (hctx : Context g r q σ others)
    (hlookup : g.lookup name = some rule)
    (hallows : r.Allows g q (Operator.call name args).nodes
      ((Operator.call name args).leftCalls g.rules g.nullable) f.engine.pos)
    (hf : f.engine.Trying g t σ others asked)
    (hrun : Step.call (Engine.applyRule n (.grammar g) rule) args f = .ok (o, m)) :
    Question.Answered g t σ others asked
      (.phrase σ (.operator g (.call name args)) ⟨f.engine.pos, f.scope⟩) f.engine o m.scope
      m.engine := by
  obtain ⟨e, hcall, rfl⟩ := Step.call_eq_ok hrun
  obtain ⟨r', hr', hname, hargs, hreaches⟩ := hallows.reaches hg hctx (.inl rfl) hlookup
  have hx : (Phrase.operator g (.call name args)).shape = .apply (.grammar g) rule args := by
    simp only [Phrase.shape, shape, hlookup]
  by_cases hkey : ⟨rule, f.engine.pos, f.scope.resolve args⟩ = σ.key
  · have had := CallAdvances.apply (RuleSet.body_advances n _) n rule _ _ o e hcall hf.inText
    obtain ⟨entry, hfind, heq⟩ | ⟨hnone, -⟩ := Engine.apply_eq_ok hcall
    · rw [hkey] at hfind heq
      obtain ⟨rfl, htrying, hkeeps⟩ := hf.again hctx.new hfind heq had.text had.inText
      exact ⟨true, .again hx hkey, by rwa [Bool.or_true], hkeeps⟩
    · have hseed := hf.seed
      rw [Engine.Holds, ← hkey, hnone] at hseed
      cases hseed
  · have hcallee : Context g r' f.engine.pos
        ⟨⟨rule, f.engine.pos, f.scope.resolve args⟩, .failed⟩ fun other => others other ∨ other = σ.key :=
      hctx.callee hg hreaches (hname ▸ hlookup) (hargs.trans (List.length_map _).symm) hkey
    obtain ⟨reply, hd, rfl, hsettled, hkeeps⟩ := hbodies.apply hg hf.settled rfl hcallee.new
      (fun r'' hr'' => Option.some.inj (hr'.symm.trans hr'') ▸ hcallee) hcall
    exact .unasked (.other hx hkey hd) (hf.kept hsettled hkeeps) (hkeeps.mono fun _ => .inl)

/-- A call past the memo table runs the body of the callee for the same call. -/
theorem direct (hg : g.Steady) (hbodies : g.BodiesTrack t n) (hctx : Context g r q σ others)
    (hlookup : g.lookup name = some rule)
    (hallows : r.Allows g q (Operator.direct name args).nodes
      ((Operator.direct name args).leftCalls g.rules g.nullable) f.engine.pos)
    (hf : f.engine.Trying g t σ others asked)
    (hrun : Step.call (Engine.invokeRule n (.grammar g) rule) args f = .ok (o, m)) :
    Question.Answered g t σ others asked
      (.phrase σ (.operator g (.direct name args)) ⟨f.engine.pos, f.scope⟩) f.engine o m.scope
      m.engine := by
  obtain ⟨e, hcall, rfl⟩ := Step.call_eq_ok hrun
  obtain ⟨r', hr', -, -, hreaches⟩ := hallows.reaches hg hctx (.inr rfl) hlookup
  have hx : (Phrase.operator g (.direct name args)).shape = .invoke (.grammar g) rule args := by
    simp only [Phrase.shape, shape, hlookup]
  have hcallee : Context g r' f.engine.pos σ others := hctx.direct hg hreaches
  obtain ⟨s, a, hd, htrying, hkeeps⟩ := hbodies.invoke
    (fun r'' hr'' => Option.some.inj (hr'.symm.trans hr'') ▸ hcallee) hf hcall
  have hphrase := Derives.direct (p := ⟨f.engine.pos, f.scope⟩) hx hd
  exact ⟨a, hphrase, htrying, hkeeps⟩

/-- An operator answers as is derived if operators and bodies do with less fuel. -/
theorem succ (hg : g.Steady) (hbodies : g.BodiesTrack t n) (hctx : Context g r q σ others)
    (hparts : ∀ op : Operator, op.Tracks g t r q σ others n) (op : Operator) :
    op.Tracks g t r q σ others (n + 1) := by
  intro asked f o m hallows hf hrun
  rw [Grammar.eval_shape] at hrun
  have hx : (Phrase.operator g op).shape = op.shape g := rfl
  -- The three operators that bind differ in the value only, and are taken together.
  cases hbinding : (op.shape g).binding? with
  | some b =>
    obtain ⟨part, name, value⟩ := b
    obtain ⟨c, rfl, hop⟩ := shape_eq_binding hbinding
    have hchild : c ∈ op.children ∧ op.leftCalls g.rules g.nullable = c.leftCalls g.rules g.nullable := by
      rcases hop with ⟨_, rfl⟩ | rfl | rfl <;> exact ⟨List.mem_singleton_self c, by rw [leftCalls]⟩
    exact binding hbinding (hparts c) (hallows.child hchild.1 hchild.2) hf hrun
  | none =>
  cases hshape : op.shape g with
  | leaf l => exact leaf (hx.trans hshape) hf hrun
  | sequence parts =>
    rw [hshape] at hx hrun
    obtain ⟨ops, rfl, rfl⟩ := shape_eq_sequence hshape
    rw [Shape.step, List.map_map] at hrun
    obtain ⟨a, hd, htrying, hkeeps⟩ := sequenceFrom hg hctx hf.boundary (fun op _ => hparts op)
      (hallows.part (fun _ ho => List.mem_cons_of_mem _ ho) (Nat.le_refl _) fun _ _ hd => hd) hf hrun
    exact ⟨a, .sequence hx hd, htrying, hkeeps⟩
  | choice parts =>
    rw [hshape] at hx hrun
    obtain ⟨ops, rfl, rfl⟩ := shape_eq_choice hshape
    rw [Shape.step, List.map_map] at hrun
    obtain ⟨a, hd, htrying, hkeeps⟩ := choice (fun op _ => hparts op)
      (hallows.part (fun _ ho => List.mem_cons_of_mem _ ho) (Nat.le_refl _) fun _ _ hd => hd) hf hrun
    exact ⟨a, .choice hx hd, htrying, hkeeps⟩
  | repetition part min max captures =>
    rw [hshape] at hrun
    obtain ⟨c, rfl, rfl⟩ := shape_eq_repetition hshape
    exact repetition (hparts c) (hallows.child (List.mem_singleton_self c) (by rw [leftCalls])) hf hrun
  | ahead part =>
    rw [hshape] at hx hrun
    obtain ⟨c, rfl, rfl⟩ := shape_eq_ahead hshape
    exact ahead hx (hparts c) (hallows.child (List.mem_singleton_self c) (by rw [leftCalls])) hf hrun
  | notAhead part =>
    rw [hshape] at hx hrun
    obtain ⟨c, rfl, rfl⟩ := shape_eq_notAhead hshape
    exact notAhead hx (hparts c) (hallows.child (List.mem_singleton_self c) (by rw [leftCalls])) hf hrun
  | tag part name => rw [hshape] at hbinding; cases hbinding
  | collect part => rw [hshape] at hbinding; cases hbinding
  | bounds part => rw [hshape] at hbinding; cases hbinding
  | apply rs rule args =>
    rw [hshape] at hrun
    obtain ⟨name, rfl, rfl, hlookup⟩ := shape_eq_apply hshape
    exact call hg hbodies hctx hlookup hallows hf hrun
  | invoke rs rule args =>
    rw [hshape] at hrun
    obtain ⟨name, rfl, rfl, hlookup⟩ := shape_eq_invoke hshape
    exact direct hg hbodies hctx hlookup hallows hf hrun
  | cross grammar rs rule args =>
    -- No solid operator is a call into a linked rule set.
    obtain ⟨name, rfl⟩ := shape_eq_cross hshape
    cases hallows.solid hg hctx _ (mem_nodes_self _)

end Operator.Tracks

/-! ## Everything that runs -/

/-- Bodies answer as is derived if their operators do. -/
theorem Grammar.BodiesTrack.succ {g : Grammar} {t : Text} {n : Nat}
    (hops : ∀ r q σ others, Context g r q σ others → ∀ op : Operator, op.Tracks g t r q σ others n) :
    g.BodiesTrack t (n + 1) := by
  intro rule args σ others asked e o e' hctx he hrun
  cases hr : g.rules[rule]? with
  | none =>
    rw [RuleSet.body_grammar_none hr] at hrun
    cases hrun
    have hx : (RuleSet.grammar g).phrase? rule = none := Option.map_eq_none_iff.2 hr
    exact ⟨[], .unasked (.noBody hx) he (.of_memo rfl)⟩
  | some r =>
    rw [RuleSet.body_grammar hr] at hrun
    obtain ⟨m, hm, rfl⟩ := Step.inScope_eq_ok hrun
    have hx : (RuleSet.grammar g).phrase? rule = some (r.params, .operator g r.body) :=
      Option.map_eq_some_iff.2 ⟨r, hr, rfl⟩
    obtain ⟨a, hd, htrying, hkeeps⟩ := hops r e.pos σ others (hctx r hr) r.body asked
      ⟨e, Scope.ofArgs r.params args⟩ o m ⟨fun _ ho => ho, Nat.le_refl _, fun _ _ hd => hd⟩ he hm
    exact ⟨m.scope, a, .body hx hd, htrying, hkeeps⟩

/-- **Every run answers as is derived.** -/
theorem Grammar.Steady.tracks {g : Grammar} (hg : g.Steady) (t : Text) (n : Nat) :
    (∀ r q σ others, Context g r q σ others → ∀ op : Operator, op.Tracks g t r q σ others n) ∧
      g.BodiesTrack t n := by
  induction n with
  | zero =>
    refine ⟨fun r q σ others _ op asked f o m _ _ hrun => ?_,
      fun rule args σ others asked e o e' _ _ hrun => ?_⟩
    · cases hrun
    · cases hrun
  | succ n ih =>
    obtain ⟨hops, hbodies⟩ := ih
    exact ⟨fun r q σ others hctx => Operator.Tracks.succ hg hbodies hctx (hops r q σ others hctx),
      .succ hops⟩

end MemoPeg
