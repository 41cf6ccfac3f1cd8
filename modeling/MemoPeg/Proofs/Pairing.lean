import MemoPeg.Proofs.Growth

/-
  Grammars whose rules are paired.

  Two grammars may have the same rules in different places, with bodies that call them there.  A run of the
  one is then a run of the other, place for place.  The relation between the places need not be a function:
  rules may be paired with several others, or with none.

  1. **Answers** — what a memo table says of a key, however often it was asked.
  2. **Tables in lockstep (`TableLockstep`)** — engines whose tables say the same of paired rules.  Their
     depths and records may differ, and so may what the tables say of other rules.
  3. **The crux (`TableLockstep.apply`)** — a call of a rule through the memo table follows the call of the
     rule that it is paired with, growth included, if invocations do.
  4. **Pairs (`Grammar.Pairs`)** — bodies of paired rules are translations of one operator that differ in
     calls only.  They follow each other where their calls are calls of paired rules again, or follow
     each other for a reason of their own.

  Uses are not compared, nor is the furthest failure: a linked rule set has an engine of its own, so the same
  calls are made elsewhere and are noted elsewhere.  Following is shown in one direction, and the other one
  is obtained by `flip`; whence the care that all notions here have a `flip`.
-/

namespace MemoPeg

/-! ## Answers -/

/-- What the memo table says of a key. -/
def Memo.answer? (memo : Memo) (key : Key) : Option Answer := (memo.find? key).map (·.answer)

namespace Memo

/-- An answer comes from an entry. -/
theorem answer?_eq_some {memo : Memo} {key : Key} {answer : Answer} :
    memo.answer? key = some answer ↔ ∃ entry, memo.find? key = some entry ∧ entry.answer = answer :=
  Option.map_eq_some_iff

/-- Where there is no answer there is no entry. -/
theorem answer?_eq_none {memo : Memo} {key : Key} : memo.answer? key = none ↔ memo.find? key = none :=
  Option.map_eq_none_iff

/-- Uses are no answers. -/
@[simp] theorem answer?_use (memo : Memo) (key : Key) : (memo.use key).answer? = memo.answer? := by
  funext other
  simp only [answer?, use, find?_modify]
  split <;> simp only [Option.map_map, Function.comp_def]

/-- A call that is opened has an answer, and no other answer changes. -/
theorem answer?_start (memo : Memo) (key other : Key) :
    (memo.start key).answer? other =
      if key = other then some (.parked (.inProgress false) key.pos) else memo.answer? other := by
  simp only [answer?, find?_start]
  split <;> rfl

/-- A recorded answer replaces one that there was. -/
theorem answer?_settle (memo : Memo) (key other : Key) (answer : Answer) :
    (memo.settle key answer).answer? other =
      if key = other then (memo.answer? other).map fun _ => answer else memo.answer? other := by
  simp only [answer?, settle, find?_modify]
  split <;> simp only [Option.map_map, Function.comp_def]

end Memo

/-- Whether a rule has called itself shows in its answer. -/
theorem Engine.sawItself_eq (key : Key) (e : Engine) :
    e.sawItself key = ((e.memo.answer? key).map (·.status) = some (.inProgress true) : Bool) := by
  unfold Engine.sawItself Memo.answer?
  cases e.memo.find? key with
  | none => rfl
  | some entry => simp only [Option.map_some, Option.some.injEq]

/-- The second engine is the first one with another cursor, other records and other numbers of uses. -/
structure Engine.SameAnswers (e f : Engine) : Prop where
  text : f.text = e.text
  depth : f.depth = e.depth
  answers : f.memo.answer? = e.memo.answer?

/-! ## Tables in lockstep -/

/-- Where scopes are the same, arguments are. -/
theorem Framed.resolve_eq {T : Engine → Engine → Prop} (args : List Arg) (f f' : Frame)
    (hf : Framed T true f f') : f'.scope.resolve args = f.scope.resolve args := by
  rw [hf.2 rfl]

/-- Engines at the same place whose memo tables say the same of paired rules, whatever it is that they may
    differ in.  The condition on histories is one that older histories satisfy as well. -/
structure TableLockstep (T : Engine → Engine → Prop) (C : History → Prop) (K : RuleId → RuleId → Prop) :
    Prop where
  text : ∀ {e e'}, T e e' → e'.text = e.text
  pos : ∀ {e e'}, T e e' → e'.pos = e.pos
  same : ∀ {e e' f f'}, T e e' → e.SameAnswers f → e'.SameAnswers f' → f'.pos = f.pos → T f f'
  found : ∀ {e e' i j}, T e e' → K i j → ∀ p args,
    e'.memo.answer? ⟨j, p, args⟩ = e.memo.answer? ⟨i, p, args⟩
  opening : ∀ {e e' i j}, T e e' → K i j → ∀ p args,
    T (e.opening ⟨i, p, args⟩) (e'.opening ⟨j, p, args⟩)
  settle : ∀ {e e' i j}, T e e' → K i j → ∀ p args answer,
    T (e.settle ⟨i, p, args⟩ answer) (e'.settle ⟨j, p, args⟩ answer)
  older : ∀ {m h}, C (m :: h) → C h

namespace TableLockstep

variable {T : Engine → Engine → Prop} {C : History → Prop} {K : RuleId → RuleId → Prop}
  (hT : TableLockstep T C K)
include hT

/-- What two engines have in common can be said from either side. -/
theorem flip : TableLockstep (fun e e' => T e' e) C fun i j => K j i where
  text h := (hT.text h).symm
  pos h := (hT.pos h).symm
  same h hf hf' hpos := hT.same h hf' hf hpos.symm
  found h hK p args := (hT.found h hK p args).symm
  opening h hK := hT.opening h hK
  settle h hK := hT.settle h hK
  older := hT.older

/-- Frames with such engines and the same scope are in lockstep. -/
theorem frames : Lockstep (Framed T true) C where
  text h := hT.text h.1
  pos h := hT.pos h.1
  move h p := ⟨hT.same h.1 ⟨rfl, rfl, rfl⟩ ⟨rfl, rfl, rfl⟩ rfl, h.2⟩
  back {start start' m m'} hstart h := by
    refine ⟨hT.same h.1 ⟨rfl, rfl, rfl⟩ ⟨rfl, rfl, rfl⟩ (hT.pos hstart.1 :), fun hs => ?_⟩
    show m'.scope.rollback start'.scope.mark = m.scope.rollback start.scope.mark
    rw [h.2 hs, hstart.2 hs]
  bind h name v := ⟨h.1, fun hs => congrArg (Scope.bind · name v) (h.2 hs)⟩
  performed h hscope a := ⟨hT.same h.1 ⟨rfl, rfl, rfl⟩ ⟨rfl, rfl, rfl⟩ (hT.pos h.1 :), fun _ => hscope⟩
  older := hT.older

/-- Where the engines are equally deep as well, they are in lockstep. -/
theorem engines (hdepth : ∀ {e e'}, T e e' → e'.depth = e.depth) : EngineLockstep T C where
  text := hT.text
  pos := hT.pos
  depth := hdepth
  move h p := hT.same h ⟨rfl, rfl, rfl⟩ ⟨rfl, rfl, rfl⟩ rfl
  result h v := hT.same h ⟨rfl, rfl, rfl⟩ ⟨rfl, rfl, rfl⟩ (hT.pos h :)
  note h event _ := hT.same h ⟨rfl, rfl, rfl⟩ ⟨rfl, rfl, rfl⟩ (hT.pos h :)
  blame h culprit p := hT.same h ⟨rfl, rfl, rfl⟩ ⟨rfl, rfl, rfl⟩ (hT.pos h :)
  passed {e e' new reach o after after'} h _ hp hp' := by
    refine hT.same h ⟨hp.text, hp.depth, ?_⟩ ⟨hp'.text, hp'.depth, ?_⟩ ?_
    · rw [hp.memo]
    · rw [hp'.memo]
    · rw [hp'.pos, hp.pos, hT.pos h]
  older := hT.older

/-- Calls of paired rules whose answers are known, or which are being tried, go alike. -/
theorem reuse {e e' : Engine} (h : T e e') {i j : RuleId} (hK : K i j) (p : Nat) (args : List Value)
    {entry entry' : Entry} (hanswer : entry'.answer = entry.answer) :
    (e'.reuse ⟨j, p, args⟩ entry').1 = (e.reuse ⟨i, p, args⟩ entry).1 ∧
      T (e.reuse ⟨i, p, args⟩ entry).2 (e'.reuse ⟨j, p, args⟩ entry').2 := by
  obtain ⟨answer, uses⟩ := entry
  obtain ⟨answer', uses'⟩ := entry'
  obtain rfl : answer' = answer := hanswer
  have used : ∀ (e : Engine) (key : Key), e.SameAnswers { e with memo := e.memo.use key } := fun e key =>
    ⟨rfl, rfl, Memo.answer?_use e.memo key⟩
  -- A use changes no answer, and the mark of a re-entry is the same after it.
  have marked : ∀ (e : Engine) (key : Key) (answer : Answer), (e.settle key answer).SameAnswers
      { e with memo := (e.memo.use key).settle key answer } := by
    intro e key answer
    refine ⟨rfl, rfl, ?_⟩
    funext other
    show ((e.memo.use key).settle key answer).answer? other = (e.memo.settle key answer).answer? other
    simp only [Memo.answer?_settle, Memo.answer?_use]
  obtain ⟨status, stop, value⟩ := answer'
  cases status with
  | inProgress detected =>
    refine ⟨rfl, hT.same (hT.settle h hK p args ⟨.inProgress true, stop, value⟩) ?_ ?_ rfl⟩
    · exact { marked e ⟨i, p, args⟩ ⟨.inProgress true, stop, value⟩ with }
    · exact { marked e' ⟨j, p, args⟩ ⟨.inProgress true, stop, value⟩ with }
  | matched =>
    exact ⟨rfl, hT.same h { used e ⟨i, p, args⟩ with } { used e' ⟨j, p, args⟩ with } rfl⟩
  | failed =>
    exact ⟨rfl, hT.same h { used e ⟨i, p, args⟩ with } { used e' ⟨j, p, args⟩ with } rfl⟩

/-- Paired rules have called themselves or have not. -/
theorem sawItself {e e' : Engine} (h : T e e') {i j : RuleId} (hK : K i j) (p : Nat) (args : List Value) :
    e'.sawItself ⟨j, p, args⟩ = e.sawItself ⟨i, p, args⟩ := by
  rw [Engine.sawItself_eq, Engine.sawItself_eq, hT.found h hK p args]

section Calls

variable [RegexLibrary]

variable {rs rs' : RuleSet} {n : Nat} {i j : RuleId} (hK : K i j) {args : List Value}
  (hinvoke : CallFollows T C (Engine.invokeRule n rs i args) fun m => Engine.invokeRule m rs' j args)
include hK hinvoke

/-- The growth of a rule follows that of the rule it is paired with. -/
theorem growFrom (p : Nat) : ∀ (fuel best : Nat) (value : Value) (e : Engine) (o : Outcome) (after : Engine),
    e.growFrom (rs.runner n) ⟨i, p, args⟩ fuel best value = .ok (o, after) → C after.history →
      C e.history ∧ ∀ e', T e e' → ∃ after',
        e'.GrowsTo rs' ⟨j, p, args⟩ best value (o, after') ∧ T after after' := by
  intro fuel
  induction fuel with
  | zero => intro best value e o after hrun; cases hrun
  | succ fuel ih =>
    intro best value e o after hrun hC
    have regrowing : ∀ e', T e e' →
        T (e.regrowing ⟨i, p, args⟩ best value) (e'.regrowing ⟨j, p, args⟩ best value) := fun e' h =>
      hT.same h ⟨rfl, rfl, rfl⟩ ⟨rfl, rfl, rfl⟩ rfl
    obtain ⟨round, m, hround, hrest⟩ := Engine.growFrom_succ_eq_ok hrun
    rcases hrest with ⟨stop, longer, rfl, hlonger, hrest⟩ | ⟨hshort, rfl, rfl⟩
    · obtain ⟨hCm, hfollow⟩ := ih stop longer _ o after hrest hC
      obtain ⟨hCe, hfirst⟩ := hinvoke _ _ m hround hCm
      refine ⟨hT.older hCe, fun e' h => ?_⟩
      obtain ⟨m', hm', hmm'⟩ := hfirst _ (regrowing e' h)
      obtain ⟨after', hgrows, haa'⟩ := hfollow _ (hT.settle hmm' hK p args (.matched stop longer))
      exact ⟨after', .further hm' hlonger hgrows, haa'⟩
    · obtain ⟨hCe, hfirst⟩ := hinvoke _ round m hround hC
      refine ⟨hT.older hCe, fun e' h => ?_⟩
      obtain ⟨m', hm', hmm'⟩ := hfirst _ (regrowing e' h)
      refine ⟨_, .last hm' fun stop longer heq => ?_, hT.same hmm' ⟨rfl, rfl, rfl⟩ ⟨rfl, rfl, rfl⟩ rfl⟩
      have hle := hshort stop longer heq
      omega

/-- **A call through the memo table** follows the call of the rule that the rule is paired with. -/
theorem apply : CallFollows T C (Engine.applyRule n rs i args) fun m => Engine.applyRule m rs' j args := by
  intro e o after hrun hC
  have finds : ∀ e', T e e' →
      e'.memo.answer? ⟨j, e'.pos, args⟩ = e.memo.answer? ⟨i, e.pos, args⟩ := by
    intro e' h
    rw [hT.pos h]
    exact hT.found h hK e.pos args
  rcases Engine.apply_ends (rs.runner_retains n) hrun with
    ⟨entry, hfind, heq⟩ | ⟨hfind, first, m, hfirst, hrest⟩
  -- The entry is found on both sides, with the same answer.
  · obtain ⟨event, hhistory, -⟩ := e.reuse_history ⟨i, e.pos, args⟩ entry
    rw [← heq] at hhistory
    refine ⟨hT.older (hhistory ▸ hC : C (_ :: _)), fun e' h => ?_⟩
    obtain ⟨entry', hfind', hanswer⟩ := Memo.answer?_eq_some.1
      ((finds e' h).trans (Memo.answer?_eq_some.2 ⟨entry, hfind, rfl⟩))
    obtain ⟨houtcome, hafter⟩ := hT.reuse h hK e.pos args hanswer
    rw [← heq, ← hT.pos h] at houtcome
    rw [← heq, ← hT.pos h] at hafter
    refine ⟨_, ?_, hafter⟩
    simp only [Engine.applyRule, Engine.apply, hfind']
    exact .const (congrArg Except.ok (Prod.ext houtcome rfl))
  -- There is no entry on either side: both are tried, and marked alike.
  · have hCm : C m.history := by
      rcases hrest with ⟨stop, value, rfl, -, hgrown⟩ | ⟨stop, value, -, -, -, rfl⟩ | ⟨-, -, rfl⟩
      · exact (hT.growFrom hK hinvoke e.pos n stop value _ o after hgrown hC).1
      · exact hC
      · exact hC
    obtain ⟨hCe, hfollow⟩ := hinvoke _ first m hfirst hCm
    refine ⟨hT.older hCe, fun e' h => ?_⟩
    have hfind' : e'.memo.find? ⟨j, e'.pos, args⟩ = none :=
      Memo.answer?_eq_none.1 ((finds e' h).trans (Memo.answer?_eq_none.2 hfind))
    obtain ⟨m', hm', hmm'⟩ := hfollow _ (hT.opening h hK e.pos args)
    have hsaw : m'.sawItself ⟨j, e'.pos, args⟩ = m.sawItself ⟨i, e.pos, args⟩ := by
      rw [hT.pos h]
      exact hT.sawItself hmm' hK e.pos args
    have hsettled : ∀ answer,
        T (m.settle ⟨i, e.pos, args⟩ answer) (m'.settle ⟨j, e'.pos, args⟩ answer) := by
      intro answer
      rw [hT.pos h]
      exact hT.settle hmm' hK e.pos args answer
    rw [← hT.pos h] at hm'
    rcases hrest with ⟨stop, value, rfl, hitself, hgrown⟩ | ⟨stop, value, rfl, hnot, rfl, rfl⟩ |
      ⟨rfl, rfl, rfl⟩
    · obtain ⟨-, hgrows⟩ := hT.growFrom hK hinvoke e.pos n stop value _ o after hgrown hC
      obtain ⟨after', hends, haa'⟩ := hgrows _ (hsettled (.matched stop value))
      rw [← hT.pos h] at hends
      exact ⟨after', .apply_grown hfind' hm' (hsaw.trans hitself) hends, haa'⟩
    · exact ⟨_, .apply_first hfind' hm' fun _ => hsaw.trans hnot, hsettled (.matched stop value)⟩
    · refine ⟨_, .apply_first hfind' hm' fun hmatched => (by cases hmatched), ?_⟩
      show T _ (m'.settle ⟨j, e'.pos, args⟩ (.parked .failed e'.pos))
      rw [hT.pos h]
      exact hT.settle hmm' hK e.pos args (.parked .failed e.pos)

end Calls

end TableLockstep

/-- Engines on a text, of these depths, whose memo tables say the same of the rules below `count` of the
    first grammar and of those that many places later in the second one.  The second table is
    otherwise as `R` has it. -/
structure Engine.Paired (t : Text) (depth depth' count offset : Nat) (R : Memo → Prop) (e e' : Engine) :
    Prop where
  text : e.text = t
  text' : e'.text = t
  pos : e'.pos = e.pos
  depth : e.depth = depth
  depth' : e'.depth = depth'
  found : ∀ i p args, i < count →
    e'.memo.answer? ⟨offset + i, p, args⟩ = e.memo.answer? ⟨i, p, args⟩
  others : R e'.memo

/-- The rule below `count` is paired with the one that many places later. -/
def Shifted (count offset : Nat) (i j : RuleId) : Prop := i < count ∧ j = offset + i

/-- The condition does not look at rules that are paired with one. -/
def Memo.Apart (count offset : Nat) (R : Memo → Prop) : Prop :=
  ∀ memo memo' : Memo,
    (∀ key, (∀ i, i < count → key.rule ≠ offset + i) → memo'.answer? key = memo.answer? key) →
      R memo → R memo'

namespace Engine.Paired

variable {t : Text} {depth depth' count offset : Nat} {R : Memo → Prop} {e e' : Engine}

/-- A change of what is known of two paired rules, in the same way. -/
theorem change (h : e.Paired t depth depth' count offset R e') (hR : Memo.Apart count offset R)
    {i : RuleId} (hi : i < count) (p : Nat) (args : List Value) {f f' : Engine} (htext : f.text = e.text)
    (htext' : f'.text = e'.text) (hpos : f'.pos = f.pos) (hdepth : f.depth = e.depth)
    (hdepth' : f'.depth = e'.depth) (change : Option Answer → Option Answer)
    (hf : ∀ key, f.memo.answer? key =
      if ⟨i, p, args⟩ = key then change (e.memo.answer? key) else e.memo.answer? key)
    (hf' : ∀ key, f'.memo.answer? key =
      if ⟨offset + i, p, args⟩ = key then change (e'.memo.answer? key) else e'.memo.answer? key) :
    f.Paired t depth depth' count offset R f' where
  text := htext.trans h.text
  text' := htext'.trans h.text'
  pos := hpos
  depth := hdepth.trans h.depth
  depth' := hdepth'.trans h.depth'
  found i' p' args' hi' := by
    rw [hf, hf', h.found i' p' args' hi']
    simp only [Key.mk.injEq, Nat.add_left_cancel_iff]
  others := by
    refine hR e'.memo f'.memo (fun key hkey => ?_) h.others
    rw [hf', if_neg]
    rintro rfl
    exact hkey i hi rfl

/-- Tables that are apart by an offset are in lockstep for rules that are. -/
theorem lockstep (hR : Memo.Apart count offset R) {C : History → Prop} (hC : ∀ {m h}, C (m :: h) → C h) :
    TableLockstep (Engine.Paired t depth depth' count offset R) C (Shifted count offset) where
  text h := h.text'.trans h.text.symm
  pos h := h.pos
  same {e e' f f'} h hf hf' hpos :=
    { text := hf.text.trans h.text
      text' := hf'.text.trans h.text'
      pos := hpos
      depth := hf.depth.trans h.depth
      depth' := hf'.depth.trans h.depth'
      found := fun i p args hi => by rw [hf.answers, hf'.answers, h.found i p args hi]
      others := hR e'.memo f'.memo (fun key _ => congrFun hf'.answers key) h.others }
  found {e e' i j} h hij p args := by
    obtain ⟨hi, rfl⟩ := hij
    exact h.found i p args hi
  opening {e e' i j} h hij p args := by
    obtain ⟨hi, rfl⟩ := hij
    refine h.change hR hi p args rfl rfl h.pos rfl rfl (fun _ => some (.parked (.inProgress false) p)) ?_ ?_
    · exact Memo.answer?_start e.memo _
    · exact Memo.answer?_start e'.memo _
  settle {e e' i j} h hij p args answer := by
    obtain ⟨hi, rfl⟩ := hij
    refine h.change hR hi p args rfl rfl h.pos rfl rfl (Option.map fun _ => answer) ?_ ?_
    · exact fun key => Memo.answer?_settle e.memo _ key answer
    · exact fun key => Memo.answer?_settle e'.memo _ key answer
  older := hC

end Engine.Paired

/-! ## Pairs of rules -/

namespace Grammar

variable [RegexLibrary]

/-- The operators are calls of paired rules, both through the memo table or both past it. -/
inductive CallPairs (g g' : Grammar) (K : RuleId → RuleId → Prop) : Operator → Operator → Prop
  | call {name name' : String} {args : List Arg} {i j : RuleId} (hl : g.lookup name = some i)
      (hl' : g'.lookup name' = some j) (hK : K i j) :
      CallPairs g g' K (.call name args) (.call name' args)
  | direct {name name' : String} {args : List Arg} {i j : RuleId} (hl : g.lookup name = some i)
      (hl' : g'.lookup name' = some j) (hK : K i j) :
      CallPairs g g' K (.direct name args) (.direct name' args)

/-- Calls that are paired can be paired from either side. -/
theorem CallPairs.flip {g g' : Grammar} {K : RuleId → RuleId → Prop} {x y : Operator}
    (h : g.CallPairs g' K x y) : g'.CallPairs g (fun i j => K j i) y x := by
  cases h with
  | call hl hl' hK => exact .call hl' hl hK
  | direct hl hl' hK => exact .direct hl' hl hK

/-- Bodies of paired rules are translations of one operator of a kind, with the same parameters. -/
structure Pairs (g g' : Grammar) (φ ψ : Operator → Operator) (K : RuleId → RuleId → Prop)
    (B : Operator → Prop) : Prop where
  left : Operator.ChangesCalls φ
  right : Operator.ChangesCalls ψ
  below : ∀ op, B op → ∀ c ∈ op.children, B c
  bodies : ∀ i j, K i j → ∃ r r' op, g.rules[i]? = some r ∧ g'.rules[j]? = some r' ∧
    r'.params = r.params ∧ r.body = φ op ∧ r'.body = ψ op ∧ B op

namespace Pairs

variable {g g' : Grammar} {φ ψ : Operator → Operator} {K : RuleId → RuleId → Prop} {B : Operator → Prop}
  {T : Engine → Engine → Prop} {C : History → Prop}

/-- So can grammars. -/
theorem flip (h : g.Pairs g' φ ψ K B) : g'.Pairs g ψ φ (fun i j => K j i) B where
  left := h.right
  right := h.left
  below := h.below
  bodies i j hK := by
    obtain ⟨r, r', op, hr, hr', hparams, hbody, hbody', hop⟩ := h.bodies j i hK
    exact ⟨r', r, op, hr', hr, hparams.symm, hbody', hbody, hop⟩

/-- Past the memo table, paired rules run alike. -/
theorem invoke_follows (h : g.Pairs g' φ ψ K B) (hT : TableLockstep T C K) {n : Nat}
    (ih : ∀ k, k < n → ∀ op, B op → Follows (Framed T true) C (g.eval k (φ op)) fun m => g'.eval m (ψ op))
    {i j : RuleId} (hK : K i j) (args : List Value) :
    CallFollows T C (Engine.invokeRule n (.grammar g) i args)
      fun m => Engine.invokeRule m (.grammar g') j args := by
  obtain ⟨r, r', op, hr, hr', hparams, hbody, hbody', hop⟩ := h.bodies i j hK
  refine EngineLockstep.invoke_of hT.older (fun _ => rfl)
    (fun e e' he => hT.same he ⟨rfl, rfl, rfl⟩ ⟨rfl, rfl, rfl⟩ (hT.pos he :)) (fun e e' b b' o he hb => ?_)
    (EngineLockstep.body ?_ ?_ args)
  · cases o with
    | matched stop value => exact hT.same hb ⟨rfl, rfl, rfl⟩ ⟨rfl, rfl, rfl⟩ rfl
    | failed => exact hT.same hb ⟨rfl, rfl, rfl⟩ ⟨rfl, rfl, rfl⟩ (hT.pos he :)
  · intro hnone
    rw [hr] at hnone
    cases hnone
  · intro s hs
    obtain rfl : r = s := Option.some.inj (hr.symm.trans hs)
    refine ⟨r', hr', hparams, fun k hk => ?_⟩
    rw [hbody, hbody']
    exact ih k hk op hop

/-- **Paired bodies follow each other**, where calls that are not calls of paired rules do. -/
theorem follows (h : g.Pairs g' φ ψ K B) (hT : TableLockstep T C K)
    (calls : ∀ op, B op → op.isCall → g.CallPairs g' K (φ op) (ψ op) ∨
      ∀ n, Follows (Framed T true) C (g.eval (n + 1) (φ op)) fun m => g'.eval (m + 1) (ψ op)) :
    ∀ (n : Nat) (op : Operator), B op →
      Follows (Framed T true) C (g.eval n (φ op)) fun m => g'.eval m (ψ op) := by
  intro n
  induction n using Nat.strongRecOn with
  | ind n ih =>
    intro op hop
    cases n with
    | zero => exact .starved
    | succ n =>
      have hinvoke : ∀ {i j : RuleId}, K i j → ∀ values,
          CallFollows T C (Engine.invokeRule n (.grammar g) i values)
            fun m => Engine.invokeRule m (.grammar g') j values := fun hK values =>
        h.invoke_follows hT (fun k hk => ih k (by omega)) hK values
      refine .of_succ (hT.frames.eval h.left h.right op
        (fun c hc => ih n (by omega) c (h.below op hop c hc)) (fun _ _ _ f f' hf => hf.2 rfl)
        fun hcall => ?_)
      rcases calls op hop hcall with hpair | hfollows
      · -- Both operators are calls by name, of rules that are there and are paired.
        generalize φ op = x at hpair
        generalize ψ op = y at hpair
        cases hpair with
        | @call name name' args i j hl hl' hK =>
          simp only [eval_call, named, hl, hl']
          exact EngineLockstep.call (Framed.resolve_eq args) fun values => hT.apply hK (hinvoke hK values)
        | @direct name name' args i j hl hl' hK =>
          simp only [eval_direct, named, hl, hl']
          exact EngineLockstep.call (Framed.resolve_eq args) (hinvoke hK)
      · exact hfollows n

/-- **Paired rules follow each other** through the memo table. -/
theorem apply_follows (h : g.Pairs g' φ ψ K B) (hT : TableLockstep T C K)
    (calls : ∀ op, B op → op.isCall → g.CallPairs g' K (φ op) (ψ op) ∨
      ∀ n, Follows (Framed T true) C (g.eval (n + 1) (φ op)) fun m => g'.eval (m + 1) (ψ op))
    {i j : RuleId} (hK : K i j) (n : Nat) (args : List Value) :
    CallFollows T C (Engine.applyRule n (.grammar g) i args)
      fun m => Engine.applyRule m (.grammar g') j args :=
  hT.apply hK (h.invoke_follows hT (fun k _ => h.follows hT calls k) hK args)

/-- Where all calls are calls of paired rules, a rule ends as the one does that it is paired with. -/
theorem ends (h : g.Pairs g' φ ψ K B) (hT : TableLockstep T (fun _ => True) K)
    (calls : ∀ op, B op → op.isCall → g.CallPairs g' K (φ op) (ψ op)) {i j : RuleId} (hK : K i j)
    {e e' after : Engine} (hstart : T e e') {n : Nat} {args : List Value} {o : Outcome}
    (hrun : e.applyRule n (.grammar g) i args = .ok (o, after)) :
    ∃ after', Ends (fun m => e'.applyRule m (.grammar g') j args) (o, after') ∧ T after after' := by
  have hfollow := h.apply_follows hT (fun op hop hcall => .inl (calls op hop hcall)) hK n args
  exact (hfollow e o after hrun trivial).2 e' hstart

end Pairs

end Grammar

end MemoPeg
