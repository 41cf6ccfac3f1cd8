import MemoPeg.Proofs.Agreement
import MemoPeg.Proofs.LeftRecursion
import MemoPeg.Regex.Reader

/-
  Left recursion through another rule does not grow.

  Left recursion is found at run time: a rule that is called while it is being tried is marked, and grown when
  it has matched.  Of two rules that call each other on the left, only the one that was asked for first is
  marked.  The other has failed by then, and its failure has been recorded like any other.

  1. **Program** — `a := b A / B` and `b := a`, against `a := a A / B`.
  2. **The crux (`IndirectRecursive.inner_call`)** — while `a` is tried for the first time, `b` calls it,
     fails, and this failure of `b` is recorded.  It stays: every later round of `a` finds it, and
     matches `B` again.
  3. **Specification (`indirect_recursion_keeps_seed`)** — both ways of writing `a` fail where `B` fails.
     Elsewhere the direct one ends where the chain from the match of `B` does, and the indirect one
     where `B` does, so the two ends are the same just where `A` does not get further.

  The two grammars differ in `a` and in whether there is a `b`; the rules that `A` and `B` are made of are
  common to both.  They are said to be out of reach of `a` and `b`, since otherwise `B` itself might mean
  something else in each of the grammars.
-/

namespace MemoPeg

section

variable [RegexLibrary]

/-! ## Through another rule -/

/-- The rule `a` of a grammar is left recursive through the rule `b`; what `B` calls is in `S`, where
    neither is. -/
structure IndirectRecursive (g : Grammar) (nameA nameB : String) (a b : RuleId) (A B : Operator)
    (S : RuleId → Prop) : Prop where
  lookupA : g.lookup nameA = some a
  lookupB : g.lookup nameB = some b
  ruleA : g.declared[a]? = some ⟨nameA, [], .choice [.sequence [.call nameB [], A], B]⟩
  ruleB : g.declared[b]? = some ⟨nameB, [], .call nameA []⟩
  closed : g.ClosedUnderCalls S
  withinB : B.Within g S true
  outsideA : ¬S a
  outsideB : ¬S b

namespace IndirectRecursive

variable {g : Grammar} {t : Text} {nameA nameB : String} {a b : RuleId} {A B : Operator}
  {S : RuleId → Prop} {p : Nat} {e : Engine}

/-- Both rules have entries of their own. -/
theorem key_ne (h : IndirectRecursive g nameA nameB a b A B S) : (⟨a, p, []⟩ : Key) ≠ ⟨b, p, []⟩ := by
  intro heq
  have hab : a = b := congrArg Key.rule heq
  have hrule := h.ruleA
  rw [hab, h.ruleB] at hrule
  cases hrule

/-- While `a` is being tried for the first time, the call of `b` fails, and this is recorded. -/
theorem inner_call (h : IndirectRecursive g nameA nameB a b A B S) (he : e.Ready g t S)
    (hp : e.pos = p) {detected : Bool} (hholds : e.Holds ⟨a, p, []⟩ (.parked (.inProgress detected) p))
    (hfind : e.memo.find? ⟨b, p, []⟩ = none) :
    ∃ e', Ends (fun n => g.eval n (.call nameB []) ⟨e, []⟩) (.failed, ⟨e', []⟩) ∧ e'.Ready g t S ∧
      e'.Holds ⟨a, p, []⟩ (.parked (.inProgress true) p) ∧ e'.Holds ⟨b, p, []⟩ (.parked .failed p) := by
  subst hp
  have hopen : (e.opening ⟨b, e.pos, []⟩).Ready g t S := he.opening h.outsideB
  have hattempt : ((e.opening ⟨b, e.pos, []⟩).attempting ((RuleSet.grammar g).runner 0) b).Ready g t
      S := hopen.note _
  have hholds₁ : ((e.opening ⟨b, e.pos, []⟩).attempting ((RuleSet.grammar g).runner 0) b).Holds
      ⟨a, e.pos, []⟩ (.parked (.inProgress detected) e.pos) := by
    refine hholds.of_find? ?_
    show (e.memo.start ⟨b, e.pos, []⟩).find? _ = _
    rw [Memo.find?_start, if_neg h.key_ne.symm]
  -- The body of `b` finds `a` in progress.
  obtain ⟨e₁, hcall, he₁, hseen, -, hother⟩ := hattempt.call_known h.lookupA h.outsideA hholds₁ []
  obtain ⟨e₂, hinvoked, he₂, hmemo⟩ := hopen.invoked (Grammar.rule_of_declared h.ruleB) [] hcall he₁
  have hb : e₂.Holds ⟨b, e.pos, []⟩ (.parked (.inProgress false) e.pos) :=
    ((Engine.Holds.opening e ⟨b, e.pos, []⟩).of_find? (hother _ h.key_ne.symm)).of_memo hmemo
  have happly := Ends.apply_first hfind hinvoked fun hm => by cases hm
  refine ⟨_, .eval_call h.lookupB happly [], ?_, ?_, hb.settle _⟩
  · exact he₂.settle h.outsideB ⟨rfl, rfl⟩
  · exact (hseen.of_memo hmemo).settle_other h.key_ne.symm _

/-- Where the call of `b` fails, `a` matches what `B` matches. -/
theorem invoke_of_failed (h : IndirectRecursive g nameA nameB a b A B S) (he : e.Ready g t S)
    (hp : e.pos = p) {oB : Outcome} (hB : g.Settles t B p [] oB) {e₁ : Engine}
    (he₁ : e₁.Ready g t S)
    (hcall : Ends (fun n => g.eval n (.call nameB [])
      ⟨e.attempting ((RuleSet.grammar g).runner 0) a, []⟩) (.failed, ⟨e₁, []⟩)) :
    ∃ e', Ends (fun n => e.invokeRule n (.grammar g) a []) (oB, e') ∧ e'.Ready g t S ∧
      e₁.SameBut S e' := by
  have hattempt : (e.attempting ((RuleSet.grammar g).runner 0) a).Ready g t S := he.note _
  have hfirst := Ends.of_succ (x := fun n => g.eval n (.sequence [.call nameB [], A])
    ⟨e.attempting ((RuleSet.grammar g).runner 0) a, []⟩) (.sequence_failed hcall)
  obtain ⟨m, hends, hm, hsame⟩ :=
    hattempt.falls_through h.closed h.withinB hp hB (m := ⟨e₁, []⟩) he₁ hfirst
  obtain ⟨e', hinvoked, he', hmemo⟩ := he.invoked (Grammar.rule_of_declared h.ruleA) [] hends hm
  refine ⟨e', hinvoked, he', fun key hkey => ?_⟩
  rw [hmemo]
  exact hsame key hkey

/-- **Applied to a fresh engine,** `a` matches what `B` matches.  The memo table then holds that answer. -/
theorem apply (h : IndirectRecursive g nameA nameB a b A B S) (hp : t.IsBoundary p) {oB : Outcome}
    (hB : g.Settles t B p [] oB) :
    ∃ after, Ends (fun n => (Engine.startingAt t p).applyRule n (.grammar g) a []) (oB, after) ∧
      after.Holds ⟨a, p, []⟩ (oB.answer p) := by
  have hopen : ((Engine.startingAt t p).opening ⟨a, p, []⟩).Ready g t S :=
    (Engine.Ready.startingAt hp).opening h.outsideA
  have hattempt : (((Engine.startingAt t p).opening ⟨a, p, []⟩).attempting
      ((RuleSet.grammar g).runner 0) a).Ready g t S := hopen.note _
  have hunknown : ((Engine.startingAt t p).memo.start ⟨a, p, []⟩).find? ⟨b, p, []⟩ = none := by
    rw [Memo.find?_start, if_neg h.key_ne]
    rfl
  obtain ⟨e₁, hcall, he₁, hseen, hfailed⟩ :=
    h.inner_call (p := p) hattempt rfl (Engine.Holds.opening _ _) hunknown
  obtain ⟨e₂, hfirst, he₂, hsame⟩ := h.invoke_of_failed hopen rfl hB he₁ hcall
  have hseen₂ := hsame.holds h.outsideA hseen
  cases oB with
  | failed => exact ⟨_, .apply_first rfl hfirst fun hm => (by cases hm), hseen₂.settle _⟩
  | matched e₀ v₀ =>
    have hsaw : e₂.sawItself ⟨a, p, []⟩ = true := by
      rw [hseen₂.sawItself]
      exact decide_eq_true rfl
    obtain ⟨hle, hboundary⟩ := hB.matched_le hp
    have hsettled : (e₂.settle ⟨a, p, []⟩ (.matched e₀ v₀)).Ready g t S :=
      he₂.settle h.outsideA ⟨hle, hboundary⟩
    -- The second round finds the failure of `b`, and is the last.
    have hre : ((e₂.settle ⟨a, p, []⟩ (.matched e₀ v₀)).regrowing ⟨a, p, []⟩ e₀ v₀).Ready g t S :=
      ((hsettled.move hp).result v₀).note _
    have hfailed₂ : (((e₂.settle ⟨a, p, []⟩ (.matched e₀ v₀)).regrowing ⟨a, p, []⟩ e₀ v₀).attempting
        ((RuleSet.grammar g).runner 0) a).Holds ⟨b, p, []⟩ (.parked .failed p) :=
      (hsame.holds h.outsideB hfailed).settle_other h.key_ne _
    have hre' : (((e₂.settle ⟨a, p, []⟩ (.matched e₀ v₀)).regrowing ⟨a, p, []⟩ e₀ v₀).attempting
        ((RuleSet.grammar g).runner 0) a).Ready g t S := hre.note _
    obtain ⟨e₃, hcall₃, he₃, -, -, hother⟩ := hre'.call_known h.lookupB h.outsideB hfailed₂ []
    obtain ⟨e₄, hround, -, hsame₄⟩ := h.invoke_of_failed hre rfl hB he₃ hcall₃
    have hanswer : e₄.Holds ⟨a, p, []⟩ (.matched e₀ v₀) :=
      hsame₄.holds h.outsideA ((hseen₂.settle _).of_find? (hother _ h.key_ne))
    have hshort : ∀ stop longer, Outcome.matched e₀ v₀ = .matched stop longer → ¬e₀ < stop := by
      intro stop longer heq
      cases heq
      exact Nat.lt_irrefl e₀
    exact ⟨{ e₄ with pos := e₀, result := v₀ },
      .apply_grown rfl hfirst hsaw (.last hround hshort), hanswer⟩

end IndirectRecursive

/-! ## The same chains -/

namespace Grammar.Agrees

variable {g g' : Grammar} {N : String → Prop} (h : g.Agrees g' N) {t : Text}
  {scope : Value → Scope} {As : List Operator}
  (hAs : ∀ name ∈ (Operator.sequence As).callees, N name)
include h hAs

/-- A step of a chain in the one grammar is a step in the other. -/
theorem grows {m m' : Nat × Value} (hgrows : g.Grows t scope As m m') :
    g'.Grows t scope As m m' := ⟨h.settles hAs hgrows.1, hgrows.lt⟩

/-- A chain in the one grammar is a chain in the other. -/
theorem chain {m m' : Nat × Value} (hchain : g.Chain t scope As m m') :
    g'.Chain t scope As m m' := by
  induction hchain with
  | refl m => exact .refl m
  | step hgrows _ ih => exact .step (h.grows hAs hgrows) ih

/-- A chain ends in both grammars alike. -/
theorem chainEnds {first last : Nat × Value} (hends : g.ChainEnds t scope As first last) :
    g'.ChainEnds t scope As first last :=
  ⟨h.chain hAs hends.1, fun m hgrows => hends.2 m (h.symm.grows hAs hgrows)⟩

/-- The row ends along the chain in both grammars. -/
theorem chainSettles {first : Nat × Value} (hsettles : g.ChainSettles t scope As first) :
    g'.ChainSettles t scope As first := by
  intro m hchain
  obtain ⟨o, ho⟩ := hsettles m (h.symm.chain hAs hchain)
  exact ⟨o, h.settles hAs ho⟩

end Grammar.Agrees

/-! ## Through another rule and directly -/

/-- **Left recursion through another rule keeps its seed.**  Let the rule `a` be `b A / B` with `b := a` in
    one grammar and `a A / B` in another one, the other rules and the links the same, where `A` and
    `B` reach neither `a` nor `b`, and let `B` and `A` settle where the chain meets them.  Applied to a
    fresh engine at a boundary, both rules fail if and only if `B` fails there.  Otherwise the first
    matches what `B` matches, and the second the end of the chain from there; the two end at the
    same place if and only if `A` does not get further from the match of `B`. -/
theorem indirect_recursion_keeps_seed {g g' : Grammar} {nameA nameB : String} {a b a' : RuleId}
    {A B : Operator} {t : Text} {p : Nat} {oB : Outcome}
    (hlookupA : g.lookup nameA = some a) (hlookupB : g.lookup nameB = some b)
    (hruleA : g.declared[a]? = some ⟨nameA, [], .choice [.sequence [.call nameB [], A], B]⟩)
    (hruleB : g.declared[b]? = some ⟨nameB, [], .call nameA []⟩)
    (hlookupA' : g'.lookup nameA = some a')
    (hruleA' : g'.declared[a']? = some ⟨nameA, [], .choice [.sequence [.call nameA [], A], B]⟩)
    (hothers : ∀ name, name ≠ nameA → name ≠ nameB → g'.declared? name = g.declared? name)
    (hlinks : g'.links = g.links)
    (hreachA : ¬g.Reaches A a ∧ ¬g.Reaches A b) (hreachB : ¬g.Reaches B a ∧ ¬g.Reaches B b)
    (hp : t.IsBoundary p) (hB : g.Settles t B p [] oB)
    (hA : ∀ e₀ v₀, oB = .matched e₀ v₀ → g.ChainSettles t (fun _ => []) [A] (e₀, v₀)) :
    ∃ fuel after fuel' outcome after',
      (Engine.startingAt t p).applyRule fuel (.grammar g) a [] = .ok (oB, after) ∧
      (Engine.startingAt t p).applyRule fuel' (.grammar g') a' [] = .ok (outcome, after') ∧
      (outcome = .failed ↔ oB = .failed) ∧
      (∀ e₀ v₀, oB = .matched e₀ v₀ → ∃ last,
        g.ChainEnds t (fun _ => []) [A] (e₀, v₀) last ∧ outcome = .matched last.1 last.2) ∧
      (oB.stop? = outcome.stop? ↔ ∀ e₀ v₀, oB = .matched e₀ v₀ →
        ∀ m, ¬g.Grows t (fun _ => []) [A] (e₀, v₀) m) := by
  -- What `A` and `B` reach is the same in both grammars, and is neither of the two rules.
  let N : String → Prop := g.ReachesName (.sequence [B, A])
  have houtsideA : ¬g.Reaches (.sequence [B, A]) a := Grammar.not_reaches_sequence
    (List.forall_mem_cons.2 ⟨hreachB.1, List.forall_mem_singleton.2 hreachA.1⟩)
  have houtsideB : ¬g.Reaches (.sequence [B, A]) b := Grammar.not_reaches_sequence
    (List.forall_mem_cons.2 ⟨hreachB.2, List.forall_mem_singleton.2 hreachA.2⟩)
  have hneA : ¬N nameA := fun hname => houtsideA (hname a hlookupA)
  have hneB : ¬N nameB := fun hname => houtsideB (hname b hlookupB)
  have hagrees : g.Agrees g' N := .of_reaches hlinks fun name hname =>
    hothers name (fun heq => hneA (heq ▸ hname)) fun heq => hneB (heq ▸ hname)
  have hNB : ∀ name ∈ B.callees, N name := fun _ => Grammar.reachesName_of_mem List.mem_cons_self
  have hNA : ∀ name ∈ (Operator.sequence [A]).callees, N name := by
    intro name hname
    obtain ⟨op, hop, hname'⟩ := Operator.mem_callees_sequence hname
    exact Grammar.reachesName_of_mem (List.mem_cons_of_mem B hop) hname'
  have hindirect : IndirectRecursive g nameA nameB a b A B (g.Named N) :=
    { lookupA := hlookupA
      lookupB := hlookupB
      ruleA := hruleA
      ruleB := hruleB
      closed := hagrees.closedUnderCalls
      withinB := .named hNB
      outsideA := fun ⟨name, hname, hl⟩ => hneA (Grammar.lookup_inj hl hlookupA ▸ hname)
      outsideB := fun ⟨name, hname, hl⟩ => hneB (Grammar.lookup_inj hl hlookupB ▸ hname) }
  have hdirect : LeftRecursive g' nameA a' (.call nameA []) (fun _ => []) [A] B (g'.Named N) :=
    { lookup := hlookupA'
      rule := hruleA'
      seed := .plain
      nonempty := by simp
      closed := hagrees.symm.closedUnderCalls
      withinAs := .named hNA
      withinB := .named hNB
      outside := fun ⟨name, hname, hl⟩ => hneA (Grammar.lookup_inj hl hlookupA' ▸ hname) }
  obtain ⟨after, ⟨fuel, hfuel⟩, -⟩ := hindirect.apply hp hB
  obtain ⟨outcome, after', ⟨fuel', hfuel'⟩, -, hfail, hmatch⟩ :=
    hdirect.apply hp (hagrees.settles hNB hB) fun e₀ v₀ heq => hagrees.chainSettles hNA (hA e₀ v₀ heq)
  refine ⟨fuel, after, fuel', outcome, after', hfuel fuel (Nat.le_refl fuel),
    hfuel' fuel' (Nat.le_refl fuel'), ?_⟩
  cases oB with
  | failed =>
    obtain rfl := hfail rfl
    exact ⟨Iff.rfl, fun _ _ heq => (by cases heq), fun _ _ _ heq => (by cases heq), fun _ => rfl⟩
  | matched e₀ v₀ =>
    obtain ⟨last, hchain', rfl⟩ := hmatch e₀ v₀ rfl
    have hchain := hagrees.symm.chainEnds hNA hchain'
    refine ⟨⟨fun heq => (by cases heq), fun heq => (by cases heq)⟩, fun e v heq => ?_, ?_⟩
    · cases heq
      exact ⟨last, hchain, rfl⟩
    · constructor
      · intro hstop e v heq
        cases heq
        exact hchain.stop_eq_iff.1 (Option.some.inj hstop)
      · intro hnone
        exact congrArg some (hchain.stop_eq_iff.2 (hnone e₀ v₀ rfl))

end

/-- Rows of signs, grown through another rule. -/
def signsVia : Grammar :=
  .ofRules "signs"
    [⟨"signs", [], .choice [.sequence [.call "more" [], .literal "+"], .literal "x"]⟩,
      ⟨"more", [], .call "signs" []⟩]
    0 [] [["signs", "more"]]

/-- Rows of signs, grown directly. -/
def signsDirect : Grammar :=
  .ofRules "signs" [⟨"signs", [], .choice [.sequence [.call "signs" [], .literal "+"], .literal "x"]⟩] 0 []
    [["signs"]]

/-- A literal reaches no rule. -/
theorem signsVia_reaches_literal (s : String) (rule : RuleId) :
    ¬signsVia.Reaches (.literal s) rule := by
  intro h
  have hclosed : signsVia.ClosedUnderCalls fun _ => False := fun _ _ _ _ hfalse => hfalse.elim
  exact h.mem_of_closed hclosed fun name hname => by cases hname

/-- On `x+` the direct rule grows by one sign, and the indirect one does not. -/
theorem indirect_recursion_keeps_seed_signs :
    ∃ fuel after fuel' after',
      (Engine.startingAt "x+".toList 0).applyRule fuel (.grammar signsVia) 0 [] =
        .ok (.matched 1 (.str "x"), after) ∧
      (Engine.startingAt "x+".toList 0).applyRule fuel' (.grammar signsDirect) 0 [] =
        .ok (.matched 2 (.str "+"), after') := by
  have hB : signsVia.Settles "x+".toList (.literal "x") 0 [] (.matched 1 (.str "x")) :=
    .of_run (n := 9) (by decide +kernel)
  have hgrows : signsVia.Grows "x+".toList (fun _ => []) [.literal "+"] (1, .str "x")
      (2, .str "+") := ⟨.of_run (n := 9) (by decide +kernel), by decide⟩
  have hlast : signsVia.Settles "x+".toList (.sequence [.literal "+"]) 2 [] .failed :=
    .of_run (n := 9) (by decide +kernel)
  have hsigns : signsVia.lookup "signs" = some 0 := by decide +kernel
  have hmore : signsVia.lookup "more" = some 1 := by decide +kernel
  have hsigns' : signsDirect.lookup "signs" = some 0 := by decide +kernel
  have hothers : ∀ name, name ≠ "signs" → name ≠ "more" →
      signsDirect.declared? name = signsVia.declared? name := by
    intro name hsigns hmore
    have hnone : signsVia.lookup name = none ∧ signsDirect.lookup name = none := by
      simp [Grammar.lookup_eq, Grammar.ofRules, numberRules, signsVia, signsDirect, Ne.symm hsigns,
        Ne.symm hmore]
    rw [Grammar.declared?_eq_none.2 hnone.1, Grammar.declared?_eq_none.2 hnone.2]
  obtain ⟨fuel, after, fuel', outcome, after', hvia, hdirect, -, hmatch, -⟩ :=
    indirect_recursion_keeps_seed hsigns hmore rfl rfl hsigns' rfl hothers rfl
      ⟨signsVia_reaches_literal _ _, signsVia_reaches_literal _ _⟩
      ⟨signsVia_reaches_literal _ _, signsVia_reaches_literal _ _⟩
      (show (Text.suffixAt "x+".toList 0).isSome = true from rfl) hB
      (by
        intro e₀ v₀ heq
        cases heq
        exact .of_grows hgrows (.of_failed hlast))
  obtain ⟨last, hends, rfl⟩ := hmatch 1 (.str "x") rfl
  obtain rfl : last = (2, .str "+") := hends.unique (.of_grows hgrows (.of_failed hlast))
  exact ⟨fuel, after, fuel', after', hvia, hdirect⟩

/-- On `x++` the direct rule ends at 3 and the indirect one at 1, with any fuel that suffices; neither
    sign reaches a rule. -/
theorem indirect_recursion_ends_earlier :
    (∀ rule, ¬signsVia.Reaches (.literal "+") rule ∧ ¬signsVia.Reaches (.literal "x") rule) ∧
    (∃ fuel outcome after, (Engine.startingAt "x++".toList 0).applyRule fuel (.grammar signsVia) 0
      [] = .ok (outcome, after)) ∧
    (∃ fuel outcome after, (Engine.startingAt "x++".toList 0).applyRule fuel
      (.grammar signsDirect) 0 [] = .ok (outcome, after)) ∧
    ∀ fuel outcome after fuel' outcome' after',
      (Engine.startingAt "x++".toList 0).applyRule fuel (.grammar signsVia) 0 [] =
        .ok (outcome, after) →
      (Engine.startingAt "x++".toList 0).applyRule fuel' (.grammar signsDirect) 0 [] =
        .ok (outcome', after') →
      outcome.stop? = some 1 ∧ outcome'.stop? = some 3 := by
  obtain ⟨e, he⟩ := ends_with_outcome (x := (Engine.startingAt "x++".toList 0).applyRule 20
    (.grammar signsVia) 0 []) (o := .matched 1 (.str "x")) (by decide +kernel)
  obtain ⟨e', he'⟩ := ends_with_outcome (x := (Engine.startingAt "x++".toList 0).applyRule 20
    (.grammar signsDirect) 0 []) (o := .matched 3 (.str "+")) (by decide +kernel)
  refine ⟨fun rule => ⟨signsVia_reaches_literal _ rule, signsVia_reaches_literal _ rule⟩,
    ⟨20, _, e, he⟩, ⟨20, _, e', he'⟩, ?_⟩
  intro fuel outcome after fuel' outcome' after' hvia hdirect
  have hsame : (outcome, after) = (.matched 1 (.str "x"), e) := Engine.applyRule_unique hvia he
  have hsame' : (outcome', after') = (.matched 3 (.str "+"), e') :=
    Engine.applyRule_unique hdirect he'
  cases hsame
  cases hsame'
  exact ⟨rfl, rfl⟩

end MemoPeg
