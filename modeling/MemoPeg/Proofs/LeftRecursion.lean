import MemoPeg.Proofs.Growth
import MemoPeg.Regex.Reader

/-
  Direct left recursion is iteration from the left.

  `E := E "+" T / T` is how a sum is meant: what is to the left of the last sign is a sum again.  A parser that
  just ran the rule would never come to the sign.  Run with seeds, the rule does what a loop would do.

  1. **Program** — `E := E:l A₁ … Aₙ / B`, called through the memo table: the first try fails at the inner
     call and matches `B`, and the body is tried again and again with the match so far as the
     answer to the inner call.
  2. **Specification (`Grammar.ChainEnds`)** — the chain of matches: from the match of `B`, the row
     `A₁ … Aₙ` goes on with the value so far in its scope, as long as it gets further.
  3. **The crux (`LeftRecursive.grow`)** — every round meets the row, and perhaps `B`, in an engine that
     earlier rounds have filled; they settle on what they settle on in a fresh one.  A round that
     falls through to `B` or does not get further is the last.  Ends only grow, and the text is
     finite.

  A round may fall through to `B`, when the row fails behind the match so far.  It then gives the first match
  again, which is no longer than the one that has been reached, and the growth ends.  So a round that fails does
  not occur at all in the growth, and it does not have to be told apart.

  With rows that neither bind nor read the value so far, the chain is a plain repetition: `B A*`.
-/

namespace MemoPeg

section

variable [RegexLibrary]

/-! ## The call of the rule from its own body -/

/-- The ways to write the inner call: with its value bound to a name or not; and the scope that it
    leaves. -/
inductive SeedCall (name : String) : Operator → (Value → Scope) → Prop
  | tagged (l : String) : SeedCall name (.tag (.call name []) l) fun v => [(l, v)]
  | plain : SeedCall name (.call name []) fun _ => []

/-- A seed that is answered with a match binds its value. -/
theorem SeedCall.ends_matched {name : String} {seed : Operator} {scope : Value → Scope}
    (h : SeedCall name seed scope) {g : Grammar} {e e' : Engine} {stop : Nat} {v : Value}
    (hcall : Ends (fun n => g.eval n (.call name []) ⟨e, []⟩) (.matched stop v, ⟨e', []⟩)) :
    Ends (fun n => g.eval n seed ⟨e, []⟩) (.matched stop v, ⟨e', scope v⟩) := by
  cases h with
  | tagged l =>
    refine .of_succ ?_
    exact hcall.bind (.const rfl)
  | plain => exact hcall

/-- A seed that is answered with a failure fails. -/
theorem SeedCall.ends_failed {name : String} {seed : Operator} {scope : Value → Scope}
    (h : SeedCall name seed scope) {g : Grammar} {e e' : Engine}
    (hcall : Ends (fun n => g.eval n (.call name []) ⟨e, []⟩) (.failed, ⟨e', []⟩)) :
    Ends (fun n => g.eval n seed ⟨e, []⟩) (.failed, ⟨e', []⟩) := by
  cases h with
  | tagged l =>
    refine .of_succ ?_
    exact hcall.bind (.const rfl)
  | plain => exact hcall

/-! ## Rounds -/

/-- The rule `E` of a grammar is left recursive in its first alternative, and only there: what else its
    body calls is in `S`, where `E` is not. -/
structure LeftRecursive (g : Grammar) (name : String) (E : RuleId) (seed : Operator)
    (scope : Value → Scope) (As : List Operator) (B : Operator) (S : RuleId → Prop) : Prop where
  lookup : g.lookup name = some E
  rule : g.declared[E]? = some ⟨name, [], .choice [.sequence (seed :: As), B]⟩
  seed : SeedCall name seed scope
  nonempty : As ≠ []
  closed : g.ClosedUnderCalls S
  withinAs : (Operator.sequence As).Within g S true
  withinB : B.Within g S true
  outside : ¬S E

namespace LeftRecursive

variable {g : Grammar} {t : Text} {name : String} {E : RuleId} {seed : Operator}
  {scope : Value → Scope} {As : List Operator} {B : Operator} {S : RuleId → Prop} {p : Nat}
  {e : Engine}

/-- While the rule is being tried for the first time, its body matches what `B` matches. -/
theorem first_body (h : LeftRecursive g name E seed scope As B S) (he : e.Ready g t S)
    (hp : e.pos = p) {detected : Bool} (hholds : e.Holds ⟨E, p, []⟩ (.parked (.inProgress detected) p))
    {oB : Outcome} (hB : g.Settles t B p [] oB) :
    ∃ m, Ends (fun n => g.eval n (.choice [.sequence (seed :: As), B]) ⟨e, []⟩) (oB, m) ∧
      m.engine.Ready g t S ∧ m.engine.Holds ⟨E, p, []⟩ (.parked (.inProgress true) p) := by
  subst hp
  obtain ⟨e₁, hcall, he₁, hholds₁, -⟩ := he.call_known h.lookup h.outside hholds []
  have hfirst := Ends.of_succ (x := fun n => g.eval n (.sequence (seed :: As)) ⟨e, []⟩)
    (.sequence_failed (h.seed.ends_failed hcall))
  obtain ⟨m, hends, hm, hsame⟩ :=
    he.falls_through h.closed h.withinB rfl hB (m := ⟨e₁, []⟩) he₁ hfirst
  exact ⟨m, hends, hm, hsame.holds h.outside hholds₁⟩

/-- Once there is a match so far, the body matches what the row matches from its end on, and what `B`
    matches where the row fails. -/
theorem later_body (h : LeftRecursive g name E seed scope As B S) (he : e.Ready g t S)
    (hp : e.pos = p) {best : Nat} {v : Value} (hholds : e.Holds ⟨E, p, []⟩ (.matched best v))
    {oA oB : Outcome} (hA : g.Settles t (.sequence As) best (scope v) oA)
    (hB : g.Settles t B p [] oB) :
    ∃ m, Ends (fun n => g.eval n (.choice [.sequence (seed :: As), B]) ⟨e, []⟩)
        (if oA.isMatched then oA else oB, m) ∧
      m.engine.Ready g t S ∧ m.engine.Holds ⟨E, p, []⟩ (.matched best v) := by
  subst hp
  obtain ⟨e₁, hcall, he₁, hholds₁, hpos₁, -⟩ := he.call_known h.lookup h.outside hholds []
  have hseed := h.seed.ends_matched hcall
  obtain ⟨e₂, scope₂, hrow, he₂, hsame₂, -⟩ :=
    hA.inContext h.closed h.withinAs he₁ hpos₁ (scope v) fun _ => rfl
  -- The row runs as the rest of a sequence that began before the inner call.
  have hrest : Ends (fun n => Step.sequenceFrom ⟨e, []⟩ (As.map (g.eval n)) v ⟨e₁, scope v⟩)
      (oA, if oA.isMatched then ⟨e₂, scope₂⟩ else (⟨e₂, scope₂⟩ : Frame).back ⟨e, []⟩) := by
    have hsucc := hrow.succ
    obtain ⟨A, As', hcons⟩ := List.exists_cons_of_ne_nil h.nonempty
    have heq : ∀ n, Step.sequenceFrom ⟨e, []⟩ (As.map (g.eval n)) v ⟨e₁, scope v⟩ =
        (g.eval (n + 1) (.sequence As) ⟨e₁, scope v⟩).map fun r =>
          (r.1, if r.1.isMatched then r.2 else r.2.back ⟨e, []⟩) := by
      intro n
      rw [Step.sequenceFrom_eq ⟨e₁, scope v⟩ (Nat.zero_le _), hcons]
      rfl
    simp only [heq]
    exact hsucc.map fun r => (r.1, if r.1.isMatched then r.2 else r.2.back ⟨e, []⟩)
  have hfirst := Ends.of_succ (x := fun n => g.eval n (.sequence (seed :: As)) ⟨e, []⟩)
    (.sequence_matched hseed hrest)
  cases oA with
  | matched stop w =>
    exact ⟨⟨e₂, scope₂⟩, .of_succ (.choice_matched hfirst), he₂, hsame₂.holds h.outside hholds₁⟩
  | failed =>
    obtain ⟨m, hends, hm, hsame⟩ :=
      he.falls_through h.closed h.withinB rfl hB (m := ⟨e₂, scope₂⟩) he₂ hfirst
    exact ⟨m, hends, hm, hsame.holds h.outside (hsame₂.holds h.outside hholds₁)⟩

/-- **One round.**  The rule is invoked again with a match so far. -/
theorem round (h : LeftRecursive g name E seed scope As B S) (he : e.Ready g t S) (hp : e.pos = p)
    {best : Nat} {v : Value} (hholds : e.Holds ⟨E, p, []⟩ (.matched best v)) {oA oB : Outcome}
    (hA : g.Settles t (.sequence As) best (scope v) oA) (hB : g.Settles t B p [] oB) :
    ∃ e', Ends (fun n => e.invokeRule n (.grammar g) E []) (if oA.isMatched then oA else oB, e') ∧
      e'.Ready g t S ∧ e'.Holds ⟨E, p, []⟩ (.matched best v) := by
  have hattempt : (e.attempting ((RuleSet.grammar g).runner 0) E).Ready g t S := he.note _
  obtain ⟨m, hbody, hm, hholds'⟩ := h.later_body hattempt hp hholds hA hB
  obtain ⟨e', hends, he', hmemo⟩ := he.invoked (Grammar.rule_of_declared h.rule) [] hbody hm
  exact ⟨e', hends, he', hholds'.of_memo hmemo⟩

/-- **The growth.**  From a match so far, the rule grows to the end of the chain. -/
theorem grow (h : LeftRecursive g name E seed scope As B S) (hp : t.IsBoundary p) {e₀ : Nat}
    {v₀ : Value} (hB : g.Settles t B p [] (.matched e₀ v₀)) (best : Nat) (v : Value) (e : Engine)
    (hle : e₀ ≤ best) (he : e.Ready g t S) (hholds : e.Holds ⟨E, p, []⟩ (.matched best v))
    (hA : g.ChainSettles t scope As (best, v)) :
    ∃ last after, g.ChainEnds t scope As (best, v) last ∧
      after.Holds ⟨E, p, []⟩ (.matched last.1 last.2) ∧
      e.GrowsTo (.grammar g) ⟨E, p, []⟩ best v (.matched last.1 last.2, after) := by
  -- Each round ends later in the text than the one before.
  induction hsize : t.size - best using Nat.strongRecOn generalizing best v e with
  | ind size ih =>
    obtain ⟨oA, hrow⟩ := hA (best, v) (.refl _)
    have hbest : p ≤ best ∧ t.IsBoundary best := by
      obtain ⟨hpbest, hboundary⟩ := Answer.fits_matched.1 (hholds.fits he.inText)
      exact ⟨hpbest, he.text ▸ hboundary⟩
    have hre : (e.regrowing ⟨E, p, []⟩ best v).Ready g t S := ((he.move hp).result v).note _
    obtain ⟨e', hround, he', hholds'⟩ := h.round hre rfl hholds hrow hB
    by_cases hgrows : ∃ m, g.Grows t scope As (best, v) m
    · obtain ⟨⟨stop, w⟩, hgrow⟩ := hgrows
      obtain rfl : oA = .matched stop w := hrow.unique hgrow.1
      have hlt : best < stop := hgrow.lt
      have hstop : t.IsBoundary stop := (hgrow.1.matched_le hbest.2).2
      have hsettled : (e'.settle ⟨E, p, []⟩ (.matched stop w)).Ready g t S :=
        he'.settle h.outside ⟨Nat.le_trans hbest.1 (Nat.le_of_lt hlt), hstop⟩
      have hless : t.size - stop < size := by
        have := hstop.le_size
        omega
      obtain ⟨last, after, ⟨hchain, hstuck⟩, hafter, hrest⟩ :=
        ih (t.size - stop) hless stop w _ (by omega) hsettled (hholds'.settle _) (hA.next hgrow) rfl
      exact ⟨last, after, ⟨.step hgrow hchain, hstuck⟩, hafter, .further hround hlt hrest⟩
    · -- The row fails, and the round matches what B matches; or it does not get further.
      have hshort : ∀ stop w, (if oA.isMatched then oA else .matched e₀ v₀) = .matched stop w →
          ¬best < stop := by
        intro stop w heq hlt
        cases oA with
        | matched stop' w' =>
          cases heq
          exact hgrows ⟨(stop, w), hrow, hlt⟩
        | failed =>
          cases heq
          omega
      exact ⟨(best, v), { e' with pos := best, result := v },
        ⟨.refl _, fun m hm => hgrows ⟨m, hm⟩⟩, hholds', .last hround hshort⟩

/-! ## The call -/

/-- **Applied to a fresh engine,** the rule fails if `B` does, and matches the end of the chain from the
    match of `B` otherwise.  The memo table then holds that answer. -/
theorem apply (h : LeftRecursive g name E seed scope As B S) (hp : t.IsBoundary p) {oB : Outcome}
    (hB : g.Settles t B p [] oB)
    (hA : ∀ e₀ v₀, oB = .matched e₀ v₀ → g.ChainSettles t scope As (e₀, v₀)) :
    ∃ outcome after,
      Ends (fun n => (Engine.startingAt t p).applyRule n (.grammar g) E []) (outcome, after) ∧
      after.Holds ⟨E, p, []⟩ (outcome.answer p) ∧ (oB = .failed → outcome = .failed) ∧
      ∀ e₀ v₀, oB = .matched e₀ v₀ →
        ∃ last, g.ChainEnds t scope As (e₀, v₀) last ∧ outcome = .matched last.1 last.2 := by
  have hopen : ((Engine.startingAt t p).opening ⟨E, p, []⟩).Ready g t S :=
    (Engine.Ready.startingAt hp).opening h.outside
  obtain ⟨m, hbody, hm, hholds⟩ :=
    h.first_body (p := p) (hopen.note (.attempting E ((RuleSet.grammar g).ruleName E) p)) rfl
      (Engine.Holds.opening _ _) hB
  obtain ⟨e₁, hfirst, he₁, hmemo⟩ := hopen.invoked (Grammar.rule_of_declared h.rule) [] hbody hm
  have hholds₁ := hholds.of_memo hmemo
  cases oB with
  | failed =>
    refine ⟨.failed, _, .apply_first rfl hfirst fun hm => (by cases hm), hholds₁.settle _,
      fun _ => rfl, fun e₀ v₀ heq => by cases heq⟩
  | matched e₀ v₀ =>
    obtain ⟨hpe, he₀⟩ := hB.matched_le hp
    have hsettled : (e₁.settle ⟨E, p, []⟩ (.matched e₀ v₀)).Ready g t S :=
      he₁.settle h.outside ⟨hpe, he₀⟩
    have hsaw : e₁.sawItself ⟨E, p, []⟩ = true := by
      rw [hholds₁.sawItself]
      exact decide_eq_true rfl
    obtain ⟨last, after, hchain, hafter, hgrown⟩ :=
      h.grow hp hB e₀ v₀ _ (Nat.le_refl _) hsettled (hholds₁.settle _) (hA e₀ v₀ rfl)
    refine ⟨.matched last.1 last.2, after, .apply_grown rfl hfirst hsaw hgrown, hafter,
      fun heq => (by cases heq), fun e₀' v₀' heq => ?_⟩
    cases heq
    exact ⟨last, hchain, rfl⟩

end LeftRecursive

/-! ## The same as a repetition -/

/-- The end of a match; a failure has none. -/
def Outcome.stop? : Outcome → Option Nat
  | .matched stop _ => some stop
  | .failed => none

section

variable {g : Grammar} {t : Text} {scope : Value → Scope} {As : List Operator} {S : RuleId → Prop}

/-- The rounds of a repeated row that does not look at its scope follow a chain to its end. -/
theorem Grammar.ChainEnds.rounds (hS : g.ClosedUnderCalls S)
    (hrow : (Operator.sequence As).Within g S false) {first last : Nat × Value}
    (hchain : g.ChainEnds t scope As first last) (hA : g.ChainSettles t scope As first) :
    ∀ (e : Engine) (s : Scope) (values : List Value), e.Ready g t S → e.pos = first.1 →
      ∃ values' m b, m.engine.pos = last.1 ∧ ∀ n, b ≤ n → ∀ fuel, b ≤ fuel →
        Step.rounds (g.eval n (.sequence As)) fuel none values ⟨e, s⟩ = .ok (values', m) := by
  obtain ⟨hsteps, hstuck⟩ := hchain
  induction hsteps with
  | refl last =>
    intro e s values he hpos
    obtain ⟨o, hsettles⟩ := hA last (.refl last)
    obtain ⟨e', s', ⟨b, hb⟩, he', -, hpos'⟩ :=
      hsettles.inContext hS hrow he hpos s fun h => by cases h
    have hb' : ∀ n, b ≤ n → g.eval n (.sequence As) ⟨e, s⟩ = .ok (o, ⟨e', s'⟩) := hb
    cases o with
    | failed =>
      refine ⟨values, ⟨e', s'⟩, b + 1, hpos', fun n hn fuel hfuel => ?_⟩
      obtain ⟨k, rfl⟩ : ∃ k, fuel = k + 1 := ⟨fuel - 1, by omega⟩
      rw [Step.rounds, if_neg (by simp), hb' n (by omega)]
      rfl
    | matched stop w =>
      -- The row ends where it began: not before it, and not later, or the chain would go on.
      have hidle : stop = last.1 := by
        have hlast : t.IsBoundary last.1 := he.text ▸ hpos ▸ he.inText.cursor
        have hle := (hsettles.matched_le hlast).1
        have hnot : ¬last.1 < stop := fun hlt => hstuck (stop, w) ⟨hsettles, hlt⟩
        omega
      refine ⟨w :: values, ⟨e', s'⟩, b + 1, hpos'.trans hidle, fun n hn fuel hfuel => ?_⟩
      obtain ⟨k, rfl⟩ : ∃ k, fuel = k + 1 := ⟨fuel - 1, by omega⟩
      rw [Step.rounds, if_neg (by simp), hb' n (by omega)]
      exact if_pos ⟨hidle.trans hpos.symm, rfl⟩
  | @step m m' last hgrows hrest ih =>
    intro e s values he hpos
    obtain ⟨e', s', ⟨b, hb⟩, he', -, hpos'⟩ :=
      hgrows.1.inContext hS hrow he hpos s fun h => by cases h
    obtain ⟨values', m₂, b', hm₂, hb'⟩ :=
      ih (hA.next hgrows) hstuck e' s' (m'.2 :: values) he' hpos'
    have hb₁ : ∀ n, b ≤ n → g.eval n (.sequence As) ⟨e, s⟩ = .ok (.matched m'.1 m'.2, ⟨e', s'⟩) := hb
    refine ⟨values', m₂, max b b' + 1, hm₂, fun n hn fuel hfuel => ?_⟩
    obtain ⟨k, rfl⟩ : ∃ k, fuel = k + 1 := ⟨fuel - 1, by omega⟩
    rw [Step.rounds, if_neg (by simp), hb₁ n (by omega)]
    have hlt := hgrows.2
    refine (if_neg fun hidle => ?_).trans (hb' n (by omega) k (by omega))
    have hsame : m'.1 = e.pos := hidle.1
    omega

/-- `B` and then the row any number of times ends where the chain from the match of `B` does. -/
theorem star_ends (hS : g.ClosedUnderCalls S) {B : Operator}
    (hrow : (Operator.sequence As).Within g S false) (hB : B.Within g S false) {p : Nat}
    (hp : t.IsBoundary p) {oB : Outcome} (hsettles : g.Settles t B p [] oB)
    (hA : ∀ e₀ v₀, oB = .matched e₀ v₀ → g.ChainSettles t scope As (e₀, v₀)) {outcome : Outcome}
    (hfail : oB = .failed → outcome = .failed)
    (hmatch : ∀ e₀ v₀, oB = .matched e₀ v₀ →
      ∃ last, g.ChainEnds t scope As (e₀, v₀) last ∧ outcome = .matched last.1 last.2)
    (s : Scope) :
    ∃ fuel other f, g.eval fuel (.sequence [B, .star (.sequence As)]) ⟨Engine.startingAt t p, s⟩ =
      .ok (other, f) ∧ other.stop? = outcome.stop? := by
  obtain ⟨e₁, s₁, hfirst, he₁, -, hpos₁⟩ :=
    hsettles.inContext hS hB (.startingAt hp) rfl s fun h => by cases h
  -- It is enough to name an outcome and a frame, with any fuel that suffices.
  suffices hends : ∃ other f, Ends (fun n => Step.sequence [g.eval n B, g.eval n
      (.star (.sequence As))] ⟨Engine.startingAt t p, s⟩) (other, f) ∧ other.stop? = outcome.stop? by
    obtain ⟨other, f, ⟨b, hb⟩, hstop⟩ := hends
    exact ⟨b + 1, other, f, hb b (Nat.le_refl b), hstop⟩
  cases oB with
  | failed =>
    rw [hfail rfl]
    exact ⟨.failed, _, .sequence_failed hfirst, rfl⟩
  | matched e₀ v₀ =>
    obtain ⟨last, hchain, rfl⟩ := hmatch e₀ v₀ rfl
    obtain ⟨values, m, b, hm, hb⟩ := hchain.rounds hS hrow (hA e₀ v₀ rfl) e₁ s₁ [] he₁ hpos₁
    have hstar : Ends (fun n => g.eval n (.star (.sequence As)) ⟨e₁, s₁⟩)
        (.matched m.engine.pos (values.head?.getD .nil), m) := by
      have hrounds : Ends (fun n => Step.rounds (g.eval n (.sequence As)) n none [] ⟨e₁, s₁⟩)
          (values, m) := ⟨b, fun n hn => hb n hn n hn⟩
      exact .of_succ (hrounds.bind (.const rfl))
    refine ⟨.matched m.engine.pos (values.head?.getD .nil), m,
      .sequence_matched hfirst (hstar.bind (.const rfl)), ?_⟩
    show some m.engine.pos = some last.1
    rw [hm]

end

/-! ## Direct left recursion -/

/-- The rules that a row and an alternative reach are closed under calls, and each part of them stays
    within. -/
theorem Operator.Within.reaches (g : Grammar) (ops : List Operator) (sees : Bool) {op : Operator}
    (hcalls : ∀ name ∈ op.callees, ∃ o ∈ ops, name ∈ o.callees)
    (hblind : sees = false → op.ScopeFree) :
    op.Within g (g.Reaches (.sequence ops)) sees where
  calls name hname rule hrule := by
    obtain ⟨o, ho, hname'⟩ := hcalls name hname
    exact .call (Operator.mem_callees_of_child ho hname') hrule
  blind := hblind

/-- **Direct left recursion computes the iteration from the left.**  Let the body of rule `E` be
    `E:l A₁ … Aₙ / B`, where neither the `Aᵢ` nor `B` reach `E`, and let `B` and the row `A₁ … Aₙ` settle
    where the chain meets them.  Applied to a fresh engine at a boundary, `E` fails if and only if
    `B` fails there; otherwise it matches the end of the chain from the match of `B`.  The memo
    table then holds that answer.  If the `Aᵢ` and `B` do not look at their scope, `E` ends where
    `B (A₁ … Aₙ)*` does. -/
theorem left_recursion_is_iteration {g : Grammar} {name : String} {E : RuleId}
    {As : List Operator} {B : Operator} {t : Text} {p : Nat} {oB : Outcome}
    (hname : g.lookup name = some E)
    (hrule : g.declared[E]? =
      some ⟨name, [], .choice [.sequence (.tag (.call name []) "l" :: As), B]⟩)
    (hAs : As ≠ []) (hreachA : ∀ A ∈ As, ¬g.Reaches A E) (hreachB : ¬g.Reaches B E)
    (hp : t.IsBoundary p) (hB : g.Settles t B p [] oB)
    (hA : ∀ e₀ v₀, oB = .matched e₀ v₀ → g.ChainSettles t (fun v => [("l", v)]) As (e₀, v₀)) :
    ∃ fuel outcome after,
      (Engine.startingAt t p).applyRule fuel (.grammar g) E [] = .ok (outcome, after) ∧
      (outcome = .failed ↔ oB = .failed) ∧
      (∀ e₀ v₀, oB = .matched e₀ v₀ → ∃ last,
        g.ChainEnds t (fun v => [("l", v)]) As (e₀, v₀) last ∧
        outcome = .matched last.1 last.2) ∧
      after.Holds ⟨E, p, []⟩ (outcome.answer p) ∧
      ((∀ A ∈ As, A.ScopeFree) → B.ScopeFree → ∀ s : Scope, ∃ fuel' other f,
        g.eval fuel' (.sequence [B, .star (.sequence As)]) ⟨Engine.startingAt t p, s⟩ =
          .ok (other, f) ∧ other.stop? = outcome.stop?) := by
  have hcallsA : ∀ name ∈ (Operator.sequence As).callees, ∃ o ∈ B :: As, name ∈ o.callees := by
    intro name hname
    obtain ⟨A, hA, hname⟩ := Operator.mem_callees_sequence hname
    exact ⟨A, List.mem_cons_of_mem B hA, hname⟩
  have hcallsB : ∀ name ∈ B.callees, ∃ o ∈ B :: As, name ∈ o.callees :=
    fun name hname => ⟨B, List.mem_cons_self, hname⟩
  have hrec : LeftRecursive g name E (.tag (.call name []) "l") (fun v => [("l", v)]) As B
      (g.Reaches (.sequence (B :: As))) :=
    { lookup := hname
      rule := hrule
      seed := .tagged "l"
      nonempty := hAs
      closed := g.closedUnderCalls_reaches _
      withinAs := .reaches g _ true hcallsA fun h => by cases h
      withinB := .reaches g _ true hcallsB fun h => by cases h
      outside := Grammar.not_reaches_sequence (List.forall_mem_cons.2 ⟨hreachB, hreachA⟩) }
  obtain ⟨outcome, after, ⟨fuel, hfuel⟩, hholds, hfail, hmatch⟩ := hrec.apply hp hB hA
  refine ⟨fuel, outcome, after, hfuel fuel (Nat.le_refl fuel), ⟨fun hout => ?_, hfail⟩, hmatch,
    hholds, fun hfreeA hfreeB s => ?_⟩
  · cases oB with
    | failed => rfl
    | matched e₀ v₀ =>
      obtain ⟨last, -, rfl⟩ := hmatch e₀ v₀ rfl
      cases hout
  · exact star_ends hrec.closed
      (.reaches g _ false hcallsA fun _ => .sequence hfreeA)
      (.reaches g _ false hcallsB fun _ => hfreeB) hp hB hA hfail hmatch s

end

/-- Sums of digits, grown from the left. -/
def digitSums : Grammar :=
  .ofRules "sums"
    [⟨"sum", [], .choice
        [.sequence [.tag (.call "sum" []) "l", .literal "+", .call "digit" []], .call "digit" []]⟩,
      ⟨"digit", [], .range "0" "9"⟩]
    0 [] [["sum"]]

/-- On `1+2` the chain goes from the first digit to the second, and the sum with it. -/
theorem left_recursion_is_iteration_digitSums :
    ∃ fuel after, (Engine.startingAt "1+2".toList 0).applyRule fuel (.grammar digitSums) 0 [] =
        .ok (.matched 3 (.char '2'), after) ∧
      after.Holds ⟨0, 0, []⟩ (.matched 3 (.char '2')) ∧
      ∃ fuel' other f, digitSums.eval fuel' (.sequence
          [.call "digit" [], .star (.sequence [.literal "+", .call "digit" []])])
        ⟨Engine.startingAt "1+2".toList 0, []⟩ = .ok (other, f) ∧ other.stop? = some 3 := by
  have hreach : ∀ op : Operator, (∀ name ∈ op.callees, name = "digit") →
      ¬digitSums.Reaches op 0 := by
    intro op hop h
    have hclosed : digitSums.ClosedUnderCalls (· = 1) := by
      rintro rule r name rule' rfl hr hname -
      cases hr
      cases hname
    have hone := h.mem_of_closed hclosed fun name hname rule hrule => by
      obtain rfl := hop name hname
      cases hrule
      rfl
    cases hone
  have hB : digitSums.Settles "1+2".toList (.call "digit" []) 0 [] (.matched 1 (.char '1')) :=
    .of_run (n := 9) (by decide +kernel)
  have hgrows : digitSums.Grows "1+2".toList (fun v => [("l", v)]) [.literal "+", .call "digit" []]
      (1, .char '1') (3, .char '2') := ⟨.of_run (n := 9) (by decide +kernel), by decide⟩
  have hlast : digitSums.Settles "1+2".toList (.sequence [.literal "+", .call "digit" []]) 3
      [("l", .char '2')] .failed := .of_run (n := 9) (by decide +kernel)
  have hchain := Grammar.ChainEnds.of_grows hgrows (.of_failed hlast)
  have hname : digitSums.lookup "sum" = some 0 := by decide +kernel
  obtain ⟨fuel, outcome, after, hrun, -, hmatch, hholds, hstar⟩ :=
    left_recursion_is_iteration hname rfl (by decide)
      (fun A hA => hreach A (by
        rcases List.mem_cons.1 hA with rfl | hA
        · decide
        · rcases List.mem_cons.1 hA with rfl | hA
          · decide
          · cases hA))
      (hreach _ (by decide)) (show (Text.suffixAt "1+2".toList 0).isSome = true from rfl) hB
      (by
        intro e₀ v₀ heq
        cases heq
        exact .of_grows hgrows (.of_failed hlast))
  obtain ⟨last, hends, rfl⟩ := hmatch 1 (.char '1') rfl
  obtain rfl : last = (3, .char '2') := hends.unique hchain
  exact ⟨fuel, after, hrun, hholds, hstar (by decide +kernel) (by decide +kernel) []⟩

end MemoPeg
