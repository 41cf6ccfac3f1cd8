import MemoPeg.Proofs.Tracking
import MemoPeg.Regex.Reader

/-
  Answers do not depend on what was asked before.

  1. **Sessions (`Engine.Session`)** — calls of rules on one engine, one after the other, each from any
     boundary of the text.  The memo table is never emptied in between.
  2. **The invariant (`Engine.Session.derived`)** — between calls no call is being tried, so that the whole
     memo table is made of derived answers, and so was every answer that the session has given.
  3. **The crux** — a call has one derived answer at most (`Derives.unique`), and a fresh engine gives it
     too.

  Sessions are compared by way of derivations and not with each other: what a session finds in its table,
  a fresh engine has to work out, so that the two runs have little in common but what they are to answer.
  What has to be excluded is an answer that was found while another rule was being tried, and that rests
  on how far this one had come.  Here the condition on cycles enters, which leaves no rule but one that
  calls itself directly with a seed.
-/

namespace MemoPeg

section

variable [RegexLibrary]

/-- With nothing being tried, the body of a rule is run in a context of its own. -/
theorem Context.outermost {g : Grammar} (hg : g.Checked) {key : Key} {r : Rule}
    (hr : g.rules[key.rule]? = some r) :
    Context g r key.pos ⟨key, .failed⟩ fun _ => False := by
  have hlookup := hg.lookup_of_rule hr
  exact ⟨Grammar.rule?_eq_some.2 ⟨key.rule, hlookup, hr⟩, fun _ hbusy => hbusy.elim,
    fun _ => .inr ⟨rfl, r.name, hlookup, .inl rfl⟩, id, fun _ _ heq => by cases heq⟩

/-- **With nothing being tried, every call answers as is derived.** -/
theorem Grammar.Steady.applyRule {g : Grammar} (hg : g.Steady) {t : Text} {e e' : Engine}
    (he : e.Settled g t fun _ => False) {n : Nat} {key : Key} (hpos : key.pos = e.pos) {o : Outcome}
    (hrun : e.applyRule n (.grammar g) key.rule key.args = .ok (o, e')) :
    key.Answered g t (fun _ => False) e o e' :=
  (hg.tracks t n).2.apply hg he hpos id (fun _ => .outermost hg.checked) hrun

/-! ## Sessions -/

/-- On an engine that was fresh on a boundary of the text, these calls have been made with these outcomes,
    the newest first.  Each was made with the cursor set to its offset. -/
inductive Engine.Session (g : Grammar) (t : Text) : Engine → List (Key × Outcome) → Prop
  | fresh {p : Nat} (hp : t.IsBoundary p) : Session g t (Engine.startingAt t p) []
  | call {e e' : Engine} {calls : List (Key × Outcome)} {key : Key} {n : Nat} {o : Outcome}
      (h : Session g t e calls) (hpos : t.IsBoundary key.pos)
      (hrun : ({ e with pos := key.pos } : Engine).applyRule n (.grammar g) key.rule key.args =
        .ok (o, e')) : Session g t e' ((key, o) :: calls)

/-- A fresh engine has no answers. -/
theorem Engine.Settled.startingAt {g : Grammar} {t : Text} {busy : Key → Prop} {p : Nat}
    (hp : t.IsBoundary p) : (Engine.startingAt t p).Settled g t busy :=
  ⟨rfl, .startingAt hp, fun _ _ hholds => by cases hholds⟩

/-- All answers of a session are derived, those in the memo table and those that it has given. -/
theorem Engine.Session.derived {g : Grammar} (hg : g.Steady) {t : Text} {e : Engine}
    {calls : List (Key × Outcome)} (h : e.Session g t calls) :
    (e.Settled g t fun _ => False) ∧ ∀ key o, (key, o) ∈ calls →
      t.IsBoundary key.pos ∧ ∃ r, Derives t (.call (.grammar g) key) r ∧ r.outcome = o := by
  induction h with
  | fresh hp => exact ⟨.startingAt hp, fun _ _ hmem => absurd hmem List.not_mem_nil⟩
  | @call e e' calls key n o _ hpos hrun ih =>
    obtain ⟨hsettled, hgiven⟩ := ih
    have hmoved : ({ e with pos := key.pos } : Engine).Settled g t fun _ => False :=
      hsettled.change rfl (hsettled.inText.move (hsettled.text.symm ▸ hpos)) fun _ _ => .inr
    -- The call changes no answer that was given before, and adds its own.
    obtain ⟨r, hr, hout, hsettled', -⟩ := hg.applyRule hmoved rfl hrun
    refine ⟨hsettled', fun key' o' hmem => ?_⟩
    rcases List.mem_cons.1 hmem with heq | hmem
    · cases heq
      exact ⟨hpos, r, hr, hout⟩
    · exact hgiven key' o' hmem

/-- **Answers do not depend on history.**  In a built grammar of solid operators, in which only rules
    without parameters can call themselves on the left and only directly, every call of a session has
    the outcome that the same call has on a fresh engine. -/
theorem answers_without_history {d : Declaration} {g : Grammar} (hbuild : d.build = .ok g)
    (hsolid : ∀ r ∈ g.rules, ∀ op ∈ r.body.nodes, op.isSolid)
    (hcycles : ∀ cycle ∈ g.cycles, ∃ r ∈ g.rules, cycle = [r.name, r.name] ∧ r.params = [])
    {t : Text} {e : Engine} {calls : List (Key × Outcome)} (hsession : e.Session g t calls)
    {key : Key} {o : Outcome} (hcall : (key, o) ∈ calls) {n : Nat} {o' : Outcome} {e' : Engine}
    (hfresh : (Engine.startingAt t key.pos).applyRule n (.grammar g) key.rule key.args =
      .ok (o', e')) : o = o' := by
  have hchecked := Declaration.checked hbuild
  have hg : g.Steady := ⟨hchecked, hsolid, hchecked.selfCycling hcycles⟩
  obtain ⟨hpos, r, hr, rfl⟩ := (hsession.derived hg).2 key o hcall
  obtain ⟨r', hr', rfl, -⟩ := hg.applyRule (Engine.Settled.startingAt hpos) rfl hfresh
  exact congrArg Reply.outcome (hr.unique hr')

end

/-- Sums of digits, grown from the left, and a sum in front of a dot. -/
def dottedSums : Declaration :=
  { name := "sums"
    rules := [
      ⟨"sum", [], .choice
        [.sequence [.call "sum" [], .literal "+", .call "digit" []], .call "digit" []]⟩,
      ⟨"digit", [], .range "0" "9"⟩,
      ⟨"dotted", [], .sequence [.ahead (.call "sum" []), .call "sum" [], .literal "."]⟩]
    root := none
    links := [] }

/-- The left recursion shows in the cycles. -/
def dottedSumsGrammar : Grammar := .ofRules "sums" dottedSums.rules 0 [] [["sum", "sum"]]

/-- A call of a rule of that grammar, with the cursor set to its offset. -/
def dottedSumsCall (key : Key) (e : Engine) : Run (Outcome × Engine) :=
  ({ e with pos := key.pos } : Engine).applyRule 20 (.grammar dottedSumsGrammar) key.rule key.args

/-- On `1+2` a sum behind the sign and a dotted one that fails come first.  The sum from the start is
    then found in the memo table, and is the one that a fresh engine grows. -/
theorem answers_without_history_dottedSums :
    dottedSums.build = .ok dottedSumsGrammar ∧
    ∃ (e : Engine) (calls : List (Key × Outcome)) (o : Outcome) (e' : Engine),
      e.Session dottedSumsGrammar "1+2".toList ((⟨0, 0, []⟩, .matched 3 (.char '2')) :: calls) ∧
      calls.map (·.1) = [⟨2, 0, []⟩, ⟨0, 2, []⟩] ∧
      (Engine.startingAt "1+2".toList 0).applyRule 20 (.grammar dottedSumsGrammar) 0 [] = .ok (o, e') ∧
      .matched 3 (.char '2') = o := by
  have hends : ((dottedSumsCall ⟨0, 2, []⟩ (Engine.new "1+2".toList) >>= fun r₁ =>
      dottedSumsCall ⟨2, 0, []⟩ r₁.2 >>= fun r₂ => dottedSumsCall ⟨0, 0, []⟩ r₂.2).map (·.1)).toOption =
        some (.matched 3 (.char '2')) := by decide +kernel
  have hfresh : (dottedSumsCall ⟨0, 0, []⟩ (Engine.new "1+2".toList)).toOption.isSome := by
    decide +kernel
  obtain ⟨e, hrun⟩ := ends_with_outcome hends
  obtain ⟨⟨o₁, e₁⟩, hfirst, hrest⟩ := bind_eq_ok hrun
  obtain ⟨⟨o₂, e₂⟩, hsecond, hthird⟩ := bind_eq_ok hrest
  have hsession : e.Session dottedSumsGrammar "1+2".toList
      [(⟨0, 0, []⟩, .matched 3 (.char '2')), (⟨2, 0, []⟩, o₂), (⟨0, 2, []⟩, o₁)] :=
    .call (.call (.call (.fresh (p := 0) rfl) rfl hfirst) rfl hsecond) rfl hthird
  cases halone : dottedSumsCall ⟨0, 0, []⟩ (Engine.new "1+2".toList) with
  | error stop => rw [halone] at hfresh; cases hfresh
  | ok r =>
    obtain ⟨o, e'⟩ := r
    have hsolid : ∀ r ∈ dottedSumsGrammar.rules, ∀ op ∈ r.body.nodes, op.isSolid := by decide
    refine ⟨rfl, e, _, o, e', hsession, rfl, halone, ?_⟩
    exact answers_without_history (d := dottedSums) rfl hsolid (by decide) hsession
      List.mem_cons_self halone

end MemoPeg
