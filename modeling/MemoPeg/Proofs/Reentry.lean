import MemoPeg.Proofs.LeftCalls
import MemoPeg.Proofs.Progress
import MemoPeg.Regex.Reader

/-
  Rules that come back to themselves at run time are in a cycle that was found.

  Building a grammar reports its left recursion.  The report is made from the operators alone, with rules that
  need not read skipped over; a run comes to know left recursion only when a rule is called while it is tried.
  The report is of use if it misses nothing that can happen.

  1. **Chains (`Grammar.LeadsTo`)** — a rule leads to a task if left calls lead from it to the rule that the
     task calls, or to what the operator that the task runs calls on the left.
  2. **The invariant (`Task.Led`)** — every rule that is being tried was asked for no later in the text than
     the cursor stands, and if it was asked for where the cursor stands, then it leads to the task.
  3. **The crux (`Starts.led`)** — what a task starts is led to as the task is.  Parts of a sequence read or
     are nullable, so that the cursor stands still only where the left calls go on.
  4. **Cycles** — a rule that is called while it is being tried, at the same place, leads to itself, and
     paths of left calls that close are enumerated (`reentries_are_reported`).

  In 3 a part of a sequence that has matched without reading must be nullable, by the same judgement that the
  report has used.  That this is so is no matter of definition: it needs the memo table to be honest, since the
  part may have been answered from there.

  The other direction does not hold.  A reported cycle may never be run through, if something before it fails.
-/

namespace MemoPeg

/-! ## Rules that are being tried -/

namespace Engine.Tries

variable {e e' : Engine}

/-- Which rules are being tried is read from the memo table. -/
theorem of_memo {key : Key} (h : e'.Tries key) (hmemo : e'.memo = e.memo) : e.Tries key := by
  obtain ⟨entry, hfind, hprogress⟩ := h
  exact ⟨entry, hmemo ▸ hfind, hprogress⟩

/-- A call begins to try its rule. -/
theorem opening (e : Engine) (key : Key) : (e.opening key).Tries key := by
  refine ⟨.new key.pos, ?_, rfl⟩
  rw [show (e.opening key).memo = e.memo.start key from rfl, Memo.find?_start, if_pos rfl]

/-- A call has begun to try its own rule, and no other one. -/
theorem of_opening {key other : Key} (h : (e.opening key).Tries other) : other = key ∨ e.Tries other := by
  by_cases hne : key = other
  · exact .inl hne.symm
  · obtain ⟨entry, hfind, hprogress⟩ := h
    rw [show (e.opening key).memo = e.memo.start key from rfl, Memo.find?_start, if_neg hne] at hfind
    exact .inr ⟨entry, hfind, hprogress⟩

variable [RegexLibrary]

/-- A rule that has grown is not being tried any more. -/
theorem of_grown {n : Nat} {rs : RuleSet} {key other : Key} {best : Nat} {value : Value}
    (h : e'.Tries other) (hfind : e.memo.find? key = none)
    (hgrown : GrownTo (rs.runner n) key e best value e') : e.Tries other := by
  obtain ⟨new, hopened⟩ := hgrown.opened hfind
  by_cases hne : key = other
  · subst hne
    obtain ⟨entry, hentry, hprogress⟩ := h
    rw [hopened.entry] at hentry
    cases hentry
    cases hprogress
  · exact (hopened.others other hne).inProgress_iff.1 h

end Engine.Tries

section

variable [RegexLibrary]

/-! ## What rules lead to -/

/-- Left calls lead from the rule to what the task runs; a call through the memo table is one of them. -/
def Grammar.LeadsTo (g : Grammar) (x : String) : Task → Prop
  | .apply _ _ rule _ _ =>
    ∀ r, g.rules[rule]? = some r → Relation.TransGen (g.LeftCall g.nullable) x r.name
  | .invoke _ _ rule _ _ =>
    ∀ r, g.rules[rule]? = some r → Relation.ReflTransGen (g.LeftCall g.nullable) x r.name
  | .phrase _ (.operator _ op) _ =>
    ∀ d ∈ op.leftCalls g.rules g.nullable, Relation.TransGen (g.LeftCall g.nullable) x d
  | .phrase _ (.code _ _) _ | .cross _ _ _ _ _ _ => False

/-- Every rule that is being tried was asked for no later than where the task begins, and leads to the task
    if it was asked for there. -/
def Task.Led (g : Grammar) (t : Task) : Prop :=
  ∀ key r, t.engine.Tries key → g.rules[key.rule]? = some r →
    key.pos ≤ t.engine.pos ∧ (key.pos = t.engine.pos → g.LeadsTo r.name t)

/-- What a task starts is led to, if the task is. -/
theorem Starts.led {g : Grammar} (hg : g.Solid g.nullable) (hchecked : g.Checked) {t t' : Task}
    (h : Starts t t') (ht : t.Honest g) (hled : t.Led g) : t'.Led g := by
  obtain ⟨hcall | ⟨n, op, f, rfl, hop⟩, hin, hhonest⟩ := ht
  · cases h with
    | @first n rs rule args e hfind =>
      intro key r htry hr
      rcases htry.of_opening with rfl | hbefore
      · -- The rule that the call has begun to try leads to its own body.
        refine ⟨Nat.le_refl _, fun _ r' hr' => ?_⟩
        rw [hr] at hr'
        cases hr'
        exact .refl
      · obtain ⟨hpos, hleads⟩ := hled key r hbefore hr
        exact ⟨hpos, fun heq r' hr' => (hleads heq r' hr').to_reflTransGen⟩
    | @again n rs rule args e e' best value hfind hgrown =>
      intro key r htry hr
      have hgrew : e'.Tries key := htry.of_memo rfl
      obtain ⟨hpos, hleads⟩ := hled key r (hgrew.of_grown hfind hgrown) hr
      exact ⟨hpos, fun heq r' hr' => (hleads heq r' hr').to_reflTransGen⟩
    | @body n rs rule args e params x hbody =>
      obtain rfl : rs = .grammar g := hcall
      obtain ⟨called, hcalled, heq⟩ := Option.map_eq_some_iff.1 hbody
      cases heq
      intro key r htry hr
      obtain ⟨hpos, hleads⟩ := hled key r (htry.of_memo rfl) hr
      refine ⟨hpos, fun heq d hd => ?_⟩
      have hrule := Grammar.rule?_eq_some.2 ⟨rule, hchecked.lookup_of_rule hcalled, hcalled⟩
      exact Relation.TransGen.tail' (hleads heq called hcalled) ⟨called, hrule, hd⟩
    | _ => exact hcall.elim
  · obtain ⟨n', ⟨c, m, rfl, -, -, haccounts, hle, hcalls⟩ | ⟨name, rule, args, hlookup, hname, hcall⟩⟩ :=
      h.of_operator hg hop hin hhonest
    · intro key r htry hr
      obtain ⟨hpos, hleads⟩ := hled key r ((haccounts.tries_iff key).1 htry) hr
      have hpos' : key.pos ≤ f.engine.pos := hpos
      refine ⟨show key.pos ≤ m.engine.pos by omega, fun heq d hd => ?_⟩
      -- The cursor has stood still since the rule was asked for.
      have hhere : key.pos = m.engine.pos := heq
      have hstill : m.engine.pos = f.engine.pos := by omega
      exact hleads (hhere.trans hstill) d (hcalls hstill d hd)
    · have hcallee : ∀ key r, f.engine.Tries key → g.rules[key.rule]? = some r → key.pos ≤ f.engine.pos ∧
          (key.pos = f.engine.pos → ∀ r', g.rules[rule]? = some r' →
            Relation.TransGen (g.LeftCall g.nullable) r.name r'.name) := by
        intro key r htry hr
        obtain ⟨hpos, hleads⟩ := hled key r htry hr
        refine ⟨hpos, fun heq r' hr' => ?_⟩
        obtain ⟨r'', hr'', rfl⟩ := Grammar.lookup_rule hlookup
        rw [hr'] at hr''
        cases hr''
        exact hleads heq _ hname
      rcases hcall with rfl | rfl
      · exact hcallee
      · intro key r htry hr
        obtain ⟨hpos, hleads⟩ := hcallee key r htry hr
        exact ⟨hpos, fun heq r' hr' => (hleads heq r' hr').to_reflTransGen⟩

/-- Whatever a task runs is led to, if the task is. -/
theorem Task.Runs.led {g : Grammar} (hg : g.Solid g.nullable) (hchecked : g.Checked) {t t' : Task}
    (h : t.Runs t') (ht : t.Honest g) (hled : t.Led g) : t'.Led g := by
  induction h with
  | refl => exact hled
  | tail hruns hstarts ih => exact hstarts.led hg hchecked (Task.Runs.honest hg hruns ht) ih

/-! ## Re-entries -/

/-- A rule that is called where it is being tried is one that left calls lead back to. -/
theorem Task.Runs.reenters {g : Grammar} (hg : g.Solid g.nullable) (hchecked : g.Checked) {t : Task}
    (ht : t.Honest g) (hrests : ∀ key, ¬t.engine.Tries key) {n : Nat} {rs : RuleSet} {rule : RuleId}
    {args : List Value} {m : Engine} (hruns : t.Runs (.apply n rs rule args m))
    (htries : m.Tries ⟨rule, m.pos, args⟩) :
    ∃ r, g.rules[rule]? = some r ∧ Relation.TransGen (g.LeftCall g.nullable) r.name r.name := by
  have hled : t.Led g := fun key _ htry => absurd htry (hrests key)
  have hhere := hruns.led hg hchecked ht hled
  rcases Relation.ReflTransGen.cases_tail hruns with heq | ⟨caller, hcaller, hstarts⟩
  · -- The call itself is made while no rule is being tried.
    subst heq
    exact absurd htries (hrests _)
  · obtain ⟨hcall | ⟨_, op, f, rfl, hop⟩, hin, hhonest⟩ := Task.Runs.honest hg hcaller ht
    · -- A call of a rule starts no call through the memo table.
      cases hstarts with
      | _ => exact hcall.elim
    · obtain ⟨_, ⟨c, m, heq, -⟩ | ⟨name, _, _, hlookup, -, heq | heq⟩⟩ :=
        hstarts.of_operator hg hop hin hhonest <;> cases heq
      obtain ⟨r, hr, -⟩ := Grammar.lookup_rule hlookup
      exact ⟨r, hr, (hhere ⟨rule, _, _⟩ r htries hr).2 rfl r hr⟩

/-- Whatever rules of the grammar an engine has run, one after another and from any boundaries of any text,
    none of them was called where it was being tried, at the same place and with the same arguments. -/
def Grammar.NeverReenters (g : Grammar) : Prop :=
  ∀ text calls e, Engine.HasRun text calls e → (∀ s o, (s, o) ∈ calls → s.Calls g) → e.history.Quiet

/-- A grammar of solid operators in which no cycle was found never re-enters. -/
theorem Declaration.neverReenters {d : Declaration} {g : Grammar} (hbuild : d.build = .ok g)
    (hsolid : ∀ r ∈ g.rules, ∀ op ∈ r.body.nodes, op.isSolid) (hcycles : g.cycles = []) :
    g.NeverReenters := by
  intro text calls e hrun hcalls m hm hre
  have hg : g.Solid g.nullable := ⟨hsolid, nullableRules_closed g.rules⟩
  have hchecked := checked hbuild
  by_contra hshallow
  obtain ⟨key, hfound⟩ : ∃ key, m.event = .foundInProgress key := by
    generalize m.event = event at hre
    cases event with
    | foundInProgress key => exact ⟨key, rfl⟩
    | _ => cases hre
  -- The event was noted by a call of a rule that was being tried.
  obtain ⟨before, horigin⟩ := hrun.origin hm (by omega)
  obtain ⟨u, entry, ⟨t, o, hmem, hhere⟩, hkey, hentry⟩ := horigin.found key hfound
  obtain ⟨n, rs, rule, args, e', rfl, rfl⟩ := Task.key?_eq_some hkey
  obtain ⟨earlier, hearlier, hall⟩ := hrun.of_mem hmem
  have ht : t.Honest g := ⟨.inl (hcalls t o hmem), hearlier.inText.2,
    hearlier.honest hg fun s o' hs => hcalls s o' (hall _ hs)⟩
  obtain ⟨r, -, hcycle⟩ :=
    (Task.Performs.runs hhere.1).reenters hg hchecked ht hearlier.rests ⟨entry, hentry⟩
  obtain ⟨cycle, hreported, -⟩ := hchecked.reports hcycle
  rw [hcycles] at hreported
  cases hreported

/-- **Left recursion at run time is left recursion that was found.**  Let a grammar of solid operators be
    built, and let an engine that has only run rules of it be given another call of one.  Wherever that
    runs a call through the memo table of a rule that is still being tried at the same place and with the
    same arguments, there is a cycle that begins and ends with the rule. -/
theorem reentries_are_reported {d : Declaration} {g : Grammar} (hbuild : d.build = .ok g)
    (hsolid : ∀ r ∈ g.rules, ∀ op ∈ r.body.nodes, op.isSolid) {text : Text}
    {calls : List (Task × Outcome)} {t : Task} (hrun : t.engine.HasRun text calls)
    (hcalls : ∀ s o, (s, o) ∈ calls → s.Calls g) (hcall : t.Calls g) {n : Nat} {rs : RuleSet}
    {rule : RuleId} {args : List Value} {m : Engine} (hruns : t.Runs (.apply n rs rule args m))
    (htries : m.Tries ⟨rule, m.pos, args⟩) :
    ∃ r, g.rules[rule]? = some r ∧
      ∃ cycle ∈ g.cycles, cycle.head? = some r.name ∧ cycle.getLast? = some r.name := by
  have hg : g.Solid g.nullable := ⟨hsolid, nullableRules_closed g.rules⟩
  have hchecked := Declaration.checked hbuild
  have ht : t.Honest g := ⟨.inl hcall, hrun.inText.2, hrun.honest hg hcalls⟩
  obtain ⟨r, hr, hcycle⟩ := hruns.reenters hg hchecked ht hrun.rests htries
  exact ⟨r, hr, hchecked.reports hcycle⟩

end

/-- The rule of a run of letters, tried at the start of a text, calls itself in the first part of its first
    alternative. -/
theorem reentries_are_reported_letters :
    letters.build = .ok lettersGrammar ∧
    ∃ n args m, lettersRun.Runs (.apply n (.grammar lettersGrammar) 0 args m) ∧ m.Tries ⟨0, m.pos, args⟩ ∧
      ∃ cycle ∈ lettersGrammar.cycles, cycle.head? = some "run" ∧ cycle.getLast? = some "run" := by
  have hbuild : letters.build = .ok lettersGrammar := rfl
  let e := Engine.new "aab".toList
  let f : Frame := ⟨(e.opening ⟨0, 0, []⟩).attempting ((RuleSet.grammar lettersGrammar).runner 20) 0, []⟩
  let part (op : Operator) : Phrase := .operator lettersGrammar op
  let more : Operator := .sequence [.call "run" [], .literal "a"]
  have hopened : Starts lettersRun (.invoke 20 (.grammar lettersGrammar) 0 [] (e.opening ⟨0, 0, []⟩)) :=
    .first rfl
  have hbody : Starts (.invoke 20 (.grammar lettersGrammar) 0 [] (e.opening ⟨0, 0, []⟩))
      (.phrase 19 (part (.choice [more, .literal "a"])) f) :=
    @Starts.body _ 19 (.grammar lettersGrammar) 0 [] (e.opening ⟨0, 0, []⟩) [] _ rfl
  have hchoice : Starts (.phrase 19 (part (.choice [more, .literal "a"])) f) (.phrase 18 (part more) f) :=
    @Starts.ofChoice _ 18 _ (part more) [] [part (.literal "a")] f f rfl (.nil f)
  have hsequence : Starts (.phrase 18 (part more) f) (.phrase 17 (part (.call "run" [])) f) :=
    @Starts.ofSequence _ 17 _ (part (.call "run" [])) [] [part (.literal "a")] f f rfl (.nil f)
  have hcalled : Starts (.phrase 17 (part (.call "run" [])) f)
      (.apply 16 (.grammar lettersGrammar) 0 [] f.engine) :=
    @Starts.ofApply _ 16 _ (.grammar lettersGrammar) 0 [] f rfl
  have hruns : lettersRun.Runs (.apply 16 (.grammar lettersGrammar) 0 [] f.engine) :=
    .head hopened (.head hbody (.head hchoice (.head hsequence (.single hcalled))))
  have htries : f.engine.Tries ⟨0, f.engine.pos, []⟩ := (Engine.Tries.opening e ⟨0, 0, []⟩).of_memo rfl
  have hstart : lettersRun.engine.HasRun "aab".toList [] := .start (show Text.IsBoundary _ 0 by decide)
  refine ⟨hbuild, 16, [], f.engine, hruns, htries, ?_⟩
  obtain ⟨found, hfound, hcycle⟩ := reentries_are_reported hbuild (by decide) hstart
    (fun s o hmem => absurd hmem List.not_mem_nil) rfl hruns htries
  cases hfound
  exact hcycle

end MemoPeg
