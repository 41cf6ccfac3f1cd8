import MemoPeg.Proofs.Merging
import MemoPeg.Proofs.Sessions
import MemoPeg.Regex.Reader

/-
  Linking a grammar is adding its rules.

  A call across a link is run in a new engine with a table of its own, which is forgotten when the call has
  ended.  With the rules added, the same call is run in the table of the caller, and stays there.  The two give
  the same outcome if the linked grammar never re-enters.

  1. **Histories (`History.Placed`)** — keys are asked for and links are crossed on boundaries of the text.
  2. **The invariant (`Engine.Merged`)** — the tables of both engines say the same of the own rules, and of
     the added rules the merged one says what an engine does that has only run rules of the linked grammar.
  3. **The crux (`Merges.enters`, `Merges.leaves`)** — a call across the link, in an engine of its own, and
     a call of the added rule, in the table of the caller, both answer as the engine does that has only run
     rules of the linked grammar: these never re-enter, so what it has run before does not matter.
  4. **Specification (`linking_is_merging`)** — with every call following the one that it stands for, in
     both directions, rules end alike in both grammars, left recursive ones included.

  The engine in 2 does not occur in either run.  It is a third one that is made up for the proof: it has run
  just those calls of linked rules that the merged engine has run, one after the other, in whatever
  order the growth of own rules has called for them.  The part of the merged table that is about added rules
  is its table.

  The first grammar may well be left recursive, and its calls of linked rules are then made again in each
  round.  In the linked run each of them is computed anew; in the merged run it is looked up.
-/

namespace MemoPeg

/-! ## Histories -/

/-- At depth zero, keys were asked for and links were crossed on boundaries of the text. -/
def History.Placed (t : Text) (history : History) : Prop :=
  ∀ m ∈ history, m.depth = 0 → (∀ p, m.event.crossing? = some p → t.IsBoundary p) ∧
    ∀ key, m.event.asks? = some key → t.IsBoundary key.pos

/-- What was noted earlier was noted in the text. -/
theorem History.Placed.older {t : Text} {m : Moment} {history : History}
    (h : History.Placed t (m :: history)) : history.Placed t :=
  fun m' hm' => h m' (List.mem_cons_of_mem m hm')

/-- So was what an engine had noted before it went on. -/
theorem Engine.Extends.placed {t : Text} {e e' : Engine} (h : e.Extends e') (hC : e'.history.Placed t) :
    e.history.Placed t := by
  obtain ⟨-, -, new, hnew, -⟩ := h
  intro m hm
  exact hC m (hnew ▸ List.mem_append_right new hm)

section

variable [RegexLibrary]

/-- Over the life of an engine, everything is asked for and crossed in the text. -/
theorem Engine.HasRun.placed {t : Text} {calls : List (Task × Outcome)} {e : Engine}
    (h : e.HasRun t calls) : e.history.Placed t := by
  intro m hm hdepth
  obtain ⟨before, horigin⟩ := h.origin hm hdepth
  have hplaced : ∀ u, (∃ s o, (s, o) ∈ calls ∧ s.RunsHere u) → t.IsBoundary u.engine.pos := by
    rintro u ⟨s, o, hmem, hhere⟩
    obtain ⟨earlier, hearlier, -⟩ := h.of_mem hmem
    obtain ⟨htext, hin⟩ := (Task.Performs.runs hhere.1).inText hearlier.inText
    exact htext ▸ hin.cursor
  constructor
  · intro p hp
    obtain ⟨u, hu, rfl⟩ := horigin.crossed p hp
    exact hplaced u hu
  · intro key hkey
    obtain ⟨u, hu, hasked, -⟩ := horigin.asked key hkey
    obtain ⟨n, rs, rule, args, e', rfl, rfl⟩ := Task.key?_eq_some hasked
    exact hplaced _ hu

/-! ## The invariant -/

/-- The table says of the rules from `offset` on what that of an engine says of its rules that has only run
    rules of the grammar. -/
def Memo.Hosts (h : Grammar) (t : Text) (offset : Nat) (memo : Memo) : Prop :=
  ∃ s : Engine, s.Serves h t ∧ ∀ i p args, i < h.rules.length →
    memo.answer? ⟨offset + i, p, args⟩ = s.memo.answer? ⟨i, p, args⟩

/-- What the table says of added rules is left alone by changes of own ones. -/
theorem Memo.apart_hosts (h : Grammar) (t : Text) (count : Nat) :
    Memo.Apart count 0 (Memo.Hosts h t count) := by
  rintro memo memo' hsame ⟨s, hs, hhosts⟩
  refine ⟨s, hs, fun i p args hi => ?_⟩
  have hkey : ∀ k, k < count → (Key.mk (count + i) p args).rule ≠ 0 + k := by
    intro k hk
    show count + i ≠ 0 + k
    omega
  rw [hsame _ hkey, hhosts i p args hi]

/-- The table says this of the rules below `count`. -/
def Memo.Below (count : Nat) (own : Key → Option Answer) (memo : Memo) : Prop :=
  ∀ key, key.rule < count → memo.answer? key = own key

omit [RegexLibrary] in
/-- What the table says of own rules is left alone by changes of added ones. -/
theorem Memo.apart_below (count count' : Nat) (own : Key → Option Answer) :
    Memo.Apart count' count (Memo.Below count own) := by
  intro memo memo' hsame hbelow key hkey
  rw [hsame key fun i _ => by omega]
  exact hbelow key hkey

/-- An engine of the first grammar, and one of the merged grammar. -/
abbrev Engine.Merged (g h : Grammar) (t : Text) : Engine → Engine → Prop :=
  Engine.Paired t 0 0 g.rules.length 0 (Memo.Hosts h t g.rules.length)

/-- An engine of the linked grammar, and one of the merged grammar whose table says this of own rules. -/
abbrev Engine.Hosted (g h : Grammar) (t : Text) (own : Key → Option Answer) : Engine → Engine → Prop :=
  Engine.Paired t 0 0 h.rules.length g.rules.length (Memo.Below g.rules.length own)

/-- The engines of both grammars are in lockstep on the own rules. -/
theorem Engine.Merged.lockstep (g h : Grammar) (t : Text) :
    TableLockstep (Engine.Merged g h t) (History.Placed t) (Shifted g.rules.length 0) :=
  Engine.Paired.lockstep (Memo.apart_hosts h t _) History.Placed.older

/-- The engine of the linked grammar and the merged one are in lockstep on the added rules. -/
theorem Engine.Hosted.lockstep (g h : Grammar) (t : Text) (own : Key → Option Answer) :
    TableLockstep (Engine.Hosted g h t own) (fun _ => True) (Shifted h.rules.length g.rules.length) :=
  Engine.Paired.lockstep (Memo.apart_below _ _ own) fun _ => trivial

/-- Fresh engines know nothing of any rule. -/
theorem Engine.Merged.startingAt {g h : Grammar} {t : Text} {p : Nat} (hp : t.IsBoundary p) :
    Engine.Merged g h t (Engine.startingAt t p) (Engine.startingAt t p) where
  text := rfl
  text' := rfl
  pos := rfl
  depth := rfl
  depth' := rfl
  found _ _ _ _ := rfl
  others := ⟨Engine.startingAt t p, .startingAt hp, fun _ _ _ _ => rfl⟩

/-- The engine that stands for the added rules, brought to the place. -/
theorem Engine.Merged.hosted {g h : Grammar} {t : Text} {e e' : Engine}
    (hmerged : Engine.Merged g h t e e') (hp : t.IsBoundary e.pos) :
    ∃ s : Engine, s.Serves h t ∧ s.pos = e.pos ∧ Engine.Hosted g h t e'.memo.answer? s e' := by
  obtain ⟨s, hs, hhosts⟩ := hmerged.others
  have hmoved := hs.moved hp
  refine ⟨_, hmoved, rfl, ?_⟩
  exact
    { text := hmoved.text
      text' := hmerged.text'
      pos := hmerged.pos
      depth := hmoved.depth
      depth' := hmerged.depth'
      found := hhosts
      others := fun _ _ => rfl }

/-- After a call of an added rule, the engines go on where the outcome says. -/
theorem Engine.Merged.resume {g h : Grammar} {t : Text} {e e' : Engine}
    (hmerged : Engine.Merged g h t e e') {s after after' : Engine} (hs : s.Serves h t)
    (hhosted : Engine.Hosted g h t e'.memo.answer? s after')
    (hsame : e.SameAnswers after) (hpos : after.pos = s.pos) : Engine.Merged g h t after after' where
  text := hsame.text.trans hmerged.text
  text' := hhosted.text'
  pos := hhosted.pos.trans hpos.symm
  depth := hsame.depth.trans hmerged.depth
  depth' := hhosted.depth'
  found i p args hi := by
    have hown : (Key.mk (0 + i) p args).rule < g.rules.length := by
      show 0 + i < g.rules.length
      omega
    rw [hhosted.others _ hown, hsame.answers, hmerged.found i p args hi]
  others := ⟨s, hs, hhosted.found⟩

namespace Grammar.Merges

variable {g h m : Grammar} {link : String} {rename : String → String} {t : Text}
  (hM : g.Merges h link rename m)
include hM

/-- A new engine answers alike wherever it comes from. -/
theorem new_iff {d : Engine} (htext : d.text = t) (hmemo : d.memo = .empty) {i : RuleId}
    (hi : i < h.rules.length) (args : List Value) (o : Outcome) :
    (∃ n x, d.applyRule n (.grammar h) i args = .ok (o, x)) ↔
      ∃ n x, (Engine.startingAt t d.pos).applyRule n (.grammar h) i args = .ok (o, x) := by
  have hpaired : d.Paired t d.depth 0 h.rules.length 0 (fun _ => True) (Engine.startingAt t d.pos) :=
    { text := htext
      text' := rfl
      pos := rfl
      depth := rfl
      depth' := rfl
      found := fun _ _ _ _ => by rw [hmemo]; rfl
      others := trivial }
  have hT : TableLockstep (Engine.Paired t d.depth 0 h.rules.length 0 fun _ => True) (fun _ => True)
      (Shifted h.rules.length 0) := Engine.Paired.lockstep (fun _ _ _ _ => trivial) fun _ => trivial
  have hK : Shifted h.rules.length 0 i i := ⟨hi, (Nat.zero_add i).symm⟩
  have hself : h.Pairs h (fun op => op) (fun op => op) (Shifted h.rules.length 0) h.HasNode := by
    refine .of_rules Operator.changesCalls_id fun i r hr => ⟨r, ?_, rfl, rfl⟩
    rw [Nat.zero_add]
    exact hr
  constructor
  · rintro ⟨n, x, hrun⟩
    obtain ⟨x', ⟨k, hk⟩, -⟩ := hself.ends hT (fun _ => hM.calls_self) hK hpaired hrun
    exact ⟨k, x', hk k (Nat.le_refl k)⟩
  · rintro ⟨n, x, hrun⟩
    obtain ⟨x', ⟨k, hk⟩, -⟩ := hself.flip.ends hT.flip
      (fun _ hop hcall => (hM.calls_self hop hcall).flip) hK hpaired hrun
    exact ⟨k, x', hk k (Nat.le_refl k)⟩

/-- **Into the merged grammar.**  What a fresh engine of the linked grammar answers, the engine of the
    merged grammar answers. -/
theorem enters (hquiet : h.NeverReenters) {e e' : Engine} (hmerged : Engine.Merged g h t e e')
    (hp : t.IsBoundary e.pos) {i : RuleId} (hi : i < h.rules.length) {args : List Value} {o : Outcome}
    (hfresh : ∃ n x, (Engine.startingAt t e.pos).applyRule n (.grammar h) i args = .ok (o, x)) :
    ∃ after', Ends (fun n => e'.applyRule n (.grammar m) (g.rules.length + i) args) (o, after') ∧
      ∀ after, e.SameAnswers after → after.pos = o.cursor e.pos → Engine.Merged g h t after after' := by
  obtain ⟨s, hs, hpos, hhosted⟩ := hmerged.hosted hp
  rw [← hpos] at hfresh
  obtain ⟨n, s', hrun⟩ := (hs.answers_iff hquiet i args o).2 hfresh
  have hT := Engine.Hosted.lockstep g h t e'.memo.answer?
  obtain ⟨after', hends, hafter⟩ :=
    hM.pairs_added.ends hT (fun _ => hM.calls_added) ⟨hi, rfl⟩ hhosted hrun
  refine ⟨after', hends, fun after hsame hcursor => ?_⟩
  refine hmerged.resume (hs.applied hrun) hafter hsame ?_
  rw [hcursor, hs.pos_of_run hrun, hpos]

/-- **Out of the merged grammar.**  What the engine of the merged grammar answers, a fresh engine of the
    linked grammar answers. -/
theorem leaves (hquiet : h.NeverReenters) {e e' : Engine} (hmerged : Engine.Merged g h t e e')
    (hp : t.IsBoundary e.pos) {i : RuleId} (hi : i < h.rules.length) {n : Nat} {args : List Value}
    {o : Outcome} {after' : Engine}
    (hrun : e'.applyRule n (.grammar m) (g.rules.length + i) args = .ok (o, after')) :
    (∃ n x, (Engine.startingAt t e.pos).applyRule n (.grammar h) i args = .ok (o, x)) ∧
      ∀ after, e.SameAnswers after → after.pos = o.cursor e.pos → Engine.Merged g h t after after' := by
  obtain ⟨s, hs, hpos, hhosted⟩ := hmerged.hosted hp
  have hT := Engine.Hosted.lockstep g h t e'.memo.answer?
  obtain ⟨s', ⟨k, hk⟩, hafter⟩ := hM.pairs_added.flip.ends hT.flip
    (fun _ hop hcall => (hM.calls_added hop hcall).flip) ⟨hi, rfl⟩ hhosted hrun
  have hserved : s.applyRule k (.grammar h) i args = .ok (o, s') := hk k (Nat.le_refl k)
  constructor
  · rw [← hpos]
    exact (hs.answers_iff hquiet i args o).1 ⟨k, s', hserved⟩
  · intro after hsame hcursor
    refine hmerged.resume (hs.applied hserved) hafter hsame ?_
    rw [hcursor, hs.pos_of_run hserved, hpos]

end Grammar.Merges

/-! ## Calls across the link -/

omit [RegexLibrary] in
/-- A call across a link changes nothing of the engine but its cursor and its records. -/
theorem Engine.sameAnswers_returned (r : Runner) (grammar : String) (rule : RuleId) (e : Engine)
    (history : History) (o : Outcome) :
    e.SameAnswers (e.returned r grammar rule history o) ∧
      (e.returned r grammar rule history o).pos = o.cursor e.pos := by
  cases o with
  | matched stop value => exact ⟨⟨rfl, rfl, rfl⟩, rfl⟩
  | failed => exact ⟨⟨rfl, rfl, rfl⟩, rfl⟩

/-- A call through the memo table has asked for its key. -/
theorem Engine.applyRule_asks {n : Nat} {rs : RuleSet} {rule : RuleId} {args : List Value} {e m : Engine}
    {o : Outcome} (hrun : e.applyRule n rs rule args = .ok (o, m)) :
    ∃ moment ∈ m.history, moment.depth = e.depth ∧ moment.event.asks? = some ⟨rule, e.pos, args⟩ := by
  cases hfind : e.memo.find? ⟨rule, e.pos, args⟩ with
  | none =>
    obtain ⟨-, -, new, hnew, -⟩ := Engine.applyRule_extends hfind hrun
    refine ⟨⟨e.depth, .opened ⟨rule, e.pos, args⟩⟩, ?_, rfl, rfl⟩
    rw [hnew]
    exact List.mem_append_right new List.mem_cons_self
  | some entry =>
    rcases Engine.apply_eq_ok hrun with ⟨⟨⟨status, stop, value⟩, uses⟩, -, heq⟩ | ⟨hnone, -⟩
    · cases status <;> cases heq <;> exact ⟨_, List.mem_cons_self, rfl, rfl⟩
    · rw [hfind] at hnone
      cases hnone

namespace Grammar.Merges

variable {g h m : Grammar} {link : String} {rename : String → String} {t : Text}
  (hM : g.Merges h link rename m) (hquiet : h.NeverReenters)
include hM hquiet

/-- The call of the added rule follows the call across the link. -/
theorem added_follows {i : RuleId} (hi : i < h.rules.length) (n : Nat) (args : List Value) :
    CallFollows (Engine.Merged g h t) (History.Placed t)
      (Engine.callForeignRule n link (.grammar h) i args)
      fun k => Engine.applyRule k (.grammar m) (g.rules.length + i) args := by
  intro e o after hrun hC
  obtain ⟨inner, hinner, rfl⟩ := Engine.callForeign_eq_ok hrun
  let r : Runner := (RuleSet.grammar h).runner n
  have hextends : (e.crossing r link i).Extends inner :=
    extends_order.apply (extends_order.bodies n (.grammar h)) n i args _ o inner hinner
  have hCinner : inner.history.Placed t := by
    cases o with
    | matched stop value => exact hC
    | failed => exact hC.older
  have hCcrossing : (e.crossing r link i).history.Placed t := hextends.placed hCinner
  refine ⟨hCcrossing.older, fun e' hmerged => ?_⟩
  -- The crossing was noted, so it was on a boundary.
  have hp : t.IsBoundary e.pos := (hCcrossing _ List.mem_cons_self hmerged.depth).1 e.pos rfl
  obtain ⟨after', hends, hafter⟩ := hM.enters hquiet hmerged hp hi
    ((hM.new_iff (d := e.crossing r link i) hmerged.text rfl hi args o).1 ⟨n, inner, hinner⟩)
  obtain ⟨hsame, hpos⟩ := Engine.sameAnswers_returned r link i e inner.history o
  exact ⟨after', hends, hafter _ hsame hpos⟩

/-- The call across the link follows the call of the added rule. -/
theorem foreign_follows {i : RuleId} (hi : i < h.rules.length) (n : Nat) (args : List Value) :
    CallFollows (fun e' e => Engine.Merged g h t e e') (History.Placed t)
      (Engine.applyRule n (.grammar m) (g.rules.length + i) args)
      fun k => Engine.callForeignRule k link (.grammar h) i args := by
  intro e' o after' hrun hC
  have hextends : e'.Extends after' :=
    extends_order.apply (extends_order.bodies n (.grammar m)) n _ args _ o after' hrun
  refine ⟨hextends.placed hC, fun e hmerged => ?_⟩
  obtain ⟨moment, hmoment, hdepth, hasks⟩ := Engine.applyRule_asks hrun
  have hp : t.IsBoundary e.pos := by
    rw [← hmerged.pos]
    exact (hC moment hmoment (hdepth.trans hmerged.depth')).2 _ hasks
  obtain ⟨hfresh, hafter⟩ := hM.leaves hquiet hmerged hp hi hrun
  -- The rule is called what it is called with any fuel.
  let r : Runner := (RuleSet.grammar h).runner 0
  obtain ⟨k, inner, hinner⟩ :=
    (hM.new_iff (d := e.crossing r link i) hmerged.text rfl hi args o).2 hfresh
  have hends : Ends (fun k => (e.crossing r link i).applyRule k (.grammar h) i args) (o, inner) :=
    ⟨k, fun k' hk' => Engine.applyRule_of_le hk' hinner⟩
  obtain ⟨hsame, hpos⟩ := Engine.sameAnswers_returned r link i e inner.history o
  refine ⟨e.returned r link i inner.history o, ?_, hafter _ hsame hpos⟩
  simp only [Engine.callForeignRule, Engine.callForeign_eq]
  exact hends.map fun result => (result.1, e.returned r link i result.2.history result.1)

/-! ## Both ways -/

/-- Every call in the merged grammar follows the one that it stands for. -/
theorem calls_follow {op : Operator} (hop : g.HasNode op) (hcall : op.isCall) :
    g.CallPairs m (Shifted g.rules.length 0) op (op.redirect (.inlined link rename)) ∨
      ∀ n, Follows (Framed (Engine.Merged g h t) true) (History.Placed t) (g.eval (n + 1) op)
        fun k => m.eval (k + 1) (op.redirect (.inlined link rename)) := by
  rcases Operator.isCall_cases hcall with hcallee | hforeign
  · exact .inl (hM.calls_own hop hcallee)
  · refine .inr fun n => ?_
    rcases hM.foreign_cases hop hforeign with ⟨i, args, hi, hlinked, hadded⟩ | ⟨_, name, args, rfl, hsame⟩
    · simp only [hlinked, hadded]
      exact EngineLockstep.call (Framed.resolve_eq args) (hM.added_follows hquiet hi n)
    · rw [hsame]
      have hT := (Engine.Merged.lockstep g h t).engines fun he => he.depth'.trans he.depth.symm
      exact hT.eval_foreign g m hM.links (Framed.resolve_eq args) n

/-- Every call follows the one that stands for it in the merged grammar. -/
theorem calls_followed {op : Operator} (hop : g.HasNode op) (hcall : op.isCall) :
    m.CallPairs g (fun j i => Shifted g.rules.length 0 i j) (op.redirect (.inlined link rename)) op ∨
      ∀ n, Follows (Framed (fun e' e => Engine.Merged g h t e e') true) (History.Placed t)
        (m.eval (n + 1) (op.redirect (.inlined link rename))) fun k => g.eval (k + 1) op := by
  rcases Operator.isCall_cases hcall with hcallee | hforeign
  · exact .inl (hM.calls_own hop hcallee).flip
  · refine .inr fun n => ?_
    rcases hM.foreign_cases hop hforeign with ⟨i, args, hi, hlinked, hadded⟩ | ⟨_, name, args, rfl, hsame⟩
    · simp only [hlinked, hadded]
      exact EngineLockstep.call (Framed.resolve_eq args) (hM.foreign_follows hquiet hi n)
    · rw [hsame]
      have hT := (Engine.Merged.lockstep g h t).flip.engines fun he => he.depth.trans he.depth'.symm
      exact hT.eval_foreign m g hM.links.symm (Framed.resolve_eq args) n

/-- A rule ends in the merged grammar as it does in its own, and only then. -/
theorem ends_iff {rule : RuleId} (hrule : rule < g.rules.length) (args : List Value) {p : Nat}
    (hp : t.IsBoundary p) (o : Outcome) :
    (∃ n e, (Engine.startingAt t p).applyRule n (.grammar g) rule args = .ok (o, e)) ↔
      ∃ n e, (Engine.startingAt t p).applyRule n (.grammar m) rule args = .ok (o, e) := by
  have hT := Engine.Merged.lockstep g h t
  have hK : Shifted g.rules.length 0 rule rule := ⟨hrule, (Nat.zero_add rule).symm⟩
  have hstart : Engine.Merged g h t (Engine.startingAt t p) (Engine.startingAt t p) := .startingAt hp
  have hplaced : ∀ {n : Nat} {rs : RuleSet} {e : Engine},
      (Engine.startingAt t p).applyRule n rs rule args = .ok (o, e) → e.history.Placed t := by
    intro n rs e hrun
    let call : Task := .apply n rs rule args (Engine.startingAt t p)
    have hbegun : call.engine.HasRun t [] := .start hp
    exact (hbegun.called rfl hrun).placed
  constructor
  · rintro ⟨n, e, hrun⟩
    have hfollow := hM.pairs.apply_follows hT (fun _ => hM.calls_follow hquiet) hK n args
    obtain ⟨e', ⟨k, hk⟩, -⟩ := (hfollow _ o e hrun (hplaced hrun)).2 _ hstart
    exact ⟨k, e', hk k (Nat.le_refl k)⟩
  · rintro ⟨n, e', hrun⟩
    have hfollow := hM.pairs.flip.apply_follows hT.flip
      (fun _ => hM.calls_followed hquiet) hK n args
    obtain ⟨e, ⟨k, hk⟩, -⟩ := (hfollow _ o e' hrun (hplaced hrun)).2 _ hstart
    exact ⟨k, e, hk k (Nat.le_refl k)⟩

end Grammar.Merges

/-- On a boundary of the text, a call without an outcome has no end. -/
theorem diverges_of_not_ends {t : Text} {p : Nat} (hp : t.IsBoundary p) {rs : RuleSet} {rule : RuleId}
    {args : List Value}
    (h : ∀ o, ¬∃ n e, (Engine.startingAt t p).applyRule n rs rule args = .ok (o, e)) (n : Nat) :
    (Engine.startingAt t p).applyRule n rs rule args = .error .outOfFuel := by
  have hin : (Task.apply n rs rule args (Engine.startingAt t p)).InText t := ⟨rfl, .startingAt hp⟩
  cases hrun : (Engine.startingAt t p).applyRule n rs rule args with
  | ok result => exact absurd ⟨n, result.2, hrun⟩ (h result.1)
  | error stop =>
    cases stop with
    | outOfFuel => rfl
    | insideCharacter => exact absurd hrun hin.not_insideCharacter

/-- **Linking a grammar is adding its rules.**  Let a grammar be built with a link to a built grammar that
    calls rules of its own only and never re-enters, and let the declaration with the rules of the linked
    grammar added under new names be built too.  Then every rule of the first grammar keeps its name and
    its place, and called with any arguments on a fresh engine at any boundary of any text, it has one
    outcome in both grammars, or has no end in either. -/
theorem linking_is_merging {d d' : Declaration} {g h m : Grammar} {link : String}
    {rename : String → String} (hg : d.build = .ok g) (hh : d'.build = .ok h)
    (hlink : g.link? link = some (.grammar h))
    (hinside : ∀ r ∈ h.rules, ∀ op ∈ r.body.nodes, op.isForeign = false) (hquiet : h.NeverReenters)
    (hm : (d.merging link h rename).build = .ok m) {name : String} {rule : RuleId}
    (hrule : g.lookup name = some rule) (args : List Value) {t : Text} {p : Nat} (hp : t.IsBoundary p) :
    m.lookup name = some rule ∧
    ((∃ o, (∃ n e, (Engine.startingAt t p).applyRule n (.grammar g) rule args = .ok (o, e)) ∧
        ∃ n e, (Engine.startingAt t p).applyRule n (.grammar m) rule args = .ok (o, e)) ∨
      ((∀ n, (Engine.startingAt t p).applyRule n (.grammar g) rule args = .error .outOfFuel) ∧
        ∀ n, (Engine.startingAt t p).applyRule n (.grammar m) rule args = .error .outOfFuel)) := by
  have hM := Declaration.merges hg hh hlink hinside hm
  have hiff := hM.ends_iff hquiet (Grammar.lookup_lt hrule) args hp
  refine ⟨hM.lookup hrule, ?_⟩
  by_cases hends : ∃ o n e, (Engine.startingAt t p).applyRule n (.grammar g) rule args = .ok (o, e)
  · obtain ⟨o, hends⟩ := hends
    exact .inl ⟨o, hends, (hiff o).1 hends⟩
  · have hnot : ∀ o, ¬∃ n e, (Engine.startingAt t p).applyRule n (.grammar g) rule args = .ok (o, e) :=
      fun o ho => hends ⟨o, ho⟩
    exact .inr ⟨diverges_of_not_ends hp hnot, diverges_of_not_ends hp fun o ho => hnot o ((hiff o).2 ho)⟩

end

/-- Numbers, for other grammars. -/
def numbers : Declaration :=
  { name := "numbers"
    rules := [⟨"number", [], .collect (.plus (.call "digit" []))⟩, ⟨"digit", [], .range "0" "9"⟩]
    root := none
    links := [] }

/-- No rule of it can come back to itself. -/
def numbersGrammar : Grammar := .ofRules "numbers" numbers.rules 0 [] []

/-- Sums of numbers of the linked grammar, grown from the left. -/
def linkedSums : Declaration :=
  { name := "sums"
    rules := [⟨"sum", [], .choice
      [.sequence [.call "sum" [], .literal "+", .foreign "numbers" "number" []],
        .foreign "numbers" "number" []]⟩]
    root := none
    links := [("numbers", .grammar numbersGrammar)] }

/-- What the declaration builds. -/
def linkedSumsGrammar : Grammar := .ofRules "sums" linkedSums.rules 0 linkedSums.links [["sum", "sum"]]

/-- The names of the rules among those of the sums. -/
def amongSums (name : String) : String := if name = "number" then "summand" else "digit"

/-- Sums of numbers with the rules for numbers among their own. -/
def mergedSumsGrammar : Grammar :=
  .ofRules "sums"
    [⟨"sum", [], .choice
        [.sequence [.call "sum" [], .literal "+", .call "summand" []], .call "summand" []]⟩,
      ⟨"summand", [], .collect (.plus (.call "digit" []))⟩, ⟨"digit", [], .range "0" "9"⟩]
    0 linkedSums.links [["sum", "sum"]]

/-- The sum grows in both grammars.  The merged one finds its first number in the memo table in the last
    round. -/
theorem linking_is_merging_sums :
    linkedSums.build = .ok linkedSumsGrammar ∧
    (linkedSums.merging "numbers" numbersGrammar amongSums).build = .ok mergedSumsGrammar ∧
    ∃ e n e', (Engine.startingAt "12+3".toList 0).applyRule 20 (.grammar linkedSumsGrammar) 0 [] =
        .ok (.matched 4 (.str "3"), e) ∧
      (Engine.startingAt "12+3".toList 0).applyRule n (.grammar mergedSumsGrammar) 0 [] =
        .ok (.matched 4 (.str "3"), e') := by
  have hlinked : linkedSums.build = .ok linkedSumsGrammar := rfl
  have hmerged : (linkedSums.merging "numbers" numbersGrammar amongSums).build =
    .ok mergedSumsGrammar := rfl
  have hnumbers : numbers.build = .ok numbersGrammar := rfl
  have hquiet : numbersGrammar.NeverReenters := Declaration.neverReenters hnumbers (by decide) rfl
  obtain ⟨e, hrun⟩ := ends_with_outcome (x := (Engine.startingAt "12+3".toList 0).applyRule 20
    (.grammar linkedSumsGrammar) 0 []) (o := .matched 4 (.str "3")) (by decide +kernel)
  refine ⟨hlinked, hmerged, e, ?_⟩
  have hroot : linkedSumsGrammar.lookup "sum" = some 0 := by decide
  obtain ⟨-, ⟨o, ⟨n, e₁, hrun₁⟩, n', e', hrun'⟩ | ⟨hnever, -⟩⟩ := linking_is_merging hlinked hnumbers rfl
    (by decide) hquiet hmerged hroot [] (show Text.IsBoundary "12+3".toList 0 by decide)
  · obtain ⟨rfl, -⟩ := Prod.mk.inj (Engine.applyRule_unique hrun hrun₁)
    exact ⟨n', e', hrun, hrun'⟩
  · rw [hnever 20] at hrun
    cases hrun

end MemoPeg
