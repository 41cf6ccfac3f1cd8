import MemoPeg.Proofs.Cursor
import MemoPeg.Proofs.Memoization

/-
  What an operator matches at a place, whatever is known there.

  Statements about rules ("if `A` matches at this place, then …") should not speak of engines.  But an operator
  runs in an engine, and an engine in the middle of a run has a memo table.  This module makes the outcome at
  a place a notion of its own, and shows that it is the outcome in the middle of a run as well.

  1. **Settling (`Grammar.Settles`)** — an operator ends on a fresh engine without a re-entry.  Its
     outcome is then a fact about the grammar, the text, the place and the scope.
  2. **Readiness (`Engine.Ready`)** — an engine in the middle of a run: what its memo table says of the
     rules in question is sound, whatever it says of others.
  3. **Memo-free runs (`Grammar.Settles.iff_memoFree`)** — an operator settles just where its memo-free
     run ends, and settles on the outcome of that run.
  4. **The crux (`Grammar.Settles.inContext`)** — an operator that settles has the same outcome in every
     engine that is ready, and leaves it ready.  From the fresh engine we go back to the memo-free
     run and from there forward to the engine at hand.

  In 2 the rules in question are those that the operator can reach.  Of a left recursive rule that is being
  tried the table says something that is not sound; an operator that cannot reach that rule does not mind.
  This is how the parts of a left recursive rule are dealt with while the rule itself is growing.

  The direct way from the fresh engine to the one at hand is barred: the two memo tables have nothing to do
  with each other, so no run of the one can be followed entry by entry in the other.
-/

namespace MemoPeg

/-! ## The answer that is held for a key -/

/-- The entry of the key has this answer. -/
def Engine.Holds (key : Key) (answer : Answer) (e : Engine) : Prop :=
  (e.memo.find? key).map (·.answer) = some answer

namespace Engine.Holds

variable {e : Engine} {key : Key} {answer : Answer}

/-- A call that is opened has the answer of a rule that is being tried. -/
theorem opening (e : Engine) (key : Key) : (e.opening key).Holds key (.parked (.inProgress false) key.pos) := by
  show (((e.memo.start key).find? key).map (·.answer)) = _
  rw [Memo.find?_start, if_pos rfl]
  rfl

/-- An entry is what the memo table says of its key. -/
theorem of_find? (h : e.Holds key answer) {e' : Engine}
    (heq : e'.memo.find? key = e.memo.find? key) : e'.Holds key answer := by
  unfold Engine.Holds
  rw [heq]
  exact h

/-- Answers are read from the memo table. -/
theorem of_memo (h : e.Holds key answer) {e' : Engine} (heq : e'.memo = e.memo) :
    e'.Holds key answer := h.of_find? (heq ▸ rfl)

/-- Using an entry leaves its answer. -/
theorem use (h : e.Holds key answer) :
    ({ e with memo := e.memo.use key } : Engine).Holds key answer := by
  show (((e.memo.use key).find? key).map (·.answer)) = _
  rw [Memo.use, Memo.find?_modify, if_pos rfl, Option.map_map]
  exact h

/-- An entry that exists takes the answer that is recorded. -/
theorem settle (h : e.Holds key answer) (answer' : Answer) :
    (e.settle key answer').Holds key answer' := by
  show (((e.memo.settle key answer').find? key).map (·.answer)) = _
  rw [Memo.settle, Memo.find?_modify, if_pos rfl]
  obtain ⟨entry, hentry, -⟩ := Option.map_eq_some_iff.1 h
  rw [hentry]
  rfl

/-- A settled key leaves every other entry as it was. -/
theorem settle_other (h : e.Holds key answer) {other : Key} (hne : other ≠ key)
    (answer' : Answer) : (e.settle other answer').Holds key answer := by
  show (((e.memo.settle other answer').find? key).map (·.answer)) = _
  rw [Memo.settle, Memo.find?_modify, if_neg hne]
  exact h

/-- Whether a rule has called itself is read from its answer. -/
theorem sawItself (h : e.Holds key answer) :
    e.sawItself key = decide (answer.status = .inProgress true) := by
  obtain ⟨entry, hentry, rfl⟩ := Option.map_eq_some_iff.1 h
  simp only [Engine.sawItself, hentry]

/-- An answer that is held in the text fits it. -/
theorem fits (h : e.Holds key answer) (hin : e.InText) : answer.Fits e.text key.pos := by
  obtain ⟨entry, hentry, rfl⟩ := Option.map_eq_some_iff.1 h
  exact hin.fits key entry hentry

end Engine.Holds

/-! ## Settling and readiness -/

variable [RegexLibrary]

/-- On a fresh engine at the place the operator ends with the outcome, and no rule re-enters. -/
def Grammar.Settles (g : Grammar) (t : Text) (op : Operator) (p : Nat) (scope : Scope)
    (o : Outcome) : Prop :=
  ∃ n f, g.eval n op ⟨Engine.startingAt t p, scope⟩ = .ok (o, f) ∧ f.engine.history.Quiet

/-- The engine is in the text, and what its memo table says of the rules in `S` is sound. -/
structure Engine.Ready (g : Grammar) (t : Text) (S : RuleId → Prop) (e : Engine) : Prop where
  text : e.text = t
  depth : e.depth = 0
  inText : e.InText
  memo : e.memo.Sound g t S e.memo.find? (fun _ => False) e.furthest.offset

/-- The entries of rules outside `S` are the same in both engines. -/
def Engine.SameBut (S : RuleId → Prop) (e e' : Engine) : Prop :=
  ∀ key, ¬S key.rule → e'.memo.find? key = e.memo.find? key

namespace Engine.Ready

variable {g : Grammar} {t : Text} {S : RuleId → Prop} {e : Engine}

/-- A fresh engine is ready. -/
theorem startingAt {p : Nat} (hp : t.IsBoundary p) : (Engine.startingAt t p).Ready g t S where
  text := rfl
  depth := rfl
  inText := .startingAt hp
  memo := .empty

/-- A change of entries of other rules, of the cursor and of the records keeps an engine ready. -/
theorem change (h : e.Ready g t S) {e' : Engine} (htext : e'.text = e.text)
    (hdepth : e'.depth = e.depth) (hin : e'.InText)
    (hfar : e.furthest.offset ≤ e'.furthest.offset)
    (hmemo : ∀ key, S key.rule → e'.memo.find? key = e.memo.find? key) : e'.Ready g t S where
  text := htext.trans h.text
  depth := hdepth.trans h.depth
  inText := hin
  memo :=
    { elsewhere := fun _ _ => rfl
      trying := fun key entry detected hS hfind =>
        h.memo.trying key entry detected hS ((hmemo key hS).symm.trans hfind)
      sound := fun key entry hS hfind =>
        (h.memo.mono hfar).sound key entry hS ((hmemo key hS).symm.trans hfind) }

/-- The cursor may be moved to any boundary. -/
theorem move (h : e.Ready g t S) {p : Nat} (hp : t.IsBoundary p) :
    ({ e with pos := p } : Engine).Ready g t S := by
  have hp' : e.text.IsBoundary p := h.text.symm ▸ hp
  exact h.change rfl rfl (h.inText.move hp') (Nat.le_refl _) fun _ _ => rfl

/-- The last result is not looked at. -/
theorem result (h : e.Ready g t S) (v : Value) : ({ e with result := v } : Engine).Ready g t S :=
  h.change rfl rfl (h.inText.result v) (Nat.le_refl _) fun _ _ => rfl

/-- Neither is the history. -/
theorem note (h : e.Ready g t S) (event : Event) : (e.note event).Ready g t S :=
  h.change rfl rfl (h.inText.note event) (Nat.le_refl _) fun _ _ => rfl

/-- A failure may be noted; answers were given at or before the furthest one. -/
theorem blame (h : e.Ready g t S) (culprit : Culprit) (p : Nat) :
    (e.blame culprit p).Ready g t S := by
  refine h.change rfl rfl (h.inText.blame culprit p) ?_ fun _ _ => rfl
  show e.furthest.offset ≤ (e.furthest.mark culprit p).offset
  rw [Furthest.offset_mark]
  omega

/-- A call of another rule may be opened. -/
theorem opening (h : e.Ready g t S) {key : Key} (hkey : ¬S key.rule) :
    (e.opening key).Ready g t S := by
  refine h.change rfl rfl (h.inText.opening key) (Nat.le_refl _) fun other hS => ?_
  show (e.memo.start key).find? other = _
  rw [Memo.find?_start, if_neg (Key.ne_of_rule hS hkey).symm]

/-- An answer may be recorded for another rule, if it fits the text. -/
theorem settle (h : e.Ready g t S) {key : Key} (hkey : ¬S key.rule) {answer : Answer}
    (hanswer : answer.Fits t key.pos) : (e.settle key answer).Ready g t S := by
  have hin : (e.settle key answer).InText := h.inText.settle key (h.text.symm ▸ hanswer)
  refine h.change rfl rfl hin (Nat.le_refl _) fun other hS => ?_
  show (e.memo.settle key answer).find? other = _
  rw [Memo.settle, Memo.find?_modify, if_neg (Key.ne_of_rule hS hkey).symm]

/-- The entry of another rule may be used. -/
theorem use (h : e.Ready g t S) {key : Key} (hkey : ¬S key.rule) :
    ({ e with memo := e.memo.use key } : Engine).Ready g t S := by
  refine h.change rfl rfl (h.inText.use key) (Nat.le_refl _) fun other hS => ?_
  show (e.memo.use key).find? other = _
  rw [Memo.use, Memo.find?_modify, if_neg (Key.ne_of_rule hS hkey).symm]

end Engine.Ready

omit [RegexLibrary] in
/-- What is held for a rule that was not touched is held afterwards. -/
theorem Engine.SameBut.holds {S : RuleId → Prop} {e e' : Engine} (h : e.SameBut S e') {key : Key}
    (hkey : ¬S key.rule) {answer : Answer} (hans : e.Holds key answer) : e'.Holds key answer :=
  hans.of_find? (h key hkey)

/-- A history can be checked for re-entries. -/
instance (h : History) : Decidable h.Quiet :=
  inferInstanceAs (Decidable (∀ m ∈ h, m.event.isReEntry → 0 < m.depth))

namespace Grammar.Settles

variable {g : Grammar} {t : Text} {S : RuleId → Prop} {op : Operator} {p : Nat} {scope : Scope}
  {o : Outcome}

/-- A run that has been computed settles the operator. -/
theorem of_run {n : Nat} (h : ((g.eval n op ⟨Engine.startingAt t p, scope⟩).map fun r =>
    (r.1, decide r.2.engine.history.Quiet)).toOption = some (o, true)) :
    g.Settles t op p scope o := by
  cases hrun : g.eval n op ⟨Engine.startingAt t p, scope⟩ with
  | error stop => rw [hrun] at h; cases h
  | ok r =>
    rw [hrun] at h
    obtain ⟨hout, hquiet⟩ := Prod.mk.inj (Option.some.inj h)
    exact ⟨n, r.2, by rw [hrun, ← hout], of_decide_eq_true hquiet⟩

/-- What an operator settles on is unique. -/
theorem unique {o' : Outcome} (h : g.Settles t op p scope o) (k : g.Settles t op p scope o') :
    o = o' := by
  obtain ⟨n, f, hrun, -⟩ := h
  obtain ⟨n', f', hrun', -⟩ := k
  have later := fun m n hmn => Grammar.eval_noLater m n hmn g op ⟨Engine.startingAt t p, scope⟩
  have hends := (Ends.of_noLater later hrun).unique (.of_noLater later hrun')
  exact congrArg Prod.fst hends

/-- A match does not end before its start, and ends in the text. -/
theorem matched_le (hp : t.IsBoundary p) {stop : Nat} {v : Value}
    (h : g.Settles t op p scope (.matched stop v)) : p ≤ stop ∧ t.IsBoundary stop := by
  obtain ⟨n, f, hrun, -⟩ := h
  have had := (advances.everywhere n).2.1 g op _ _ f hrun (.startingAt hp)
  have hcursor := had.inText.cursor
  rw [had.text, had.pos] at hcursor
  exact ⟨had.le, hcursor⟩

/-- **Settling is a memo-free matter.**  An operator settles where its memo-free run ends, with the same
    outcome. -/
theorem iff_memoFree : g.Settles t op p scope o ↔
    ∃ n f, g.memoFree.eval n op.memoFree ⟨Engine.startingAt t p, scope⟩ = .ok (o, f) := by
  have hop : op.Within g (fun _ => True) true :=
    ⟨fun _ _ _ _ => trivial, fun hs => by cases hs⟩
  have hfresh := fun busy => Mirrors.startingAt g t (fun _ => True) busy p
  constructor
  · rintro ⟨n, f, hrun, hquiet⟩
    have hback : BackwardAt g t (fun _ => True) (fun _ => none) [] n :=
      Mirrors.backward g.closedUnderCalls_all n
    obtain ⟨f', ⟨k, hk⟩, -⟩ :=
      (hback true op hop _ o f hrun hquiet).2 ⟨_, scope⟩ ⟨hfresh _, fun _ => rfl⟩
    exact ⟨k, f', hk k (Nat.le_refl k)⟩
  · rintro ⟨n, f, hrun⟩
    have hforward : ForwardAt g t (fun _ => True) (fun _ => none) [] n :=
      Mirrors.forward g.closedUnderCalls_all n
    obtain ⟨f', ⟨k, hk⟩, hm, -⟩ := (hforward (fun _ => False) (fun _ hkey => False.elim hkey) true op
      hop _ o f hrun trivial).2 ⟨_, scope⟩ ⟨hfresh _, fun _ => rfl⟩
    refine ⟨k, f', hk k (Nat.le_refl k), fun m hmem hre => ?_⟩
    exact ((hm.history m hmem hre).resolve_left List.not_mem_nil).1

/-- **Settled in every context.**  An operator that settles ends with the same outcome in every engine
    that is ready at the place.  It leaves the engine ready and changes no entry of a rule that it
    cannot reach.  If it does not look at its scope, the scope may be another. -/
theorem inContext (h : g.Settles t op p scope o) (hS : g.ClosedUnderCalls S) {sees : Bool}
    (hop : op.Within g S sees) {e : Engine} (he : e.Ready g t S) (hpos : e.pos = p) (scope' : Scope)
    (hscope : sees = true → scope' = scope) :
    ∃ e' scope'', Ends (fun n => g.eval n op ⟨e, scope'⟩) (o, ⟨e', scope''⟩) ∧ e'.Ready g t S ∧
      e.SameBut S e' ∧ e'.pos = o.cursor p := by
  obtain ⟨k, f, hfree⟩ := iff_memoFree.1 h
  -- The same memo-free run, with the furthest failure of the engine at hand.
  let d : Engine := { Engine.startingAt t p with furthest := e.furthest }
  have hover : Frame.Over [] e.furthest.offset ⟨Engine.startingAt t p, scope⟩ ⟨d, scope⟩ :=
    { engine := ⟨rfl, rfl, rfl, rfl, rfl, (Nat.zero_max _).symm⟩
      scope := rfl }
  obtain ⟨⟨o₂, f₂⟩, hfree', ho₂, -⟩ :=
    ((ignoresRecords.everywhere k).2.1 g.memoFree op.memoFree _ _ _ _ hover).exists_right hfree
  cases ho₂
  -- From there forward to the engine at hand.
  have hready : Mirrors g t S e.memo.find? e.history (fun _ => False) d e :=
    { bare := ⟨rfl, rfl, rfl, rfl⟩
      text := he.text
      pos := hpos
      depth := he.depth
      furthest := rfl
      history := fun m hm _ => .inl hm
      memo := he.memo }
  have hforward : ForwardAt g t S e.memo.find? e.history k := Mirrors.forward hS k
  obtain ⟨f₃, hends, hm, -⟩ :=
    (hforward (fun _ => False) (fun _ hkey => False.elim hkey) sees op hop _ o f₂ hfree' trivial).2
      ⟨e, scope'⟩ ⟨hready, hscope⟩
  obtain ⟨m, hm₃⟩ := hends
  have had := (advances.everywhere m).2.1 g op _ o f₃ (hm₃ m (Nat.le_refl m)) he.inText
  refine ⟨f₃.engine, f₃.scope, ⟨m, hm₃⟩, ?_, hm.memo.elsewhere, hpos ▸ had.pos⟩
  exact
    { text := hm.text.trans hm.bare.text
      depth := hm.depth.trans hm.bare.depth
      inText := had.inText
      memo := { hm.memo with elsewhere := fun _ _ => rfl } }

end Grammar.Settles

end MemoPeg
