import MemoPeg.Proofs.Reentry

/-
  Engines that run one rule after another.

  A parser may be asked for one rule here and another one there, on the same engine.  What was found before is
  kept, and should make no difference but in speed.

  1. **Service (`Engine.Serves`)** — an engine that has only run rules of one grammar, from any boundaries
     of its text.
  2. **Invariant (`Serves.sound`)** — where rules never re-enter, the memo table of such an engine holds
     memo-free answers: each call is mirrored by its memo-free run.
  3. **The crux (`Serves.answers_iff`)** — what the engine answers next is what a fresh engine answers at
     the same place, and either of them answers where the other does.

  The way from one engine to the other leads over the memo-free run, backward from the one and forward to the
  other.  Both halves have been shown for engines in the middle of a run, and an engine between two calls is a
  special case.  With rules that re-enter it would be otherwise: a match that was found while another rule was
  growing stays in the table, and is not what a fresh engine would find.
-/

namespace MemoPeg

variable [RegexLibrary]

/-- The engine has only run rules of the grammar, from boundaries of the text. -/
def Engine.Serves (g : Grammar) (t : Text) (e : Engine) : Prop :=
  ∃ calls, e.HasRun t calls ∧ ∀ s o, (s, o) ∈ calls → s.Calls g

/-- A fresh engine at the same place, with the same furthest failure. -/
def Engine.cleared (e : Engine) : Engine := { Engine.startingAt e.text e.pos with furthest := e.furthest }

namespace Engine.Serves

variable {g : Grammar} {t : Text} {e : Engine}

/-- An engine that has run nothing yet. -/
theorem startingAt {p : Nat} (hp : t.IsBoundary p) : (Engine.startingAt t p).Serves g t :=
  ⟨[], .start hp, fun _ _ hmem => absurd hmem List.not_mem_nil⟩

/-- The cursor is put anywhere before the next call. -/
theorem moved (h : e.Serves g t) {p : Nat} (hp : t.IsBoundary p) :
    Engine.Serves g t { e with pos := p } := by
  obtain ⟨calls, hrun, hcalls⟩ := h
  exact ⟨calls, hrun.moved hp, hcalls⟩

/-- A call of a rule of the grammar is part of the service. -/
theorem applied (h : e.Serves g t) {n : Nat} {rule : RuleId} {args : List Value} {o : Outcome}
    {e' : Engine} (hends : e.applyRule n (.grammar g) rule args = .ok (o, e')) : e'.Serves g t := by
  obtain ⟨calls, hrun, hcalls⟩ := h
  let call : Task := .apply n (.grammar g) rule args e
  have hbefore : call.engine.HasRun t calls := hrun
  refine ⟨calls ++ [(call, o)], hbefore.called rfl hends, fun s o' hmem => ?_⟩
  rcases List.mem_append.1 hmem with hmem | hmem
  · exact hcalls s o' hmem
  · obtain ⟨rfl, -⟩ := Prod.mk.inj (List.mem_singleton.1 hmem)
    exact rfl

/-- The text stays. -/
theorem text (h : e.Serves g t) : e.text = t := by
  obtain ⟨calls, hrun, -⟩ := h
  exact hrun.inText.1

/-- Such an engine is no engine of a link. -/
theorem depth (h : e.Serves g t) : e.depth = 0 := by
  obtain ⟨calls, hrun, -⟩ := h
  exact hrun.depth

/-- It stays in its text. -/
theorem inText (h : e.Serves g t) : e.InText := by
  obtain ⟨calls, hrun, -⟩ := h
  exact hrun.inText.2

/-- Its cursor stands on a boundary. -/
theorem boundary (h : e.Serves g t) : t.IsBoundary e.pos := h.text ▸ h.inText.cursor

/-- Nothing has re-entered in it, if rules never do. -/
theorem quiet (hg : g.NeverReenters) (h : e.Serves g t) : e.history.Quiet := by
  obtain ⟨calls, hrun, hcalls⟩ := h
  exact hg t calls e hrun hcalls

/-- A call through the memo table leaves the cursor where its outcome says. -/
theorem pos_of_run (h : e.Serves g t) {n : Nat} {rs : RuleSet} {rule : RuleId} {args : List Value}
    {o : Outcome} {e' : Engine} (hends : e.applyRule n rs rule args = .ok (o, e')) :
    e'.pos = o.cursor e.pos := by
  have hin : (Task.apply n rs rule args e).InText t := ⟨h.text, h.inText⟩
  exact (Task.advances hin hends).pos

end Engine.Serves

section

variable {g : Grammar} {t : Text} {e : Engine}

/-- The memo table of an engine at rest, with memo-free answers for all rules. -/
abbrev Engine.Sound (g : Grammar) (t : Text) (e : Engine) : Prop :=
  e.memo.Sound g t (fun _ => True) (fun _ => none) (fun _ => False) e.furthest.offset

/-- An engine with a sound memo table is mirrored by a fresh one. -/
theorem Mirrors.cleared (hsound : e.Sound g t) (htext : e.text = t) (hdepth : e.depth = 0) :
    Mirrors g t (fun _ => True) (fun _ => none) e.history (fun _ => False) e.cleared e where
  bare := ⟨htext, rfl, rfl, rfl⟩
  text := rfl
  pos := rfl
  depth := hdepth
  furthest := rfl
  history _ hm _ := .inl hm
  memo := hsound

/-- **Calls keep a memo table sound**, where nothing re-enters. -/
theorem Engine.Serves.sound (hg : g.NeverReenters) (h : e.Serves g t) : e.Sound g t := by
  obtain ⟨calls, hrun, hcalls⟩ := h
  induction hrun with
  | start hp => exact .empty
  | moved _ _ ih => exact ih hcalls
  | @called calls s o e' hbefore hcall hends ih =>
    have hearlier : ∀ s' o', (s', o') ∈ calls → s'.Calls g := fun s' o' hmem =>
      hcalls s' o' (List.mem_append_left _ hmem)
    have hmirrors := Mirrors.cleared (ih hearlier) hbefore.inText.1 hbefore.depth
    have hquiet : e'.history.Quiet := hg t _ e' (hbefore.called hcall hends) hcalls
    have hback : ∀ k, BackwardAt g t (fun _ => True) (fun _ => none) s.engine.history k :=
      Mirrors.backward g.closedUnderCalls_all
    -- The call is mirrored, be it through the memo table or past it.
    obtain ⟨d', hm⟩ : ∃ d', MirroredBy g t (fun _ => True) (fun _ => none) s.engine.history e' d' := by
      have hgrammar : s.Calls g := hcalls s o (List.mem_append_right _ List.mem_cons_self)
      cases s with
      | apply n rs rule args e =>
        obtain rfl : rs = .grammar g := hgrammar
        obtain ⟨-, hfollow⟩ :=
          backward_apply g.closedUnderCalls_all (fun k _ => hback k) trivial args e o e' hends hquiet
        obtain ⟨d', -, hm⟩ := hfollow _ (hmirrors.relax fun _ _ => trivial)
        exact ⟨d', hm⟩
      | invoke n rs rule args e =>
        obtain rfl : rs = .grammar g := hgrammar
        obtain ⟨-, hfollow⟩ :=
          backward_invoke g.closedUnderCalls_all (fun k _ => hback k) trivial args e o e' hends hquiet
        obtain ⟨d', -, hm⟩ := hfollow _ (hmirrors.relax fun _ _ => trivial)
        exact ⟨d', hm⟩
      | cross _ _ _ _ _ _ | phrase _ _ _ => exact hgrammar.elim
    have hrests := (hbefore.called hcall hends).rests
    refine { hm.memo with trying := fun key entry detected _ hfind hanswer => ?_ }
    exact absurd ⟨entry, hfind, by rw [Entry.isInProgress, hanswer]⟩ (hrests key)

/-- A call ends in the engine with the outcome that the key has without a memo table, and only then. -/
theorem Engine.Serves.ends_iff (hg : g.NeverReenters) (h : e.Serves g t) (rule : RuleId)
    (args : List Value) (o : Outcome) : (∃ n e', e.applyRule n (.grammar g) rule args = .ok (o, e')) ↔
      ∃ reach, Answers g t ⟨rule, e.pos, args⟩ o reach := by
  have hmirrors := Mirrors.cleared (h.sound hg) h.text h.depth
  have hbare : e.cleared.Bare t e.pos := hmirrors.bare
  constructor
  · rintro ⟨n, e', hrun⟩
    have hquiet : e'.history.Quiet := (h.applied hrun).quiet hg
    obtain ⟨-, hfollow⟩ := backward_apply g.closedUnderCalls_all
      (fun k _ => Mirrors.backward g.closedUnderCalls_all k) trivial args e o e' hrun hquiet
    obtain ⟨d', ⟨k, hk⟩, hm⟩ := hfollow _ (hmirrors.relax fun _ _ => trivial)
    have hfree : e.cleared.invokeRule k (.grammar g.memoFree) rule args = .ok (o, d') :=
      hk k (Nat.le_refl k)
    obtain ⟨reach, hanswers, -⟩ :=
      @Answers.of_run _ g t ⟨rule, e.pos, args⟩ o k e.cleared d' hbare hfree hm.bare.memo
    exact ⟨reach, hanswers⟩
  · rintro ⟨reach, hanswers⟩
    obtain ⟨-, d', ⟨k, hk⟩, -⟩ := hanswers.ends hbare
    have hfollow : CallFollows (Mirrors g t (fun _ => True) (fun _ => none) e.history fun _ => False)
        (fun _ => True) (Engine.invokeRule k (.grammar g.memoFree) rule args)
        fun m => Engine.applyRule m (.grammar g) rule args :=
      forward_apply g.closedUnderCalls_all (fun j _ => Mirrors.forward g.closedUnderCalls_all j)
        (fun _ hkey => False.elim hkey) trivial args
    obtain ⟨e', ⟨n, hn⟩, -⟩ := (hfollow _ o d' (hk k (Nat.le_refl k)) trivial).2 e hmirrors
    exact ⟨n, e', hn n (Nat.le_refl n)⟩

/-- **What an engine has run before does not matter**: it answers a call as a fresh engine does. -/
theorem Engine.Serves.answers_iff (hg : g.NeverReenters) (h : e.Serves g t) (rule : RuleId)
    (args : List Value) (o : Outcome) :
    (∃ n e', e.applyRule n (.grammar g) rule args = .ok (o, e')) ↔
      ∃ n e', (Engine.startingAt t e.pos).applyRule n (.grammar g) rule args = .ok (o, e') := by
  have hfresh : (Engine.startingAt t e.pos).Serves g t := .startingAt h.boundary
  rw [h.ends_iff hg, hfresh.ends_iff hg]
  exact Iff.rfl

end

end MemoPeg
