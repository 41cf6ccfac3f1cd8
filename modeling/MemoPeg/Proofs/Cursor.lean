import MemoPeg.Proofs.Records

/-
  Where runs leave the cursor.

  1. **Invariant (`Engine.InText`)** — the cursor stands between two characters of the text or at an end
     of it, and so does the end of every match in the memo table, which is never before its start.
     Every other entry is parked: its end is where its key is, and it has no value.
  2. **Specification (`Engine.Advanced`)** — a run leaves the cursor at the end of its match, which is
     not before where it began, and where it began if it fails; and the invariant holds again.
  3. **The crux (`advances`)** — every way of making a step keeps this; a reading moves over a slice of
     the text, and a growing rule only ever goes from an end to a later one.

  A call that finds an entry sets the cursor to the end that is stored there, whatever the status of the
  entry is.  So that a failure leaves the cursor where it began is a fact about the memo table, and no
  call shows it by itself: it is right because failures and calls in progress were parked when they were
  stored.  Growth needs the invariant for its key too, since each round begins there and not where the
  cursor is.
-/

namespace MemoPeg

/-! ## Boundaries -/

/-- A boundary is not behind the end of the text. -/
theorem Text.IsBoundary.le_size {t : Text} {n : Nat} (h : t.IsBoundary n) : n ≤ t.size := by
  obtain ⟨s, r, rfl, rfl⟩ := Text.isBoundary_iff.1 h
  rw [Text.size_append]
  omega

/-- A slice begins no later than it ends, and it ends on a boundary. -/
theorem Text.boundaries_of_slice {t : Text} {start stop : Nat} (h : (t.slice start stop).isSome) :
    start ≤ stop ∧ t.IsBoundary stop := by
  obtain ⟨m, hm⟩ := Option.isSome_iff_exists.1 h
  obtain ⟨s, r, rfl, rfl, rfl⟩ := Text.slice_eq_some_iff.1 hm
  refine ⟨by omega, Text.isBoundary_iff.2 ⟨s ++ m, r, rfl, ?_⟩⟩
  rw [Text.size_append]

/-! ## The invariant -/

/-- What may be recorded of a rule at an offset of a text: a match that ends on a boundary and not
    before the offset, or else that offset itself and no value. -/
def Answer.Fits (t : Text) (p : Nat) (answer : Answer) : Prop :=
  match answer.status with
  | .matched => p ≤ answer.stop ∧ t.IsBoundary answer.stop
  | .inProgress _ | .failed => answer.stop = p ∧ answer.value = .nil

/-- The cursor is on a boundary of the text, and all that the memo table has recorded fits the text. -/
structure Engine.InText (e : Engine) : Prop where
  cursor : e.text.IsBoundary e.pos
  fits : e.memo.AllAnswers fun key answer => answer.Fits e.text key.pos

/-- A run with this outcome has gone from the first engine to the second. -/
structure Engine.Advanced (o : Outcome) (e e' : Engine) : Prop where
  text : e'.text = e.text
  pos : e'.pos = o.cursor e.pos
  le : e.pos ≤ o.cursor e.pos
  inText : e'.InText

/-- A stored match fits if it ends on a boundary, no earlier than its key begins. -/
theorem Answer.fits_matched {t : Text} {p stop : Nat} {value : Value} :
    (Answer.matched stop value).Fits t p ↔ p ≤ stop ∧ t.IsBoundary stop := Iff.rfl

/-- What is not a match fits if and only if it is parked. -/
theorem Answer.fits_iff_parked {t : Text} {p : Nat} {answer : Answer} (h : answer.status ≠ .matched) :
    answer.Fits t p ↔ answer = .parked answer.status p := by
  obtain ⟨status, stop, value⟩ := answer
  cases status with
  | matched => exact absurd rfl h
  | inProgress detected => simp [Fits]
  | failed => simp [Fits]

/-- A fresh engine on a boundary is in its text: its memo table is empty. -/
theorem Engine.InText.startingAt {t : Text} {p : Nat} (h : t.IsBoundary p) :
    (Engine.startingAt t p).InText := ⟨h, Memo.allAnswers_empty⟩

namespace Engine.InText

variable {e : Engine}

/-- What is not a match is parked at its key. -/
theorem parked (h : e.InText) {key : Key} {entry : Entry} (hfind : e.memo.find? key = some entry)
    (hstatus : entry.answer.status ≠ .matched) :
    entry.answer = .parked entry.answer.status key.pos :=
  (Answer.fits_iff_parked hstatus).1 (h.fits key entry hfind)

/-- The cursor may be moved to any boundary. -/
theorem move (h : e.InText) {p : Nat} (hp : e.text.IsBoundary p) :
    ({ e with pos := p } : Engine).InText := ⟨hp, h.fits⟩

/-- The result is no part of it. -/
theorem result (h : e.InText) (v : Value) : ({ e with result := v } : Engine).InText :=
  ⟨h.cursor, h.fits⟩

/-- The history is no part of it. -/
theorem note (h : e.InText) (event : Event) : (e.note event).InText := ⟨h.cursor, h.fits⟩

/-- Blaming a culprit keeps the engine in its text. -/
theorem blame (h : e.InText) (culprit : Culprit) (p : Nat) : (e.blame culprit p).InText :=
  ⟨h.cursor, h.fits⟩

/-- A new entry is in progress and parked at its key. -/
theorem opening (h : e.InText) (key : Key) : (e.opening key).InText :=
  ⟨h.cursor, h.fits.start ⟨rfl, rfl⟩⟩

/-- Counting a use changes no answer. -/
theorem use (h : e.InText) (key : Key) : ({ e with memo := e.memo.use key } : Engine).InText :=
  ⟨h.cursor, h.fits.use key⟩

/-- An answer may be recorded if it fits. -/
theorem settle (h : e.InText) (key : Key) {answer : Answer} (hanswer : answer.Fits e.text key.pos) :
    (e.settle key answer).InText := ⟨h.cursor, h.fits.settle hanswer⟩

/-- What a growth ends with is in the text, and not before where its key is. -/
theorem grown (h : e.InText) {key : Key} (hkey : e.text.IsBoundary key.pos) {o : Outcome}
    {e' : Engine} (heq : (o, e') = e.grown key) :
    e'.text = e.text ∧ e'.pos = o.cursor key.pos ∧ key.pos ≤ o.cursor key.pos ∧ e'.InText := by
  rcases e.grown_cases key with ⟨entry, hfind, hgrown⟩ | ⟨-, hgrown⟩ <;> rw [hgrown] at heq <;>
    cases heq
  · have hfits : entry.answer.Fits e.text key.pos := h.fits key entry hfind
    obtain ⟨hle, hstop⟩ : key.pos ≤ entry.answer.stop ∧ e.text.IsBoundary entry.answer.stop := by
      by_cases hstatus : entry.answer.status = .matched
      · rw [Answer.Fits, hstatus] at hfits
        exact hfits
      · rw [(Answer.fits_iff_parked hstatus).1 hfits]
        exact ⟨Nat.le_refl _, hkey⟩
    exact ⟨rfl, rfl, hle, (h.move hstop).result _⟩
  · exact ⟨rfl, rfl, Nat.le_refl _, h.move hkey⟩

end Engine.InText

/-! ## Every run advances -/

/-- Runs of the step advance. -/
def Step.Advances (s : Step) : Prop :=
  ∀ f o g, s f = .ok (o, g) → f.engine.InText → f.engine.Advanced o g.engine

/-- Calls advance. -/
def CallAdvances (x : Engine → Run (Outcome × Engine)) : Prop :=
  ∀ e o e', x e = .ok (o, e') → e.InText → e.Advanced o e'

/-- An engine that has not moved, or has moved back, has advanced by a failure. -/
theorem Engine.Advanced.failed {e e' : Engine} (htext : e'.text = e.text) (hpos : e'.pos = e.pos)
    (h : e'.InText) : e.Advanced .failed e' := ⟨htext, hpos, Nat.le_refl _, h⟩

/-- A run ends on a boundary. -/
theorem Engine.Advanced.boundary {o : Outcome} {e e' : Engine} (h : e.Advanced o e') :
    e'.text.IsBoundary (o.cursor e.pos) := by
  rw [← h.pos]
  exact h.inText.cursor

/-- A match may be recorded for a call that began where the run did. -/
theorem Engine.Advanced.settle {e e' : Engine} {stop : Nat} {v : Value}
    (h : e.Advanced (.matched stop v) e') {key : Key} (hkey : key.pos = e.pos) :
    (e'.settle key (.matched stop v)).InText := by
  exact h.inText.settle key ⟨hkey ▸ h.le, h.boundary⟩

namespace Step.Advances

/-- The rest of a sequence advances from where the sequence began. -/
theorem sequenceFrom {start : Frame} (hstart : start.engine.text.IsBoundary start.engine.pos) :
    ∀ (steps : List Step), (∀ s ∈ steps, s.Advances) → ∀ (value : Value) f o g,
      Step.sequenceFrom start steps value f = .ok (o, g) → f.engine.InText →
        f.engine.text = start.engine.text → start.engine.pos ≤ f.engine.pos →
          start.engine.Advanced o g.engine := by
  intro steps
  induction steps with
  | nil =>
    intro _ value f o g hrun hin htext hle
    cases hrun
    exact ⟨htext, rfl, hle, hin⟩
  | cons s ss ih =>
    intro hs value f o g hrun hin htext hle
    rcases Step.sequenceFrom_cons_eq_ok hrun with ⟨stop, v, m, hm, hrest⟩ | ⟨m, hm, rfl, rfl⟩
    · have had := hs s List.mem_cons_self f _ m hm hin
      have hmpos : f.engine.pos ≤ m.engine.pos := by rw [had.pos]; exact had.le
      exact ih (fun t ht => hs t (List.mem_cons_of_mem s ht)) v m o g hrest had.inText
        (had.text.trans htext) (by omega)
    · have had := hs s List.mem_cons_self f _ m hm hin
      have htext' : m.engine.text = start.engine.text := had.text.trans htext
      -- A failure goes back to the start of the whole sequence.
      refine .failed htext' rfl (had.inText.move ?_)
      rw [htext']
      exact hstart

/-- A choice: a failed alternative leaves the cursor where it began, so the next one may begin there. -/
theorem choice : ∀ (steps : List Step), (∀ s ∈ steps, s.Advances) → (Step.choice steps).Advances := by
  intro steps
  induction steps with
  | nil =>
    intro _ f o g hrun hin
    cases hrun
    exact .failed rfl rfl hin
  | cons s ss ih =>
    intro hs f o g hrun hin
    rcases Step.choice_cons_eq_ok hrun with ⟨stop, v, hm, rfl⟩ | ⟨m, hm, hrest⟩
    · exact hs s List.mem_cons_self f _ g hm hin
    · have hfirst := hs s List.mem_cons_self f _ m hm hin
      have hpos : m.engine.pos = f.engine.pos := hfirst.pos
      have hnext := ih (fun t ht => hs t (List.mem_cons_of_mem s ht)) m o g hrest hfirst.inText
      exact ⟨hnext.text.trans hfirst.text, hpos ▸ hnext.pos, hpos ▸ hnext.le, hnext.inText⟩

/-- The rounds of a repetition go forward from boundary to boundary. -/
theorem rounds {body : Step} (hb : body.Advances) : ∀ (fuel : Nat) (left : Option Nat)
    (values : List Value) f values' g, Step.rounds body fuel left values f = .ok (values', g) →
      f.engine.InText →
        g.engine.text = f.engine.text ∧ f.engine.pos ≤ g.engine.pos ∧ g.engine.InText := by
  intro fuel
  induction fuel with
  | zero => intro left values f values' g hrun; cases hrun
  | succ fuel ih =>
    intro left values f values' g hrun hin
    rcases Step.rounds_succ_eq_ok hrun with ⟨-, -, rfl⟩ | ⟨-, hm, -⟩ | ⟨-, stop, v, m, hm, hrest⟩
    · exact ⟨rfl, Nat.le_refl _, hin⟩
    · have had := hb f _ g hm hin
      exact ⟨had.text, by rw [had.pos]; exact had.le, had.inText⟩
    · have had := hb f _ m hm hin
      have hpos : f.engine.pos ≤ m.engine.pos := by rw [had.pos]; exact had.le
      rcases hrest with ⟨-, -, -, rfl⟩ | ⟨-, hrest⟩
      · exact ⟨had.text, hpos, had.inText⟩
      · obtain ⟨htext, hle, hin'⟩ := ih _ _ m values' g hrest had.inText
        exact ⟨htext.trans had.text, by omega, hin'⟩

/-- Going back to the start of a run that has advanced. -/
theorem back {f m : Frame} {o : Outcome} (h : f.engine.Advanced o m.engine)
    (hf : f.engine.InText) : (m.back f).engine.InText := by
  refine h.inText.move ?_
  rw [h.text]
  exact hf.cursor

end Step.Advances

namespace CallAdvances

variable {r : Runner} (hr : ∀ rule args, CallAdvances (r.body rule args))
include hr

/-- A rule past the memo table goes where its body went, or back to where it began. -/
theorem invoke (rule : RuleId) (args : List Value) : CallAdvances (Engine.invoke r rule args) := by
  intro e o e' hrun hin
  obtain ⟨m, hm, rfl⟩ := Engine.invoke_eq_ok hrun
  have had := hr rule args _ o m hm (hin.note _)
  have hcursor : m.text.IsBoundary (o.cursor e.pos) := had.boundary
  cases o with
  | matched stop value =>
    exact ⟨had.text, rfl, had.le, ((had.inText.note _).move hcursor).result value⟩
  | failed => exact .failed had.text rfl (((had.inText.note _).move hcursor).blame _ _)

/-- Growth begins each round at the position of the key and ends where the entry says. -/
theorem grow (key : Key) : ∀ (fuel : Nat) (e : Engine) (o : Outcome) (e' : Engine),
    e.grow r key fuel = .ok (o, e') → e.InText → e.text.IsBoundary key.pos →
      e'.text = e.text ∧ e'.pos = o.cursor key.pos ∧ key.pos ≤ o.cursor key.pos ∧ e'.InText := by
  intro fuel
  induction fuel with
  | zero => intro e o e' hrun; cases hrun
  | succ fuel ih =>
    intro e o e' hrun hin hkey
    rcases Engine.grow_succ_eq_ok hrun with ⟨-, rfl, rfl⟩ | ⟨best, uses, round, m, -, hround, hgrown⟩
    · exact ⟨rfl, rfl, Nat.le_refl _, hin.move hkey⟩
    -- The round begins at the key, wherever the one before it has left the cursor.
    · have hin' : (e.regrowing key best.stop best.value).InText :=
        ((hin.move hkey).result best.value).note _
      have had := invoke hr key.rule key.args _ round m hround hin'
      have htext : m.text = e.text := had.text
      rcases hgrown with ⟨stop, longer, rfl, -, hrest⟩ | ⟨-, heq⟩
      · have hsettled : (m.settle key (.matched stop longer)).InText := had.settle rfl
        obtain ⟨htext', hrest'⟩ := ih _ o e' hrest hsettled (htext.symm ▸ hkey)
        exact ⟨htext'.trans htext, hrest'⟩
      · obtain ⟨htext', hrest'⟩ := had.inText.grown (htext.symm ▸ hkey) heq
        exact ⟨htext'.trans htext, hrest'⟩

/-- A call through the memo table goes where its entry says, or where it has just found out. -/
theorem apply (fuel : Nat) (rule : RuleId) (args : List Value) :
    CallAdvances (Engine.apply r fuel rule args) := by
  intro e o e' hrun hin
  rcases Engine.apply_eq_ok hrun with ⟨⟨answer, uses⟩, hfind, heq⟩ | ⟨-, first, m, hm, hrest⟩
  · have hused := hin.use ⟨rule, e.pos, args⟩
    have hfits := hin.fits _ _ hfind
    obtain ⟨status, stop, value⟩ := answer
    -- The cursor is set to the stored end; only a match may have one of its own, by the invariant.
    cases status with
    | inProgress detected =>
      obtain ⟨rfl, rfl⟩ : stop = e.pos ∧ value = .nil := hfits
      cases heq
      have hmarked := (hused.move hin.cursor).settle ⟨rule, e.pos, args⟩
        (show Answer.Fits e.text e.pos (.parked (.inProgress true) e.pos) from ⟨rfl, rfl⟩)
      exact .failed rfl rfl (hmarked.note _)
    | matched =>
      cases heq
      obtain ⟨hle, hstop⟩ := Answer.fits_matched.1 hfits
      exact ⟨rfl, rfl, hle, ((hused.move hstop).result value).note _⟩
    | failed =>
      obtain ⟨rfl, rfl⟩ : stop = e.pos ∧ value = .nil := hfits
      cases heq
      exact .failed rfl rfl ((hused.move hin.cursor).note _)
  · have had := invoke hr rule args _ first m hm (hin.opening _)
    have htext : m.text = e.text := had.text
    rcases hrest with ⟨stop, value, rfl, -, hgrown⟩ | ⟨stop, value, rfl, -, rfl, rfl⟩ |
      ⟨rfl, rfl, rfl⟩
    · have hsettled : (m.settle ⟨rule, e.pos, args⟩ (.matched stop value)).InText := had.settle rfl
      obtain ⟨htext', hpos, hle, hin'⟩ := grow hr _ fuel _ o e' hgrown hsettled
        (htext.symm ▸ hin.cursor)
      exact ⟨htext'.trans htext, hpos, hle, hin'⟩
    · exact ⟨htext, had.pos, had.le, had.settle rfl⟩
    · exact .failed htext had.pos (had.inText.settle ⟨rule, e.pos, args⟩ ⟨rfl, rfl⟩)

/-- A call across a link goes where the nested engine went, which had the same text. -/
theorem callForeign (fuel : Nat) (grammar : String) (rule : RuleId) (args : List Value) :
    CallAdvances (Engine.callForeign r fuel grammar rule args) := by
  intro e o e' hrun hin
  obtain ⟨inner, hinner, rfl⟩ := Engine.callForeign_eq_ok hrun
  have hfresh : (e.crossing r grammar rule).InText :=
    ⟨hin.cursor, Memo.allAnswers_empty⟩
  have had := apply hr fuel rule args _ o inner hinner hfresh
  have hcursor : e.text.IsBoundary (o.cursor e.pos) := by
    have hinnerCursor := had.inText.cursor
    rw [had.text, had.pos] at hinnerCursor
    exact hinnerCursor
  cases o with
  | matched stop value => exact ⟨rfl, rfl, had.le, ⟨hcursor, hin.fits⟩⟩
  | failed => exact .failed rfl rfl ⟨hin.cursor, hin.fits⟩

end CallAdvances

/-- **Every run advances.** -/
theorem advances : StepProperty Step.Advances CallAdvances where
  starved f o g hrun := by cases hrun
  fail f o g hrun hin := by cases hrun; exact .failed rfl rfl hin
  terminal hread f o g hrun hin := by
    obtain ⟨look, hlook, hslice⟩ := hread
    rcases Step.terminal_eq_ok hrun with ⟨a, e, ha, rfl, rfl⟩ | ⟨-, rfl, rfl⟩
    · rw [hlook] at ha
      cases hl : look f.engine.text f.engine.pos with
      | error stop => rw [hl] at ha; cases ha
      | ok found =>
        rw [hl] at ha
        obtain ⟨⟨b, stop⟩, rfl, heq⟩ := Option.map_eq_some_iff.1 (Except.ok.inj ha)
        cases heq
        -- What was read is a slice of the text, so it ends on a boundary.
        obtain ⟨hle, hstop⟩ := Text.boundaries_of_slice (hslice _ _ _ _ hl)
        exact ⟨rfl, rfl, hle, hin.move hstop⟩
    · exact .failed rfl rfl hin
  sequence steps hs f o g hrun hin :=
    Step.Advances.sequenceFrom hin.cursor steps hs .nil f o g hrun hin rfl (Nat.le_refl _)
  choice steps hs := Step.Advances.choice steps hs
  repetition s hs min max captures fuel f o g hrun hin := by
    obtain ⟨values, m, hm, hrest⟩ := Step.repetition_eq_ok hrun
    obtain ⟨htext, hle, hin'⟩ := Step.Advances.rounds hs fuel max [] f values m hm hin
    rcases hrest with ⟨-, rfl, rfl⟩ | ⟨-, rfl, rfl⟩
    · refine .failed htext rfl (hin'.move ?_)
      rw [htext]
      exact hin.cursor
    · exact ⟨htext, rfl, hle, hin'⟩
  ahead s hs f o g hrun hin := by
    obtain ⟨part, m, hm, rfl, hpart⟩ := Step.ahead_eq_ok hrun
    have had := hs f part m hm hin
    have hback := Step.Advances.back had hin
    rcases hpart with ⟨stop, v, -, rfl⟩ | ⟨-, rfl⟩
    · exact ⟨had.text, rfl, Nat.le_refl _, hback⟩
    · exact .failed had.text rfl hback
  notAhead s hs f o g hrun hin := by
    obtain ⟨part, m, hm, rfl, hpart⟩ := Step.notAhead_eq_ok hrun
    have had := hs f part m hm hin
    have hback := Step.Advances.back had hin
    rcases hpart with ⟨stop, v, -, rfl⟩ | ⟨-, rfl⟩
    · exact .failed had.text rfl hback
    · exact ⟨had.text, rfl, Nat.le_refl _, hback⟩
  test a wanted f o g hrun hin := by
    obtain ⟨rfl, ⟨-, rfl⟩ | ⟨-, rfl⟩⟩ := Step.test_eq_ok hrun
    · exact ⟨rfl, rfl, Nat.le_refl _, hin.note _⟩
    · exact .failed rfl rfl (hin.note _)
  binding s hs name value _ f o g hrun hin := by
    rcases Step.binding_eq_ok hrun with ⟨stop, v, m, hm, rfl, rfl⟩ | ⟨hm, rfl⟩
    · have had := hs f _ m hm hin
      exact ⟨had.text, had.pos, had.le, had.inText⟩
    · exact hs f _ g hm hin
  action a f o g hrun hin := by
    obtain ⟨rfl, rfl⟩ := Step.action_eq_ok hrun
    exact ⟨rfl, rfl, Nat.le_refl _, hin.note _⟩
  call run hq args f o g hrun hin := by
    obtain ⟨e, he, rfl⟩ := Step.call_eq_ok hrun
    exact hq _ _ o e he hin
  starvedBody e o e' hrun := by cases hrun
  noBody e o e' hrun hin := by cases hrun; exact .failed rfl rfl hin
  body s hs scope e o e' hrun hin := by
    obtain ⟨m, hm, rfl⟩ := Step.inScope_eq_ok hrun
    exact hs _ o m hm hin
  invoke r hr rule args := CallAdvances.invoke hr rule args
  apply r hr fuel rule args := CallAdvances.apply hr fuel rule args
  callForeign r hr fuel grammar rule args := CallAdvances.callForeign hr fuel grammar rule args

end MemoPeg
