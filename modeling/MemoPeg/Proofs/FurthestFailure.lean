import Mathlib.Data.List.Induction
import MemoPeg.Proofs.Checked
import MemoPeg.Proofs.Compilation
import MemoPeg.Proofs.MemoTable
import MemoPeg.Regex.Reader

/-
  What a parse that fails reports.

  A grammar that does not match has tried many things, and has failed at most of them.  The message names one:
  the one furthest on, and of several the last.  This is more than a heuristic only if it is certain that there
  is one, that it comes from the parse at hand, and that its place can be shown.

  1. **Record (`Engine.Records`)** — the furthest failure of an engine is the last of those furthest on,
     among all failures that its events report.
  2. **Sources (`Parser.Source`)** — a failure comes from a call past the memo table or across that failed
     in the engine of the parse, from an unknown start rule, or from text that is left over.  Every such
     call is reported when it ends.
  3. **Names (`Task.Within`)** — all rules that a grammar calls are its own, so that a blamed rule has a
     name.
  4. **The crux (`furthest_failure_report`)** — a parse that fails has recorded a failure, on a boundary
     of the text, and the error says its place and what stands there.

  Calls through the memo table report nothing themselves; the invocation in them does, and a failure that is
  found in the table was reported when it was made.  Failures inside an engine of a linked rule set stay there.
  What comes out of it is the failure of the call across, at the place where it was made.

  A message has placeholders for a failure of no rule.  They are only placeholders: a start rule is named by
  whoever asks for it, and may be given just that name (`placeholder_asked_for`).
-/

namespace MemoPeg

/-! ## The record -/

/-- The failures that an engine has had reported, oldest first. -/
def Engine.failures (e : Engine) : List Failure := e.events.filterMap Event.failure?

/-- The record after these failures, given the record before them. -/
def Furthest.after (known : Furthest) (failures : List Failure) : Furthest :=
  failures.foldl (fun f x => f.mark x.culprit x.offset) known

/-- The failure is the last one of those that are furthest on. -/
def Failure.LastFurthest (f : Failure) (failures : List Failure) : Prop :=
  ∃ before after, failures = before ++ f :: after ∧ (∀ x ∈ before, x.offset ≤ f.offset) ∧
    ∀ x ∈ after, x.offset < f.offset

/-- A record is made from the first failure on. -/
theorem Furthest.mark_isSome (f : Furthest) (culprit : Culprit) (pos : Nat) : (f.mark culprit pos).isSome := by
  cases f with
  | none => rfl
  | some known =>
    unfold mark
    simp only
    split <;> rfl

/-- Once something has been blamed there is a furthest failure. -/
theorem Engine.blame_isSome (e : Engine) (c : Culprit) (p : Nat) : (e.blame c p).furthest.isSome :=
  Furthest.mark_isSome e.furthest c p

/-- The last of several failures is compared with the furthest one before it. -/
theorem Furthest.after_concat (known : Furthest) (failures : List Failure) (x : Failure) :
    known.after (failures ++ [x]) = (known.after failures).mark x.culprit x.offset := by
  unfold Furthest.after
  rw [List.foldl_append]
  rfl

/-- A failure is recorded unless one further on is known. -/
theorem Furthest.mark_eq_some {known : Furthest} {x f : Failure}
    (h : known.mark x.culprit x.offset = some f) :
    (f = x ∧ ∀ k, known = some k → k.offset ≤ x.offset) ∨ (known = some f ∧ x.offset < f.offset) := by
  cases known with
  | none => cases h; exact .inl ⟨rfl, fun k hk => by cases hk⟩
  | some k =>
    have hmark : (if k.offset ≤ x.offset then some x else some k) = some f := h
    split at hmark
    case isTrue hle =>
      cases hmark
      exact .inl ⟨rfl, fun k' hk' => by cases hk'; exact hle⟩
    case isFalse hnot =>
      cases hmark
      exact .inr ⟨rfl, Nat.lt_of_not_le hnot⟩

/-- No failure is further on than the record. -/
theorem Furthest.after_le {failures : List Failure} {n : Nat}
    (h : ∀ k, Furthest.after none failures = some k → k.offset ≤ n) : ∀ y ∈ failures, y.offset ≤ n := by
  induction failures using List.reverseRecOn with
  | nil => intro y hy; cases hy
  | append_singleton failures x ih =>
    rw [after_concat] at h
    obtain ⟨k, hk⟩ := Option.isSome_iff_exists.1
      (mark_isSome (Furthest.after none failures) x.culprit x.offset)
    have hkn := h k hk
    intro y hy
    rcases mark_eq_some hk with ⟨rfl, hknown⟩ | ⟨hknown, hlt⟩
    · rcases List.mem_append.1 hy with hy | hy
      · exact ih (fun k' hk' => Nat.le_trans (hknown k' hk') hkn) y hy
      · rw [List.mem_singleton.1 hy]
        exact hkn
    · rcases List.mem_append.1 hy with hy | hy
      · refine ih (fun k' hk' => ?_) y hy
        rw [hknown] at hk'
        cases hk'
        exact hkn
      · rw [List.mem_singleton.1 hy]
        exact Nat.le_trans (Nat.le_of_lt hlt) hkn

/-- The record keeps the last one of the failures that are furthest on. -/
theorem Furthest.after_eq_some {failures : List Failure} {f : Failure}
    (h : Furthest.after none failures = some f) : f.LastFurthest failures := by
  induction failures using List.reverseRecOn with
  | nil => cases h
  | append_singleton failures x ih =>
    rw [after_concat] at h
    rcases mark_eq_some h with ⟨rfl, hknown⟩ | ⟨hknown, hlt⟩
    · exact ⟨failures, [], rfl, after_le hknown, fun _ hmem => absurd hmem List.not_mem_nil⟩
    · obtain ⟨before, after, rfl, hbefore, hafter⟩ := ih hknown
      refine ⟨before, after ++ [x], by simp, hbefore, fun y hy => ?_⟩
      rcases List.mem_append.1 hy with hy | hy
      · exact hafter y hy
      · rw [List.mem_singleton.1 hy]
        exact hlt

/-- The failures that the run from one engine to the other has reported are in the record. -/
def Engine.Records (e e' : Engine) : Prop :=
  e.Extends e' ∧ ∃ new, e'.events = e.events ++ new ∧
    e'.furthest = e.furthest.after (new.filterMap Event.failure?)

/-- **Every run records its failures.** -/
theorem records_order : EngineOrder Engine.Records where
  refl e := ⟨.refl e, [], (List.append_nil _).symm, rfl⟩
  trans {d e f} h k := by
    obtain ⟨hext, new, hnew, hfar⟩ := h
    obtain ⟨kext, newer, knew, kfar⟩ := k
    refine ⟨hext.trans kext, new ++ newer, by rw [knew, hnew, List.append_assoc], ?_⟩
    rw [kfar, hfar, List.filterMap_append, Furthest.after, Furthest.after, Furthest.after,
      List.foldl_append]
  move e _ := ⟨.refl e, [], (List.append_nil _).symm, rfl⟩
  result e _ := ⟨.refl e, [], (List.append_nil _).symm, rfl⟩
  note e event _ hfailure := by
    refine ⟨.of_note e event _ rfl rfl rfl, [event], e.events_note event, ?_⟩
    rw [List.filterMap_cons, hfailure]
    rfl
  noteKey e event key hkey := by
    refine ⟨.of_note e event _ rfl rfl rfl, [event], e.events_note event, ?_⟩
    rw [List.filterMap_cons, Event.failure?_of_key hkey]
    rfl
  blame e c p := ⟨.of_note e (.blamed c p) _ rfl rfl rfl, [.blamed c p], e.events_blame c p, rfl⟩
  start e _ := ⟨.refl e, [], (List.append_nil _).symm, rfl⟩
  settle e _ _ := ⟨.refl e, [], (List.append_nil _).symm, rfl⟩
  use e _ := ⟨.refl e, [], (List.append_nil _).symm, rfl⟩
  nested e i h :=
    ⟨extends_order.nested e i h.1, [], (Engine.events_nested h.1).trans (List.append_nil _).symm, rfl⟩

namespace Engine

/-- An event that reports nothing adds no failure. -/
theorem failures_blame (e : Engine) (c : Culprit) (p : Nat) :
    (e.blame c p).failures = e.failures ++ [⟨c, p⟩] := by
  unfold failures
  rw [events_blame, List.filterMap_append]
  rfl

/-- Failures are never removed. -/
theorem Extends.failures {e e' : Engine} (h : e.Extends e') : e.failures <+: e'.failures := by
  obtain ⟨new, hnew⟩ := h.events
  exact ⟨new.filterMap Event.failure?, by unfold Engine.failures; rw [hnew, List.filterMap_append]⟩

/-- The record of an engine that had none is made from all failures since. -/
theorem Records.furthest_eq {e e' : Engine} (h : e.Records e') (hevents : e.events = [])
    (hnone : e.furthest = none) : e'.furthest = Furthest.after none e'.failures := by
  obtain ⟨-, new, hnew, hfar⟩ := h
  rw [hevents, List.nil_append] at hnew
  rw [hfar, hnone, failures, hnew]

end Engine

section

variable [RegexLibrary]

/-! ## Failing calls -/

/-- A call past the memo table or across that fails reports its failure last, behind all that were there. -/
theorem Task.failures_of_failed {t : Task} {f : Failure} (hf : t.failure? = some f) {e' : Engine}
    (hrun : t.run = .ok (.failed, e')) :
    ∃ before, t.engine.failures <+: before ∧ e'.failures = before ++ [f] := by
  cases t with
  | apply _ _ _ _ _ => cases hf
  | phrase _ _ _ => cases hf
  | invoke n rs rule args e =>
    cases hf
    obtain ⟨m, hm, rfl⟩ := Engine.invoke_eq_ok hrun
    have hbegun : e.Extends (e.attempting (rs.runner n) rule) := .of_note e _ _ rfl rfl rfl
    have hended : m.Extends (m.note (.failed rule ((rs.runner n).nameOf rule) e.pos)) :=
      .of_note m _ _ rfl rfl rfl
    have hbody := extends_order.bodies n rs rule args _ _ _ hm
    exact ⟨_, ((hbegun.trans hbody).trans hended).failures, Engine.failures_blame _ _ _⟩
  | cross n grammar rs rule args e =>
    cases hf
    obtain ⟨inner, hinner, rfl⟩ := Engine.callForeign_eq_ok hrun
    have hbegun : e.Extends (e.note (.crossing grammar (rs.ruleName rule) e.pos)) :=
      .of_note e _ _ rfl rfl rfl
    have hbeyond := extends_order.apply (extends_order.bodies n rs) n rule args _ _ _ hinner
    exact ⟨_, (hbegun.trans (extends_order.nested _ inner hbeyond)).failures, Engine.failures_blame _ _ _⟩

omit [RegexLibrary] in
/-- A failure among those of an engine was reported by an event, after those before it. -/
theorem Engine.failures_split {e : Engine} {before after : List Failure} {f : Failure}
    (h : e.failures = before ++ f :: after) : ∃ earlier event later,
      e.events = earlier ++ event :: later ∧ event.failure? = some f ∧
      (earlier ++ [event]).filterMap Event.failure? = before ++ [f] := by
  obtain ⟨first, rest, hevents, hfirst, hrest⟩ := List.filterMap_eq_append_iff.1 h
  obtain ⟨silent, event, later, rfl, hsilent, hf, -⟩ := List.filterMap_eq_cons_iff.1 hrest
  refine ⟨first ++ silent, event, later, by rw [hevents, List.append_assoc], hf, ?_⟩
  rw [List.filterMap_append, List.filterMap_append, hfirst, List.filterMap_eq_nil_iff.2 hsilent,
    List.filterMap_cons, hf]
  simp

/-- What is explained from an engine without events has its failures from calls that have failed. -/
theorem Engine.Explained.failure {R : Task → Prop} {e m : Engine} (h : e.Explained R m)
    (hblank : e.events = []) {before after : List Failure} {f : Failure}
    (heq : m.failures = before ++ f :: after) :
    ∃ t e', R t ∧ t.failure? = some f ∧ t.run = .ok (.failed, e') ∧ e'.failures = before ++ [f] := by
  obtain ⟨earlier, event, later, hevents, hf, hsplit⟩ := Engine.failures_split heq
  obtain ⟨t, e', ht, htf, hrun, hlast⟩ := (h.of_blank hblank hevents).failed f hf
  refine ⟨t, e', ht, htf, hrun, ?_⟩
  rw [Engine.failures, hlast, hsplit]

/-! ## Names -/

/-- The task runs rules of the grammar, or calls another one. -/
def Task.Within (g : Grammar) : Task → Prop
  | .apply _ rs rule _ _ | .invoke _ rs rule _ _ => rs = .grammar g ∧ rule < g.rules.length
  | .cross _ _ _ _ _ _ => True
  | .phrase _ x _ => ∃ op, x = .operator g op

/-- The part of a predicate or a binding of a grammar is an operator of it. -/
theorem Operator.part?_operator {g : Grammar} {op : Operator} {part : Phrase}
    (h : (op.shape g).part? = some part) : ∃ c, part = .operator g c := by
  unfold shape at h
  (repeat' split at h) <;> cases h <;> exact ⟨_, rfl⟩

/-- What a task of a grammar starts in its own engine is a task of the grammar. -/
theorem Starts.within {g : Grammar} {t t' : Task} (h : Starts t t') (ht : t.Within g)
    (hdepth : t'.engine.depth = t.engine.depth) : t'.Within g := by
  cases h with
  | first _ => exact ht
  | again _ _ => exact ht
  | body hbody =>
    obtain ⟨rfl, -⟩ := ht
    obtain ⟨r, -, heq⟩ := Option.map_eq_some_iff.1 hbody
    cases heq
    exact ⟨_, rfl⟩
  -- Only a call across leaves the engine, and then the depth is another one.
  | linked => exact absurd hdepth (Nat.succ_ne_self _)
  | @ofSequence n x part before after f m hx _ =>
    obtain ⟨op, rfl⟩ := ht
    obtain ⟨ops, -, hparts⟩ := Operator.shape_eq_sequence hx
    have hmem : part ∈ ops.map (.operator g) := hparts ▸ List.mem_append_right _ List.mem_cons_self
    obtain ⟨c, -, rfl⟩ := List.mem_map.1 hmem
    exact ⟨c, rfl⟩
  | @ofChoice n x part before after f m hx _ =>
    obtain ⟨op, rfl⟩ := ht
    obtain ⟨ops, -, hparts⟩ := Operator.shape_eq_choice hx
    have hmem : part ∈ ops.map (.operator g) := hparts ▸ List.mem_append_right _ List.mem_cons_self
    obtain ⟨c, -, rfl⟩ := List.mem_map.1 hmem
    exact ⟨c, rfl⟩
  | ofRepetition hx _ =>
    obtain ⟨op, rfl⟩ := ht
    obtain ⟨c, -, rfl⟩ := Operator.shape_eq_repetition hx
    exact ⟨c, rfl⟩
  | ofPart hx =>
    obtain ⟨op, rfl⟩ := ht
    exact Operator.part?_operator hx
  | ofApply hx =>
    obtain ⟨op, rfl⟩ := ht
    obtain ⟨name, -, rfl, hrule⟩ := Operator.shape_eq_apply hx
    exact ⟨rfl, Grammar.lookup_lt hrule⟩
  | ofInvoke hx =>
    obtain ⟨op, rfl⟩ := ht
    obtain ⟨name, -, rfl, hrule⟩ := Operator.shape_eq_invoke hx
    exact ⟨rfl, Grammar.lookup_lt hrule⟩
  | ofCross _ => trivial

/-- All that a task of a grammar performs in its own engine are tasks of the grammar. -/
theorem Task.RunsHere.within {g : Grammar} {t t' : Task} (h : t.RunsHere t') (ht : t.Within g) :
    t'.Within g :=
  h.induction ht fun _ _ _ hcomes hdepth hu => hcomes.1.within hu hdepth

/-- A rule of a grammar that is blamed by its tasks has a name. -/
theorem Task.Within.nameOf?_isSome {g : Grammar} {t : Task} (ht : t.Within g) {f : Failure}
    (hf : t.failure? = some f) {id : RuleId} (hid : f.culprit = .rule id) :
    ((RuleSet.grammar g).nameOf? id).isSome := by
  cases t with
  | apply _ _ _ _ _ => cases hf
  | phrase _ _ _ => cases hf
  | cross _ _ _ _ _ _ => cases hf; cases hid
  | invoke n rs rule args e =>
    cases hf
    cases hid
    obtain ⟨-, hlt⟩ := ht
    rw [RuleSet.nameOf?_grammar, List.getElem?_eq_getElem hlt]
    rfl

/-! ## Places -/

omit [RegexLibrary] in
/-- A text is cut at a boundary just there. -/
theorem Text.cut_size (s r : Text) : Text.cut (s ++ r) s.size = (s, r) := by
  induction s with
  | nil =>
    cases r with
    | nil => rfl
    | cons c r =>
      have hc := c.utf8Size_pos
      simp only [List.nil_append, Text.size_nil, Text.cut]
      rw [if_neg (by omega)]
  | cons c s ih =>
    simp only [List.cons_append, Text.size_cons, Text.cut]
    rw [if_pos (by omega), Nat.add_sub_cancel_left, ih]

omit [RegexLibrary] in
/-- The location of a boundary has its offset. -/
theorem Text.IsBoundary.locate_offset {t : Text} {n : Nat} (h : t.IsBoundary n) :
    (t.locate n).offset = n := by
  obtain ⟨s, r, rfl, rfl⟩ := Text.isBoundary_iff.1 h
  simp only [Text.locate, Text.cut_size]

omit [RegexLibrary] in
/-- On a boundary no character stands just if the text ends there. -/
theorem Text.IsBoundary.charAt_eq_none_iff {t : Text} {n : Nat} (h : t.IsBoundary n) :
    t.charAt n = none ↔ n = t.size := by
  obtain ⟨s, r, rfl, rfl⟩ := Text.isBoundary_iff.1 h
  have hrest : (s ++ r).suffixAt s.size = some r := Text.suffixAt_eq_some_iff.2 ⟨s, rfl, rfl⟩
  rw [Text.charAt, hrest, Option.bind_some, List.head?_eq_none_iff, Text.size_append]
  cases r with
  | nil => simp
  | cons c r =>
    have hc := c.utf8Size_pos
    simp only [Text.size_cons]
    constructor
    · intro hnil; cases hnil
    · intro hsize; omega

/-! ## Parses that fail -/

namespace Parser

/-- How a failure comes to be reported in a parse, after those before it. -/
inductive Source (n : Nat) (start : Option String) (p : Parser) (before : List Failure) : Failure → Prop
  /-- The start rule is not known. -/
  | unknown {name : String} (hstart : startRule p.rules start = .error name) (hbefore : before = []) :
      Source n start p before ⟨.unknown name, 0⟩
  /-- A call past the memo table or across has failed in the engine of the parse. -/
  | call {rule : RuleId} {u : Task} {f : Failure} {e : Engine} (hstart : startRule p.rules start = .ok rule)
      (hruns : (Task.apply n p.rules rule [] (Engine.new p.engine.text)).RunsHere u)
      (hf : u.failure? = some f) (hrun : u.run = .ok (.failed, e)) (hbefore : e.failures = before ++ [f]) :
      Source n start p before f
  /-- The match had to reach the end of the text, and did not. -/
  | endOfText {rule : RuleId} {stop : Nat} {value : Value} {e : Engine}
      (hstart : startRule p.rules start = .ok rule)
      (hrun : (Engine.new p.engine.text).applyRule n p.rules rule [] = .ok (.matched stop value, e))
      (hend : p.toEnd = true) (hstop : stop < p.engine.text.size) (hbefore : e.failures = before) :
      Source n start p before ⟨.endOfText, stop⟩

/-- What a parser has to report of a parse that has failed with this furthest failure. -/
structure Reports (n : Nat) (start : Option String) (p p' : Parser) (f : Failure) : Prop where
  recorded : p'.engine.furthest = some f
  latest : f.LastFurthest p'.engine.failures
  sources : ∀ before x after, p'.engine.failures = before ++ x :: after → p.Source n start before x
  /-- A call that fails is reported when it ends, behind all that was reported until then. -/
  reported : ∀ rule u x e, startRule p.rules start = .ok rule →
    (Task.apply n p.rules rule [] (Engine.new p.engine.text)).RunsHere u → u.failure? = some x →
      u.run = .ok (.failed, e) → ∃ before after, u.engine.failures <+: before ∧
        e.failures = before ++ [x] ∧ p'.engine.failures = before ++ x :: after
  boundary : p'.engine.text.IsBoundary f.offset ∧ f.offset ≤ p'.engine.text.size
  location : p'.error.location.offset = f.offset
  found : p'.error.found = p'.engine.text.charAt f.offset
  found_none : p'.error.found = none ↔ f.offset = p'.engine.text.size
  named : ∀ id, f.culprit = .rule id → p'.rules.nameOf? id = some p'.error.rule
  /-- No placeholder is reported: what reads like one is the name of a rule, or of the wanted start rule. -/
  placeholder : ∀ name ∈ ["<unreported>", "<unregistered>"], p'.error.rule = name →
    start = some name ∨ ∃ id, p'.rules.nameOf? id = some name
  /-- The end of the match of the start rule is the failure, or something failed further on. -/
  leftOver : ∀ rule stop value e, startRule p.rules start = .ok rule →
    (Engine.new p.engine.text).applyRule n p.rules rule [] = .ok (.matched stop value, e) →
      stop < p'.engine.text.size ∧ p'.engine.failures = e.failures ++ [⟨.endOfText, stop⟩] ∧
        ((f = ⟨.endOfText, stop⟩ ∧ ∀ x ∈ e.failures, x.offset ≤ stop) ∨
          (stop < f.offset ∧ e.furthest = some f))

/-- A parse fails for an unknown start rule, for a start rule that fails, or for text that is left over. -/
theorem parse_eq_false {n : Nat} {start : Option String} {p p' : Parser}
    (h : p.parse n start = .ok (false, p')) : p'.rules = p.rules ∧
      ((∃ name, startRule p.rules start = .error name ∧
        p'.engine = (Engine.new p.engine.text).blame (.unknown name) 0) ∨
      ∃ rule o e, startRule p.rules start = .ok rule ∧
        (Engine.new p.engine.text).applyRule n p.rules rule [] = .ok (o, e) ∧
        ((o = .failed ∧ p'.engine = e) ∨ ∃ stop value, o = .matched stop value ∧ p.toEnd = true ∧
          stop < e.text.size ∧ p'.engine = e.blame .endOfText stop)) := by
  unfold parse at h
  simp only at h
  cases hstart : startRule p.rules start with
  | error name =>
    rw [hstart] at h
    cases h
    exact ⟨rfl, .inl ⟨name, rfl, rfl⟩⟩
  | ok rule =>
    rw [hstart] at h
    obtain ⟨⟨o, e⟩, hrun, h⟩ := bind_eq_ok h
    cases o with
    | failed =>
      cases h
      exact ⟨rfl, .inr ⟨rule, .failed, e, rfl, hrun, .inl ⟨rfl, rfl⟩⟩⟩
    | matched stop value =>
      simp only at h
      split at h
      · rename_i hover
        cases h
        obtain ⟨hend, hstop⟩ := Bool.and_eq_true_iff.1 hover
        exact ⟨rfl, .inr ⟨rule, _, e, rfl, hrun, .inr ⟨stop, value, rfl, hend, of_decide_eq_true hstop, rfl⟩⟩⟩
      · cases h

variable {n : Nat} {start : Option String} {p p' : Parser}

/-- Every failure of a parse is on a boundary of the text. -/
theorem Source.boundary {before : List Failure} {f : Failure} (h : p.Source n start before f) :
    p.engine.text.IsBoundary f.offset := by
  have hzero : p.engine.text.IsBoundary 0 := Text.isBoundary_iff.2 ⟨[], _, rfl, rfl⟩
  cases h with
  | unknown _ _ => exact hzero
  | @call rule u f e _ hruns hf _ _ =>
    have hroot : (Task.apply n p.rules rule [] (Engine.new p.engine.text)).InText p.engine.text :=
      ⟨rfl, .startingAt hzero⟩
    obtain ⟨htext, hin⟩ := (Task.Performs.runs hruns.1).inText hroot
    rw [show f.offset = u.engine.pos by cases u <;> cases hf <;> rfl, ← htext]
    exact hin.cursor
  | @endOfText rule stop value e _ hrun _ _ _ =>
    have hroot : (Task.apply n p.rules rule [] (Engine.new p.engine.text)).InText p.engine.text :=
      ⟨rfl, .startingAt hzero⟩
    exact (hroot.honours hrun).boundary stop value rfl

/-- The failures of a call of the start rule have sources in the parse. -/
theorem sources_of_run {rule : RuleId} {o : Outcome} {e : Engine} (hstart : startRule p.rules start = .ok rule)
    (hrun : (Engine.new p.engine.text).applyRule n p.rules rule [] = .ok (o, e))
    {before after : List Failure} {x : Failure} (heq : e.failures = before ++ x :: after) :
    p.Source n start before x := by
  have hexplained := @Task.explained _ (.apply n p.rules rule [] (Engine.new p.engine.text)) o e hrun
  obtain ⟨u, e', hu, hf, hfailed, hlast⟩ := hexplained.failure rfl heq
  exact .call hstart hu hf hfailed hlast

/-- A call of the start rule that fails has recorded a failure. -/
theorem recorded_of_failed {rule : RuleId} {e : Engine}
    (hrun : (Engine.new p.engine.text).applyRule n p.rules rule [] = .ok (.failed, e)) :
    e.furthest.isSome := by
  rcases Engine.apply_ends (p.rules.runner_retains n) hrun with
    ⟨entry, hfind, -⟩ | ⟨-, first, m, hm, hrest⟩
  · cases hfind
  · rcases hrest with ⟨stop, value, rfl, -, hgrown⟩ | ⟨_, _, rfl, -, heq, -⟩ | ⟨rfl, -, rfl⟩
    · obtain ⟨_, _, _, _, _, -, -, heq, -⟩ := Engine.growFrom_ends hgrown (.seed hm)
      cases heq
    · cases heq
    · obtain ⟨m', -, rfl⟩ := Engine.invoke_eq_ok hm
      exact Engine.blame_isSome _ _ _

omit [RegexLibrary] in
/-- A failure of a row with one more at its end is that one, or one of the row. -/
theorem split_concat {xs before after : List Failure} {x y : Failure}
    (h : xs ++ [y] = before ++ x :: after) : (before = xs ∧ x = y) ∨ ∃ rest, xs = before ++ x :: rest := by
  rcases List.append_eq_append_iff.1 h with ⟨mid, rfl, hmid⟩ | ⟨mid, rfl, hmid⟩
  · cases mid with
    | nil => cases hmid; exact .inl ⟨List.append_nil _, rfl⟩
    | cons z mid => cases mid <;> cases hmid
  · cases mid with
    | nil => cases hmid; exact .inl ⟨(List.append_nil _).symm, rfl⟩
    | cons z mid => cases hmid; exact .inr ⟨mid, rfl⟩

/-- What the record of an engine of the parse is made from. -/
structure Accounted (n : Nat) (start : Option String) (p : Parser) (e : Engine) : Prop where
  text : e.text = p.engine.text
  furthest : e.furthest = Furthest.after none e.failures
  sources : ∀ before x after, e.failures = before ++ x :: after → p.Source n start before x

/-- A failure with a source may be reported. -/
theorem Accounted.blame {e : Engine} (h : p.Accounted n start e) {c : Culprit} {pos : Nat}
    (hsource : p.Source n start e.failures ⟨c, pos⟩) : p.Accounted n start (e.blame c pos) where
  text := h.text
  furthest := by
    rw [Engine.failures_blame, Furthest.after_concat, ← h.furthest]
    rfl
  sources before x after heq := by
    rw [Engine.failures_blame] at heq
    rcases split_concat heq with ⟨rfl, rfl⟩ | ⟨rest, hrest⟩
    · exact hsource
    · exact h.sources before x rest hrest

/-- A call of the start rule leaves an engine whose record is made from failures with sources. -/
theorem accounted_of_run {rule : RuleId} {o : Outcome} {e : Engine}
    (hstart : startRule p.rules start = .ok rule)
    (hrun : (Engine.new p.engine.text).applyRule n p.rules rule [] = .ok (o, e)) :
    p.Accounted n start e := by
  have hrecords := records_order.apply (records_order.bodies n p.rules) n rule [] _ o e hrun
  exact ⟨hrecords.1.1, hrecords.furthest_eq rfl rfl, fun _ _ _ => sources_of_run hstart hrun⟩

/-- A parse that has failed has a record, made from failures with sources. -/
theorem accounted_of_parse (h : p.parse n start = .ok (false, p')) :
    p.Accounted n start p'.engine ∧ p'.engine.furthest.isSome := by
  obtain ⟨-, ⟨name, hstart, heng⟩ | ⟨rule, o, e, hstart, hrun, hend⟩⟩ := parse_eq_false h
  · have hfresh : p.Accounted n start (Engine.new p.engine.text) :=
      ⟨rfl, rfl, fun before x after heq => by cases before <;> cases heq⟩
    rw [heng]
    exact ⟨hfresh.blame (.unknown hstart rfl), Engine.blame_isSome _ _ _⟩
  · have hcalled := accounted_of_run hstart hrun
    rcases hend with ⟨rfl, heng⟩ | ⟨stop, value, rfl, htoEnd, hstop, heng⟩
    · rw [heng]
      exact ⟨hcalled, recorded_of_failed hrun⟩
    · rw [hcalled.text] at hstop
      rw [heng]
      exact ⟨hcalled.blame (.endOfText hstart hrun htoEnd hstop rfl), Engine.blame_isSome _ _ _⟩

/-- In a parse with a grammar, a rule that is blamed has a name. -/
theorem Source.nameOf?_isSome {d : Declaration} {g : Grammar} (hbuild : d.build = .ok g) {toEnd : Bool}
    {engine : Engine} {before : List Failure} {f : Failure}
    (h : Source n start ⟨.grammar g, toEnd, engine⟩ before f) {id : RuleId} (hid : f.culprit = .rule id) :
    ((RuleSet.grammar g).nameOf? id).isSome := by
  cases h with
  | unknown _ _ => cases hid
  | endOfText _ _ _ _ _ => cases hid
  | @call rule u f e hstart hruns hf _ _ =>
    have hrule : rule < g.rules.length := by
      cases start with
      | none => cases hstart; exact Declaration.root_lt hbuild
      | some name =>
        simp only [startRule] at hstart
        cases hlookup : (RuleSet.grammar g).lookup name with
        | none => rw [hlookup] at hstart; cases hstart
        | some rule' => rw [hlookup] at hstart; cases hstart; exact Grammar.lookup_lt hlookup
    exact (hruns.within ⟨rfl, hrule⟩).nameOf?_isSome hf hid

/-- An unknown start rule is one that was asked for, or the root. -/
theorem startRule_eq_error {rules : RuleSet} {name : String} (h : startRule rules start = .error name) :
    start = some name ∨ name = "root" := by
  cases start with
  | none =>
    simp only [startRule] at h
    split at h <;> cases h
    exact .inr rfl
  | some wanted =>
    simp only [startRule] at h
    split at h <;> cases h
    exact .inl rfl

omit [RegexLibrary] in
/-- The name of a linked rule is no placeholder: it has a dot in it. -/
theorem foreign_ne {grammar rule name : String} (hname : '.' ∉ name.toList) :
    grammar ++ "." ++ rule ≠ name := by
  intro heq
  refine hname ?_
  rw [← heq, String.toList_append, String.toList_append]
  simp

/-- A reported name is a placeholder only if a rule or the wanted start rule has that very name. -/
theorem Source.name_eq {before : List Failure} {f : Failure} (h : p.Source n start before f)
    (hrule : ∀ id, f.culprit = .rule id → (p.rules.nameOf? id).isSome) {name : String}
    (hname : name ∈ ["<unreported>", "<unregistered>"]) (heq : f.culprit.name p.rules = name) :
    start = some name ∨ ∃ id, p.rules.nameOf? id = some name := by
  have hdot : '.' ∉ name.toList := by
    rcases List.mem_cons.1 hname with rfl | hname
    · decide
    · rw [List.mem_singleton.1 hname]
      decide
  -- The names of linked rules have a dot in them, the other fixed names are no placeholders.
  cases h with
  | @unknown wanted hstart _ =>
    rcases startRule_eq_error hstart with hwanted | rfl
    · exact .inl (heq ▸ hwanted)
    · rw [show name = "root" from heq.symm] at hname
      exact absurd hname (by decide)
  | endOfText _ _ _ _ _ =>
    rw [show name = "end of input" from heq.symm] at hname
    exact absurd hname (by decide)
  | @call rule u f e _ _ hf _ _ =>
    cases u with
    | apply _ _ _ _ _ => cases hf
    | phrase _ _ _ => cases hf
    | cross n grammar rs rule' args e' => cases hf; exact absurd heq (foreign_ne hdot)
    | invoke n rs rule' args e' =>
      cases hf
      obtain ⟨known, hknown⟩ := Option.isSome_iff_exists.1 (hrule rule' rfl)
      refine .inr ⟨rule', ?_⟩
      rw [Culprit.name, hknown] at heq
      rw [hknown, ← heq]
      rfl

/-- What a call of the start rule has had reported, a parse that fails has. -/
theorem failures_of_run (h : p.parse n start = .ok (false, p')) {rule : RuleId} {o : Outcome} {e : Engine}
    (hstart : startRule p.rules start = .ok rule)
    (hrun : (Engine.new p.engine.text).applyRule n p.rules rule [] = .ok (o, e)) :
    e.failures <+: p'.engine.failures := by
  obtain ⟨-, ⟨name, hunknown, -⟩ | ⟨rule', o', e', hstart', hrun', hend⟩⟩ := parse_eq_false h
  · rw [hstart] at hunknown
    cases hunknown
  · obtain rfl : rule = rule' := Except.ok.inj (hstart.symm.trans hstart')
    obtain ⟨rfl, rfl⟩ := Prod.mk.inj (Except.ok.inj (hrun.symm.trans hrun'))
    rcases hend with ⟨-, heng⟩ | ⟨stop, -, -, -, -, heng⟩
    · exact heng ▸ List.prefix_rfl
    · rw [heng, Engine.failures_blame]
      exact List.prefix_append _ _

/-- Every call past the memo table or across that fails in the engine of the parse has its failure reported
    when it ends. -/
theorem reported_of_parse (h : p.parse n start = .ok (false, p')) {rule : RuleId} {u : Task} {x : Failure}
    {e : Engine} (hstart : startRule p.rules start = .ok rule)
    (hu : (Task.apply n p.rules rule [] (Engine.new p.engine.text)).RunsHere u) (hx : u.failure? = some x)
    (hfailed : u.run = .ok (.failed, e)) : ∃ before after, u.engine.failures <+: before ∧
      e.failures = before ++ [x] ∧ p'.engine.failures = before ++ x :: after := by
  obtain ⟨before, hbefore, hlast⟩ := Task.failures_of_failed hx hfailed
  obtain ⟨-, ⟨name, hunknown, -⟩ | ⟨rule', o, e', hstart', hrun, -⟩⟩ := parse_eq_false h
  · rw [hstart] at hunknown
    cases hunknown
  · obtain rfl : rule = rule' := Except.ok.inj (hstart.symm.trans hstart')
    obtain ⟨o', m, hm, hext⟩ := Task.Performs.ends hu.1 hrun
    obtain ⟨-, rfl⟩ := Prod.mk.inj (Except.ok.inj (hfailed.symm.trans hm))
    obtain ⟨after, hafter⟩ := (hext hu.2).failures.trans (failures_of_run h hstart hrun)
    refine ⟨before, after, hbefore, hlast, ?_⟩
    rw [← hafter, hlast, List.append_assoc]
    rfl

/-- What is left over behind the match of the start rule is reported, unless something failed behind it. -/
theorem leftOver_of_parse (h : p.parse n start = .ok (false, p')) {rule : RuleId} {stop : Nat}
    {value : Value} {e : Engine} (hstart : startRule p.rules start = .ok rule)
    (hrun : (Engine.new p.engine.text).applyRule n p.rules rule [] = .ok (.matched stop value, e)) {f : Failure}
    (hf : p'.engine.furthest = some f) :
    stop < p.engine.text.size ∧ p'.engine.failures = e.failures ++ [⟨.endOfText, stop⟩] ∧
      ((f = ⟨.endOfText, stop⟩ ∧ ∀ x ∈ e.failures, x.offset ≤ stop) ∨
        (stop < f.offset ∧ e.furthest = some f)) := by
  have hcalled := accounted_of_run hstart hrun
  obtain ⟨-, ⟨name, hunknown, -⟩ | ⟨rule', o, e', hstart', hrun', hend⟩⟩ := parse_eq_false h
  · rw [hstart] at hunknown
    cases hunknown
  · obtain rfl : rule = rule' := Except.ok.inj (hstart.symm.trans hstart')
    obtain ⟨rfl, rfl⟩ := Prod.mk.inj (Except.ok.inj (hrun.symm.trans hrun'))
    rcases hend with ⟨heq, -⟩ | ⟨_, _, heq, -, hstop, heng⟩
    · cases heq
    · cases heq
      rw [hcalled.text] at hstop
      rw [heng] at hf ⊢
      refine ⟨hstop, Engine.failures_blame _ _ _, ?_⟩
      rcases Furthest.mark_eq_some (x := ⟨.endOfText, stop⟩) hf with ⟨rfl, hknown⟩ | ⟨hknown, hlt⟩
      · exact .inl ⟨rfl, Furthest.after_le (hcalled.furthest ▸ hknown)⟩
      · exact .inr ⟨hlt, hknown⟩

end Parser

/-- **The furthest failure is reported.**  Let a parse fail, with a grammar that was built or a compiled form
    of it, from any start rule or the root, whether it had to reach the end of the text or not.  Then a failure
    is recorded: of those furthest on, the last that came up.  All that come up are calls past the memo table
    and across that failed in the engine of the parse, an unknown start rule, and text that is left over.
    The error has the name of the culprit and no placeholder, the offset of the failure, which is a boundary of
    the text, and the character there. -/
theorem furthest_failure_report {d : Declaration} {g : Grammar} (hbuild : d.build = .ok g) {p : Parser}
    (hform : CompiledForm (.grammar g) p.rules) {n : Nat} {start : Option String} {p' : Parser}
    (hparse : p.parse n start = .ok (false, p')) : ∃ f, p.Reports n start p' f := by
  -- All failures of the parse are accounted for, and the record is the last furthest one of them.
  obtain ⟨haccounted, hsome⟩ := Parser.accounted_of_parse hparse
  obtain ⟨f, hf⟩ := Option.isSome_iff_exists.1 hsome
  have hlast : f.LastFurthest p'.engine.failures := Furthest.after_eq_some (haccounted.furthest ▸ hf)
  have ⟨before, after, heq, _⟩ := hlast
  have hsource := haccounted.sources before f after heq
  have hrules : p'.rules = p.rules := (Parser.parse_eq_false hparse).1
  have hboundary : p'.engine.text.IsBoundary f.offset := haccounted.text ▸ hsource.boundary
  -- The grammar itself, not compiled, has the same parse, and a rule that it blames is its own.
  have hnamed : ∀ id, f.culprit = .rule id → (p.rules.nameOf? id).isSome := by
    intro id hid
    have hsame := (hform.parse_eq n start p.toEnd p.engine).symm.trans hparse
    cases hplain : Parser.parse n start ⟨.grammar g, p.toEnd, p.engine⟩ with
    | error stop => rw [hplain] at hsame; cases hsame
    | ok r =>
      rw [hplain] at hsame
      obtain ⟨hfalse, rfl⟩ := Prod.mk.inj (Except.ok.inj hsame)
      obtain ⟨ok, q⟩ := r
      obtain rfl : ok = false := hfalse
      rw [hform.nameOf?_eq]
      exact ((Parser.accounted_of_parse hplain).1.sources before f after heq).nameOf?_isSome hbuild hid
  have herror : p'.error = ⟨p'.engine.text.locate f.offset, f.culprit.name p.rules,
      p'.engine.text.charAt f.offset⟩ := by
    rw [Parser.error, hf, hrules]
    rfl
  refine ⟨f, ?_⟩
  exact
    { recorded := hf
      latest := hlast
      sources := haccounted.sources
      reported := fun _ _ _ _ => Parser.reported_of_parse hparse
      boundary := ⟨hboundary, hboundary.le_size⟩
      location := by rw [herror]; exact hboundary.locate_offset
      found := by rw [herror]
      found_none := by rw [herror]; exact hboundary.charAt_eq_none_iff
      named := fun id hid => by
        obtain ⟨name, hname⟩ := Option.isSome_iff_exists.1 (hnamed id hid)
        rw [hrules, herror, hid, Culprit.name, hname]
        rfl
      placeholder := fun name hmem heq => by
        rw [herror] at heq
        rw [hrules]
        exact hsource.name_eq hnamed hmem heq
      leftOver := fun rule stop value e hstart hrun => by
        rw [haccounted.text]
        exact Parser.leftOver_of_parse hparse hstart hrun hf }

end

/-- A parser for letters, compiled, of a text that goes on with another one. -/
def lettersParser : Parser := .new (.program lettersGrammar.compile) "aaé".toList true

/-- The text that is left over is reported, with the letter of two bytes that stands there. -/
theorem furthest_failure_report_letters : letters.build = .ok lettersGrammar ∧
    ∃ p', lettersParser.parse 20 none = .ok (false, p') ∧ p'.engine.furthest = some ⟨.endOfText, 2⟩ ∧
      p'.error.location.offset = 2 ∧ p'.error.found = some 'é' := by
  have hends : ((lettersParser.parse 20 none).map fun r =>
      (r.1, r.2.engine.furthest, r.2.engine.text)).toOption =
        some (false, some ⟨.endOfText, 2⟩, "aaé".toList) := by decide +kernel
  cases hparse : lettersParser.parse 20 none with
  | error stop => rw [hparse] at hends; cases hends
  | ok r =>
    obtain ⟨ok, p'⟩ := r
    rw [hparse] at hends
    obtain ⟨rfl, hrest⟩ := Prod.mk.inj (Option.some.inj hends)
    obtain ⟨hfurthest, htext⟩ := Prod.mk.inj hrest
    have hbuild : letters.build = .ok lettersGrammar := rfl
    obtain ⟨f, hreports⟩ := furthest_failure_report hbuild (.compile lettersGrammar) hparse
    obtain rfl : ⟨.endOfText, 2⟩ = f := Option.some.inj (hfurthest.symm.trans hreports.recorded)
    refine ⟨hbuild, p', rfl, hfurthest, hreports.location, ?_⟩
    rw [hreports.found, htext]
    decide

/-- A start rule that the grammar does not define is blamed by the name that it was asked for with, whatever
    that name is: here it is the one that stands for no failure. -/
theorem placeholder_asked_for : letters.build = .ok lettersGrammar ∧
    ∃ p', (Parser.new (.grammar lettersGrammar) "a".toList false).parse 1 (some "<unreported>") =
      .ok (false, p') ∧ p'.engine.furthest = some ⟨.unknown "<unreported>", 0⟩ ∧
        p'.error.rule = "<unreported>" :=
  ⟨rfl, _, rfl, rfl, rfl⟩

end MemoPeg
