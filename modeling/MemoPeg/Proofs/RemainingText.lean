import MemoPeg.Proofs.Compilation
import MemoPeg.Proofs.Lockstep
import MemoPeg.Proofs.Termination
import MemoPeg.Regex.Reader

/-
  Parsing sees only the remaining text.

  Whether a rule matches at an offset, with which value, and what is blamed if it does not, depends on the
  text from there on.  This is what allows a text to be parsed in pieces, and an answer that is known of a
  suffix to be used behind anything.

  1. **Behind (`Engine.Behind`)** — the second engine has the text of the first one with something in front
     of it.  Its cursor, the keys of its memo table, the ends of the matches in there and its furthest
     failure are all further on by the size of that; values are the same.
  2. **Specification** — of an engine that starts at a boundary of a text and a fresh one on what remains
     of the text from there, either neither ends, or both end with the same outcome, as far apart as they
     have started.
  3. **The crux (`ignoresBefore`)** — every terminal reads the same behind any text, and offsets are
     compared with offsets only.  The one operator whose value is made of offsets is the bounds of a
     match, so it must not occur, here or in a linked rule set (`RuleSet.Spanless`).
  4. **Layers** — look-ups (`Memo.Behind`), engines (`Engine.Behind`), operators (`Step.IgnoresBefore`), calls
     (`CallIgnoresBefore`), each by what has been shown of the one before; then one induction on fuel ties
     operators and bodies together.

  Histories are left out of the comparison: they list offsets, and nothing that runs reads them.  A value
  that is made of offsets would be passed to actions and as arguments, and an argument is part of the key
  of a call; so leaving the values out as well is no way around the condition in 3.

  No fuel is lost on the way: both engines have the same fuel at every point, which is why the two runs
  also starve together.
-/

namespace MemoPeg

/-! ## Reading behind a text -/

namespace Text

/-- What remains from an offset behind a text remains there without it. -/
theorem suffixAt_append (before t : Text) (n : Nat) :
    suffixAt (before ++ t) (size before + n) = suffixAt t n := by
  induction before with
  | nil => simp
  | cons c before ih =>
    -- An offset behind a character is not 0.
    obtain ⟨m, hm⟩ : ∃ m, size (c :: before) + n = m + 1 :=
      ⟨size (c :: before) + n - 1, by have := c.utf8Size_pos; simp only [size_cons]; omega⟩
    have hrest : m + 1 - c.utf8Size = size before + n := by rw [← hm, size_cons]; omega
    rw [List.cons_append, hm, suffixAt, if_pos (by rw [← hm, size_cons]; omega), hrest, ih]

/-- So does the character that stands there. -/
theorem charAt_append (before t : Text) (n : Nat) :
    charAt (before ++ t) (size before + n) = charAt t n := by
  rw [charAt, suffixAt_append, charAt]

/-- So does a part between two offsets. -/
theorem slice_append (before t : Text) (start stop : Nat) :
    slice (before ++ t) (size before + start) (size before + stop) = slice t start stop := by
  simp only [slice, suffixAt_append, Nat.add_le_add_iff_left, Nat.add_sub_add_left]

/-- A literal is read behind a text as without it, and ends further on. -/
theorem literalEnd_append (before t : Text) (n : Nat) (literal : Text) :
    literalEnd (before ++ t) (size before + n) literal =
      (literalEnd t n literal).map (size before + ·) := by
  simp only [literalEnd, suffixAt_append, size_append, Nat.add_le_add_iff_left]
  split
  · split <;> rfl
  · cases suffixAt t n with
    | none => rfl
    | some rest => simp only; split <;> simp [Nat.add_assoc]

/-- A pattern is searched for in what remains, so it too ends further on and reads the same. -/
theorem patternEnd_append (before t : Text) (n : Nat) (m : Matcher) :
    patternEnd (before ++ t) (size before + n) m = (patternEnd t n m).map (size before + ·) := by
  rw [patternEnd, suffixAt_append, patternEnd]
  split
  · rw [Option.map_some, Nat.add_assoc]
  · rfl

end Text

/-! ## Further on -/

/-- The key of the same call, further on. -/
def Key.later (k : Nat) (key : Key) : Key := { key with pos := k + key.pos }

/-- The answer that ends further on. -/
def Answer.later (k : Nat) (answer : Answer) : Answer := { answer with stop := k + answer.stop }

/-- The entry that ends further on. -/
def Entry.later (k : Nat) (entry : Entry) : Entry := { entry with answer := entry.answer.later k }

/-- The outcome with the end of a match further on. -/
def Outcome.later (k : Nat) : Outcome → Outcome
  | .matched stop value => .matched (k + stop) value
  | .failed => .failed

/-- The failure of the same culprit, further on. -/
def Failure.later (k : Nat) (f : Failure) : Failure := { f with offset := k + f.offset }

/-- Calls are told apart further on as they are here. -/
theorem Key.later_inj {k : Nat} {key other : Key} : key.later k = other.later k ↔ key = other := by
  constructor
  · intro h
    obtain ⟨rule, pos, args⟩ := key
    obtain ⟨rule', pos', args'⟩ := other
    simp only [Key.later, Key.mk.injEq, Nat.add_left_cancel_iff] at h
    simpa using h
  · exact congrArg _

/-- Of failures further on, the same one is furthest. -/
theorem Furthest.mark_later (k : Nat) (f : Furthest) (culprit : Culprit) (pos : Nat) :
    Furthest.mark (f.map (·.later k)) culprit (k + pos) = (f.mark culprit pos).map (·.later k) := by
  cases f with
  | none => rfl
  | some known =>
    simp only [Furthest.mark, Option.map_some, Failure.later, Nat.add_le_add_iff_left]
    split <;> rfl

/-- The second memo table knows of each key, further on, what the first one knows of it. -/
def Memo.Behind (k : Nat) (memo memo' : Memo) : Prop :=
  ∀ key, memo'.find? (key.later k) = (memo.find? key).map (·.later k)

namespace Memo.Behind

variable {k : Nat} {memo memo' : Memo}

/-- A call that is opened further on has its entry there. -/
theorem start (h : memo.Behind k memo') (key : Key) :
    (memo.start key).Behind k (memo'.start (key.later k)) := by
  intro other
  rw [Memo.find?_start, Memo.find?_start, h other]
  simp only [Key.later_inj]
  split <;> rfl

/-- Entries changed alike are still alike. -/
theorem modify (h : memo.Behind k memo') {f f' : Entry → Entry}
    (hf : ∀ entry : Entry, f' (entry.later k) = (f entry).later k) (key : Key) :
    (memo.modify f key).Behind k (memo'.modify f' (key.later k)) := by
  intro other
  rw [Memo.find?_modify, Memo.find?_modify, h other]
  simp only [Key.later_inj]
  split
  · cases memo.find? other with
    | none => rfl
    | some entry => exact congrArg some (hf entry)
  · rfl

theorem use (h : memo.Behind k memo') (key : Key) :
    (memo.use key).Behind k (memo'.use (key.later k)) := by
  refine h.modify (fun entry => ?_) key
  rfl

theorem settle (h : memo.Behind k memo') (key : Key) (answer : Answer) :
    (memo.settle key answer).Behind k (memo'.settle (key.later k) (answer.later k)) := by
  refine h.modify (fun entry => ?_) key
  rfl

end Memo.Behind

/-! ## Behind a text -/

/-- The second engine stands where the first one does, behind a text, and knows the same. -/
structure Engine.Behind (before : Text) (e e' : Engine) : Prop where
  text : e'.text = before ++ e.text
  pos : e'.pos = before.size + e.pos
  memo : e.memo.Behind before.size e'.memo
  furthest : e'.furthest = e.furthest.map (·.later before.size)

/-- Frames with such engines and the same bindings. -/
structure Frame.Behind (before : Text) (f f' : Frame) : Prop where
  engine : f.engine.Behind before f'.engine
  scope : f'.scope = f.scope

/-- Outcomes alike, the second one further on, with engines, or frames, one behind a text. -/
def AlikeBehind {α : Type} (before : Text) (T : α → α → Prop) (r r' : Outcome × α) : Prop :=
  r'.1 = r.1.later before.size ∧ T r.2 r'.2

/-- Runs of the step do the same behind any text. -/
def Step.IgnoresBefore (s : Step) : Prop :=
  ∀ before f f', Frame.Behind before f f' →
    RunRel (AlikeBehind before (Frame.Behind before)) (s f) (s f')

/-- Calls do the same behind any text. -/
def CallIgnoresBefore (x : Engine → Run (Outcome × Engine)) : Prop :=
  ∀ before e e', Engine.Behind before e e' →
    RunRel (AlikeBehind before (Engine.Behind before)) (x e) (x e')

namespace Engine.Behind

variable {before : Text} {e e' : Engine}

/-- A fresh engine at the end of the text in front. -/
theorem fresh (before rest : Text) :
    (Engine.new rest).Behind before (Engine.startingAt (before ++ rest) before.size) where
  text := rfl
  pos := rfl
  memo _ := rfl
  furthest := rfl

/-- The cursor is set to the same place. -/
theorem move (h : e.Behind before e') (p : Nat) :
    ({ e with pos := p } : Engine).Behind before { e' with pos := before.size + p } :=
  { h with pos := rfl }

/-- The last result is not compared. -/
theorem result (h : e.Behind before e') (v v' : Value) :
    ({ e with result := v } : Engine).Behind before { e' with result := v' } := { h with }

/-- Nor is the history, in which offsets stand. -/
theorem history (h : e.Behind before e') (past past' : History) :
    ({ e with history := past } : Engine).Behind before { e' with history := past' } := { h with }

theorem note (h : e.Behind before e') (event event' : Event) :
    (e.note event).Behind before (e'.note event') := h.history _ _

theorem withMemo (h : e.Behind before e') {memo memo' : Memo}
    (hmemo : memo.Behind before.size memo') :
    ({ e with memo := memo } : Engine).Behind before { e' with memo := memo' } :=
  { h with memo := hmemo }

/-- A failure that is furthest here is furthest there. -/
theorem blame (h : e.Behind before e') (culprit : Culprit) (pos : Nat) :
    (e.blame culprit pos).Behind before (e'.blame culprit (before.size + pos)) := by
  have marked : ({ e with furthest := e.furthest.mark culprit pos } : Engine).Behind before
      { e' with furthest := e'.furthest.mark culprit (before.size + pos) } :=
    { h with furthest := by rw [h.furthest, Furthest.mark_later] }
  exact marked.note _ _

/-- The engine of a call to a linked rule set has the same text, and nothing else is known in either. -/
theorem nested (h : e.Behind before e') : e.nested.Behind before e'.nested where
  text := h.text
  pos := h.pos
  memo _ := rfl
  furthest := rfl

/-- The same answer is recorded, further on. -/
theorem settle (h : e.Behind before e') (key : Key) (answer : Answer) :
    (e.settle key answer).Behind before
      (e'.settle (key.later before.size) (answer.later before.size)) :=
  h.withMemo (h.memo.settle key answer)

/-- The same call is opened. -/
theorem opening (h : e.Behind before e') (key : Key) :
    (e.opening key).Behind before (e'.opening (key.later before.size)) :=
  (h.withMemo (h.memo.start key)).note _ _

/-- A rule that has called itself has done so behind the text too. -/
theorem sawItself (h : e.Behind before e') (key : Key) :
    e'.sawItself (key.later before.size) = e.sawItself key := by
  rw [Engine.sawItself, Engine.sawItself, h.memo key]
  cases e.memo.find? key with
  | none => rfl
  | some entry => rfl

/-- Entries answer alike. -/
theorem reuse (h : e.Behind before e') (key : Key) (entry : Entry) :
    AlikeBehind before (Engine.Behind before) (e.reuse key entry)
      (e'.reuse (key.later before.size) (entry.later before.size)) := by
  have hused := (h.withMemo (h.memo.use key)).move entry.answer.stop
  obtain ⟨⟨status, stop, value⟩, uses⟩ := entry
  cases status with
  | inProgress detected =>
    exact ⟨rfl, (hused.withMemo (hused.memo.settle key ⟨.inProgress true, stop, value⟩)).note _ _⟩
  | matched => exact ⟨rfl, (hused.result value value).note _ _⟩
  | failed => exact ⟨rfl, hused.note _ _⟩

/-- Growths end alike. -/
theorem grown (h : e.Behind before e') (key : Key) :
    AlikeBehind before (Engine.Behind before) (e.grown key) (e'.grown (key.later before.size)) := by
  unfold Engine.grown
  rw [h.memo key]
  cases e.memo.find? key with
  | none => exact ⟨rfl, h.move key.pos⟩
  | some entry => exact ⟨rfl, (h.move entry.answer.stop).result _ _⟩

end Engine.Behind

/-- Going back goes back to the same place, and leaves the same bindings. -/
theorem Frame.Behind.back {before : Text} {m m' start start' : Frame} (h : m.Behind before m')
    (hstart : start.Behind before start') : (m.back start).Behind before (m'.back start') where
  engine := { h.engine with pos := hstart.engine.pos }
  scope := by
    show m'.scope.rollback start'.scope.mark = m.scope.rollback start.scope.mark
    rw [h.scope, hstart.scope]

/-! ## Steps -/

/-- Readings read the same behind any text, and end further on. -/
def AlikeRead {α : Type} (before : Text) : Option (α × Engine) → Option (α × Engine) → Prop :=
  Option.Rel fun r r' => r'.1 = r.1 ∧ r.2.Behind before r'.2

namespace Engine.Behind

variable {before : Text} {e e' : Engine}

/-- A character is the same, and as long. -/
theorem readChar (h : e.Behind before e') : AlikeRead before e.readChar e'.readChar := by
  rw [Engine.readChar, Engine.readChar, h.text, h.pos, Text.charAt_append]
  cases e.text.charAt e.pos with
  | none => exact .none
  | some c => exact .some ⟨rfl, { h with text := rfl, pos := Nat.add_assoc .. }⟩

/-- Whether it lies in a range does not depend on where it is. -/
theorem readRange (h : e.Behind before e') (lo hi : Char) :
    AlikeRead before (e.readRange lo hi) (e'.readRange lo hi) := by
  have hread := h.readChar
  unfold Engine.readRange
  cases hr : e.readChar with
  | none =>
    rw [hr] at hread
    cases hr' : e'.readChar with
    | none => exact .none
    | some r' => rw [hr'] at hread; cases hread
  | some r =>
    rw [hr] at hread
    cases hr' : e'.readChar with
    | none => rw [hr'] at hread; cases hread
    | some r' =>
      rw [hr'] at hread
      cases hread with
      | some hsame =>
        simp only [Option.filter_some, hsame.1]
        split
        · exact .some hsame
        · exact .none

/-- Readings up to an end that is found alike. -/
theorem readTo (h : e.Behind before e') (stop? : Option Nat) :
    RunRel (AlikeRead before) (e.readTo stop?) (e'.readTo (stop?.map (before.size + ·))) := by
  cases stop? with
  | none => exact .ok .none
  | some stop =>
    simp only [Engine.readTo, Option.map_some, h.text, h.pos, Text.slice_append]
    cases e.text.slice e.pos stop with
    | none => exact .error .insideCharacter
    | some read => exact .ok (.some ⟨rfl, { h.move stop with text := rfl }⟩)

end Engine.Behind

namespace Step.IgnoresBefore

variable {before : Text}

/-- Without fuel nothing is done anywhere. -/
theorem starved : IgnoresBefore fun _ => .error .outOfFuel := fun _ _ _ _ => .error .outOfFuel

theorem fail : IgnoresBefore Step.fail := fun _ _ _ h => .ok ⟨rfl, h⟩

/-- A terminal does the same if what it reads is the same. -/
theorem terminal {α : Type} {read : Engine → Run (Option (α × Engine))} {toValue : α → Value}
    (hread : ∀ before e e', Engine.Behind before e e' → RunRel (AlikeRead before) (read e) (read e')) :
    (Step.terminal read toValue).IgnoresBefore := by
  intro before f f' h
  refine (hread before _ _ h.engine).bind ?_
  intro r r' hr
  cases hr with
  | none => exact .ok ⟨rfl, h⟩
  | some hsame =>
    obtain ⟨hvalue, he⟩ := hsame
    refine .ok ⟨?_, he, h.scope⟩
    simp only [hvalue, he.pos]
    rfl

theorem any : IgnoresBefore Step.any := terminal fun _ _ _ h => .ok h.readChar

theorem range (lo hi : Char) : (Step.range lo hi).IgnoresBefore :=
  terminal fun _ _ _ h => .ok (h.readRange lo hi)

/-- A literal is looked for where the cursor is. -/
theorem literal (s : String) : (Step.literal s).IgnoresBefore := by
  refine terminal fun before e e' h => ?_
  rw [Engine.readLiteral, Engine.readLiteral, h.text, h.pos, Text.literalEnd_append]
  exact h.readTo _

/-- A pattern is anchored at the cursor, and cannot look back. -/
theorem scan (m : Matcher) : (Step.scan m).IgnoresBefore := by
  refine terminal fun before e e' h => ?_
  rw [Engine.readPattern, Engine.readPattern, h.text, h.pos, Text.patternEnd_append]
  exact h.readTo _

/-- The steps of a sequence run one after the other from engines that are still alike. -/
theorem sequenceFrom {start start' : Frame} (hstart : start.Behind before start') :
    ∀ (steps : List Step), (∀ s ∈ steps, s.IgnoresBefore) → ∀ (value : Value) (f f' : Frame),
      f.Behind before f' → RunRel (AlikeBehind before (Frame.Behind before))
        (Step.sequenceFrom start steps value f) (Step.sequenceFrom start' steps value f') := by
  intro steps
  induction steps with
  | nil =>
    intro _ value f f' h
    exact .ok ⟨by rw [h.engine.pos]; rfl, h⟩
  | cons s ss ih =>
    intro hs value f f' h
    refine (hs s List.mem_cons_self before f f' h).bind ?_
    rintro ⟨o, m⟩ ⟨o', m'⟩ ⟨ho, hm⟩
    cases ho
    cases o with
    | matched stop v => exact ih (fun t ht => hs t (List.mem_cons_of_mem s ht)) v m m' hm
    | failed => exact .ok ⟨rfl, hm.back hstart⟩

theorem sequence {steps : List Step} (hs : ∀ s ∈ steps, s.IgnoresBefore) :
    (Step.sequence steps).IgnoresBefore := fun _ f f' h => sequenceFrom h steps hs .nil f f' h

/-- Each alternative starts where the choice did. -/
theorem choice : ∀ {steps : List Step}, (∀ s ∈ steps, s.IgnoresBefore) →
    (Step.choice steps).IgnoresBefore := by
  intro steps
  induction steps with
  | nil => intro _ before f f' h; exact .ok ⟨rfl, h⟩
  | cons s ss ih =>
    intro hs before f f' h
    refine (hs s List.mem_cons_self before f f' h).bind ?_
    rintro ⟨o, m⟩ ⟨o', m'⟩ ⟨ho, hm⟩
    cases ho
    cases o with
    | matched stop v => exact .ok ⟨rfl, hm⟩
    | failed => exact ih (fun t ht => hs t (List.mem_cons_of_mem s ht)) before m m' hm

/-- As many rounds are run, with the same values. -/
theorem rounds {body : Step} (hb : body.IgnoresBefore) : ∀ (fuel : Nat) (left : Option Nat)
    (values : List Value) (f f' : Frame), f.Behind before f' →
      RunRel (fun r r' => r'.1 = r.1 ∧ r.2.Behind before r'.2)
        (Step.rounds body fuel left values f) (Step.rounds body fuel left values f') := by
  intro fuel
  induction fuel with
  | zero => intro left values f f' _; exact .error .outOfFuel
  | succ fuel ih =>
    intro left values f f' h
    unfold Step.rounds
    by_cases hleft : left = some 0
    · rw [if_pos hleft, if_pos hleft]
      exact .ok ⟨rfl, h⟩
    · rw [if_neg hleft, if_neg hleft]
      refine (hb before f f' h).bind ?_
      rintro ⟨o, m⟩ ⟨o', m'⟩ ⟨ho, hm⟩
      cases ho
      cases o with
      | failed => exact .ok ⟨rfl, hm⟩
      | matched stop v =>
        -- A round reads nothing where it reads nothing behind the text.
        simp only [h.engine.pos, Nat.add_left_cancel_iff]
        split
        · exact .ok ⟨rfl, hm⟩
        · exact ih _ _ m m' hm

/-- A repetition has its rounds in common, and so their number. -/
theorem repetition {s : Step} (hs : s.IgnoresBefore) (min : Nat) (max : Option Nat) (captures : Bool)
    (fuel : Nat) : (Step.repetition s min max captures fuel).IgnoresBefore := by
  intro before f f' h
  refine (rounds hs fuel max [] f f' h).bind ?_
  rintro ⟨values, m⟩ ⟨values', m'⟩ ⟨hvalues, hm⟩
  cases hvalues
  simp only
  split
  · exact .ok ⟨rfl, hm.back h⟩
  · exact .ok ⟨by rw [hm.engine.pos]; rfl, hm⟩

/-- Looking ahead ends where it started. -/
theorem ahead {s : Step} (hs : s.IgnoresBefore) : (Step.ahead s).IgnoresBefore := by
  intro before f f' h
  refine (hs before f f' h).bind ?_
  rintro ⟨o, m⟩ ⟨o', m'⟩ ⟨ho, hm⟩
  cases ho
  cases o with
  | matched stop v => exact .ok ⟨by rw [h.engine.pos]; rfl, hm.back h⟩
  | failed => exact .ok ⟨rfl, hm.back h⟩

theorem notAhead {s : Step} (hs : s.IgnoresBefore) : (Step.notAhead s).IgnoresBefore := by
  intro before f f' h
  refine (hs before f f' h).bind ?_
  rintro ⟨o, m⟩ ⟨o', m'⟩ ⟨ho, hm⟩
  cases ho
  cases o with
  | matched stop v => exact .ok ⟨rfl, hm.back h⟩
  | failed => exact .ok ⟨by rw [h.engine.pos]; rfl, hm.back h⟩

/-- An action sees the bindings only. -/
theorem test (a : Action) (wanted : Bool) : (Step.test a wanted).IgnoresBefore := by
  intro before f f' h
  have hnoted := h.engine.note (.performed (a.run f.scope).2) (.performed (a.run f.scope).2)
  unfold Step.test Engine.perform
  rw [h.scope]
  simp only
  split
  · exact .ok ⟨by rw [h.engine.pos]; rfl, hnoted, rfl⟩
  · exact .ok ⟨rfl, hnoted, rfl⟩

/-- The end of its match is the cursor. -/
theorem action (a : Action) : (Step.action a).IgnoresBefore := by
  intro before f f' h
  have hnoted := h.engine.note (.performed (a.run f.scope).2) (.performed (a.run f.scope).2)
  unfold Step.action Engine.perform
  rw [h.scope]
  exact .ok ⟨by rw [h.engine.pos]; rfl, hnoted, rfl⟩

/-- A binding does the same if the value that it binds is not made of offsets. -/
theorem binding {s : Step} (hs : s.IgnoresBefore) (name : String)
    {value : Frame → Nat → Value → Value} (hvalue : ∀ before f f', Frame.Behind before f f' →
      ∀ stop v, value f' (before.size + stop) v = value f stop v) :
    (Step.binding s name value).IgnoresBefore := by
  intro before f f' h
  refine (hs before f f' h).bind ?_
  rintro ⟨o, m⟩ ⟨o', m'⟩ ⟨ho, hm⟩
  cases ho
  cases o with
  | failed => exact .ok ⟨rfl, hm⟩
  | matched stop v =>
    simp only [hvalue before f f' h]
    exact .ok ⟨rfl, hm.engine, congrArg (Scope.bind · name (value f stop v)) hm.scope⟩

/-- What a tag binds is a value of the match. -/
theorem tag {s : Step} (hs : s.IgnoresBefore) (name : String) : (Step.tag s name).IgnoresBefore :=
  binding hs name fun _ _ _ _ _ _ => rfl

/-- What a collection binds is the text of the match, which is the same text. -/
theorem collect {s : Step} (hs : s.IgnoresBefore) : (Step.collect s).IgnoresBefore := by
  refine binding hs "text" fun before f f' h stop v => ?_
  simp only [Engine.textBetween, h.engine.text, h.engine.pos, Text.slice_append]

/-- Arguments are read from the bindings, and a call is made where the cursor is. -/
theorem call {run : List Value → Engine → Run (Outcome × Engine)}
    (hrun : ∀ args, CallIgnoresBefore (run args)) (args : List Arg) :
    (Step.call run args).IgnoresBefore := by
  intro before f f' h
  unfold Step.call
  rw [h.scope]
  refine (hrun _ before _ _ h.engine).bind ?_
  rintro ⟨o, e⟩ ⟨o', e'⟩ ⟨ho, he⟩
  cases ho
  exact .ok ⟨rfl, he, rfl⟩

end Step.IgnoresBefore

/-! ## Calls -/

namespace CallIgnoresBefore

variable {before : Text} {r : Runner} (hr : ∀ rule args, CallIgnoresBefore (r.body rule args))
include hr

/-- Running the body of a rule, and blaming it for a failure where it was tried. -/
theorem invoke (rule : RuleId) (args : List Value) : CallIgnoresBefore (Engine.invoke r rule args) := by
  intro before e e' h
  unfold Engine.invoke
  refine (hr rule args before _ _ (h.note _ _)).bind ?_
  rintro ⟨o, m⟩ ⟨o', m'⟩ ⟨ho, hm⟩
  cases ho
  cases o with
  | matched stop value => exact .ok ⟨rfl, ((hm.note _ _).move stop).result value value⟩
  | failed =>
    simp only [h.pos]
    exact .ok ⟨rfl, ((hm.note _ _).move e.pos).blame _ _⟩

/-- Each round of a growth gets further where it does behind the text. -/
theorem grow (key : Key) : ∀ (fuel : Nat) (e e' : Engine), e.Behind before e' →
    RunRel (AlikeBehind before (Engine.Behind before)) (e.grow r key fuel)
      (e'.grow r (key.later before.size) fuel) := by
  intro fuel
  induction fuel with
  | zero => intro e e' _; exact .error .outOfFuel
  | succ fuel ih =>
    intro e e' h
    unfold Engine.grow
    rw [h.memo key]
    cases e.memo.find? key with
    | none => exact .ok (h.grown key)
    | some entry =>
      obtain ⟨⟨status, best, value⟩, uses⟩ := entry
      have hround := invoke hr key.rule key.args before _ _
        (((h.move key.pos).result value value).note (.growing key best)
          (.growing (key.later before.size) (before.size + best)))
      refine hround.bind ?_
      rintro ⟨o, m⟩ ⟨o', m'⟩ ⟨ho, hm⟩
      cases ho
      cases o with
      | failed => exact .ok (hm.grown key)
      | matched stop longer =>
        simp only [Answer.later, Nat.add_lt_add_iff_left]
        split
        · exact ih _ _ (hm.settle key (.matched stop longer))
        · exact .ok (hm.grown key)

/-- A look-up finds the entry of the same call, or none; the rest is one growth. -/
theorem apply (fuel : Nat) (rule : RuleId) (args : List Value) :
    CallIgnoresBefore (Engine.apply r fuel rule args) := by
  intro before e e' h
  have hkey : (⟨rule, e'.pos, args⟩ : Key) = Key.later before.size ⟨rule, e.pos, args⟩ := by
    rw [h.pos]
    rfl
  simp only [Engine.apply, hkey]
  rw [h.memo ⟨rule, e.pos, args⟩]
  cases e.memo.find? ⟨rule, e.pos, args⟩ with
  | some entry => exact .ok (h.reuse _ entry)
  | none =>
    refine (invoke hr rule args before _ _ (h.opening ⟨rule, e.pos, args⟩)).bind ?_
    rintro ⟨o, m⟩ ⟨o', m'⟩ ⟨ho, hm⟩
    cases ho
    cases o with
    | failed =>
      have hsettled := hm.settle ⟨rule, e.pos, args⟩ (.parked .failed e.pos)
      rw [show Answer.later before.size (.parked .failed e.pos) = .parked .failed e'.pos by
        rw [h.pos]; rfl] at hsettled
      exact .ok ⟨rfl, hsettled⟩
    | matched stop value =>
      have hsettled := hm.settle ⟨rule, e.pos, args⟩ (.matched stop value)
      simp only [hm.sawItself]
      split
      · exact grow hr _ fuel _ _ hsettled
      · exact .ok ⟨rfl, hsettled⟩

/-- A call to a linked rule set starts with no memo table, here and there. -/
theorem callForeign (fuel : Nat) (grammar : String) (rule : RuleId) (args : List Value) :
    CallIgnoresBefore (Engine.callForeign r fuel grammar rule args) := by
  intro before e e' h
  unfold Engine.callForeign
  refine (apply hr fuel rule args before _ _ (h.note _ _).nested).bind ?_
  rintro ⟨o, i⟩ ⟨o', i'⟩ ⟨ho, hi⟩
  cases ho
  have hback := h.history i.history i'.history
  cases o with
  | matched stop value => exact .ok ⟨rfl, (hback.move stop).result value value⟩
  | failed =>
    have hblamed := hback.blame (.foreign (grammar ++ "." ++ r.nameOf rule)) e.pos
    rw [← h.pos] at hblamed
    exact .ok ⟨rfl, hblamed⟩

end CallIgnoresBefore

section

variable [RegexLibrary]

/-! ## Rule sets without bounds -/

/-- No value below the operator is made of offsets. -/
def Operator.Spanless (op : Operator) : Prop := ∀ c, .bounds c ∉ op.nodes

/-- The parts of an operator without bounds have none. -/
theorem Operator.Spanless.child {op c : Operator} (h : op.Spanless) (hc : c ∈ op.children) :
    c.Spanless := fun b hb => h b (Operator.mem_nodes_of_child hc hb)

/-- No bounds of a match in the rules, nor in those of the rule sets that are linked. -/
inductive RuleSet.Spanless : RuleSet → Prop
  | vacant (name : String) : Spanless (.vacant name)
  | grammar {g : Grammar} (hrules : ∀ r ∈ g.rules, r.body.Spanless)
      (hlinks : ∀ l ∈ g.links, Spanless l.2) : Spanless (.grammar g)
  | compiled {rs rs' : RuleSet} (h : Spanless rs) (hform : CompiledForm rs rs') : Spanless rs'

/-- An operator does the same behind any text if its parts and the bodies do that it can call. -/
theorem Grammar.eval_ignoresBefore {g : Grammar} {n : Nat}
    (own : ∀ rule args, CallIgnoresBefore (RuleSet.body n (.grammar g) rule args))
    (linked : ∀ l ∈ g.links, ∀ rule args, CallIgnoresBefore (RuleSet.body n l.2 rule args))
    (part : ∀ op : Operator, op.Spanless → (g.eval n op).IgnoresBefore) (op : Operator)
    (hop : op.Spanless) : (g.eval (n + 1) op).IgnoresBefore := by
  have below : ∀ c ∈ op.children, (g.eval n c).IgnoresBefore := fun c hc => part c (hop.child hc)
  have row : ∀ s ∈ op.children.map (g.eval n), s.IgnoresBefore := by
    intro s hs
    obtain ⟨c, hc, rfl⟩ := List.mem_map.1 hs
    exact below c hc
  cases op with
  | any => exact .any
  | literal s => exact .literal s
  | pattern p => exact .scan p.matcher
  | range lo hi =>
    simp only [Grammar.eval]
    cases singleChars lo hi with
    | none => exact .fail
    | some bounds => exact .range bounds.1 bounds.2
  | sequence ops => exact .sequence row
  | choice ops => exact .choice row
  | repetition op min max captures =>
    exact .repetition (below op (List.mem_singleton_self op)) min max captures n
  | ahead op =>
    cases op with
    | action a => exact .test a true
    | _ => exact .ahead (below _ (List.mem_singleton_self _))
  | notAhead op =>
    cases op with
    | action a => exact .test a false
    | _ => exact .notAhead (below _ (List.mem_singleton_self _))
  | tag op name => exact .tag (below op (List.mem_singleton_self op)) name
  | action a => exact .action a
  | collect op => exact .collect (below op (List.mem_singleton_self op))
  -- Offsets in a value would tell where the text begins; this is what is left out.
  | bounds op => exact absurd (Operator.mem_nodes_self _) (hop op)
  | call name args =>
    simp only [Grammar.eval]
    cases g.lookup name with
    | none => exact .fail
    | some rule => exact .call (.apply own n rule) args
  | direct name args =>
    simp only [Grammar.eval]
    cases g.lookup name with
    | none => exact .fail
    | some rule => exact .call (.invoke own rule) args
  | «foreign» grammar name args =>
    simp only [Grammar.eval]
    cases hlink : g.link? grammar with
    | none => exact .fail
    | some callee =>
      simp only
      cases callee.lookup name with
      | none => exact .fail
      | some rule =>
        obtain ⟨l, hl, rfl⟩ := mem_of_link? hlink
        exact .call (.callForeign (linked l hl) n grammar rule) args

/-- **No run looks at what is before it.**  Without bounds, all operators and bodies do the same behind any
    text, with any fuel. -/
theorem ignoresBefore (n : Nat) :
    (∀ rs : RuleSet, rs.Spanless → ∀ rule args, CallIgnoresBefore (RuleSet.body n rs rule args)) ∧
    (∀ g : Grammar, (∀ r ∈ g.rules, r.body.Spanless) → (∀ l ∈ g.links, l.2.Spanless) →
      ∀ op : Operator, op.Spanless → (g.eval n op).IgnoresBefore) := by
  induction n with
  | zero => exact ⟨fun _ _ _ _ _ _ _ _ => .error .outOfFuel, fun _ _ _ _ _ => .starved⟩
  | succ n ih =>
    obtain ⟨bodies, ops⟩ := ih
    refine ⟨fun rs hrs => ?_, fun g hrules hlinks op hop => ?_⟩
    -- By how the rule set was made, with the fuel as it is; only grammars take some of it.
    · induction hrs with
      | vacant name => exact fun _ _ _ _ _ h => .ok ⟨rfl, h⟩
      | @grammar g hrules hlinks _ =>
        intro rule args
        cases hr : g.rules[rule]? with
        | none =>
          rw [RuleSet.body_grammar_none hr n args]
          exact fun _ _ _ h => .ok ⟨rfl, h⟩
        | some r =>
          rw [RuleSet.body_grammar hr n args]
          intro before e e' h
          exact (ops g hrules hlinks r.body (hrules r (List.mem_of_getElem? hr)) before ⟨e, _⟩ ⟨e', _⟩
            ⟨h, rfl⟩).map fun _ _ hsame => ⟨hsame.1, hsame.2.engine⟩
      | @compiled rs rs' _ hform ih =>
        -- A compiled form runs the same bodies.
        have hbody : rs'.body (n + 1) = rs.body (n + 1) :=
          congrArg Runner.body (agreeWith (n + 1) rs rs' hform)
        rw [hbody]
        exact ih
    · exact Grammar.eval_ignoresBefore (bodies _ (.grammar hrules hlinks))
        (fun l hl => bodies l.2 (hlinks l hl)) (ops g hrules hlinks) op hop

/-! ## The remaining text -/

/-- A call from outside does the same behind any text. -/
theorem Engine.applyRule_ignoresBefore {rs : RuleSet} (h : rs.Spanless) (n : Nat) (rule : RuleId)
    (args : List Value) : CallIgnoresBefore (Engine.applyRule n rs rule args) :=
  CallIgnoresBefore.apply ((ignoresBefore n).1 rs h) n rule args

/-- A call of a rule that has ended with some fuel, ends. -/
theorem Ends.of_applyRule {e e' : Engine} {n : Nat} {rs : RuleSet} {rule : RuleId} {args : List Value}
    {o : Outcome} (h : e.applyRule n rs rule args = .ok (o, e')) :
    Ends (fun n => e.applyRule n rs rule args) (o, e') :=
  .of_noLater (fun _ _ hmn => Engine.apply_noLater (RuleSet.runner_noLater hmn rs) hmn rule args e) h

/-- **Parsing sees only the remaining text.**  Without bounds, a rule that is called at a boundary of a
    text and the same rule called on what remains of the text from there both never end; or both end, with
    the same value if it is a match, and the second one as much earlier as it has started.  Then the same
    culprit has failed furthest in both, as much earlier, or nothing has. -/
theorem remaining_text_decides {rs : RuleSet} (h : rs.Spanless) {t rest : Text} {p : Nat}
    (hrest : t.suffixAt p = some rest) (rule : RuleId) (args : List Value) :
    ((∀ n, (Engine.startingAt t p).applyRule n rs rule args = .error .outOfFuel) ∧
      ∀ n, (Engine.new rest).applyRule n rs rule args = .error .outOfFuel) ∨
    ∃ o e e', Ends (fun n => (Engine.startingAt t p).applyRule n rs rule args) (o.later p, e') ∧
      Ends (fun n => (Engine.new rest).applyRule n rs rule args) (o, e) ∧
      e'.furthest = e.furthest.map (·.later p) := by
  obtain ⟨before, rfl, rfl⟩ := Text.suffixAt_eq_some_iff.1 hrest
  have alike := fun n => Engine.applyRule_ignoresBefore h n rule args before _ _ (.fresh before rest)
  by_cases hends : ∃ n result, (Engine.new rest).applyRule n rs rule args = .ok result
  · obtain ⟨n, ⟨o, e⟩, hrun⟩ := hends
    obtain ⟨⟨o', e'⟩, hrun', ho, hbehind⟩ := (alike n).exists_right hrun
    cases ho
    exact .inr ⟨o, e, e', .of_applyRule hrun', .of_applyRule hrun, hbehind.furthest⟩
  -- A run that never ends has starved for every fuel, since it does not stop inside a character.
  · have hstarved : ∀ n, (Engine.new rest).applyRule n rs rule args = .error .outOfFuel := by
      intro n
      cases hrun : (Engine.new rest).applyRule n rs rule args with
      | ok result => exact absurd ⟨n, result, hrun⟩ hends
      | error stop =>
        cases stop with
        | outOfFuel => rfl
        | insideCharacter =>
          have hin : Task.InText rest (.apply n rs rule args (Engine.new rest)) :=
            ⟨rfl, .startingAt (by simp [Text.IsBoundary])⟩
          exact absurd hrun hin.not_insideCharacter
    refine .inl ⟨fun n => ?_, hstarved⟩
    have hn := alike n
    rw [hstarved n] at hn
    generalize (Engine.startingAt (before ++ rest) before.size).applyRule n rs rule args = x at hn
    cases hn
    rfl

end

/-- No rule of the signed lists binds the bounds of a match, nor does the linked one. -/
theorem signedLists_spanless : (RuleSet.grammar signedListsGrammar).Spanless := by
  have hsigns : (RuleSet.grammar signsGrammar).Spanless := by
    refine .grammar (fun r hr c hc => ?_) (by simp [signsGrammar, Grammar.ofRules])
    obtain rfl := List.mem_singleton.1 hr
    simp [Operator.plus, Operator.nodes] at hc
  refine .grammar (fun r hr c hc => ?_) fun l hl => ?_
  · obtain rfl := List.mem_singleton.1 hr
    simp [signedList, Operator.optional, Operator.nodes, Operator.nodesAll] at hc
  · obtain rfl := List.mem_singleton.1 hl
    exact .compiled hsigns (.compile signsGrammar)

/-- The list grows by two letters behind three bytes as it does at the start, and the sign that is
    missing in front of it is blamed there. -/
theorem remaining_text_decides_signedLists :
    ∃ e e', Ends (fun n => (Engine.startingAt "é-yxxz".toList 3).applyRule n
        (.grammar signedListsGrammar) 0 []) (.matched 6 (.str "x"), e') ∧
      e'.furthest = some ⟨.foreign "signs.sign", 3⟩ ∧
      Ends (fun n => (Engine.new "yxxz".toList).applyRule n (.grammar signedListsGrammar) 0 [])
        (.matched 3 (.str "x"), e) ∧ e.furthest = some ⟨.foreign "signs.sign", 0⟩ := by
  have hends : (((Engine.new "yxxz".toList).applyRule 20 (.grammar signedListsGrammar) 0 []).map
      fun r => (r.1, r.2.furthest)).toOption =
        some (.matched 3 (.str "x"), some ⟨.foreign "signs.sign", 0⟩) := by decide +kernel
  cases hrun : (Engine.new "yxxz".toList).applyRule 20 (.grammar signedListsGrammar) 0 [] with
  | error stop => rw [hrun] at hends; cases hends
  | ok r =>
    obtain ⟨first, start⟩ := r
    rw [hrun] at hends
    obtain ⟨rfl, hfurthest⟩ := Prod.mk.inj (Option.some.inj hends)
    have hrest : Text.suffixAt "é-yxxz".toList 3 = some "yxxz".toList := by decide
    rcases remaining_text_decides signedLists_spanless hrest 0 [] with
      ⟨-, hstarved⟩ | ⟨o, e, e', hbehind, hfirst, hsame⟩
    · rw [hstarved 20] at hrun
      cases hrun
    · obtain ⟨rfl, rfl⟩ := Prod.mk.inj (hfirst.unique (.of_applyRule hrun))
      have hfurthest' : e.furthest = some ⟨.foreign "signs.sign", 0⟩ := hfurthest
      exact ⟨e, e', hbehind, by rw [hsame, hfurthest']; rfl, hfirst, hfurthest'⟩

end MemoPeg
