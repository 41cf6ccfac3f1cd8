import MemoPeg.Evaluation.Fuel

/-
  What a step can do.

  1. **Terminals (`IsRead`)** — all of them read the text at the cursor and change nothing but the cursor,
     which they move over what they have read.
  2. **Inversion** — for every way of making a step from others, what must have happened if the step
     made so has ended: which parts ran, with what outcomes, and what frame was left.  The same for
     calls of rules.  Later proofs take runs apart with these and never open a definition.
  3. **Engines by name** — a call changes the engine before and behind the body that it runs.  What it makes
     of it has a name each (`attempting`, `concluded`, `regrowing`, `crossing`, `returned`), so that what
     they keep is said once.
  4. **Induction (`StepProperty`)** — a property of steps that is kept by every way of making them
     holds of every operator and of all code, and its companion for calls of every rule body.

  Bodies, operators and code call each other with less fuel, so `StepProperty.everywhere` is one induction
  for the three of them.  A proof about runs is then one lemma for each way of making a step, of which
  most are a line; what it takes in thought is the property.
-/

namespace MemoPeg

/-- A run that goes on with a result has had one. -/
theorem bind_eq_ok {α β : Type} {x : Run α} {k : α → Run β} {r : β} (h : x >>= k = .ok r) :
    ∃ a, x = .ok a ∧ k a = .ok r := by
  cases x with
  | error stop => cases h
  | ok a => exact ⟨a, rfl, h⟩

/-- A run whose outcome is known has ended in some engine. -/
theorem ends_with_outcome {x : Run (Outcome × Engine)} {o : Outcome}
    (h : (x.map (·.1)).toOption = some o) : ∃ after, x = .ok (o, after) := by
  cases x with
  | error stop => cases h
  | ok result => cases h; exact ⟨result.2, rfl⟩

/-! ## Terminals -/

/-- A reading looks at the text from the cursor on, and moves the cursor over what it has read. -/
def IsRead {α : Type} (read : Engine → Run (Option (α × Engine))) : Prop :=
  ∃ look : Text → Nat → Run (Option (α × Nat)),
    (∀ e, read e = (look e.text e.pos).map (Option.map fun r => (r.1, { e with pos := r.2 }))) ∧
    ∀ t start a stop, look t start = .ok (some (a, stop)) → (t.slice start stop).isSome

/-- A character is the slice from its offset to the next one. -/
theorem Text.slice_charAt {t : Text} {n : Nat} {c : Char} (h : t.charAt n = some c) :
    t.slice n (n + c.utf8Size) = some [c] := by
  obtain ⟨rest, hrest, hc⟩ := Option.bind_eq_some_iff.1 h
  obtain ⟨s, rfl, hs⟩ := Text.suffixAt_eq_some_iff.1 hrest
  obtain ⟨r, rfl⟩ : ∃ r, rest = c :: r := by
    cases rest with
    | nil => cases hc
    | cons d r => exact ⟨r, by rw [Option.some.inj hc]⟩
  exact Text.slice_eq_some_iff.2 ⟨s, r, by simp, hs, by simp [hs]⟩

/-- Reading any character moves the cursor behind it or leaves the engine alone. -/
theorem isRead_readChar : IsRead fun e => .ok e.readChar := by
  refine ⟨fun t n => .ok ((t.charAt n).map fun c => (c, n + c.utf8Size)), fun e => ?_, ?_⟩
  · simp only [Engine.readChar, Except.map, Option.map_map]
    rfl
  · intro t n c stop h
    obtain ⟨d, hd, heq⟩ := Option.map_eq_some_iff.1 (Except.ok.inj h)
    cases heq
    rw [Text.slice_charAt hd]
    rfl

/-- Reading a character between two bounds moves the cursor behind it or leaves the engine alone. -/
theorem isRead_readRange (lo hi : Char) : IsRead fun e => .ok (e.readRange lo hi) := by
  refine ⟨fun t n => .ok (((t.charAt n).filter fun c => lo ≤ c && c ≤ hi).map
    fun c => (c, n + c.utf8Size)), fun e => ?_, ?_⟩
  · simp only [Engine.readRange, Engine.readChar, Except.map]
    cases e.text.charAt e.pos with
    | none => rfl
    | some c =>
      simp only [Option.map_some, Option.filter_some]
      split <;> rfl
  · intro t n c stop h
    obtain ⟨d, hd, heq⟩ := Option.map_eq_some_iff.1 (Except.ok.inj h)
    cases heq
    rw [Text.slice_charAt (Option.filter_eq_some_iff.1 hd).1]
    rfl

/-- Reading up to a place that the text decides moves the cursor there or leaves the engine alone. -/
theorem isRead_readTo (stop? : Text → Nat → Option Nat) :
    IsRead fun e => e.readTo (stop? e.text e.pos) := by
  -- A fresh engine at the place reads the same.
  refine ⟨fun t n => ((Engine.startingAt t n).readTo (stop? t n)).map
    (Option.map fun r => (r.1, r.2.pos)), fun e => ?_, ?_⟩
  · simp only [Engine.readTo]
    cases stop? e.text e.pos with
    | none => rfl
    | some stop =>
      show _ = Except.map _ (Except.map _ _)
      simp only [Engine.startingAt]
      cases e.text.slice e.pos stop <;> rfl
  · intro t n a stop h
    simp only [Engine.readTo, Engine.startingAt] at h
    cases hstop : stop? t n with
    | none => rw [hstop] at h; cases h
    | some stop' =>
      rw [hstop] at h
      cases hslice : t.slice n stop' with
      | none => simp only [hslice] at h; cases h
      | some read =>
        simp only [hslice] at h
        cases h
        rw [hslice]
        rfl

/-- What is bound after a match depends on the place of the match in the text only. -/
def ReadsPlace (value : Frame → Nat → Value → Value) : Prop :=
  ∀ f g : Frame, f.engine.text = g.engine.text → f.engine.pos = g.engine.pos → value f = value g

/-- A tag binds the value that was matched. -/
theorem readsPlace_tag : ReadsPlace fun _ _ v => v := fun _ _ _ _ => rfl

/-- A capture binds the text between the two cursors. -/
theorem readsPlace_collect :
    ReadsPlace fun f stop _ => Step.textValue (f.engine.textBetween f.engine.pos stop) := by
  intro f g htext hpos
  simp only [Engine.textBetween, htext, hpos]

/-- The bounds of a capture are the two cursors. -/
theorem readsPlace_bounds : ReadsPlace fun f stop _ => .span f.engine.pos stop := by
  intro f g _ hpos
  simp only [hpos]

namespace Step

/-! ## Inversion: steps -/

variable {α : Type} {f g : Frame} {o : Outcome}

/-- A terminal has read something and is behind it, or it has failed and is where it was. -/
theorem terminal_eq_ok {read : Engine → Run (Option (α × Engine))} {toValue : α → Value}
    (h : terminal read toValue f = .ok (o, g)) :
    (∃ a e, read f.engine = .ok (some (a, e)) ∧ o = .matched e.pos (toValue a) ∧
      g = { f with engine := e }) ∨
    (read f.engine = .ok none ∧ o = .failed ∧ g = f) := by
  obtain ⟨r, hr, h⟩ := bind_eq_ok h
  cases r with
  | none => cases h; exact .inr ⟨hr, rfl, rfl⟩
  | some r => cases h; exact .inl ⟨r.1, r.2, hr, rfl, rfl⟩

/-- The first step of a row has matched and the others go on from there, or it has failed and the frame is put
    back. -/
theorem sequenceFrom_cons_eq_ok {start : Frame} {s : Step} {ss : List Step} {value : Value}
    (h : sequenceFrom start (s :: ss) value f = .ok (o, g)) :
    (∃ stop v m, s f = .ok (.matched stop v, m) ∧ sequenceFrom start ss v m = .ok (o, g)) ∨
    (∃ m, s f = .ok (.failed, m) ∧ o = .failed ∧ g = m.back start) := by
  obtain ⟨⟨part, m⟩, hpart, h⟩ := bind_eq_ok h
  cases part with
  | matched stop v => exact .inl ⟨stop, v, m, hpart, h⟩
  | failed => cases h; exact .inr ⟨m, hpart, rfl, rfl⟩

/-- The first alternative has matched, or it has failed and the others go on from where it left the frame. -/
theorem choice_cons_eq_ok {s : Step} {ss : List Step} (h : choice (s :: ss) f = .ok (o, g)) :
    (∃ stop v, s f = .ok (.matched stop v, g) ∧ o = .matched stop v) ∨
    (∃ m, s f = .ok (.failed, m) ∧ choice ss m = .ok (o, g)) := by
  obtain ⟨⟨part, m⟩, hpart, h⟩ := bind_eq_ok h
  cases part with
  | matched stop v => cases h; exact .inl ⟨stop, v, hpart, rfl⟩
  | failed => exact .inr ⟨m, hpart, h⟩

/-- A round is not due, or it has failed, or it was the last one because it read nothing, or others follow. -/
theorem rounds_succ_eq_ok {body : Step} {fuel : Nat} {left : Option Nat} {values values' : List Value}
    (h : rounds body (fuel + 1) left values f = .ok (values', g)) :
    (left = some 0 ∧ values' = values ∧ g = f) ∨
    (left ≠ some 0 ∧ body f = .ok (.failed, g) ∧ values' = values) ∨
    (left ≠ some 0 ∧ ∃ stop v m, body f = .ok (.matched stop v, m) ∧
      ((stop = f.engine.pos ∧ left.isNone ∧ values' = v :: values ∧ g = m) ∨
       (¬(stop = f.engine.pos ∧ left.isNone) ∧
        rounds body fuel (left.map (· - 1)) (v :: values) m = .ok (values', g)))) := by
  unfold rounds at h
  split at h
  case isTrue hleft => cases h; exact .inl ⟨hleft, rfl, rfl⟩
  case isFalse hleft =>
    obtain ⟨⟨part, m⟩, hpart, h⟩ := bind_eq_ok h
    cases part with
    | failed => cases h; exact .inr (.inl ⟨hleft, hpart, rfl⟩)
    | matched stop v =>
      refine .inr (.inr ⟨hleft, stop, v, m, hpart, ?_⟩)
      simp only at h
      split at h
      case isTrue hidle => cases h; exact .inl ⟨hidle.1, hidle.2, rfl, rfl⟩
      case isFalse hidle => exact .inr ⟨hidle, h⟩

/-- A repetition has made its rounds, and there were too few of them or enough. -/
theorem repetition_eq_ok {body : Step} {min : Nat} {max : Option Nat} {captures : Bool} {fuel : Nat}
    (h : repetition body min max captures fuel f = .ok (o, g)) :
    ∃ values m, rounds body fuel max [] f = .ok (values, m) ∧
      ((values.length < min ∧ o = .failed ∧ g = m.back f) ∨
       (min ≤ values.length ∧ g = m ∧
        o = .matched m.engine.pos
          (if captures then .list values.reverse else values.head?.getD .nil))) := by
  obtain ⟨⟨values, m⟩, hrounds, h⟩ := bind_eq_ok h
  refine ⟨values, m, hrounds, ?_⟩
  simp only at h
  split at h
  case isTrue hfew => cases h; exact .inl ⟨hfew, rfl, rfl⟩
  case isFalse hfew => cases h; exact .inr ⟨by omega, rfl, rfl⟩

/-- A look ahead has run its operand, and is back where it began, whatever that answered. -/
theorem ahead_eq_ok {s : Step} (h : ahead s f = .ok (o, g)) :
    ∃ part m, s f = .ok (part, m) ∧ g = m.back f ∧
      ((∃ stop v, part = .matched stop v ∧ o = .matched f.engine.pos v) ∨
       (part = .failed ∧ o = .failed)) := by
  obtain ⟨⟨part, m⟩, hpart, h⟩ := bind_eq_ok h
  refine ⟨part, m, hpart, ?_⟩
  cases part with
  | matched stop v => cases h; exact ⟨rfl, .inl ⟨stop, v, rfl, rfl⟩⟩
  | failed => cases h; exact ⟨rfl, .inr ⟨rfl, rfl⟩⟩

/-- A negative look ahead has run its operand, and is back where it began, whatever that answered. -/
theorem notAhead_eq_ok {s : Step} (h : notAhead s f = .ok (o, g)) :
    ∃ part m, s f = .ok (part, m) ∧ g = m.back f ∧
      ((∃ stop v, part = .matched stop v ∧ o = .failed) ∨
       (part = .failed ∧ o = .matched f.engine.pos .nil)) := by
  obtain ⟨⟨part, m⟩, hpart, h⟩ := bind_eq_ok h
  refine ⟨part, m, hpart, ?_⟩
  cases part with
  | matched stop v => cases h; exact ⟨rfl, .inl ⟨stop, v, rfl, rfl⟩⟩
  | failed => cases h; exact ⟨rfl, .inr ⟨rfl, rfl⟩⟩

/-- The operand has matched, and a binding is added for what it matched; or it has failed, and nothing is. -/
theorem binding_eq_ok {s : Step} {name : String} {value : Frame → Nat → Value → Value}
    (h : binding s name value f = .ok (o, g)) :
    (∃ stop v m, s f = .ok (.matched stop v, m) ∧ o = .matched stop (value f stop v) ∧
      g = { m with scope := m.scope.bind name (value f stop v) }) ∨
    (s f = .ok (.failed, g) ∧ o = .failed) := by
  obtain ⟨⟨part, m⟩, hpart, h⟩ := bind_eq_ok h
  cases part with
  | matched stop v => cases h; exact .inl ⟨stop, v, m, hpart, rfl, rfl⟩
  | failed => cases h; exact .inr ⟨hpart, rfl⟩

/-- A call resolves its arguments in the scope of the caller and leaves that scope as it is. -/
theorem call_eq_ok {run : List Value → Engine → Run (Outcome × Engine)} {args : List Arg}
    (h : call run args f = .ok (o, g)) :
    ∃ e, run (f.scope.resolve args) f.engine = .ok (o, e) ∧ g = { f with engine := e } := by
  obtain ⟨⟨part, e⟩, hpart, h⟩ := bind_eq_ok h
  cases h
  exact ⟨e, hpart, rfl⟩

/-- The frame after an action has run. -/
def performed (a : Action) (f : Frame) : Frame :=
  { f with engine := f.engine.note (.performed (a.run f.scope).2) }

/-- An action always matches, where it stands, and reads nothing. -/
theorem action_eq_ok {a : Action} (h : action a f = .ok (o, g)) :
    o = .matched f.engine.pos (a.run f.scope).1 ∧ g = performed a f := by
  cases h
  exact ⟨rfl, rfl⟩

/-- A test matches if its value holds as wanted, and leaves the cursor either way. -/
theorem test_eq_ok {a : Action} {wanted : Bool} (h : test a wanted f = .ok (o, g)) :
    g = performed a f ∧
      (((a.run f.scope).1.holds = wanted ∧
          o = .matched f.engine.pos (if wanted then (a.run f.scope).1 else .nil)) ∨
       ((a.run f.scope).1.holds ≠ wanted ∧ o = .failed)) := by
  unfold test Engine.perform at h
  simp only at h
  by_cases hw : (a.run f.scope).1.holds = wanted
  · rw [if_pos hw] at h
    cases h
    exact ⟨rfl, .inl ⟨hw, rfl⟩⟩
  · rw [if_neg hw] at h
    cases h
    exact ⟨rfl, .inr ⟨hw, rfl⟩⟩

/-- A step as the body of a rule that is called with a scope. -/
def inScope (s : Step) (scope : Scope) (e : Engine) : Run (Outcome × Engine) :=
  (s ⟨e, scope⟩).map fun r => (r.1, r.2.engine)

/-- A step in a scope of its own leaves the engine and takes the scope with it. -/
theorem inScope_eq_ok {s : Step} {scope : Scope} {e e' : Engine}
    (h : s.inScope scope e = .ok (o, e')) : ∃ m, s ⟨e, scope⟩ = .ok (o, m) ∧ e' = m.engine := by
  unfold inScope at h
  cases hm : s ⟨e, scope⟩ with
  | error stop => rw [hm] at h; cases h
  | ok result => rw [hm] at h; cases h; exact ⟨result.2, rfl, rfl⟩

end Step

/-! ## Inversion: calls -/

namespace Engine

variable {r : Runner} {e after : Engine} {o : Outcome}

/-- The engine in which the body of a rule is run. -/
def attempting (r : Runner) (rule : RuleId) (e : Engine) : Engine :=
  e.note (.attempting rule (r.nameOf rule) e.pos)

/-- What an invocation makes of the engine that the body has left. -/
def concluded (r : Runner) (rule : RuleId) (e after : Engine) : Outcome → Engine
  | .matched stop value =>
    { after.note (.matched rule (r.nameOf rule) e.pos stop) with pos := stop, result := value }
  | .failed =>
    { after.note (.failed rule (r.nameOf rule) e.pos) with pos := e.pos }.blame (.rule rule) e.pos

/-- Past the memo table, a rule is its body between two notes. -/
theorem invoke_eq (r : Runner) (rule : RuleId) (args : List Value) (e : Engine) :
    e.invoke r rule args =
      (r.body rule args (e.attempting r rule)).map
        fun result => (result.1, e.concluded r rule result.2 result.1) := by
  unfold invoke attempting
  simp only
  cases r.body rule args _ with
  | error stop => rfl
  | ok result =>
    obtain ⟨outcome, after⟩ := result
    cases outcome <;> rfl

/-- If a rule has been run past the memo table, its body has been run. -/
theorem invoke_eq_ok {rule : RuleId} {args : List Value} (h : e.invoke r rule args = .ok (o, after)) :
    ∃ m, r.body rule args (e.attempting r rule) = .ok (o, m) ∧ after = e.concluded r rule m o := by
  rw [invoke_eq] at h
  cases hbody : r.body rule args (e.attempting r rule) with
  | error stop => rw [hbody] at h; cases h
  | ok result => rw [hbody] at h; cases h; exact ⟨result.2, rfl, rfl⟩

/-- The engine in which a growing rule is invoked again. -/
def regrowing (key : Key) (best : Nat) (value : Value) (e : Engine) : Engine :=
  { e with pos := key.pos, result := value }.note (.growing key best)

/-- A growth of a key without an entry fails where the key is; any other has one more round, and goes on
    from there or ends with what the entry of the key holds then. -/
theorem grow_succ_eq_ok {key : Key} {fuel : Nat} (h : e.grow r key (fuel + 1) = .ok (o, after)) :
    (e.memo.find? key = none ∧ o = .failed ∧ after = { e with pos := key.pos }) ∨
    ∃ best uses round m, e.memo.find? key = some ⟨best, uses⟩ ∧
      (e.regrowing key best.stop best.value).invoke r key.rule key.args = .ok (round, m) ∧
      ((∃ stop longer, round = .matched stop longer ∧ best.stop < stop ∧
          (m.settle key (.matched stop longer)).grow r key fuel = .ok (o, after)) ∨
       ((∀ stop longer, round = .matched stop longer → stop ≤ best.stop) ∧
          (o, after) = m.grown key)) := by
  unfold grow at h
  cases hfind : e.memo.find? key with
  | none =>
    rw [hfind] at h
    simp only [grown, hfind] at h
    cases h
    exact .inl ⟨rfl, rfl, rfl⟩
  | some entry =>
    rw [hfind] at h
    obtain ⟨⟨round, m⟩, hround, h⟩ := bind_eq_ok h
    refine .inr ⟨entry.answer, entry.uses, round, m, rfl, hround, ?_⟩
    cases round with
    | failed => exact .inr ⟨fun _ _ hne => (by cases hne), (Except.ok.inj h).symm⟩
    | matched stop longer =>
      simp only at h
      -- The round was a match: it goes on if that is longer, and else it was the last one.
      split at h
      case isTrue hlonger => exact .inl ⟨stop, longer, rfl, hlonger, h⟩
      case isFalse hlonger =>
        exact .inr ⟨fun _ _ heq => (by cases heq; omega), (Except.ok.inj h).symm⟩

/-- A growth ends with what the entry of its key holds, or fails for lack of one. -/
theorem grown_cases (key : Key) (e : Engine) :
    (∃ entry, e.memo.find? key = some entry ∧
      e.grown key = (.matched entry.answer.stop entry.answer.value,
        { e with pos := entry.answer.stop, result := entry.answer.value })) ∨
    (e.memo.find? key = none ∧ e.grown key = (.failed, { e with pos := key.pos })) := by
  unfold grown
  cases e.memo.find? key with
  | none => exact .inr ⟨rfl, rfl⟩
  | some entry => exact .inl ⟨entry, rfl, rfl⟩

/-- A call through the memo table has found an entry; or it has made one and tried the rule once; or it has,
    and then grown the match since the rule had asked for itself. -/
theorem apply_eq_ok {fuel : Nat} {rule : RuleId} {args : List Value}
    (h : e.apply r fuel rule args = .ok (o, after)) :
    (∃ entry, e.memo.find? ⟨rule, e.pos, args⟩ = some entry ∧
      (o, after) = e.reuse ⟨rule, e.pos, args⟩ entry) ∨
    (e.memo.find? ⟨rule, e.pos, args⟩ = none ∧
      ∃ first m, (e.opening ⟨rule, e.pos, args⟩).invoke r rule args = .ok (first, m) ∧
        ((∃ stop value, first = .matched stop value ∧ m.sawItself ⟨rule, e.pos, args⟩ = true ∧
            (m.settle ⟨rule, e.pos, args⟩ (.matched stop value)).grow r ⟨rule, e.pos, args⟩ fuel =
              .ok (o, after)) ∨
         (∃ stop value, first = .matched stop value ∧ m.sawItself ⟨rule, e.pos, args⟩ = false ∧
            o = first ∧ after = m.settle ⟨rule, e.pos, args⟩ (.matched stop value)) ∨
         (first = .failed ∧ o = .failed ∧
            after = m.settle ⟨rule, e.pos, args⟩ (.parked .failed e.pos)))) := by
  simp only [apply] at h
  cases hfind : e.memo.find? ⟨rule, e.pos, args⟩ with
  | some entry =>
    rw [hfind] at h
    exact .inl ⟨entry, rfl, (Except.ok.inj h).symm⟩
  | none =>
    rw [hfind] at h
    obtain ⟨⟨first, m⟩, hfirst, h⟩ := bind_eq_ok h
    refine .inr ⟨rfl, first, m, hfirst, ?_⟩
    cases first with
    | failed => cases h; exact .inr (.inr ⟨rfl, rfl, rfl⟩)
    | matched stop value =>
      simp only at h
      split at h
      case isTrue hsaw => exact .inl ⟨stop, value, rfl, hsaw, h⟩
      case isFalse hsaw =>
        cases h
        exact .inr (.inl ⟨stop, value, rfl, by simpa using hsaw, rfl, rfl⟩)

/-- The engine that a call into a linked rule set runs in. -/
def crossing (r : Runner) (grammar : String) (rule : RuleId) (e : Engine) : Engine :=
  (e.note (.crossing grammar (r.nameOf rule) e.pos)).nested

/-- What a call into a linked rule set makes of the engine of the caller, given the history that it
    has left. -/
def returned (r : Runner) (grammar : String) (rule : RuleId) (e : Engine) (history : History) :
    Outcome → Engine
  | .matched stop value => { e with history := history, pos := stop, result := value }
  | .failed =>
    { e with history := history }.blame (.foreign (grammar ++ "." ++ r.nameOf rule)) e.pos

/-- A call across a link is a call through the memo table of a nested engine. -/
theorem callForeign_eq (r : Runner) (fuel : Nat) (grammar : String) (rule : RuleId)
    (args : List Value) (e : Engine) :
    e.callForeign r fuel grammar rule args =
      ((e.crossing r grammar rule).apply r fuel rule args).map
        fun result => (result.1, e.returned r grammar rule result.2.history result.1) := by
  unfold callForeign crossing
  simp only
  cases (e.note (.crossing grammar (r.nameOf rule) e.pos)).nested.apply r fuel rule args with
  | error stop => rfl
  | ok result =>
    obtain ⟨outcome, inner⟩ := result
    cases outcome <;> rfl

/-- If a call across a link has ended, the call in the nested engine has. -/
theorem callForeign_eq_ok {fuel : Nat} {grammar : String} {rule : RuleId} {args : List Value}
    (h : e.callForeign r fuel grammar rule args = .ok (o, after)) :
    ∃ inner, (e.crossing r grammar rule).apply r fuel rule args = .ok (o, inner) ∧
      after = e.returned r grammar rule inner.history o := by
  rw [callForeign_eq] at h
  cases hinner : (e.crossing r grammar rule).apply r fuel rule args with
  | error stop => rw [hinner] at h; cases h
  | ok result => rw [hinner] at h; cases h; exact ⟨result.2, rfl, rfl⟩

end Engine

variable [RegexLibrary]

/-! ## Bodies -/

/-- The body of a rule of a grammar is its operator, in a scope of its own. -/
theorem RuleSet.body_grammar {g : Grammar} {rule : RuleId} {r : Rule} (h : g.rules[rule]? = some r)
    (n : Nat) (args : List Value) :
    RuleSet.body (n + 1) (.grammar g) rule args =
      (g.eval n r.body).inScope (Scope.ofArgs r.params args) := by
  funext e
  simp only [RuleSet.body, h, Step.inScope]
  cases g.eval n r.body ⟨e, Scope.ofArgs r.params args⟩ <;> rfl

/-- There is no rule of this id: the body fails and leaves the engine alone. -/
theorem RuleSet.body_grammar_none {g : Grammar} {rule : RuleId} (h : g.rules[rule]? = none)
    (n : Nat) (args : List Value) :
    RuleSet.body (n + 1) (.grammar g) rule args = fun e => .ok (.failed, e) := by
  funext e
  simp only [RuleSet.body, h]

/-- The body of a routine of a program is its code, in a scope of its own. -/
theorem RuleSet.body_program {p : Program} {rule : RuleId} {r : Routine}
    (h : p.routines[rule]? = some r) (n : Nat) (args : List Value) :
    RuleSet.body (n + 1) (.program p) rule args =
      (p.exec n r.body).inScope (Scope.ofArgs r.params args) := by
  funext e
  simp only [RuleSet.body, h, Step.inScope]
  cases p.exec n r.body ⟨e, Scope.ofArgs r.params args⟩ <;> rfl

/-- There is no routine of this id: the body fails and leaves the engine alone. -/
theorem RuleSet.body_program_none {p : Program} {rule : RuleId} (h : p.routines[rule]? = none)
    (n : Nat) (args : List Value) :
    RuleSet.body (n + 1) (.program p) rule args = fun e => .ok (.failed, e) := by
  funext e
  simp only [RuleSet.body, h]

/-! ## Induction over everything that can run -/

/-- A property of steps and a property of calls that every way of making them keeps. -/
structure StepProperty (P : Step → Prop) (Q : (Engine → Run (Outcome × Engine)) → Prop) :
    Prop where
  starved : P fun _ => .error .outOfFuel
  fail : P Step.fail
  terminal : ∀ {α : Type} {read : Engine → Run (Option (α × Engine))} {toValue : α → Value},
    IsRead read → P (Step.terminal read toValue)
  sequence : ∀ steps : List Step, (∀ s ∈ steps, P s) → P (Step.sequence steps)
  choice : ∀ steps : List Step, (∀ s ∈ steps, P s) → P (Step.choice steps)
  repetition : ∀ s : Step, P s → ∀ min max captures fuel,
    P (Step.repetition s min max captures fuel)
  ahead : ∀ s : Step, P s → P (Step.ahead s)
  notAhead : ∀ s : Step, P s → P (Step.notAhead s)
  test : ∀ a wanted, P (Step.test a wanted)
  binding : ∀ s : Step, P s → ∀ name value, ReadsPlace value → P (Step.binding s name value)
  action : ∀ a, P (Step.action a)
  call : ∀ run, (∀ args, Q (run args)) → ∀ args, P (Step.call run args)
  starvedBody : Q fun _ => .error .outOfFuel
  noBody : Q fun e => .ok (.failed, e)
  body : ∀ s : Step, P s → ∀ scope, Q (s.inScope scope)
  invoke : ∀ r : Runner, (∀ rule args, Q (r.body rule args)) → ∀ rule args,
    Q (Engine.invoke r rule args)
  apply : ∀ r : Runner, (∀ rule args, Q (r.body rule args)) → ∀ fuel rule args,
    Q (Engine.apply r fuel rule args)
  callForeign : ∀ r : Runner, (∀ rule args, Q (r.body rule args)) → ∀ fuel grammar rule args,
    Q (Engine.callForeign r fuel grammar rule args)

namespace StepProperty

variable {P : Step → Prop} {Q : (Engine → Run (Outcome × Engine)) → Prop}

omit [RegexLibrary] in
/-- What holds of every member of a family of steps holds of a row of them. -/
theorem mem_map {α : Type} {s : α → Step} (hs : ∀ a, P (s a)) (xs : List α) :
    ∀ t ∈ xs.map s, P t := by
  intro t ht
  obtain ⟨a, -, rfl⟩ := List.mem_map.1 ht
  exact hs a

/-- An operator has the property if the bodies it can call do, and operators with less fuel. -/
theorem eval_succ (h : StepProperty P Q) {n : Nat}
    (bodies : ∀ rs rule args, Q (RuleSet.body n rs rule args))
    (part : ∀ (g : Grammar) (op : Operator), P (g.eval n op)) (g : Grammar) (op : Operator) :
    P (g.eval (n + 1) op) := by
  cases op with
  | any => exact h.terminal isRead_readChar
  | literal s => exact h.terminal (isRead_readTo fun t p => t.literalEnd p s.toList)
  | pattern p => exact h.terminal (isRead_readTo fun t n => t.patternEnd n p.matcher)
  | range lo hi =>
    simp only [Grammar.eval]
    cases singleChars lo hi with
    | none => exact h.fail
    | some bounds => exact h.terminal (isRead_readRange _ _)
  | sequence ops => exact h.sequence _ (mem_map (part g) ops)
  | choice ops => exact h.choice _ (mem_map (part g) ops)
  | repetition op min max captures => exact h.repetition _ (part g op) _ _ _ _
  | ahead op =>
    cases op with
    | action a => exact h.test a true
    | _ => exact h.ahead _ (part g _)
  | notAhead op =>
    cases op with
    | action a => exact h.test a false
    | _ => exact h.notAhead _ (part g _)
  | tag op name => exact h.binding _ (part g op) _ _ readsPlace_tag
  | action a => exact h.action a
  | collect op => exact h.binding _ (part g op) _ _ readsPlace_collect
  | bounds op => exact h.binding _ (part g op) _ _ readsPlace_bounds
  | call name args =>
    simp only [Grammar.eval]
    cases g.lookup name with
    | none => exact h.fail
    | some rule => exact h.call _ (h.apply _ (bodies (.grammar g)) n rule) args
  | direct name args =>
    simp only [Grammar.eval]
    cases g.lookup name with
    | none => exact h.fail
    | some rule => exact h.call _ (h.invoke _ (bodies (.grammar g)) rule) args
  | «foreign» grammar name args =>
    simp only [Grammar.eval]
    cases g.link? grammar with
    | none => exact h.fail
    | some callee =>
      simp only
      cases callee.lookup name with
      | none => exact h.fail
      | some rule => exact h.call _ (h.callForeign _ (bodies callee) n grammar rule) args

/-- Code has the property if the bodies it can call do, and code with less fuel. -/
theorem exec_succ (h : StepProperty P Q) {n : Nat}
    (bodies : ∀ rs rule args, Q (RuleSet.body n rs rule args))
    (part : ∀ (p : Program) (code : Code), P (p.exec n code)) (p : Program) (code : Code) :
    P (p.exec (n + 1) code) := by
  rw [Program.exec_succ]
  cases code with
  | any => exact h.terminal isRead_readChar
  | literal s => exact h.terminal (isRead_readTo fun t p => t.literalEnd p s.toList)
  | scan m => exact h.terminal (isRead_readTo fun t n => t.patternEnd n m)
  | range lo hi => exact h.terminal (isRead_readRange lo hi)
  | sequence steps => exact h.sequence _ (mem_map (part p) steps)
  | choice alternatives => exact h.choice _ (mem_map (part p) alternatives)
  | repetition body min max captures => exact h.repetition _ (part p body) _ _ _ _
  | ahead body => exact h.ahead _ (part p body)
  | notAhead body => exact h.notAhead _ (part p body)
  | test a wanted => exact h.test a wanted
  | tag body name => exact h.binding _ (part p body) _ _ readsPlace_tag
  | action a => exact h.action a
  | collect body => exact h.binding _ (part p body) _ _ readsPlace_collect
  | bounds body => exact h.binding _ (part p body) _ _ readsPlace_bounds
  | apply rule args => exact h.call _ (h.apply _ (bodies (.program p)) n rule) args
  | invoke rule args => exact h.call _ (h.invoke _ (bodies (.program p)) rule) args
  | «foreign» grammar callee rule args =>
    exact h.call _ (h.callForeign _ (bodies callee) n grammar rule) args
  | fail => exact h.fail

/-- A body has the property if operators and code do with less fuel. -/
theorem body_succ (h : StepProperty P Q) {n : Nat}
    (ops : ∀ (g : Grammar) (op : Operator), P (g.eval n op))
    (codes : ∀ (p : Program) (code : Code), P (p.exec n code)) (rs : RuleSet) (rule : RuleId)
    (args : List Value) : Q (RuleSet.body (n + 1) rs rule args) := by
  cases rs with
  | vacant name => exact h.noBody
  | grammar g =>
    cases hr : g.rules[rule]? with
    | none => exact RuleSet.body_grammar_none hr n args ▸ h.noBody
    | some r => exact RuleSet.body_grammar hr n args ▸ h.body _ (ops g r.body) _
  | program p =>
    cases hr : p.routines[rule]? with
    | none => exact RuleSet.body_program_none hr n args ▸ h.noBody
    | some r => exact RuleSet.body_program hr n args ▸ h.body _ (codes p r.body) _

/-- **Induction over runs.**  With any fuel, all bodies, operators and code have the property. -/
theorem everywhere (h : StepProperty P Q) (n : Nat) :
    (∀ rs rule args, Q (RuleSet.body n rs rule args)) ∧
    (∀ (g : Grammar) (op : Operator), P (g.eval n op)) ∧
    (∀ (p : Program) (code : Code), P (p.exec n code)) := by
  induction n with
  | zero => exact ⟨fun _ _ _ => h.starvedBody, fun _ _ => h.starved, fun _ _ => h.starved⟩
  | succ n ih =>
    obtain ⟨bodies, ops, codes⟩ := ih
    exact ⟨h.body_succ ops codes, h.eval_succ bodies ops, h.exec_succ bodies codes⟩

end StepProperty

end MemoPeg
