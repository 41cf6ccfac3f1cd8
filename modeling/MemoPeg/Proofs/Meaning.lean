import MemoPeg.Proofs.Phrases

/-
  What rules mean at a place of a text.

  1. **Questions (`Question`)** — what a phrase, a rule body or a call answers at a place, asked without an
     engine: no memo table, no records, no order of calls.
  2. **Seeds (`Seed`)** — a call is tried with a seed, which answers its calls of itself: a failure at
     first, then the match that it has grown to.  Every other call is a question of its own.
  3. **Derivations (`Derives`)** — a rule for each way of making a phrase, for rule bodies, and for calls
     that fail, match or grow.  Calls into linked rule sets are left out.
  4. **The crux (`Derives.unique`)** — a question has one answer at most.  The shape of a phrase leaves one
     way to make it (`Derives.of_shape`).

  A reply says besides the outcome and the bindings whether the seed was asked for.  A call that matches
  without having asked for it is done; one that has asked is tried again with its match as the seed.  An
  engine finds this out from a mark in the memo table, which is not to be had here.

  There is a question for the rest of a row, for the alternatives that are left and for the rounds to
  come, so that uniqueness can be proved by one induction over derivations without one over lists inside
  of it.
-/

namespace MemoPeg

variable [RegexLibrary]

/-! ## Bindings -/

/-- The part, the name and the value of a shape that binds one; the value is made from the text, the
    ends of the match and the value of the part. -/
def Shape.binding? : Shape → Option (Phrase × String × (Text → Nat → Nat → Value → Value))
  | .tag part name => some (part, name, fun _ _ _ v => v)
  | .collect part =>
    some (part, "text", fun t start stop _ => Step.textValue ((t.slice start stop).getD []))
  | .bounds part => some (part, "bounds", fun _ start stop _ => .span start stop)
  | _ => none

/-- What a binding does, with its value as a function of the text. -/
theorem Shape.step_binding {x : Shape} {part : Phrase} {name : String}
    {value : Text → Nat → Nat → Value → Value} (h : x.binding? = some (part, name, value)) (n : Nat) :
    x.step n = Step.binding (part.step n) name fun f => value f.engine.text f.engine.pos := by
  cases x with
  | tag _ _ => cases h; rfl
  | collect _ => cases h; rfl
  | bounds _ => cases h; rfl
  | _ => cases h

/-- An operator that binds is a tag, or captures the text or its ends. -/
theorem Operator.shape_eq_binding {g : Grammar} {op : Operator} {part : Phrase} {name : String}
    {value : Text → Nat → Nat → Value → Value}
    (h : (op.shape g).binding? = some (part, name, value)) :
    ∃ c, part = .operator g c ∧ ((∃ name, op = .tag c name) ∨ op = .collect c ∨ op = .bounds c) := by
  unfold Operator.shape at h
  (repeat' split at h) <;> cases h
  · exact ⟨_, rfl, .inl ⟨_, rfl⟩⟩
  · exact ⟨_, rfl, .inr (.inl rfl)⟩
  · exact ⟨_, rfl, .inr (.inr rfl)⟩

/-- The outcome with its value replaced. -/
def Outcome.mapValue (f : Nat → Value → Value) : Outcome → Outcome
  | .matched stop v => .matched stop (f stop v)
  | .failed => .failed

/-- The scope with the value of a match bound to a name. -/
def Outcome.bindIn (name : String) (s : Scope) : Outcome → Scope
  | .matched _ v => s.bind name v
  | .failed => s

/-- What a predicate makes of the outcome of its part. -/
def Outcome.aheadAt (p : Nat) : Outcome → Outcome
  | .matched _ v => .matched p v
  | .failed => .failed

/-- What a negated predicate makes of the outcome of its part. -/
def Outcome.notAheadAt (p : Nat) : Outcome → Outcome
  | .matched _ _ => .failed
  | .failed => .matched p .nil

/-! ## Questions and answers -/

/-- An offset of the text, and the bindings there. -/
structure Place where
  pos : Nat
  scope : Scope

/-- A call that is being tried, and what its calls of itself find. -/
structure Seed where
  key : Key
  outcome : Outcome

/-- What can be asked about a text. -/
inductive Question where
  | phrase (σ : Seed) (x : Phrase) (p : Place)
  /-- The rest of a sequence that began with the scope and whose last value was the given one. -/
  | rest (σ : Seed) (start : Scope) (parts : List Phrase) (value : Value) (p : Place)
  /-- The first of the phrases that matches. -/
  | first (σ : Seed) (parts : List Phrase) (p : Place)
  /-- The rounds of a repetition from here on, after those with the given values. -/
  | rounds (σ : Seed) (part : Phrase) (left : Option Nat) (values : List Value) (p : Place)
  | body (σ : Seed) (rs : RuleSet) (rule : RuleId) (args : List Value) (pos : Nat)
  /-- A call through a memo table that has no entry for it. -/
  | call (rs : RuleSet) (key : Key)
  /-- A call that has grown to a match. -/
  | growth (rs : RuleSet) (key : Key) (best : Nat) (value : Value)

/-- The answer to a question: the outcome, the scope that it leaves, and whether the call that is being
    tried was called again on the way. -/
structure Reply where
  outcome : Outcome
  scope : Scope
  asked : Bool

/-- The answer of a repetition with these rounds, up to `stop` with a scope. -/
def repetitionReply (min : Nat) (captures : Bool) (start : Scope) (values : List Value) (stop : Nat)
    (s : Scope) (asked : Bool) : Reply :=
  if values.length < min then ⟨.failed, s.rollback start.mark, asked⟩
  else ⟨.matched stop (if captures then .list values.reverse else values.head?.getD .nil), s, asked⟩

/-- The question about the text has the answer. -/
inductive Derives (t : Text) : Question → Reply → Prop
  | leaf {σ : Seed} {x : Phrase} {p : Place} {l : Leaf} {o : Outcome} {m : Frame}
      (hx : x.shape = .leaf l) (hrun : l.step ⟨Engine.startingAt t p.pos, p.scope⟩ = .ok (o, m)) :
      Derives t (.phrase σ x p) ⟨o, m.scope, false⟩
  | sequence {σ : Seed} {x : Phrase} {p : Place} {parts : List Phrase} {r : Reply}
      (hx : x.shape = .sequence parts) (h : Derives t (.rest σ p.scope parts .nil p) r) :
      Derives t (.phrase σ x p) r
  | restNil {σ : Seed} {start : Scope} {v : Value} {p : Place} :
      Derives t (.rest σ start [] v p) ⟨.matched p.pos v, p.scope, false⟩
  | restFailed {σ : Seed} {start s : Scope} {x : Phrase} {parts : List Phrase} {v : Value} {p : Place}
      {a : Bool} (h : Derives t (.phrase σ x p) ⟨.failed, s, a⟩) :
      Derives t (.rest σ start (x :: parts) v p) ⟨.failed, s.rollback start.mark, a⟩
  | restMatched {σ : Seed} {start s s' : Scope} {x : Phrase} {parts : List Phrase} {v v' : Value}
      {p : Place} {stop : Nat} {a a' : Bool} {o : Outcome}
      (h : Derives t (.phrase σ x p) ⟨.matched stop v', s, a⟩)
      (hrest : Derives t (.rest σ start parts v' ⟨stop, s⟩) ⟨o, s', a'⟩) :
      Derives t (.rest σ start (x :: parts) v p) ⟨o, s', a || a'⟩
  | choice {σ : Seed} {x : Phrase} {p : Place} {parts : List Phrase} {r : Reply}
      (hx : x.shape = .choice parts) (h : Derives t (.first σ parts p) r) :
      Derives t (.phrase σ x p) r
  | firstNil {σ : Seed} {p : Place} : Derives t (.first σ [] p) ⟨.failed, p.scope, false⟩
  | firstMatched {σ : Seed} {s : Scope} {x : Phrase} {parts : List Phrase} {v : Value} {p : Place}
      {stop : Nat} {a : Bool} (h : Derives t (.phrase σ x p) ⟨.matched stop v, s, a⟩) :
      Derives t (.first σ (x :: parts) p) ⟨.matched stop v, s, a⟩
  | firstFailed {σ : Seed} {s s' : Scope} {x : Phrase} {parts : List Phrase} {p : Place} {a a' : Bool}
      {o : Outcome} (h : Derives t (.phrase σ x p) ⟨.failed, s, a⟩)
      (hrest : Derives t (.first σ parts ⟨p.pos, s⟩) ⟨o, s', a'⟩) :
      Derives t (.first σ (x :: parts) p) ⟨o, s', a || a'⟩
  | repetition {σ : Seed} {x part : Phrase} {p : Place} {min : Nat} {max : Option Nat}
      {captures : Bool} {values : List Value} {stop : Nat} {s : Scope} {a : Bool}
      (hx : x.shape = .repetition part min max captures)
      (h : Derives t (.rounds σ part max [] p) ⟨.matched stop (.list values), s, a⟩) :
      Derives t (.phrase σ x p) (repetitionReply min captures p.scope values stop s a)
  | roundsSpent {σ : Seed} {part : Phrase} {values : List Value} {p : Place} :
      Derives t (.rounds σ part (some 0) values p) ⟨.matched p.pos (.list values), p.scope, false⟩
  | roundsFailed {σ : Seed} {part : Phrase} {left : Option Nat} {values : List Value} {p : Place}
      {s : Scope} {a : Bool} (hleft : left ≠ some 0)
      (h : Derives t (.phrase σ part p) ⟨.failed, s, a⟩) :
      Derives t (.rounds σ part left values p) ⟨.matched p.pos (.list values), s, a⟩
  | roundsIdle {σ : Seed} {part : Phrase} {values : List Value} {p : Place} {v : Value} {s : Scope}
      {a : Bool} (h : Derives t (.phrase σ part p) ⟨.matched p.pos v, s, a⟩) :
      Derives t (.rounds σ part none values p) ⟨.matched p.pos (.list (v :: values)), s, a⟩
  | roundsNext {σ : Seed} {part : Phrase} {left : Option Nat} {values : List Value} {p : Place}
      {stop : Nat} {v : Value} {s s' : Scope} {a a' : Bool} {o : Outcome} (hleft : left ≠ some 0)
      (h : Derives t (.phrase σ part p) ⟨.matched stop v, s, a⟩)
      (hgo : ¬(stop = p.pos ∧ left.isNone))
      (hrest : Derives t (.rounds σ part (left.map (· - 1)) (v :: values) ⟨stop, s⟩) ⟨o, s', a'⟩) :
      Derives t (.rounds σ part left values p) ⟨o, s', a || a'⟩
  | ahead {σ : Seed} {x part : Phrase} {p : Place} {r : Reply} (hx : x.shape = .ahead part)
      (h : Derives t (.phrase σ part p) r) :
      Derives t (.phrase σ x p)
        ⟨r.outcome.aheadAt p.pos, r.scope.rollback p.scope.mark, r.asked⟩
  | notAhead {σ : Seed} {x part : Phrase} {p : Place} {r : Reply} (hx : x.shape = .notAhead part)
      (h : Derives t (.phrase σ part p) r) :
      Derives t (.phrase σ x p)
        ⟨r.outcome.notAheadAt p.pos, r.scope.rollback p.scope.mark, r.asked⟩
  | binding {σ : Seed} {x part : Phrase} {p : Place} {name : String}
      {value : Text → Nat → Nat → Value → Value} {r : Reply}
      (hx : x.shape.binding? = some (part, name, value)) (h : Derives t (.phrase σ part p) r) :
      Derives t (.phrase σ x p)
        ⟨r.outcome.mapValue (value t p.pos), (r.outcome.mapValue (value t p.pos)).bindIn name r.scope,
          r.asked⟩
  /-- The call that is being tried is called again. -/
  | again {σ : Seed} {x : Phrase} {p : Place} {rs : RuleSet} {rule : RuleId} {args : List Arg}
      (hx : x.shape = .apply rs rule args) (hkey : ⟨rule, p.pos, p.scope.resolve args⟩ = σ.key) :
      Derives t (.phrase σ x p) ⟨σ.outcome, p.scope, true⟩
  | other {σ : Seed} {x : Phrase} {p : Place} {rs : RuleSet} {rule : RuleId} {args : List Arg}
      {r : Reply} (hx : x.shape = .apply rs rule args)
      (hkey : ⟨rule, p.pos, p.scope.resolve args⟩ ≠ σ.key)
      (h : Derives t (.call rs ⟨rule, p.pos, p.scope.resolve args⟩) r) :
      Derives t (.phrase σ x p) ⟨r.outcome, p.scope, false⟩
  /-- Past the memo table, the body is tried for the same call. -/
  | direct {σ : Seed} {x : Phrase} {p : Place} {rs : RuleSet} {rule : RuleId} {args : List Arg}
      {r : Reply} (hx : x.shape = .invoke rs rule args)
      (h : Derives t (.body σ rs rule (p.scope.resolve args) p.pos) r) :
      Derives t (.phrase σ x p) ⟨r.outcome, p.scope, r.asked⟩
  | body {σ : Seed} {rs : RuleSet} {rule : RuleId} {args : List Value} {pos : Nat}
      {params : List String} {x : Phrase} {r : Reply} (hx : rs.phrase? rule = some (params, x))
      (h : Derives t (.phrase σ x ⟨pos, Scope.ofArgs params args⟩) r) :
      Derives t (.body σ rs rule args pos) r
  | noBody {σ : Seed} {rs : RuleSet} {rule : RuleId} {args : List Value} {pos : Nat}
      (hx : rs.phrase? rule = none) : Derives t (.body σ rs rule args pos) ⟨.failed, [], false⟩
  | callFailed {rs : RuleSet} {key : Key} {r : Reply}
      (h : Derives t (.body ⟨key, .failed⟩ rs key.rule key.args key.pos) r) (ho : r.outcome = .failed) :
      Derives t (.call rs key) ⟨.failed, [], false⟩
  | callMatched {rs : RuleSet} {key : Key} {r : Reply} {stop : Nat} {v : Value}
      (h : Derives t (.body ⟨key, .failed⟩ rs key.rule key.args key.pos) r)
      (ho : r.outcome = .matched stop v) (hasked : r.asked = false) :
      Derives t (.call rs key) ⟨.matched stop v, [], false⟩
  | callGrown {rs : RuleSet} {key : Key} {r r' : Reply} {stop : Nat} {v : Value}
      (h : Derives t (.body ⟨key, .failed⟩ rs key.rule key.args key.pos) r)
      (ho : r.outcome = .matched stop v) (hasked : r.asked = true)
      (hgrown : Derives t (.growth rs key stop v) r') : Derives t (.call rs key) r'
  | longer {rs : RuleSet} {key : Key} {best stop : Nat} {v v' : Value} {r r' : Reply}
      (h : Derives t (.body ⟨key, .matched best v⟩ rs key.rule key.args key.pos) r)
      (ho : r.outcome = .matched stop v') (hlonger : best < stop)
      (hgrown : Derives t (.growth rs key stop v') r') : Derives t (.growth rs key best v) r'
  | grown {rs : RuleSet} {key : Key} {best : Nat} {v : Value} {r : Reply}
      (h : Derives t (.body ⟨key, .matched best v⟩ rs key.rule key.args key.pos) r)
      (ho : ∀ stop v', r.outcome = .matched stop v' → stop ≤ best) :
      Derives t (.growth rs key best v) ⟨.matched best v, [], false⟩

/-! ## Inversion -/

/-- What the answer to a question about a phrase of the shape has been made from. -/
def Shape.Answers (t : Text) (σ : Seed) (p : Place) (r : Reply) : Shape → Prop
  | .leaf l => ∃ o m, l.step ⟨Engine.startingAt t p.pos, p.scope⟩ = .ok (o, m) ∧
      r = ⟨o, m.scope, false⟩
  | .sequence parts => Derives t (.rest σ p.scope parts .nil p) r
  | .choice parts => Derives t (.first σ parts p) r
  | .repetition part min max captures => ∃ values stop s a,
      Derives t (.rounds σ part max [] p) ⟨.matched stop (.list values), s, a⟩ ∧
        r = repetitionReply min captures p.scope values stop s a
  | .ahead part => ∃ r', Derives t (.phrase σ part p) r' ∧
      r = ⟨r'.outcome.aheadAt p.pos, r'.scope.rollback p.scope.mark, r'.asked⟩
  | .notAhead part => ∃ r', Derives t (.phrase σ part p) r' ∧
      r = ⟨r'.outcome.notAheadAt p.pos, r'.scope.rollback p.scope.mark, r'.asked⟩
  | .apply rs rule args =>
    if ⟨rule, p.pos, p.scope.resolve args⟩ = σ.key then r = ⟨σ.outcome, p.scope, true⟩
    else ∃ r', Derives t (.call rs ⟨rule, p.pos, p.scope.resolve args⟩) r' ∧
      r = ⟨r'.outcome, p.scope, false⟩
  | .invoke rs rule args => ∃ r', Derives t (.body σ rs rule (p.scope.resolve args) p.pos) r' ∧
      r = ⟨r'.outcome, p.scope, r'.asked⟩
  | shape => ∃ part name value r', shape.binding? = some (part, name, value) ∧
      Derives t (.phrase σ part p) r' ∧
        r = ⟨r'.outcome.mapValue (value t p.pos),
          (r'.outcome.mapValue (value t p.pos)).bindIn name r'.scope, r'.asked⟩

/-- The shape of a phrase says what its answer has been made from. -/
theorem Derives.of_shape {t : Text} {σ : Seed} {x : Phrase} {p : Place} {r : Reply} {shape : Shape}
    (h : Derives t (.phrase σ x p) r) (hshape : x.shape = shape) : shape.Answers t σ p r := by
  subst hshape
  cases h with
  | leaf hx hrun => rw [hx]; exact ⟨_, _, hrun, rfl⟩
  | sequence hx h => rw [hx]; exact h
  | choice hx h => rw [hx]; exact h
  | repetition hx h => rw [hx]; exact ⟨_, _, _, _, h, rfl⟩
  | ahead hx h => rw [hx]; exact ⟨_, h, rfl⟩
  | notAhead hx h => rw [hx]; exact ⟨_, h, rfl⟩
  | again hx hkey => rw [hx, Shape.Answers, if_pos hkey]
  | other hx hkey h => rw [hx, Shape.Answers, if_neg hkey]; exact ⟨_, h, rfl⟩
  | direct hx h => rw [hx]; exact ⟨_, h, rfl⟩
  | binding hx h =>
    generalize x.shape = shape at hx
    cases shape with
    | tag _ _ | collect _ | bounds _ => exact ⟨_, _, _, _, hx, h, rfl⟩
    | _ => cases hx

/-! ## One answer -/

/-- **A question has one answer at most.** -/
theorem Derives.unique {t : Text} {q : Question} {r r' : Reply} (h : Derives t q r)
    (h' : Derives t q r') : r = r' := by
  -- The shape of a phrase leaves one way to answer, and a question about parts goes on as the answer to
  -- the first of them says.
  induction h generalizing r' with
  | leaf hx hrun =>
    obtain ⟨o, m, hrun', rfl⟩ := h'.of_shape hx
    rw [hrun] at hrun'
    cases hrun'
    rfl
  | sequence hx _ ih => exact ih (h'.of_shape hx)
  | choice hx _ ih => exact ih (h'.of_shape hx)
  | repetition hx _ ih =>
    obtain ⟨values, stop, s, a, hrounds, rfl⟩ := h'.of_shape hx
    cases ih hrounds
    rfl
  | ahead hx _ ih =>
    obtain ⟨reply, hpart, rfl⟩ := h'.of_shape hx
    rw [ih hpart]
  | notAhead hx _ ih =>
    obtain ⟨reply, hpart, rfl⟩ := h'.of_shape hx
    rw [ih hpart]
  | @binding σ x part p name value r hx _ ih =>
    have hshape := h'.of_shape rfl
    generalize x.shape = shape at hx hshape
    cases shape with
    | tag _ _ | collect _ | bounds _ =>
      obtain ⟨_, _, _, reply, hx', hpart, rfl⟩ := hshape
      rw [hx] at hx'
      cases hx'
      rw [ih hpart]
    | _ => cases hx
  | again hx hkey =>
    have hshape := h'.of_shape hx
    rw [Shape.Answers, if_pos hkey] at hshape
    exact hshape.symm
  | other hx hkey _ ih =>
    have hshape := h'.of_shape hx
    rw [Shape.Answers, if_neg hkey] at hshape
    obtain ⟨reply, hcall, rfl⟩ := hshape
    rw [ih hcall]
  | direct hx _ ih =>
    obtain ⟨reply, hbody, rfl⟩ := h'.of_shape hx
    rw [ih hbody]
  | restNil => cases h'; rfl
  | restFailed _ ih =>
    cases h' with
    | restFailed hpart => cases ih hpart; rfl
    | restMatched hpart _ => cases ih hpart
  | restMatched _ _ ih ihrest =>
    cases h' with
    | restFailed hpart => cases ih hpart
    | restMatched hpart hrest =>
      cases ih hpart
      cases ihrest hrest
      rfl
  | firstNil => cases h'; rfl
  | firstMatched _ ih =>
    cases h' with
    | firstMatched hpart => exact ih hpart
    | firstFailed hpart _ => cases ih hpart
  | firstFailed _ _ ih ihrest =>
    cases h' with
    | firstMatched hpart => cases ih hpart
    | firstFailed hpart hrest =>
      cases ih hpart
      cases ihrest hrest
      rfl
  | roundsSpent =>
    cases h' with
    | roundsSpent => rfl
    | roundsFailed hleft _ => exact absurd rfl hleft
    | roundsNext hleft _ _ _ => exact absurd rfl hleft
  | roundsFailed hleft _ ih =>
    cases h' with
    | roundsSpent => exact absurd rfl hleft
    | roundsFailed _ hpart => cases ih hpart; rfl
    | roundsIdle hpart => cases ih hpart
    | roundsNext _ hpart _ _ => cases ih hpart
  | roundsIdle _ ih =>
    cases h' with
    | roundsFailed _ hpart => cases ih hpart
    | roundsIdle hpart => cases ih hpart; rfl
    | roundsNext _ hpart hgo _ => cases ih hpart; exact absurd ⟨rfl, rfl⟩ hgo
  | roundsNext hleft _ hgo _ ih ihrest =>
    cases h' with
    | roundsSpent => exact absurd rfl hleft
    | roundsFailed _ hpart => cases ih hpart
    | roundsIdle hpart => cases ih hpart; exact absurd ⟨rfl, rfl⟩ hgo
    | roundsNext _ hpart _ hrest =>
      cases ih hpart
      cases ihrest hrest
      rfl
  | body hx _ ih =>
    cases h' with
    | body hx' hphrase =>
      rw [hx] at hx'
      cases hx'
      exact ih hphrase
    | noBody hx' => rw [hx] at hx'; cases hx'
  | noBody hx =>
    cases h' with
    | body hx' _ => rw [hx] at hx'; cases hx'
    | noBody _ => rfl
  | callFailed _ ho ih =>
    cases h' with
    | callFailed _ _ => rfl
    | callMatched hbody ho' _ | callGrown hbody ho' _ _ =>
      cases ih hbody
      rw [ho] at ho'
      cases ho'
  | callMatched _ ho hasked ih =>
    cases h' with
    | callFailed hbody ho' =>
      cases ih hbody
      rw [ho] at ho'
      cases ho'
    | callMatched hbody ho' _ =>
      cases ih hbody
      rw [ho] at ho'
      cases ho'
      rfl
    | callGrown hbody _ hasked' _ =>
      cases ih hbody
      rw [hasked] at hasked'
      cases hasked'
  | callGrown _ ho hasked _ ih ihgrown =>
    cases h' with
    | callFailed hbody ho' =>
      cases ih hbody
      rw [ho] at ho'
      cases ho'
    | callMatched hbody _ hasked' =>
      cases ih hbody
      rw [hasked] at hasked'
      cases hasked'
    | callGrown hbody ho' _ hgrown =>
      cases ih hbody
      rw [ho] at ho'
      cases ho'
      exact ihgrown hgrown
  | longer _ ho hlonger _ ih ihgrown =>
    cases h' with
    | longer hbody ho' _ hgrown =>
      cases ih hbody
      rw [ho] at ho'
      cases ho'
      exact ihgrown hgrown
    | grown hbody ho' =>
      cases ih hbody
      exact absurd (ho' _ _ ho) (Nat.not_le_of_lt hlonger)
  | grown _ ho ih =>
    cases h' with
    | longer hbody ho' hlonger _ =>
      cases ih hbody
      exact absurd (ho _ _ ho') (Nat.not_le_of_lt hlonger)
    | grown _ _ => rfl

end MemoPeg
