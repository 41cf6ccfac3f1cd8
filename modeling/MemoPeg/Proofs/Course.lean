import MemoPeg.Proofs.Ledger

/-
  The course of a run.

  `Starts` says what can run within a task; it is right for showing what no run does.  To show that something
  has happened in a run one must know that the run really comes to it.

  1. **Coming to a task (`Task.Comes`)** — `Starts` allows every rule that matches a growth, and every
     repetition one more round.  A run comes to a round of growth only if the rule has called itself, and
     to a round of a repetition only if one is left and the round before it is not the last.
  2. **Performing (`Task.Performs`)** — what a task comes to, what that comes to, and so on.
  3. **The crux (`Task.Performs.ends`)** — of a run that ends, everything that it performs has ended, and
     what has happened in its engine up to there is part of what has happened in the end.

  3 is proved downwards: a run that ends has ended in each of the places that it has come to, for without
  the result of a part there is nothing to go on with.  What happens in an engine is only ever added to, so
  what had happened when the part was left is still there when the whole is.
-/

namespace MemoPeg

/-! ## Rounds -/

/-- With `left` rounds allowed from the first frame on, a repetition comes to another one in the second. -/
inductive Step.RoundDue (body : Step) : Option Nat → Frame → Frame → Prop
  | now {left : Option Nat} {f : Frame} (hleft : left ≠ some 0) : RoundDue body left f f
  | next {left : Option Nat} {f m g : Frame} {stop : Nat} {v : Value} (hleft : left ≠ some 0)
      (h : body f = .ok (.matched stop v, m)) (hon : ¬(stop = f.engine.pos ∧ left.isNone))
      (hdue : RoundDue body (left.map (· - 1)) m g) : RoundDue body left f g

variable [RegexLibrary]

/-- The rounds before the one that is due have matched. -/
theorem Step.RoundDue.ran {part : Phrase} {n : Nat} {left : Option Nat} {f g : Frame}
    (h : (part.step n).RoundDue left f g) : ∃ k, Ran n true (List.replicate k part) f g := by
  induction h with
  | now _ => exact ⟨0, .nil _⟩
  | next _ hround _ _ ih =>
    obtain ⟨k, hran⟩ := ih
    exact ⟨k + 1, .cons hround rfl hran⟩

/-- The rule of the key calls itself when it is tried. -/
def Engine.CallsItself (r : Runner) (key : Key) (e : Engine) : Prop :=
  ∃ first m, (e.opening key).invoke r key.rule key.args = .ok (first, m) ∧ m.sawItself key

/-! ## Coming to a task -/

namespace Task

/-- If the second task is a round of growth or of a repetition, the first one comes to it. -/
def GoesOn (t u : Task) : Prop :=
  match t with
  | .apply n rs rule args e =>
    u = .invoke n rs rule args (e.opening ⟨rule, e.pos, args⟩) ∨
      e.CallsItself (rs.runner n) ⟨rule, e.pos, args⟩
  | .phrase (n + 1) x f =>
    match x.shape with
    | .repetition part _ max _ => ∃ g, u = .phrase n part g ∧ (part.step n).RoundDue max f g
    | _ => True
  | .phrase 0 _ _ | .invoke _ _ _ _ _ | .cross _ _ _ _ _ _ => True

/-- The first task, as it runs, comes to run the second one. -/
def Comes (t u : Task) : Prop := Starts t u ∧ t.GoesOn u

/-- The first task, as it runs, runs the second one, at whatever remove, or is it. -/
abbrev Performs : Task → Task → Prop := Relation.ReflTransGen Comes

/-- What a task performs it runs. -/
theorem Performs.runs {t u : Task} (h : t.Performs u) : t.Runs u :=
  Relation.ReflTransGen.mono (fun _ _ hcomes => hcomes.1) _ _ h

namespace Comes

/-- A call without an entry comes to the body of its rule. -/
theorem first {n : Nat} {rs : RuleSet} {rule : RuleId} {args : List Value} {e : Engine}
    (hfind : e.memo.find? ⟨rule, e.pos, args⟩ = none) :
    (Task.apply n rs rule args e).Comes (.invoke n rs rule args (e.opening ⟨rule, e.pos, args⟩)) :=
  ⟨.first hfind, .inl rfl⟩

/-- A call comes to another round if the rule has called itself. -/
theorem again {n : Nat} {rs : RuleSet} {rule : RuleId} {args : List Value} {e m : Engine} {best : Nat}
    {value : Value} (hfind : e.memo.find? ⟨rule, e.pos, args⟩ = none)
    (hitself : e.CallsItself (rs.runner n) ⟨rule, e.pos, args⟩)
    (hgrown : GrownTo (rs.runner n) ⟨rule, e.pos, args⟩ e best value m) :
    (Task.apply n rs rule args e).Comes
      (.invoke n rs rule args (m.regrowing ⟨rule, e.pos, args⟩ best value)) :=
  ⟨.again hfind hgrown, .inr hitself⟩

/-- An invocation comes to the body. -/
theorem body {n : Nat} {rs : RuleSet} {rule : RuleId} {args : List Value} {e : Engine}
    {params : List String} {x : Phrase} (hbody : rs.phrase? rule = some (params, x)) :
    (Task.invoke (n + 1) rs rule args e).Comes
      (.phrase n x ⟨e.attempting (rs.runner (n + 1)) rule, Scope.ofArgs params args⟩) :=
  ⟨.body hbody, trivial⟩

variable {n : Nat} {x part : Phrase} {before after : List Phrase} {f g : Frame} {rs : RuleSet}
  {rule : RuleId} {args : List Arg}

/-- A phrase that is no repetition comes to all that it starts. -/
theorem of_phrase {u : Task} (h : Starts (.phrase (n + 1) x f) u)
    (hx : ∀ part min max captures, x.shape ≠ .repetition part min max captures) :
    (Task.phrase (n + 1) x f).Comes u := by
  refine ⟨h, ?_⟩
  simp only [GoesOn]

/-- A repetition comes to a round that is due. -/
theorem ofRound {min : Nat} {max : Option Nat} {captures : Bool}
    (hx : x.shape = .repetition part min max captures) (hdue : (part.step n).RoundDue max f g) :
    (Task.phrase (n + 1) x f).Comes (.phrase n part g) := by
  obtain ⟨k, hran⟩ := hdue.ran
  refine ⟨.ofRepetition hx hran, ?_⟩
  simp only [GoesOn, hx]
  exact ⟨g, rfl, hdue⟩

/-- A sequence comes to a part behind parts that have matched. -/
theorem ofSequence (hx : x.shape = .sequence (before ++ part :: after)) (hran : Ran n true before f g) :
    (Task.phrase (n + 1) x f).Comes (.phrase n part g) :=
  .of_phrase (.ofSequence hx hran) fun _ _ _ _ heq => by rw [heq] at hx; cases hx

/-- A choice comes to an alternative behind others that have failed. -/
theorem ofChoice (hx : x.shape = .choice (before ++ part :: after)) (hran : Ran n false before f g) :
    (Task.phrase (n + 1) x f).Comes (.phrase n part g) :=
  .of_phrase (.ofChoice hx hran) fun _ _ _ _ heq => by rw [heq] at hx; cases hx

/-- A predicate or a binding comes to its part. -/
theorem ofPart (hx : x.shape.part? = some part) :
    (Task.phrase (n + 1) x f).Comes (.phrase n part f) :=
  .of_phrase (.ofPart hx) fun _ _ _ _ heq => by rw [heq] at hx; cases hx

/-- A call in a phrase is made with its arguments resolved. -/
theorem ofApply (hx : x.shape = .apply rs rule args) :
    (Task.phrase (n + 1) x f).Comes (.apply n rs rule (f.scope.resolve args) f.engine) :=
  .of_phrase (.ofApply hx) fun _ _ _ _ heq => by rw [heq] at hx; cases hx

theorem ofInvoke (hx : x.shape = .invoke rs rule args) :
    (Task.phrase (n + 1) x f).Comes (.invoke n rs rule (f.scope.resolve args) f.engine) :=
  .of_phrase (.ofInvoke hx) fun _ _ _ _ heq => by rw [heq] at hx; cases hx

theorem ofCross {grammar : String} (hx : x.shape = .cross grammar rs rule args) :
    (Task.phrase (n + 1) x f).Comes (.cross n grammar rs rule (f.scope.resolve args) f.engine) :=
  .of_phrase (.ofCross hx) fun _ _ _ _ heq => by rw [heq] at hx; cases hx

end Comes

end Task

/-! ## What a run comes to ends -/

/-- What a part of a run leaves is extended by what the whole leaves. -/
theorem Phrase.extends {x : Phrase} {n : Nat} {f g : Frame} {o : Outcome} (h : x.step n f = .ok (o, g)) :
    f.engine.Extends g.engine := (x.accounts n f o g h).1

omit [RegexLibrary] in
/-- What is noted at the end of an invocation comes on top of what has happened in it. -/
theorem Engine.Extends.concluded (r : Runner) (rule : RuleId) (e m : Engine) (o : Outcome) :
    m.Extends (e.concluded r rule m o) := by
  cases o with
  | matched stop value => exact .of_note m (.matched rule _ e.pos stop) _ rfl rfl rfl
  | failed =>
    have hnoted := Engine.Extends.of_note m (.failed rule (r.nameOf rule) e.pos)
      { m.note (.failed rule (r.nameOf rule) e.pos) with pos := e.pos } rfl rfl rfl
    exact hnoted.trans (.of_note _ (.blamed (.rule rule) e.pos) _ rfl rfl rfl)

namespace Step

variable {n : Nat} {part : Phrase}

/-- The parts of a sequence extend their engines. -/
theorem extends_of_mem (parts : List Phrase) : ∀ s ∈ parts.map (Phrase.step n), ∀ f o g,
    s f = .ok (o, g) → f.engine.Extends g.engine := by
  intro s hs f o g h
  obtain ⟨x, -, rfl⟩ := List.mem_map.1 hs
  exact Phrase.extends h

/-- A sequence has run the part that it comes to behind parts that have matched. -/
theorem sequenceFrom_ends {start : Frame} {before after : List Phrase} {f m g : Frame} {o : Outcome}
    (hran : Ran n true before f m) : ∀ {value : Value},
      sequenceFrom start ((before ++ part :: after).map (Phrase.step n)) value f = .ok (o, g) →
        ∃ o' m', part.step n m = .ok (o', m') ∧ m'.engine.Extends g.engine := by
  induction hran with
  | nil f =>
    intro value h
    rcases sequenceFrom_cons_eq_ok h with ⟨stop, v, m', hpart, hrest⟩ | ⟨m', hpart, -, rfl⟩
    · exact ⟨_, m', hpart, extends_order.sequenceFrom start _ (extends_of_mem after) v _ _ _ hrest⟩
    · exact ⟨_, m', hpart, .refl _⟩
  | cons hx ho _ ih =>
    intro value h
    rcases sequenceFrom_cons_eq_ok h with ⟨stop, v, m', hx', hrest⟩ | ⟨m', hx', -, -⟩
    · obtain ⟨rfl, rfl⟩ := Prod.mk.inj (Except.ok.inj (hx.symm.trans hx'))
      exact ih hrest
    · obtain ⟨rfl, -⟩ := Prod.mk.inj (Except.ok.inj (hx.symm.trans hx'))
      cases ho

/-- A choice has run the alternative that it comes to behind alternatives that have failed. -/
theorem choice_ends {before after : List Phrase} {f m g : Frame} {o : Outcome}
    (hran : Ran n false before f m)
    (h : choice ((before ++ part :: after).map (Phrase.step n)) f = .ok (o, g)) :
    ∃ o' m', part.step n m = .ok (o', m') ∧ m'.engine.Extends g.engine := by
  induction hran with
  | nil f =>
    rcases choice_cons_eq_ok h with ⟨stop, v, hpart, -⟩ | ⟨m', hpart, hrest⟩
    · exact ⟨_, g, hpart, .refl _⟩
    · exact ⟨_, m', hpart, extends_order.choice _ (extends_of_mem after) _ _ _ hrest⟩
  | cons hx ho _ ih =>
    rcases choice_cons_eq_ok h with ⟨stop, v, hx', -⟩ | ⟨m', hx', hrest⟩
    · obtain ⟨rfl, -⟩ := Prod.mk.inj (Except.ok.inj (hx.symm.trans hx'))
      cases ho
    · obtain ⟨rfl, rfl⟩ := Prod.mk.inj (Except.ok.inj (hx.symm.trans hx'))
      exact ih hrest

/-- A repetition has run the round that it comes to. -/
theorem rounds_ends {left : Option Nat} {f m : Frame} (hdue : (part.step n).RoundDue left f m) :
    ∀ {fuel : Nat} {values values' : List Value} {g : Frame},
      rounds (part.step n) fuel left values f = .ok (values', g) →
        ∃ o' m', part.step n m = .ok (o', m') ∧ m'.engine.Extends g.engine := by
  induction hdue with
  | now hleft =>
    intro fuel values values' g h
    cases fuel with
    | zero => cases h
    | succ fuel =>
      rcases rounds_succ_eq_ok h with ⟨hnone, -⟩ | ⟨-, hpart, -⟩ |
        ⟨-, stop, v, m', hpart, ⟨-, -, -, rfl⟩ | ⟨-, hrest⟩⟩
      · exact absurd hnone hleft
      · exact ⟨_, g, hpart, .refl _⟩
      · exact ⟨_, _, hpart, .refl _⟩
      · exact ⟨_, m', hpart, extends_order.rounds (fun _ _ _ => Phrase.extends) _ _ _ _ _ _ hrest⟩
  | next hleft hround hon _ ih =>
    intro fuel values values' g h
    cases fuel with
    | zero => cases h
    | succ fuel =>
      rcases rounds_succ_eq_ok h with ⟨hnone, -⟩ | ⟨-, hpart, -⟩ |
        ⟨-, stop, v, m', hpart, ⟨hsame, hnone, -⟩ | ⟨-, hrest⟩⟩
      · exact absurd hnone hleft
      · cases hround.symm.trans hpart
      · cases hround.symm.trans hpart
        exact absurd ⟨hsame, hnone⟩ hon
      · cases hround.symm.trans hpart
        exact ih hrest

/-- A binding has run the part. -/
theorem binding_ends {name : String} {value : Frame → Nat → Value → Value} {f g : Frame} {o : Outcome}
    (h : binding (part.step n) name value f = .ok (o, g)) :
    ∃ o' m, part.step n f = .ok (o', m) ∧ m.engine.Extends g.engine := by
  rcases binding_eq_ok h with ⟨stop, v, m, hm, -, rfl⟩ | ⟨hm, -⟩
  · exact ⟨_, m, hm, .refl _⟩
  · exact ⟨_, g, hm, .refl _⟩

end Step

/-- A predicate or a binding has run its part. -/
theorem Shape.part_ends {s : Shape} {part : Phrase} {n : Nat} {f g : Frame} {o : Outcome}
    (hpart : s.part? = some part) (hrun : s.step n f = .ok (o, g)) :
    ∃ o' m, part.step n f = .ok (o', m) ∧ m.engine.Extends g.engine := by
  cases s with
  | ahead p =>
    cases hpart
    obtain ⟨o', m, hm, rfl, -⟩ := Step.ahead_eq_ok hrun
    exact ⟨o', m, hm, .refl _⟩
  | notAhead p =>
    cases hpart
    obtain ⟨o', m, hm, rfl, -⟩ := Step.notAhead_eq_ok hrun
    exact ⟨o', m, hm, .refl _⟩
  | tag p name =>
    cases hpart
    rw [Shape.step, Step.tag] at hrun
    exact Step.binding_ends hrun
  | collect p =>
    cases hpart
    rw [Shape.step, Step.collect] at hrun
    exact Step.binding_ends hrun
  | bounds p =>
    cases hpart
    rw [Shape.step, Step.bounds] at hrun
    exact Step.binding_ends hrun
  | _ => cases hpart

omit [RegexLibrary] in
/-- A rule that has grown has matched at first. -/
theorem GrownTo.matched_first {r : Runner} {key : Key} {e g : Engine} {best : Nat} {value : Value}
    (h : GrownTo r key e best value g) :
    ∃ stop first m, (e.opening key).invoke r key.rule key.args = .ok (.matched stop first, m) := by
  induction h with
  | seed hfirst => exact ⟨_, _, _, hfirst⟩
  | longer _ _ _ ih => exact ih

omit [RegexLibrary] in
/-- A growth goes on from every match that it has reached. -/
theorem GrownTo.goes_on {r : Runner} {key : Key} {e m g e' : Engine} {stop best fuel : Nat}
    {first value : Value} {o : Outcome} (h : GrownTo r key e best value g)
    (hfirst : (e.opening key).invoke r key.rule key.args = .ok (.matched stop first, m))
    (hgrow : (m.settle key (.matched stop first)).growFrom r key fuel stop first = .ok (o, e')) :
    ∃ fuel', g.growFrom r key fuel' best value = .ok (o, e') := by
  induction h with
  | seed hseed => cases hfirst.symm.trans hseed; exact ⟨fuel, hgrow⟩
  | longer _ hround hlonger ih =>
    obtain ⟨fuel', hgrow'⟩ := ih
    cases fuel' with
    | zero => cases hgrow'
    | succ fuel' =>
      obtain ⟨round, m', hround', hrest⟩ := Engine.growFrom_succ_eq_ok hgrow'
      cases hround.symm.trans hround'
      rcases hrest with ⟨stop', longer', heq, -, hrest⟩ | ⟨hshort, -, -⟩
      · cases heq
        exact ⟨fuel', hrest⟩
      · exact absurd (hshort _ _ rfl) (by omega)

namespace Task

variable {t u : Task} {o : Outcome} {e' : Engine}

/-- A call through the memo table has run the rounds that it comes to. -/
theorem Comes.apply_ends {n : Nat} {rs : RuleSet} {rule : RuleId} {args : List Value} {e : Engine}
    (h : (Task.apply n rs rule args e).Comes u) (hrun : e.applyRule n rs rule args = .ok (o, e')) :
    ∃ o' m', u.run = .ok (o', m') ∧ m'.Extends e' := by
  have hbodies := extends_order.bodies n rs
  have hfind : e.memo.find? ⟨rule, e.pos, args⟩ = none := by
    cases h.1 with
    | first hfind => exact hfind
    | again hfind _ => exact hfind
  rcases Engine.apply_ends (rs.runner_retains n) hrun with
    ⟨entry, hsome, -⟩ | ⟨-, first, m, hm, hrest⟩
  · rw [hfind] at hsome
    cases hsome
  -- The first run of the rule.
  have hfirst : m.Extends e' := by
    rcases hrest with ⟨stop, value, -, -, hgrowth⟩ | ⟨stop, value, -, -, -, rfl⟩ | ⟨-, -, rfl⟩
    · exact (extends_order.settle m _ _).trans (extends_order.growFrom hbodies hgrowth)
    · exact .refl _
    · exact .refl _
  rcases h.2 with rfl | ⟨first', m', hm', hsaw⟩
  · exact ⟨first, m, hm, hfirst⟩
  · cases hm.symm.trans hm'
    cases h.1 with
    | first _ => exact ⟨first, m, hm, hfirst⟩
    | again _ hgrown =>
      obtain ⟨stop, value, m', hmatched⟩ := hgrown.matched_first
      cases hm.symm.trans hmatched
      rcases hrest with ⟨_, _, heq, -, hgrowth⟩ | ⟨_, _, -, hnot, -⟩ | ⟨heq, -, -⟩
      · cases heq
        obtain ⟨fuel, hgoes⟩ := hgrown.goes_on hm hgrowth
        cases fuel with
        | zero => cases hgoes
        | succ fuel =>
          obtain ⟨round, g, hround, hend⟩ := Engine.growFrom_succ_eq_ok hgoes
          refine ⟨round, g, hround, ?_⟩
          rcases hend with ⟨stop', longer, -, -, hrest⟩ | ⟨-, -, rfl⟩
          · exact (extends_order.settle g _ _).trans (extends_order.growFrom hbodies hrest)
          · exact .refl _
      · rw [hnot] at hsaw
        cases hsaw
      · cases heq

/-- A phrase has run the parts and made the calls that it comes to. -/
theorem Comes.phrase_ends {n : Nat} {x : Phrase} {f g : Frame} (h : (Task.phrase (n + 1) x f).Comes u)
    (hrun : x.step (n + 1) f = .ok (o, g)) : ∃ o' m', u.run = .ok (o', m') ∧ m'.Extends g.engine := by
  rw [Phrase.step_succ] at hrun
  have of_part : ∀ {part : Phrase} {m : Frame}, (∃ o' m', part.step n m = .ok (o', m') ∧
      m'.engine.Extends g.engine) →
        ∃ o' m', (Task.phrase n part m).run = .ok (o', m') ∧ m'.Extends g.engine := by
    rintro part m ⟨o', m', hpart, hext⟩
    refine ⟨o', m'.engine, ?_, hext⟩
    show (part.step n m).map _ = _
    rw [hpart]
    rfl
  cases h.1 with
  | ofSequence hx hran =>
    rw [hx] at hrun
    exact of_part (Step.sequenceFrom_ends hran hrun)
  | ofChoice hx hran =>
    rw [hx] at hrun
    exact of_part (Step.choice_ends hran hrun)
  | ofRepetition hx _ =>
    have hgoes := h.2
    simp only [GoesOn, hx] at hgoes
    obtain ⟨m, heq, hdue⟩ := hgoes
    rw [heq]
    rw [hx] at hrun
    obtain ⟨values, m', hrounds, hend⟩ := Step.repetition_eq_ok hrun
    obtain ⟨o', m'', hpart, hext⟩ := Step.rounds_ends hdue hrounds
    refine of_part ⟨o', m'', hpart, hext.trans ?_⟩
    rcases hend with ⟨-, -, rfl⟩ | ⟨-, rfl, -⟩
    · exact .refl _
    · exact .refl _
  | ofPart hx => exact of_part (Shape.part_ends hx hrun)
  | ofApply hx =>
    rw [hx] at hrun
    obtain ⟨e, he, rfl⟩ := Step.call_eq_ok hrun
    exact ⟨o, e, he, .refl e⟩
  | ofInvoke hx =>
    rw [hx] at hrun
    obtain ⟨e, he, rfl⟩ := Step.call_eq_ok hrun
    exact ⟨o, e, he, .refl e⟩
  | ofCross hx =>
    rw [hx] at hrun
    obtain ⟨e, he, rfl⟩ := Step.call_eq_ok hrun
    exact ⟨o, e, he, .refl e⟩

/-- What a run that ends comes to has ended, in an engine that it goes on with. -/
theorem Comes.ends (h : t.Comes u) (hrun : t.run = .ok (o, e')) : ∃ o' m', u.run = .ok (o', m') ∧
    (u.engine.depth = t.engine.depth → m'.Extends e') := by
  cases t with
  | apply n rs rule args e =>
    obtain ⟨o', m', hu, hext⟩ := h.apply_ends hrun
    exact ⟨o', m', hu, fun _ => hext⟩
  | invoke n rs rule args e =>
    obtain ⟨m, hm, rfl⟩ := Engine.invoke_eq_ok hrun
    cases h.1 with
    | @body n _ _ _ _ params x hbody =>
      rw [show (rs.runner (n + 1)).body = RuleSet.body (n + 1) rs from rfl,
        RuleSet.body_phrase hbody] at hm
      exact ⟨o, m, hm, fun _ => .concluded _ _ e m o⟩
  | cross n grammar rs rule args e =>
    cases h.1 with
    | linked =>
      obtain ⟨inner, hinner, -⟩ := Engine.callForeign_eq_ok hrun
      exact ⟨o, inner, hinner, fun hdepth => absurd hdepth (Nat.succ_ne_self _)⟩
  | phrase n x f =>
    obtain ⟨g, hg, rfl⟩ := Step.inScope_eq_ok hrun
    cases n with
    | zero => cases h.1
    | succ n =>
      obtain ⟨o', m', hu, hext⟩ := h.phrase_ends hg
      exact ⟨o', m', hu, fun _ => hext⟩

/-- **What a run performs has ended when it has.**  If it was performed in the same engine, what had
    happened there in the end had happened before the run has ended. -/
theorem Performs.ends (h : t.Performs u) (hrun : t.run = .ok (o, e')) : ∃ o' m', u.run = .ok (o', m') ∧
    (u.engine.depth = t.engine.depth → m'.Extends e') := by
  induction h using Relation.ReflTransGen.head_induction_on generalizing o e' with
  | refl => exact ⟨o, e', hrun, fun _ => .refl e'⟩
  | @head t v hcomes hperforms ih =>
    obtain ⟨ov, ev, hv, hext⟩ := hcomes.ends hrun
    obtain ⟨o', m', hu, hext'⟩ := ih hv
    refine ⟨o', m', hu, fun hdepth => ?_⟩
    -- Nothing comes back from deeper engines.
    have hle := Task.Runs.depth_le (.single hcomes.1)
    have hle' := Task.Runs.depth_le (Performs.runs hperforms)
    exact (hext' (by omega)).trans (hext (by omega))

end Task

end MemoPeg
