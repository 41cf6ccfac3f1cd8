import MemoPeg.Proofs.Contract
import MemoPeg.Proofs.LeftCalls
import MemoPeg.Proofs.Nullability
import MemoPeg.Proofs.Settling

/-
  The calls that are being tried, and what the memo table says meanwhile.

  This is the half of the proof about seeds that looks at the engine.  A derivation (`Derives`) has no
  memo table; to show that a run finds what is derived, one has to say what the table may hold at any
  moment of the run, and who may ask for it.

  1. **Steady grammars** — checked, of solid operators, and with rules that call themselves on the left
     only if they have no parameters.
  2. **The invariant (`Engine.Settled`, `Engine.Trying`)** — every answer in the memo table is the derived
     one, those to the calls that are being tried aside.  The innermost of these has the answer that
     its seed says; nothing is said of the answers to the others, which are in progress too.
  3. **One lemma for each thing that happens to the table** — a call is opened (`Settled.opening`), found
     (`Settled.reuse`), asked for again while it is tried (`Trying.again`), given an answer
     (`Trying.settle`), and done with (`Settled.close`, `Trying.answered`).  The induction over runs uses
     these and never looks into the table itself.
  4. **Contexts** — while the body of a rule is run, the calls that are being tried began before it, or
     where it did by rules above it.  The crux is `Context.callee`: so none but the innermost can be
     called again.

  Why 4 is needed: a call that is being tried is answered with a failure, or with the match that it has
  grown to so far, and neither need be what is derived for it.  If a call further out could be asked for,
  then its half-made answer would end up in an answer that is recorded for good.  Two things exclude it.
  A call that began further left has another position in its key, and calls do not go back.  One that
  began at the same offset belongs to a rule above the one that is run, and to call it on the left would
  close a cycle of more than one rule, which a self-cycling grammar has not.
-/

namespace MemoPeg

/-! ## Steady grammars -/

/-- The names of the rules that are found nullable. -/
def Grammar.nullable [RegexLibrary] (g : Grammar) : List String := nullableRules g.rules

/-- Checked, made of solid operators, and self-cycling. -/
structure Grammar.Steady [RegexLibrary] (g : Grammar) : Prop where
  checked : g.Checked
  bodies : ∀ r ∈ g.rules, r.body.Solid
  cycling : g.SelfCycling g.nullable

/-- What is asked of steady grammars is more than what the settling proofs ask of the operators. -/
theorem Grammar.Steady.solid [RegexLibrary] {g : Grammar} (hg : g.Steady) : g.Solid g.nullable :=
  ⟨hg.bodies, nullableRules_closed g.rules⟩

/-! ## Answers in the memo table -/

namespace Engine

variable {e e' : Engine} {key other : Key} {answer answer' : Answer}

/-- Opening a call makes an entry for it and leaves the answers to all others. -/
theorem Holds.of_opening (h : (e.opening key).Holds other answer) :
    other = key ∨ e.Holds other answer := by
  by_cases heq : other = key
  · exact .inl heq
  · -- Another call: its look-up passes the new entry by.
    refine .inr (h.of_find? ?_)
    rw [show (e.opening key).memo = e.memo.start key from rfl, Memo.find?_start, if_neg (Ne.symm heq)]

/-- Recording an answer changes the entry of its call only. -/
theorem Holds.of_settle (h : (e.settle key answer').Holds other answer) :
    other = key ∨ e.Holds other answer := by
  by_cases heq : other = key
  · exact .inl heq
  · refine .inr (h.of_find? ?_)
    rw [show (e.settle key answer').memo = e.memo.settle key answer' from rfl, Memo.settle,
      Memo.find?_modify, if_neg (Ne.symm heq)]

/-- Counting a use changes no answer. -/
theorem Holds.of_use (h : e'.Holds other answer) (hmemo : e'.memo = e.memo.use key) :
    e.Holds other answer := by
  unfold Holds at h ⊢
  rw [hmemo, Memo.use, Memo.find?_modify] at h
  split at h
  · rw [Option.map_map] at h
    exact h
  · exact h

/-- The entries of these calls are the same in both engines. -/
def Keeps (calls : Key → Prop) (e e' : Engine) : Prop :=
  ∀ key, calls key → e'.memo.find? key = e.memo.find? key

namespace Keeps

variable {calls : Key → Prop} {d : Engine}

/-- An engine with the same memo table keeps every entry. -/
theorem of_memo (h : e'.memo = e.memo) : e.Keeps calls e' := fun _ _ => by rw [h]

theorem trans (h : d.Keeps calls e) (k : e.Keeps calls e') : d.Keeps calls e' :=
  fun key hkey => (k key hkey).trans (h key hkey)

theorem mono {calls' : Key → Prop} (h : e.Keeps calls e') (hcalls : ∀ key, calls' key → calls key) :
    e.Keeps calls' e' := fun key hkey => h key (hcalls key hkey)

/-- A change of the entry of another call. -/
theorem modify (hkey : ¬calls key) {f : Entry → Entry} (h : e'.memo = e.memo.modify f key) :
    e.Keeps calls e' := by
  intro other hother
  have hne : key ≠ other := fun heq => hkey (heq ▸ hother)
  rw [h, Memo.find?_modify, if_neg hne]

/-- A call that gets its first entry is none of those that are kept. -/
theorem opening (hkey : ¬calls key) : e.Keeps calls (e.opening key) := by
  intro other hother
  have hne : key ≠ other := fun heq => hkey (heq ▸ hother)
  rw [show (e.opening key).memo = e.memo.start key from rfl, Memo.find?_start, if_neg hne]

end Keeps

/-- The answer to a call that is found is the outcome that it was recorded for. -/
theorem reuse_answer {entry : Entry} {o o' : Outcome} (h : (o, e') = e.reuse key entry)
    (hanswer : entry.answer = o'.answer key.pos) : o = o' ∧ e'.memo = e.memo.use key := by
  obtain ⟨answer, uses⟩ := entry
  cases o' with
  | matched stop v =>
    obtain rfl : answer = .matched stop v := hanswer
    cases h
    exact ⟨rfl, rfl⟩
  | failed =>
    obtain rfl : answer = .parked .failed key.pos := hanswer
    cases h
    exact ⟨rfl, rfl⟩

/-- A call that is found in progress fails, and is marked. -/
theorem reuse_inProgress {entry : Entry} {o : Outcome} {asked : Bool} (h : (o, e') = e.reuse key entry)
    (hanswer : entry.answer = .parked (.inProgress asked) key.pos) :
    o = .failed ∧ e'.memo = (e.memo.use key).settle key (.parked (.inProgress true) key.pos) := by
  obtain ⟨answer, uses⟩ := entry
  obtain rfl : answer = .parked (.inProgress asked) key.pos := hanswer
  cases h
  exact ⟨rfl, rfl⟩

end Engine

/-! ## The invariant -/

variable [RegexLibrary]

/-- Every answer is about a busy call or derived. -/
structure Engine.Settled (g : Grammar) (t : Text) (busy : Key → Prop) (e : Engine) : Prop where
  text : e.text = t
  inText : e.InText
  answers : ∀ key answer, e.Holds key answer →
    busy key ∨ ∃ r, Derives t (.call (.grammar g) key) r ∧ answer = r.outcome.answer key.pos

/-- The answer to a call that is being tried, by its seed. -/
def Seed.answer (σ : Seed) (asked : Bool) : Answer :=
  match σ.outcome with
  | .failed => .parked (.inProgress asked) σ.key.pos
  | .matched stop v => .matched stop v

/-- A call is being tried with a seed while others are busy, and has been asked for again or not. -/
structure Engine.Trying (g : Grammar) (t : Text) (σ : Seed) (others : Key → Prop) (asked : Bool)
    (e : Engine) : Prop where
  settled : e.Settled g t fun key => others key ∨ key = σ.key
  seed : e.Holds σ.key (σ.answer asked)

/-- A call of a rule from one engine to the other has been answered as is derived, with the entries of
    the busy calls untouched. -/
def Key.Answered (g : Grammar) (t : Text) (busy : Key → Prop) (key : Key) (e : Engine) (o : Outcome)
    (e' : Engine) : Prop :=
  ∃ r, Derives t (.call (.grammar g) key) r ∧ r.outcome = o ∧ e'.Settled g t busy ∧ e.Keeps busy e'

namespace Engine.Settled

variable {g : Grammar} {t : Text} {busy : Key → Prop} {e e' : Engine} {key : Key}

/-- The memo table may change as long as it gives no other answers, those about busy calls aside. -/
theorem change (h : e.Settled g t busy) (htext : e'.text = e.text) (hin : e'.InText)
    (hanswers : ∀ key answer, e'.Holds key answer → busy key ∨ e.Holds key answer) :
    e'.Settled g t busy := by
  refine ⟨htext.trans h.text, hin, fun key answer hholds => ?_⟩
  rcases hanswers key answer hholds with hbusy | hholds
  · exact .inl hbusy
  · exact h.answers key answer hholds

/-- A call that is tried becomes busy. -/
theorem opening (h : e.Settled g t busy) (key : Key) :
    (e.opening key).Trying g t ⟨key, .failed⟩ busy false := by
  refine ⟨⟨h.text, h.inText.opening key, fun other answer hholds => ?_⟩, Holds.opening e key⟩
  rcases hholds.of_opening with rfl | hholds
  · exact .inl (.inr rfl)
  · exact (h.answers other answer hholds).imp_left .inl

/-- A call that has its derived answer is not busy any more. -/
theorem close (h : e.Settled g t fun other => busy other ∨ other = key) {r : Reply}
    (hr : Derives t (.call (.grammar g) key) r) (hkey : e.Holds key (r.outcome.answer key.pos)) :
    e.Settled g t busy := by
  refine ⟨h.text, h.inText, fun other answer hholds => ?_⟩
  rcases h.answers other answer hholds with (hbusy | rfl) | hderived
  · exact .inl hbusy
  · exact .inr ⟨r, hr, Option.some.inj (hholds.symm.trans hkey)⟩
  · exact .inr hderived

/-- A call that is found is answered as is derived. -/
theorem reuse (h : e.Settled g t busy) (hkey : ¬busy key) {entry : Entry}
    (hfind : e.memo.find? key = some entry) {o : Outcome} (hrun : (o, e') = e.reuse key entry)
    (htext : e'.text = e.text) (hin : e'.InText) : key.Answered g t busy e o e' := by
  have hholds : e.Holds key entry.answer := by rw [Holds, hfind]; rfl
  obtain ⟨r, hr, hanswer⟩ := (h.answers key _ hholds).resolve_left hkey
  obtain ⟨rfl, hmemo⟩ := reuse_answer hrun hanswer
  exact ⟨r, hr, rfl, h.change htext hin fun _ _ hother => .inr (hother.of_use hmemo),
    .modify hkey hmemo⟩

end Engine.Settled

namespace Engine.Trying

variable {g : Grammar} {t : Text} {σ : Seed} {others : Key → Prop} {asked : Bool} {e e' : Engine}

theorem text (h : e.Trying g t σ others asked) : e.text = t := h.settled.text

theorem inText (h : e.Trying g t σ others asked) : e.InText := h.settled.inText

theorem boundary (h : e.Trying g t σ others asked) : t.IsBoundary e.pos := h.text ▸ h.inText.cursor

/-- What leaves the memo table alone leaves the trial as it is. -/
theorem same (h : e.Trying g t σ others asked) (htext : e'.text = e.text) (hin : e'.InText)
    (hmemo : e'.memo = e.memo) : e'.Trying g t σ others asked :=
  ⟨h.settled.change htext hin fun _ _ hholds => .inr (hholds.of_memo hmemo.symm),
    h.seed.of_memo hmemo⟩

/-- The cursor and the bindings may go back. -/
theorem back {m start : Frame} (h : m.engine.Trying g t σ others asked)
    (hstart : t.IsBoundary start.engine.pos) : (m.back start).engine.Trying g t σ others asked :=
  h.same rfl (h.inText.move (h.text.symm ▸ hstart)) rfl

/-- What keeps the entries of all calls that are being tried keeps the call that is. -/
theorem kept (h : e.Trying g t σ others asked)
    (hsettled : e'.Settled g t fun key => others key ∨ key = σ.key)
    (hkeeps : e.Keeps (fun key => others key ∨ key = σ.key) e') : e'.Trying g t σ others asked :=
  ⟨hsettled, h.seed.of_find? (hkeeps σ.key (.inr rfl))⟩

/-- An answer is recorded for the call that is being tried. -/
theorem settle (h : e.Trying g t σ others asked) (answer : Answer)
    (hin : (e.settle σ.key answer).InText) :
    ((e.settle σ.key answer).Settled g t fun key => others key ∨ key = σ.key) ∧
      (e.settle σ.key answer).Holds σ.key answer := by
  refine ⟨h.settled.change rfl hin fun key _ hholds => ?_, h.seed.settle answer⟩
  rcases hholds.of_settle with rfl | hholds
  · exact .inl (.inr rfl)
  · exact .inr hholds

/-- The call that is being tried is done when its derived answer is recorded. -/
theorem answered {m : Engine} (h : m.Trying g t σ others asked) (hnew : ¬others σ.key)
    (hkeeps : e.Keeps others m) {r : Reply} (hr : Derives t (.call (.grammar g) σ.key) r)
    (hin : (m.settle σ.key (r.outcome.answer σ.key.pos)).InText) :
    σ.key.Answered g t others e r.outcome (m.settle σ.key (r.outcome.answer σ.key.pos)) := by
  obtain ⟨hsettled, hholds⟩ := h.settle (r.outcome.answer σ.key.pos) hin
  exact ⟨r, hr, rfl, hsettled.close hr hholds, hkeeps.trans (.modify hnew rfl)⟩

/-- The call that is being tried is answered by its seed, and marked. -/
theorem again (h : e.Trying g t σ others asked) (hnew : ¬others σ.key) {entry : Entry}
    (hfind : e.memo.find? σ.key = some entry) {o : Outcome} (hrun : (o, e') = e.reuse σ.key entry)
    (htext : e'.text = e.text) (hin : e'.InText) :
    o = σ.outcome ∧ e'.Trying g t σ others true ∧ e.Keeps others e' := by
  have hanswer : entry.answer = σ.answer asked := by
    have hseed := h.seed
    rw [Holds, hfind] at hseed
    exact Option.some.inj hseed
  obtain ⟨key, outcome⟩ := σ
  cases outcome with
  | matched stop v =>
    -- The seed is a match, so the entry is not in progress and is answered like any other.
    have hanswer : entry.answer = (Outcome.matched stop v).answer key.pos := hanswer
    obtain ⟨rfl, hmemo⟩ := reuse_answer hrun hanswer
    refine ⟨rfl, ⟨h.settled.change htext hin fun _ _ hother => .inr (hother.of_use hmemo), ?_⟩,
      .modify hnew hmemo⟩
    exact (h.seed.use (e := e)).of_memo hmemo
  | failed =>
    obtain ⟨rfl, hmemo⟩ := reuse_inProgress hrun hanswer
    -- No match yet: the entry is in progress.  It is used, and then marked.
    let used : Engine := { e with memo := e.memo.use key }
    have hused : used.Trying g t ⟨key, .failed⟩ others asked :=
      ⟨h.settled.change rfl (h.inText.use key) fun _ _ hother => .inr (hother.of_use rfl), h.seed.use⟩
    obtain ⟨hsettled, hmarked⟩ := hused.settle (.parked (.inProgress true) key.pos)
      (hused.inText.settle key ⟨rfl, rfl⟩)
    have hkeeps : e.Keeps others used := .modify hnew rfl
    refine ⟨rfl, ⟨?_, hmarked.of_memo hmemo⟩, hkeeps.trans (.modify hnew hmemo)⟩
    exact hsettled.change htext hin fun _ _ hother => .inr (hother.of_memo hmemo.symm)

end Engine.Trying

/-! ## Contexts -/

/-- The call has as many arguments as its rule has parameters. -/
def Key.Proper (g : Grammar) (key : Key) : Prop :=
  ∀ r, g.rules[key.rule]? = some r → r.params.length = key.args.length

/-- The call, if a proper one, began before the offset, or there by a rule of such a name. -/
def Key.BeganBy (g : Grammar) (P : String → Prop) (q : Nat) (key : Key) : Prop :=
  key.Proper g → key.pos < q ∨ key.pos = q ∧ ∃ name, g.lookup name = some key.rule ∧ P name

/-- What began before an offset began before any later one. -/
theorem Key.BeganBy.later {g : Grammar} {P P' : String → Prop} {p q : Nat} {key : Key}
    (h : key.BeganBy g P q) (hle : q ≤ p)
    (hP : p = q → key.pos = p → key.Proper g → ∀ name, g.lookup name = some key.rule → P name → P' name) :
    key.BeganBy g P' p := by
  intro hproper
  rcases Nat.lt_or_eq_of_le hle with hlt | rfl
  · rcases h hproper with hbefore | ⟨hpos, -⟩
    · exact .inl (Nat.lt_trans hbefore hlt)
    · exact .inl (hpos ▸ hlt)
  · rcases h hproper with hbefore | ⟨hpos, name, hname, hname'⟩
    · exact .inl hbefore
    · exact .inr ⟨hpos, name, hname, hP rfl hpos hproper name hname hname'⟩

/-- The body of the rule is being run from the offset, for a call with a seed while others are busy. -/
structure Context (g : Grammar) (r : Rule) (q : Nat) (σ : Seed) (others : Key → Prop) : Prop where
  declared : g.rule? r.name = some r
  before : ∀ key, others key → key.BeganBy g (fun x => g.Above g.nullable x r.name) q
  seed : σ.key.BeganBy g (fun x => x = r.name ∨ g.Above g.nullable x r.name) q
  new : ¬others σ.key
  reads : σ.Reads g g.nullable

/-- The body of the rule that is being run from the offset may call the other one at the second offset. -/
structure Rule.Reaches (g : Grammar) (r : Rule) (q : Nat) (r' : Rule) (p : Nat) : Prop where
  callee : g.rule? r'.name = some r'
  le : q ≤ p
  left : p = q → g.LeftCall g.nullable r.name r'.name

namespace Context

variable {g : Grammar} {r r' : Rule} {p q : Nat} {σ : Seed} {others : Key → Prop} {key : Key}

/-- The rule whose body is being run is one of the grammar. -/
theorem mem_rules (h : Context g r q σ others) : r ∈ g.rules := by
  obtain ⟨rule, -, hr⟩ := Grammar.rule?_eq_some.1 h.declared
  exact List.mem_of_getElem? hr

/-- Another seed of the same call. -/
theorem reseed (h : Context g r q σ others) {o : Outcome}
    (hreads : Seed.Reads g g.nullable ⟨σ.key, o⟩) : Context g r q ⟨σ.key, o⟩ others :=
  ⟨h.declared, h.before, h.seed, h.new, hreads⟩

/-- What began before the body or above its rule began before the callee or above it. -/
theorem before_callee (hg : g.Steady) (hr : r.Reaches g q r' p)
    (h : key.BeganBy g (fun x => g.Above g.nullable x r.name) q) :
    key.BeganBy g (fun x => g.Above g.nullable x r'.name) p :=
  h.later hr.le fun heq _ _ _ _ habove => hg.cycling.above_call habove (hr.left heq)

/-- The callee may be run in place of the body: past the memo table, for the same call. -/
theorem direct (hg : g.Steady) (h : Context g r q σ others) (hr : r.Reaches g q r' p) :
    Context g r' p σ others := by
  refine ⟨hr.callee, fun key hkey => before_callee hg hr (h.before key hkey), ?_, h.new, h.reads⟩
  refine h.seed.later hr.le fun heq _ _ name _ hwho => ?_
  rcases hwho with rfl | habove
  · exact (Decidable.em (r.name = r'.name)).imp_right (hr.left heq).above
  · exact .inr (hg.cycling.above_call habove (hr.left heq))

/-- Two calls of a rule at one place are the same if the rule calls itself on the left. -/
theorem eq_of_selfCall (hg : g.Steady) {key' : Key} (hcall : g.LeftCall g.nullable r.name r.name)
    (hr : g.rules[key.rule]? = some r) (hdeclared : g.rule? r.name = some r)
    (hproper : key.Proper g) (hproper' : key'.Proper g) (hrule : key.rule = key'.rule)
    (hpos : key.pos = key'.pos) : key = key' := by
  obtain ⟨rule, pos, args⟩ := key
  obtain ⟨rule', pos', args'⟩ := key'
  obtain rfl : rule = rule' := hrule
  obtain rfl : pos = pos' := hpos
  -- The rule has no parameters, so there are no arguments.
  have hparams := hg.cycling.params hcall hdeclared
  have hargs : r.params.length = args.length := hproper r hr
  have hargs' : r.params.length = args'.length := hproper' r hr
  rw [hparams] at hargs hargs'
  rw [List.eq_nil_of_length_eq_zero hargs.symm, List.eq_nil_of_length_eq_zero hargs'.symm]

/-- **Only the call that is being tried can be called again.**  Any other call is new, and begins in a
    context of its own. -/
theorem callee (hg : g.Steady) (h : Context g r q σ others) (hr : r.Reaches g q r' key.pos)
    (hkey : g.lookup r'.name = some key.rule) (hargs : r'.params.length = key.args.length)
    (hne : key ≠ σ.key) :
    Context g r' key.pos ⟨key, .failed⟩ fun other => others other ∨ other = σ.key := by
  have hrule : g.rules[key.rule]? = some r' := by
    obtain ⟨rule, hrule, hr'⟩ := Grammar.rule?_eq_some.1 hr.callee
    rw [hkey] at hrule
    cases hrule
    exact hr'
  have hproper : key.Proper g := by
    intro r'' hr''
    rw [hrule] at hr''
    cases hr''
    exact hargs
  refine ⟨hr.callee, fun other hother => ?_, fun _ => .inr ⟨rfl, r'.name, hkey, .inl rfl⟩,
    fun hbusy => ?_, fun _ _ heq => by cases heq⟩
  · -- What was busy before began before the callee, and so did the call that is left behind.
    rcases hother with hother | rfl
    · exact before_callee hg hr (h.before other hother)
    · -- It is a rule other than the callee, since the same rule would give the same key.
      refine h.seed.later hr.le fun heq hpos hσproper name hname hwho => ?_
      have hcall := hr.left heq
      rcases hwho with rfl | habove
      · refine hcall.above fun hself => hne ?_
        rw [hself] at hcall hname
        rw [hname] at hkey
        exact eq_of_selfCall hg hcall hrule hr.callee hproper hσproper (Option.some.inj hkey).symm
          hpos.symm
      · exact hg.cycling.above_call habove hcall
  · -- The callee itself is not busy.
    rcases hbusy with hbusy | heq
    · rcases h.before key hbusy hproper with hlt | ⟨hpos, name, hname, habove⟩
      · exact absurd hr.le (Nat.not_le.2 hlt)
      · -- A rule above the one that is run is not called by it on the left.
        rw [Grammar.lookup_inj hname hkey] at habove
        exact hg.cycling.not_above (hr.left hpos) habove
    · exact hne heq

end Context

end MemoPeg
