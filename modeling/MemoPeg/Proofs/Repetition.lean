import MemoPeg.Grammar.Build
import MemoPeg.Proofs.Growth
import MemoPeg.Regex.Reader

/-
  How often a repetition without limit matches.

  1. **Rounds in succession (`InSuccession`)** — the engine and the scope that one round leaves are those
     in which the next one is run.
  2. **Counting (`Grammar.Counts`)** — the loop goes on behind a round that has read something and stops
     behind one that has not.  So it counts `k` rounds if `k` rounds match in succession and the ones
     before the last of them all read.
  3. **Ending** — the loop meets the frames that reading rounds lead to, and each round that reads brings
     it nearer to the end of the text.  So it ends if and only if the operator ends in all of them.
  4. **Specification (`unlimited_repetition_counts`)** — it ends if and only if 3, and then matches if and
     only if as many rounds as its minimum count.

  A minimum above one thus asks for more than its wording says: a round that matches without reading is
  the last one that counts, although the same operator would match again in its place.  A repetition with a
  maximum has no such rule, since it stops in any case; there a round that reads nothing counts like any other.
-/

namespace MemoPeg

/-- A number of steps of a relation, each from where the one before has led. -/
inductive InSuccession (R : Frame → Frame → Prop) : Nat → Frame → Frame → Prop
  | refl (f : Frame) : InSuccession R 0 f f
  | step {k : Nat} {f m last : Frame} (h : R f m) (hs : InSuccession R k m last) :
    InSuccession R (k + 1) f last

namespace Grammar

variable [RegexLibrary]

/-- From the first frame the operator matches and leaves the second. -/
def Matches (g : Grammar) (op : Operator) (f m : Frame) : Prop :=
  ∃ stop v, Ends (fun n => g.eval n op f) (.matched stop v, m)

/-- From the first frame the operator matches, reads something and leaves the second. -/
def MatchesReading (g : Grammar) (op : Operator) (f m : Frame) : Prop :=
  g.Matches op f m ∧ f.engine.pos < m.engine.pos

/-- The operator matches so many times in succession, and before the last time it reads each time. -/
def Counts (g : Grammar) (op : Operator) (k : Nat) (f : Frame) : Prop :=
  (∃ last, InSuccession (g.Matches op) k f last) ∧
    ∀ j m m', j + 1 < k → InSuccession (g.Matches op) j f m → g.Matches op m m' →
      m.engine.pos < m'.engine.pos

variable {g : Grammar} {op : Operator} {f m : Frame}

/-- An operator that ends with some fuel ends so with all that is more. -/
theorem ends_of_eval {n : Nat} {r : Outcome × Frame} (h : g.eval n op f = .ok r) :
    Ends (fun n => g.eval n op f) r :=
  .of_noLater (fun a b hab => Grammar.eval_noLater a b hab g op f) h

/-- A run whose outcome has been computed ends. -/
theorem ends_of_outcome {n : Nat} {o : Outcome}
    (h : ((g.eval n op f).map (·.1)).toOption = some o) :
    ∃ m, Ends (fun n => g.eval n op f) (o, m) := by
  cases hrun : g.eval n op f with
  | error stop => rw [hrun] at h; cases h
  | ok r => rw [hrun] at h; cases h; exact ⟨r.2, ends_of_eval hrun⟩

namespace Matches

/-- A run that has been made shows that the operator matches. -/
theorem of_eval {n stop : Nat} {v : Value} (h : g.eval n op f = .ok (.matched stop v, m)) :
    g.Matches op f m := ⟨stop, v, ends_of_eval h⟩

/-- An operator matches in one way at most. -/
theorem unique {m' : Frame} (h : g.Matches op f m) (h' : g.Matches op f m') : m = m' := by
  obtain ⟨stop, v, h⟩ := h
  obtain ⟨stop', v', h'⟩ := h'
  exact (Prod.mk.inj (h.unique h')).2

/-- What matches does not fail. -/
theorem not_failed {n : Nat} {m' : Frame} (h : g.Matches op f m) :
    g.eval n op f ≠ .ok (.failed, m') := by
  intro hfailed
  obtain ⟨stop, v, h⟩ := h
  cases h.unique (ends_of_eval hfailed)

/-- A match advances. -/
theorem advanced (h : g.Matches op f m) (hin : f.engine.InText) :
    ∃ v, f.engine.Advanced (.matched m.engine.pos v) m.engine := by
  obtain ⟨stop, v, n, hn⟩ := h
  have hadv := (advances.everywhere n).2.1 g op f _ m (hn n (Nat.le_refl n)) hin
  obtain rfl : m.engine.pos = stop := hadv.pos
  exact ⟨v, hadv⟩

end Matches

/-! ## Counting -/

/-- No rounds are counted at once. -/
theorem counts_zero : g.Counts op 0 f :=
  ⟨⟨f, .refl f⟩, fun _ _ _ hlt => absurd hlt (Nat.not_lt_zero _)⟩

/-- Behind a first match one round less counts, and none does if the first has not read. -/
theorem counts_succ_iff {k : Nat} (h : g.Matches op f m) :
    g.Counts op (k + 1) f ↔ g.Counts op k m ∧ (0 < k → f.engine.pos < m.engine.pos) := by
  constructor
  · rintro ⟨⟨last, hlast⟩, hreads⟩
    cases hlast with
    | step hfirst hrest =>
      obtain rfl := h.unique hfirst
      exact ⟨⟨⟨last, hrest⟩, fun j m₁ m₂ hj hm₁ => hreads (j + 1) m₁ m₂ (by omega) (.step h hm₁)⟩,
        fun hk => hreads 0 f m (by omega) (.refl f) h⟩
  · rintro ⟨⟨⟨last, hlast⟩, hreads⟩, hfirst⟩
    refine ⟨⟨last, .step h hlast⟩, fun j m₁ m₂ hj hm₁ hm₂ => ?_⟩
    cases hm₁ with
    | refl =>
      obtain rfl := h.unique hm₂
      exact hfirst (by omega)
    | step h' hrest =>
      obtain rfl := h.unique h'
      exact hreads _ m₁ m₂ (by omega) hrest hm₂

/-- Where the operator fails, nothing is counted. -/
theorem not_counts_of_failed {n k : Nat} (h : g.eval n op f = .ok (.failed, m)) :
    ¬g.Counts op (k + 1) f := by
  rintro ⟨⟨last, hlast⟩, -⟩
  cases hlast with
  | step hfirst _ => exact hfirst.not_failed h

/-- **The loop counts.**  It adds at least `k` values to those that it began with if and only if `k` rounds
    count. -/
theorem rounds_length_iff {n : Nat} : ∀ (fuel : Nat) {values values' : List Value} {f last : Frame},
    Step.rounds (g.eval n op) fuel none values f = .ok (values', last) → f.engine.InText →
    ∀ k, values.length + k ≤ values'.length ↔ g.Counts op k f := by
  intro fuel
  induction fuel with
  | zero => intro values values' f last h; cases h
  | succ fuel ih =>
    intro values values' f last h hin k
    cases k with
    | zero =>
      refine ⟨fun _ => counts_zero, fun _ => ?_⟩
      -- No round takes a value away.
      rcases Step.rounds_succ_eq_ok h with ⟨hnone, -⟩ | ⟨-, -, rfl⟩ | ⟨-, stop, v, m, hm, hrest⟩
      · cases hnone
      · exact Nat.le_refl _
      · rcases hrest with ⟨-, -, rfl, -⟩ | ⟨-, hrest⟩
        · simp
        · have hm' : g.Matches op f m := .of_eval hm
          obtain ⟨w, hadv⟩ := hm'.advanced hin
          have hle := (ih hrest hadv.inText 0).2 counts_zero
          rw [List.length_cons] at hle
          omega
    | succ k =>
      rcases Step.rounds_succ_eq_ok h with ⟨hnone, -⟩ | ⟨-, hfailed, rfl⟩ | ⟨-, stop, v, m, hm, hrest⟩
      · cases hnone
      · exact ⟨fun hle => by omega, fun hcounts => absurd hcounts (not_counts_of_failed hfailed)⟩
      · have hm' : g.Matches op f m := .of_eval hm
        have hstop : m.engine.pos = stop := (ends_of_eval hm).eval_pos hin
        obtain ⟨w, hadv⟩ := hm'.advanced hin
        have hle : f.engine.pos ≤ m.engine.pos := hadv.le
        rw [counts_succ_iff hm']
        rcases hrest with ⟨hidle, -, rfl, -⟩ | ⟨hgoes, hrest⟩
        · -- The round has read nothing and is the last: it counts, and nothing behind it does.
          rw [List.length_cons]
          constructor
          · intro hle
            obtain rfl : k = 0 := by omega
            exact ⟨counts_zero, fun hk => absurd hk (Nat.lt_irrefl 0)⟩
          · rintro ⟨-, hread⟩
            have hk : ¬0 < k := fun hk => by have := hread hk; omega
            omega
        · have hread : f.engine.pos < m.engine.pos := by
            have hne : stop ≠ f.engine.pos := fun heq => hgoes ⟨heq, rfl⟩
            omega
          rw [← ih hrest hadv.inText k, List.length_cons]
          constructor
          · exact fun hle => ⟨by omega, fun _ => hread⟩
          · rintro ⟨hle, -⟩
            omega

/-! ## Ending -/

/-- A loop that has ended has seen the operator end in every frame that reading rounds lead to. -/
theorem ends_of_rounds {n : Nat} : ∀ (fuel : Nat) {values values' : List Value} {f last : Frame},
    Step.rounds (g.eval n op) fuel none values f = .ok (values', last) → f.engine.InText →
    ∀ k m, InSuccession (g.MatchesReading op) k f m → ∃ r, Ends (fun n => g.eval n op m) r := by
  intro fuel
  induction fuel with
  | zero => intro values values' f last h; cases h
  | succ fuel ih =>
    intro values values' f last h hin k m hm
    rcases Step.rounds_succ_eq_ok h with ⟨hnone, -⟩ | ⟨-, hfailed, -⟩ | ⟨-, stop, v, m₁, hm₁, hrest⟩
    · cases hnone
    · cases hm with
      | refl => exact ⟨_, ends_of_eval hfailed⟩
      | step hfirst _ => exact absurd hfailed hfirst.1.not_failed
    · cases hm with
      | refl => exact ⟨_, ends_of_eval hm₁⟩
      | step hfirst hthen =>
        have hm₁' : g.Matches op f m₁ := .of_eval hm₁
        obtain rfl := hm₁'.unique hfirst.1
        obtain ⟨w, hadv⟩ := hm₁'.advanced hin
        have hstop : m₁.engine.pos = stop := (ends_of_eval hm₁).eval_pos hin
        have hread := hfirst.2
        rcases hrest with ⟨hidle, -⟩ | ⟨-, hrest⟩
        · omega
        · exact ih hrest hadv.inText _ m hthen

/-- The loop ends if the operator does in every frame that reading rounds lead to; what is left of the
    text bounds how many there are. -/
theorem rounds_end (hin : f.engine.InText)
    (h : ∀ k m, InSuccession (g.MatchesReading op) k f m → ∃ r, Ends (fun n => g.eval n op m) r) :
    ∀ values : List Value, ∃ values' last b, ∀ n, b ≤ n → ∀ fuel, b ≤ fuel →
      Step.rounds (g.eval n op) fuel none values f = .ok (values', last) := by
  induction hsize : f.engine.text.size - f.engine.pos using Nat.strongRecOn generalizing f with
  | ind size ih =>
    intro values
    obtain ⟨⟨o, m⟩, b, hb⟩ := h 0 f (.refl f)
    have hb' : ∀ n, b ≤ n → g.eval n op f = .ok (o, m) := hb
    -- What the first round does, in a loop with fuel for it.
    have hunfold : ∀ n, b ≤ n → ∀ fuel, Step.rounds (g.eval n op) (fuel + 1) none values f =
        match o with
        | .matched stop v =>
          if stop = f.engine.pos ∧ (none : Option Nat).isNone then .ok (v :: values, m)
          else Step.rounds (g.eval n op) fuel none (v :: values) m
        | .failed => .ok (values, m) := by
      intro n hn fuel
      rw [Step.rounds, if_neg (by simp), hb' n hn]
      cases o <;> rfl
    cases o with
    | failed =>
      refine ⟨values, m, b + 1, fun n hn fuel hfuel => ?_⟩
      obtain ⟨k, rfl⟩ : ∃ k, fuel = k + 1 := ⟨fuel - 1, by omega⟩
      exact hunfold n (by omega) k
    | matched stop v =>
      have hm : g.Matches op f m := ⟨stop, v, b, hb⟩
      obtain ⟨w, hadv⟩ := hm.advanced hin
      have hstop : m.engine.pos = stop := (ends_of_eval (hb' b (Nat.le_refl b))).eval_pos hin
      by_cases hidle : stop = f.engine.pos
      · refine ⟨v :: values, m, b + 1, fun n hn fuel hfuel => ?_⟩
        obtain ⟨k, rfl⟩ : ∃ k, fuel = k + 1 := ⟨fuel - 1, by omega⟩
        exact (hunfold n (by omega) k).trans (if_pos ⟨hidle, rfl⟩)
      · have hle : f.engine.pos ≤ m.engine.pos := hadv.le
        have hread : g.MatchesReading op f m := ⟨hm, by omega⟩
        have hsmaller : m.engine.text.size - m.engine.pos < size := by
          have hend := hadv.inText.cursor.le_size
          rw [hadv.text] at hend ⊢
          omega
        obtain ⟨values', last, b', hrest⟩ := ih _ hsmaller hadv.inText
          (fun k m' hm' => h (k + 1) m' (.step hread hm')) rfl (v :: values)
        refine ⟨values', last, max b b' + 1, fun n hn fuel hfuel => ?_⟩
        obtain ⟨k, rfl⟩ : ∃ k, fuel = k + 1 := ⟨fuel - 1, by omega⟩
        rw [hunfold n (by omega) k]
        exact (if_neg fun h => hidle h.1).trans (hrest n (by omega) k (by omega))

end Grammar

section

variable [RegexLibrary]

/-! ## The minimum of a repetition -/

/-- **What a minimum asks for.**  A repetition without limit ends if and only if its operator ends in every
    frame that rounds that read lead to.  If it ends, it matches if and only if the operator matches
    `min` times in succession, each time but the last reading something.  Where the operator never
    matches without reading, and for a minimum of one, the last condition says nothing. -/
theorem unlimited_repetition_counts (g : Grammar) (op : Operator) (min : Nat) (captures : Bool)
    {f : Frame} (hin : f.engine.InText) :
    ((∃ r, Ends (fun n => g.eval n (.repetition op min none captures) f) r) ↔
      ∀ k m, InSuccession (g.MatchesReading op) k f m → ∃ r, Ends (fun n => g.eval n op m) r) ∧
    ∀ o m, Ends (fun n => g.eval n (.repetition op min none captures) f) (o, m) →
      (o.isMatched ↔
        (∃ last, InSuccession (g.Matches op) min f last) ∧
          ∀ j m m', j + 1 < min → InSuccession (g.Matches op) j f m → g.Matches op m m' →
            m.engine.pos < m'.engine.pos) := by
  -- With fuel the repetition is a loop with a test of the count behind it.
  have hloop : ∀ {o : Outcome} {m : Frame},
      Ends (fun n => g.eval n (.repetition op min none captures) f) (o, m) →
      ∃ n values last, Step.rounds (g.eval n op) n none [] f = .ok (values, last) ∧
        ((values.length < min ∧ o = .failed) ∨ (min ≤ values.length ∧ o.isMatched)) := by
    intro o m hends
    obtain ⟨n, hn⟩ := hends.succ
    obtain ⟨values, last, hrounds, hcount⟩ := Step.repetition_eq_ok (hn n (Nat.le_refl n))
    refine ⟨n, values, last, hrounds, ?_⟩
    rcases hcount with ⟨hfew, rfl, -⟩ | ⟨henough, -, rfl⟩
    · exact .inl ⟨hfew, rfl⟩
    · exact .inr ⟨henough, rfl⟩
  refine ⟨⟨?_, fun h => ?_⟩, fun o m hends => ?_⟩
  · rintro ⟨⟨o, m⟩, hends⟩
    obtain ⟨n, values, last, hrounds, -⟩ := hloop hends
    exact Grammar.ends_of_rounds n hrounds hin
  · obtain ⟨values, last, b, hb⟩ := Grammar.rounds_end hin h []
    have hrounds : Ends (fun n => Step.rounds (g.eval n op) n none [] f) (values, last) :=
      ⟨b, fun n hn => hb n hn n hn⟩
    by_cases hfew : values.length < min
    · exact ⟨_, .of_succ (hrounds.bind (.const (if_pos hfew)))⟩
    · exact ⟨_, .of_succ (hrounds.bind (.const (if_neg hfew)))⟩
  · obtain ⟨n, values, last, hrounds, hcount⟩ := hloop hends
    have hiff := Grammar.rounds_length_iff n hrounds hin min
    rw [List.length_nil, Nat.zero_add] at hiff
    refine Iff.trans ?_ hiff
    rcases hcount with ⟨hfew, rfl⟩ | ⟨henough, hmatched⟩
    · exact ⟨fun h => (by cases h), fun henough => by omega⟩
    · exact ⟨fun _ => henough, fun _ => hmatched⟩

end

/-- Signs that may be missing, for other grammars. -/
def plusSigns : Declaration :=
  { name := "signs", rules := [⟨"sign", [], .optional (.literal "+")⟩], root := none, links := [] }

/-- Two signs or more, of the linked grammar. -/
def plusRows : Declaration :=
  { name := "rows"
    rules := [⟨"start", [], .repetition (.foreign "signs" "sign" []) 2 none false⟩]
    root := none
    links := [("signs", .grammar (.ofRules "signs" plusSigns.rules 0 [] []))] }

/-- What the declaration builds: calls into linked grammars pass for reading. -/
def plusRowsGrammar : Grammar := .ofRules "rows" plusRows.rules 0 plusRows.links []

/-- On `+` the second sign is missing, and the repetition matches: a sign matches twice in succession, and
    the first time it reads. -/
theorem unlimited_repetition_counts_plusRows :
    ∃ m, Ends (fun n => plusRowsGrammar.eval n (.repetition (.foreign "signs" "sign" []) 2 none false)
        ⟨Engine.new "+".toList, []⟩) (.matched 1 .nil, m) ∧
      (∃ last, InSuccession (plusRowsGrammar.Matches (.foreign "signs" "sign" [])) 2
        ⟨Engine.new "+".toList, []⟩ last) ∧
      ∀ j m m', j + 1 < 2 → InSuccession (plusRowsGrammar.Matches (.foreign "signs" "sign" [])) j
          ⟨Engine.new "+".toList, []⟩ m →
        plusRowsGrammar.Matches (.foreign "signs" "sign" []) m m' → m.engine.pos < m'.engine.pos := by
  have hin : (Engine.new "+".toList).InText := .startingAt rfl
  obtain ⟨m, hends⟩ : ∃ m, Ends (fun n => plusRowsGrammar.eval n (.repetition
      (.foreign "signs" "sign" []) 2 none false) ⟨Engine.new "+".toList, []⟩) (.matched 1 .nil, m) :=
    Grammar.ends_of_outcome (n := 9) (by decide +kernel)
  exact ⟨m, hends, ((unlimited_repetition_counts plusRowsGrammar _ 2 false hin).2 _ m hends).1 rfl⟩

/-- **Where the minimum is missed.**  At the end of a text a sign matches twice in succession, and still
    two signs or more fail: the first has read nothing, so the loop does not try the second. -/
theorem missing_signs_fail :
    plusSigns.build = .ok (.ofRules "signs" plusSigns.rules 0 [] []) ∧ plusRows.build = .ok plusRowsGrammar ∧
    (∃ last, InSuccession (plusRowsGrammar.Matches (.foreign "signs" "sign" [])) 2
      ⟨Engine.new [], []⟩ last) ∧
    ∃ m, Ends (fun n => plusRowsGrammar.eval n (.repetition (.foreign "signs" "sign" []) 2 none false)
      ⟨Engine.new [], []⟩) (.failed, m) := by
  have hround : ∀ e : Engine, e.text = [] → e.pos = 0 →
      ∃ e', plusRowsGrammar.Matches (.foreign "signs" "sign" []) ⟨e, []⟩ ⟨e', []⟩ ∧
        e'.text = [] ∧ e'.pos = 0 := by
    rintro ⟨text, pos, memo, furthest, result, depth, history⟩ rfl rfl
    exact ⟨_, .of_eval (n := 9) (by with_unfolding_all rfl), rfl, rfl⟩
  obtain ⟨e, hfirst, htext, hpos⟩ := hround (Engine.new []) rfl rfl
  obtain ⟨e', hsecond, -⟩ := hround e htext hpos
  exact ⟨rfl, rfl, ⟨_, .step hfirst (.step hsecond (.refl _))⟩,
    Grammar.ends_of_outcome (n := 9) (by decide +kernel)⟩

end MemoPeg
