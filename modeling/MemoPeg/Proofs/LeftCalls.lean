import Mathlib.Data.List.Perm.Subperm
import Mathlib.Logic.Relation
import MemoPeg.Proofs.Checked

/-
  Which rules can be called before anything is read.

  1. **Left calls (`Grammar.LeftCall`)** — a rule calls another one on the left if a run of its body can do
     so where it began.  A rule is ABOVE another one if left calls lead from it to that.
  2. **Paths (`LeftPath`)** — rules that left calls connect are connected by way of different rules: a
     path that comes to a rule twice can be cut short.
  3. **Enumeration (`LeftPath.mem_cycles`)** — the search for cycles finds every path of left calls through
     different rules that leads back to where it began.
  4. **Specification (`Grammar.SelfCycling`)** — if all cycles that are found are calls of rules without
     parameters by themselves, then no rule calls one that is above it.

  The search has fuel for as many rules as there are, and a path of different rules is no longer than
  that; this is why 2 is needed for 3.  What 4 is for: a rule above the one that is run may be in the
  middle of being tried, and then has no answer yet.  In a self-cycling grammar it is not asked for one.
-/

namespace MemoPeg

/-! ## Left calls of parts -/

namespace Operator

variable [RegexLibrary]

variable {rules : List Rule} {known : List String} {d : String}

/-- Behind parts that are nullable, a part of a sequence makes its left calls. -/
theorem mem_leftCallsOfSequence {earlier later : List Operator} {c : Operator}
    (hearlier : ∀ op ∈ earlier, op.isNullable rules known) (hd : d ∈ c.leftCalls rules known) :
    d ∈ leftCallsOfSequence rules known (earlier ++ c :: later) := by
  induction earlier with
  | nil => exact List.mem_append_left _ hd
  | cons op earlier ih =>
    have hrest := ih fun op' hop' => hearlier op' (List.mem_cons_of_mem _ hop')
    rw [List.cons_append, leftCallsOfSequence, if_pos (hearlier op List.mem_cons_self)]
    exact List.mem_append_right _ hrest

/-- A choice makes the left calls of all its alternatives. -/
theorem mem_leftCallsOfChoice {ops : List Operator} {c : Operator} (hc : c ∈ ops)
    (hd : d ∈ c.leftCalls rules known) : d ∈ leftCallsOfChoice rules known ops := by
  induction ops with
  | nil => cases hc
  | cons op ops ih =>
    rcases List.mem_cons.1 hc with rfl | hc
    · exact List.mem_append_left _ hd
    · exact List.mem_append_right _ (ih hc)

end Operator

/-! ## Left calls of rules -/

namespace Grammar

variable [RegexLibrary]

/-- The first rule can call the second one before it reads anything. -/
def LeftCall (g : Grammar) (known : List String) (c d : String) : Prop :=
  ∃ r, g.rule? c = some r ∧ d ∈ r.body.leftCalls g.rules known

/-- The first rule is another one than the second, and left calls lead from it to that. -/
def Above (g : Grammar) (known : List String) (x c : String) : Prop :=
  x ≠ c ∧ Relation.ReflTransGen (g.LeftCall known) x c

/-- No rule calls one that is above it on the left, and only rules without parameters call themselves
    there. -/
structure SelfCycling (g : Grammar) (known : List String) : Prop where
  not_above : ∀ {c d}, g.LeftCall known c d → ¬g.Above known d c
  params : ∀ {c r}, g.LeftCall known c c → g.rule? c = some r → r.params = []

/-- Left calls lead from the first rule to the last one, by way of these after the first. -/
inductive LeftPath (g : Grammar) (known : List String) : String → List String → String → Prop
  | nil (c : String) : LeftPath g known c [] c
  | cons {c d e : String} {rest : List String} (h : g.LeftCall known c d)
      (hrest : LeftPath g known d rest e) : LeftPath g known c (d :: rest) e

namespace LeftPath

variable {g : Grammar} {known : List String} {c d e : String} {rest : List String}

/-- A path goes on from each of its rules. -/
theorem from_mem (h : g.LeftPath known c rest e) {x : String} (hx : x ∈ c :: rest) :
    ∃ rest', g.LeftPath known x rest' e ∧ (x :: rest') <:+ (c :: rest) := by
  induction h with
  | nil c =>
    rw [List.mem_singleton.1 hx]
    exact ⟨[], .nil c, List.suffix_refl _⟩
  | @cons c d e rest hcall hrest ih =>
    rcases List.mem_cons.1 hx with rfl | hx
    · exact ⟨d :: rest, .cons hcall hrest, List.suffix_refl _⟩
    · obtain ⟨rest', hrest', hsuffix⟩ := ih hx
      exact ⟨rest', hrest', hsuffix.trans (List.suffix_cons c _)⟩

/-- Rules that left calls connect are connected by way of different rules. -/
theorem of_reaches (h : Relation.ReflTransGen (g.LeftCall known) c e) :
    ∃ rest, g.LeftPath known c rest e ∧ (c :: rest).Nodup := by
  induction h using Relation.ReflTransGen.head_induction_on with
  | refl => exact ⟨[], .nil e, List.pairwise_singleton _ e⟩
  | @head c d hcall _ ih =>
    obtain ⟨rest, hpath, hnodup⟩ := ih
    by_cases hc : c ∈ d :: rest
    · -- The path comes back to where it began, and can be taken from there.
      obtain ⟨rest', hpath', hsuffix⟩ := hpath.from_mem hc
      exact ⟨rest', hpath', hnodup.sublist hsuffix.sublist⟩
    · exact ⟨d :: rest, .cons hcall hpath, List.nodup_cons.2 ⟨hc, hnodup⟩⟩

/-- All rules on a path whose last rule calls one are declared. -/
theorem declared (h : g.LeftPath known c rest e) (hlast : g.LeftCall known e d) :
    ∀ x ∈ c :: rest, ∃ r, g.rule? x = some r := by
  induction h with
  | nil c =>
    intro x hx
    rw [List.mem_singleton.1 hx]
    obtain ⟨r, hr, -⟩ := hlast
    exact ⟨r, hr⟩
  | cons hcall _ ih =>
    intro x hx
    rcases List.mem_cons.1 hx with rfl | hx
    · obtain ⟨r, hr, -⟩ := hcall
      exact ⟨r, hr⟩
    · exact ih hlast x hx

/-- The search goes on along every path of different rules, and finds that it closes. -/
theorem mem_cyclesFrom (hg : g.Checked) {start : String} (h : g.LeftPath known c rest e)
    (hlast : g.LeftCall known e start) : ∀ {seen : List String} {fuel : Nat} {r : Rule},
      g.rule? c = some r → seen.head? = some start → (seen ++ rest).Nodup → rest.length < fuel →
        seen ++ rest ++ [start] ∈ cyclesFrom g.rules known fuel seen r.body := by
  induction h with
  | nil c =>
    intro seen fuel r hr hhead _ hfuel
    obtain ⟨fuel, rfl⟩ : ∃ k, fuel = k + 1 := ⟨fuel - 1, by omega⟩
    obtain ⟨r', hr', hcall⟩ := hlast
    rw [hr] at hr'
    cases hr'
    have hseen : seen.contains start := List.contains_iff_mem.2 (List.mem_of_mem_head? hhead)
    rw [List.append_nil]
    refine List.mem_flatMap.2 ⟨start, hcall, ?_⟩
    rw [if_pos hseen, if_pos hhead]
    exact List.mem_singleton_self _
  | @cons c d e rest hcall hrest ih =>
    intro seen fuel r hr hhead hnodup hfuel
    obtain ⟨fuel, rfl⟩ : ∃ k, fuel = k + 1 := ⟨fuel - 1, by omega⟩
    obtain ⟨r', hr', hd⟩ := hcall
    rw [hr] at hr'
    cases hr'
    obtain ⟨rd, hrd⟩ := hrest.declared hlast d List.mem_cons_self
    have hnew : ¬seen.contains d := by
      rw [List.contains_iff_mem]
      exact fun hmem => (List.nodup_append.1 hnodup).2.2 d hmem d List.mem_cons_self rfl
    have hless : rest.length < fuel := Nat.lt_of_succ_lt_succ hfuel
    have hsplit : seen ++ d :: rest = seen ++ [d] ++ rest := by rw [List.append_assoc]; rfl
    have hhead' : (seen ++ [d]).head? = some start := by rw [List.head?_append, hhead]; rfl
    refine List.mem_flatMap.2 ⟨d, hd, ?_⟩
    rw [if_neg hnew, hg.findRule_eq, hrd, hsplit]
    exact ih hlast hrd hhead' (hsplit ▸ hnodup) hless

/-- **Every path of left calls through different rules that closes is a cycle that is found.** -/
theorem mem_cycles (hg : g.Checked) (h : g.LeftPath known c rest e) (hnodup : (c :: rest).Nodup)
    (hlast : g.LeftCall known e c) : c :: rest ++ [c] ∈ MemoPeg.cycles g.rules known := by
  have hdeclared := h.declared hlast
  obtain ⟨r, hr⟩ := hdeclared c List.mem_cons_self
  -- The rules on the path are different, so that there are no more of them than rules.
  have hlength : (c :: rest).length ≤ (g.rules.map (·.name)).length := by
    refine (List.Nodup.subperm hnodup fun x hx => ?_).length_le
    obtain ⟨rx, hrx⟩ := hdeclared x hx
    obtain ⟨rule, hlookup, hrule⟩ := Grammar.rule?_eq_some.1 hrx
    obtain ⟨r', hr', rfl⟩ := Grammar.lookup_rule hlookup
    exact List.mem_map.2 ⟨r', List.mem_of_getElem? hr', rfl⟩
  rw [List.length_cons, List.length_map] at hlength
  obtain ⟨rule, hlookup, hrule⟩ := Grammar.rule?_eq_some.1 hr
  obtain ⟨r', hr', hname⟩ := Grammar.lookup_rule hlookup
  rw [hrule] at hr'
  cases hr'
  refine List.mem_flatMap.2 ⟨r, List.mem_of_getElem? hrule, ?_⟩
  rw [hname]
  exact h.mem_cyclesFrom hg hlast hr rfl hnodup hlength

end LeftPath

/-- Left calls that lead from a rule back to it are a cycle, cut down to different rules. -/
theorem Checked.reports {g : Grammar} (hg : g.Checked) {c : String}
    (h : Relation.TransGen (g.LeftCall (nullableRules g.rules)) c c) :
    ∃ cycle ∈ g.cycles, cycle.head? = some c ∧ cycle.getLast? = some c := by
  obtain ⟨e, hreaches, hlast⟩ := Relation.TransGen.tail'_iff.1 h
  obtain ⟨rest, hpath, hnodup⟩ := LeftPath.of_reaches hreaches
  refine ⟨c :: rest ++ [c], ?_, rfl, by rw [List.getLast?_append]; rfl⟩
  rw [hg.cycles]
  exact hpath.mem_cycles hg hnodup hlast

/-- **A grammar with cycles of rules without parameters by themselves only is self-cycling.** -/
theorem Checked.selfCycling {g : Grammar} (hg : g.Checked)
    (hcycles : ∀ cycle ∈ g.cycles, ∃ r ∈ g.rules, cycle = [r.name, r.name] ∧ r.params = []) :
    g.SelfCycling (nullableRules g.rules) := by
  rw [hg.cycles] at hcycles
  constructor
  · rintro c d hcall ⟨hne, hreaches⟩
    obtain ⟨rest, hpath, hnodup⟩ := LeftPath.of_reaches hreaches
    obtain ⟨r, -, heq, -⟩ := hcycles _ (hpath.mem_cycles hg hnodup hcall)
    -- The path has two rules at least.
    cases hpath with
    | nil => exact hne rfl
    | @cons _ _ _ rest _ _ =>
      have hlength := congrArg List.length heq
      simp at hlength
  · intro c r hcall hr
    obtain ⟨r', hr', heq, hparams⟩ :=
      hcycles _ ((LeftPath.nil c).mem_cycles hg (List.pairwise_singleton _ c) hcall)
    obtain ⟨rfl, -⟩ := List.cons.inj heq
    obtain ⟨rule, hrule⟩ := List.mem_iff_getElem?.1 hr'
    have hsame := Grammar.rule?_eq_some.2 ⟨rule, hg.lookup_of_rule hrule, hrule⟩
    rw [hr] at hsame
    cases hsame
    exact hparams

namespace SelfCycling

variable {g : Grammar} {known : List String} {x c d : String}

/-- What is above a rule is above what the rule calls on the left. -/
theorem above_call (h : g.SelfCycling known) (hx : g.Above known x c) (hcall : g.LeftCall known c d) :
    g.Above known x d := by
  refine ⟨fun heq => ?_, hx.2.tail hcall⟩
  subst heq
  exact h.not_above hcall hx

end SelfCycling

/-- A rule is above what it calls on the left, itself aside. -/
theorem LeftCall.above {g : Grammar} {known : List String} {c d : String}
    (hcall : g.LeftCall known c d) (hne : c ≠ d) : g.Above known c d := ⟨hne, .single hcall⟩

end Grammar

end MemoPeg
