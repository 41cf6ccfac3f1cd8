import Mathlib.Data.Finset.Dedup
import Mathlib.Data.List.Perm.Subperm
import Mathlib.Order.Bounds.Basic
import MemoPeg.Grammar.Nullable
import MemoPeg.Proofs.Calls
import MemoPeg.Regex.Reader

/-
  Finding the rules that need not read.

  Whether a rule is nullable depends on whether the rules it calls are, and rules call each other in circles.
  The search begins with no rule and adds those that are seen to be nullable, until nothing more is seen.

  1. **Judgement (`Operator.isNullable_mono`)** — what is nullable stays so when more rules are known to
     be.  Nothing is nullable because a rule is not: predicates are, whatever they look for.
  2. **Closed names (`NullableClosed`)** — rules whose bodies are nullable given the names are among them.
     A round that begins within closed names stays within them, also where it uses what it has just
     added, and a round adds nothing exactly to closed names.
  3. **The search (`Saturates`)** — round after round, until one adds nothing, and nothing else that ends
     it.  It ends, since each round before adds a rule.
  4. **Specification (`nullable_rules_least`)** — what is found is closed and within all closed names: the
     least of them, whatever the order in which the rules are looked at.

  A round uses what it has added itself, so after one round different orders may have found different rules.
  What 2 says of rounds does not depend on this, and so the orders agree in the end.

  The search that runs has a bound on its rounds.  It is a relation here, without a bound, and that it relates
  the rules to something at all is part of 4.
-/

namespace MemoPeg

/-! ## Judgement -/

namespace Operator

variable [RegexLibrary]

/-- All of a row are nullable if each of them is. -/
theorem allNullable_iff {rules : List Rule} {known : List String} {ops : List Operator} :
    allNullable rules known ops ↔ ∀ op ∈ ops, op.isNullable rules known := by
  induction ops with
  | nil => simp [allNullable]
  | cons op ops ih => simp [allNullable, ih]

/-- One of a row is nullable if there is one that is. -/
theorem anyNullable_iff {rules : List Rule} {known : List String} {ops : List Operator} :
    anyNullable rules known ops ↔ ∃ op ∈ ops, op.isNullable rules known := by
  induction ops with
  | nil => simp [anyNullable]
  | cons op ops ih => simp [anyNullable, ih]

/-- **What is nullable stays so when more rules are known to be.** -/
theorem isNullable_mono {rules : List Rule} {known more : List String} (hmore : known ⊆ more) (op : Operator)
    (h : op.isNullable rules known) : op.isNullable rules more := by
  cases op with
  | any | literal _ | range _ _ | foreign _ _ _ =>
    rw [isNullable] at h
    cases h
  | pattern p =>
    rw [isNullable] at h ⊢
    exact h
  | sequence ops =>
    rw [isNullable, allNullable_iff] at h ⊢
    intro op hop
    have hless : sizeOf op < sizeOf (Operator.sequence ops) := sizeOf_child hop
    exact isNullable_mono hmore op (h op hop)
  | choice ops =>
    rw [isNullable, anyNullable_iff] at h ⊢
    obtain ⟨op, hop, hnullable⟩ := h
    have hless : sizeOf op < sizeOf (Operator.choice ops) := sizeOf_child hop
    exact ⟨op, hop, isNullable_mono hmore op hnullable⟩
  | repetition op min _ _ =>
    rw [isNullable, Bool.or_eq_true] at h ⊢
    exact h.imp_right (isNullable_mono hmore op)
  -- What a predicate looks for does not matter, so that `notAhead` does not turn the order round.
  | ahead _ | notAhead _ | action _ => rw [isNullable]
  | tag op _ | collect op | bounds op =>
    rw [isNullable] at h ⊢
    exact isNullable_mono hmore op h
  | call name _ | direct name _ =>
    rw [isNullable, Bool.and_eq_true, List.contains_iff_mem] at h ⊢
    exact h.imp_right fun hknown => hmore hknown
termination_by sizeOf op

/-- The judgement asks of the rules only which names they have. -/
theorem isNullable_congr {rules listed : List Rule}
    (h : ∀ name, (findRule rules name).isSome = (findRule listed name).isSome) (known : List String)
    (op : Operator) : op.isNullable rules known = op.isNullable listed known := by
  cases op with
  | any | literal _ | range _ _ | foreign _ _ _ | pattern _ | ahead _ | notAhead _ | action _ =>
    simp only [isNullable]
  | sequence ops =>
    rw [isNullable, isNullable, Bool.eq_iff_iff, allNullable_iff, allNullable_iff]
    refine forall₂_congr fun op hop => ?_
    have hless : sizeOf op < sizeOf (Operator.sequence ops) := sizeOf_child hop
    rw [isNullable_congr h known op]
  | choice ops =>
    rw [isNullable, isNullable, Bool.eq_iff_iff, anyNullable_iff, anyNullable_iff]
    refine exists_congr fun op => and_congr_right fun hop => ?_
    have hless : sizeOf op < sizeOf (Operator.choice ops) := sizeOf_child hop
    rw [isNullable_congr h known op]
  | repetition op min _ _ => rw [isNullable, isNullable, isNullable_congr h known op]
  | tag op _ | collect op | bounds op => rw [isNullable, isNullable, isNullable_congr h known op]
  | call name _ | direct name _ => rw [isNullable, isNullable, h name]
termination_by sizeOf op

end Operator

section

variable [RegexLibrary]

/-- A name means a rule if a rule has it. -/
theorem findRule_isSome_iff {rules : List Rule} {name : String} :
    (findRule rules name).isSome ↔ ∃ r ∈ rules, r.name = name := by
  simp [findRule]

/-! ## Closed names -/

/-- The names are different and belong to rules. -/
structure NamesOf (rules : List Rule) (known : List String) : Prop where
  nodup : known.Nodup
  names : ∀ name ∈ known, name ∈ rules.map (·.name)

/-- Each rule whose body is nullable given the names is among them. -/
def NullableClosed (rules : List Rule) (known : List String) : Prop :=
  ∀ r ∈ rules, r.body.isNullable rules known → r.name ∈ known

/-- The names of the rules whose bodies are nullable given these names. -/
def nullableGiven (rules : List Rule) (known : List String) : List String :=
  (rules.filter fun r => r.body.isNullable rules known).map (·.name)

/-- A rule is added if it is new and its body is nullable. -/
theorem addNullable_eq (rules : List Rule) (known : List String) (r : Rule) :
    (r.name ∉ known ∧ r.body.isNullable rules known ∧ addNullable rules known r = r.name :: known) ∨
    ((r.body.isNullable rules known → r.name ∈ known) ∧ addNullable rules known r = known) := by
  unfold addNullable
  split
  case isTrue h =>
    simp only [Bool.and_eq_true, Bool.not_eq_true', List.contains_eq_mem, decide_eq_false_iff_not] at h
    exact .inl ⟨h.1, h.2, rfl⟩
  case isFalse h =>
    refine .inr ⟨fun hnullable => Decidable.byContradiction fun hnew => h ?_, rfl⟩
    simp only [Bool.and_eq_true, Bool.not_eq_true', List.contains_eq_mem, decide_eq_false_iff_not]
    exact ⟨hnew, hnullable⟩

section Rounds

variable {rules : List Rule} {known more names : List String}

/-- A name is found in a round if it is that of a rule whose body is nullable. -/
theorem mem_nullableGiven_iff {name : String} :
    name ∈ nullableGiven rules known ↔ ∃ r ∈ rules, r.name = name ∧ r.body.isNullable rules known := by
  rw [nullableGiven, List.mem_map]
  constructor
  · rintro ⟨r, hr, rfl⟩
    obtain ⟨hr, hnullable⟩ := List.mem_filter.1 hr
    exact ⟨r, hr, rfl, hnullable⟩
  · rintro ⟨r, hr, rfl, hnullable⟩
    exact ⟨r, List.mem_filter.2 ⟨hr, hnullable⟩, rfl⟩

/-- With more names known, a round finds more. -/
theorem nullableGiven_mono (hmore : known ⊆ more) :
    nullableGiven rules known ⊆ nullableGiven rules more := by
  intro name hname
  obtain ⟨r, hr, heq, hnullable⟩ := mem_nullableGiven_iff.1 hname
  exact mem_nullableGiven_iff.2 ⟨r, hr, heq, r.body.isNullable_mono hmore hnullable⟩

/-- Names are closed if they hold all that is nullable given them. -/
theorem nullableClosed_iff : NullableClosed rules known ↔ nullableGiven rules known ⊆ known := by
  constructor
  · intro h name hname
    obtain ⟨r, hr, rfl, hnullable⟩ := mem_nullableGiven_iff.1 hname
    exact h r hr hnullable
  · exact fun h r hr hnullable => h (mem_nullableGiven_iff.2 ⟨r, hr, rfl, hnullable⟩)

/-- A look at some rules keeps what the addition of a new rule keeps, given that its body is nullable. -/
theorem foldl_addNullable_induction {P : List String → Prop} {row : List Rule} (h : P known)
    (hadd : ∀ found, P found → ∀ r ∈ row, r.name ∉ found → r.body.isNullable rules found →
      P (r.name :: found)) : P (row.foldl (addNullable rules) known) := by
  refine List.foldlRecOn (motive := P) row (addNullable rules) h fun found hfound r hr => ?_
  rcases addNullable_eq rules found r with ⟨hnew, hnullable, heq⟩ | ⟨-, heq⟩
  · rw [heq]
    exact hadd found hfound r hr hnew hnullable
  · rw [heq]
    exact hfound

/-- A round adds names of rules. -/
theorem NamesOf.round (h : NamesOf rules known) : NamesOf rules (nullableRound rules known) := by
  refine foldl_addNullable_induction h fun found hfound r hr hnew _ => ?_
  have hname : r.name ∈ rules.map (·.name) := List.mem_map.2 ⟨r, hr, rfl⟩
  exact ⟨List.nodup_cons.2 ⟨hnew, hfound.nodup⟩, List.forall_mem_cons.2 ⟨hname, hfound.names⟩⟩

/-- Among names of rules, a call is nullable if its rule is known to be: to look the name up decides nothing
    more. -/
theorem NamesOf.call_isNullable (h : NamesOf rules known) (name : String) (args : List Arg) :
    (Operator.call name args).isNullable rules known = known.contains name ∧
    (Operator.direct name args).isNullable rules known = known.contains name := by
  have hdeclared : name ∈ known → (findRule rules name).isSome := fun hname => by
    obtain ⟨r, hr, heq⟩ := List.mem_map.1 (h.names name hname)
    exact findRule_isSome_iff.2 ⟨r, hr, heq⟩
  constructor <;>
  · rw [Operator.isNullable, Bool.eq_iff_iff, Bool.and_eq_true, List.contains_iff_mem]
    exact and_iff_right_of_imp hdeclared

/-- Names of rules that are as many as the rules are all of them. -/
theorem NamesOf.all (h : NamesOf rules known) (hlength : rules.length ≤ known.length) :
    ∀ r ∈ rules, r.name ∈ known := by
  intro r hr
  have hperm := (List.Nodup.subperm h.nodup h.names).perm_of_length_le (by rw [List.length_map]; exact hlength)
  exact hperm.mem_iff.2 (List.mem_map.2 ⟨r, hr, rfl⟩)

/-- A look at some rules forgets nothing. -/
theorem suffix_foldl_addNullable (rules row : List Rule) (known : List String) :
    known <:+ row.foldl (addNullable rules) known :=
  foldl_addNullable_induction (List.suffix_refl known) fun found hfound r _ _ _ =>
    hfound.trans (List.suffix_cons r.name found)

/-- A round forgets nothing. -/
theorem suffix_nullableRound (rules : List Rule) (known : List String) :
    known <:+ nullableRound rules known := suffix_foldl_addNullable rules rules known

/-- **A round that begins within closed names stays within them.** -/
theorem NullableClosed.round (h : NullableClosed rules names) (hknown : known ⊆ names) :
    nullableRound rules known ⊆ names := by
  refine foldl_addNullable_induction (P := (· ⊆ names)) hknown fun found hfound r hr _ hnullable => ?_
  -- What has been found so far is within the names, which then hold the rule too.
  exact List.cons_subset.2 ⟨h r hr (r.body.isNullable_mono hfound hnullable), hfound⟩

/-- A look at some rules adds nothing if those that are nullable are known. -/
theorem foldl_addNullable_eq_iff {row : List Rule} : row.foldl (addNullable rules) known = known ↔
    ∀ r ∈ row, r.body.isNullable rules known → r.name ∈ known := by
  induction row with
  | nil => exact ⟨fun _ r hr => absurd hr List.not_mem_nil, fun _ => rfl⟩
  | cons r row ih =>
    rw [List.foldl_cons]
    rcases addNullable_eq rules known r with ⟨hnew, hnullable, heq⟩ | ⟨hold, heq⟩
    · refine ⟨fun hsame => ?_, fun hclosed => absurd (hclosed r List.mem_cons_self hnullable) hnew⟩
      -- The name that is added would have to go again.
      have hmore := (suffix_foldl_addNullable rules row (addNullable rules known r)).length_le
      rw [hsame, heq, List.length_cons] at hmore
      omega
    · rw [heq, ih]
      exact ⟨fun hclosed => List.forall_mem_cons.2 ⟨hold, hclosed⟩,
        fun hclosed => (List.forall_mem_cons.1 hclosed).2⟩

/-- **A round adds nothing exactly to closed names.** -/
theorem nullableRound_eq_iff : nullableRound rules known = known ↔ NullableClosed rules known :=
  foldl_addNullable_eq_iff

end Rounds

/-! ## The search -/

/-- From these names on, round after round, so many of them lead to these names, with the first round that
    adds nothing as the last. -/
inductive Saturates (rules : List Rule) : Nat → List String → List String → Prop
  | still {known : List String} (h : nullableRound rules known = known) : Saturates rules 1 known known
  | grows {rounds : Nat} {known found : List String} (h : nullableRound rules known ≠ known)
      (hrest : Saturates rules rounds (nullableRound rules known) found) :
    Saturates rules (rounds + 1) known found

namespace Saturates

variable {rules : List Rule} {rounds : Nat} {known found names : List String}

/-- There is one way for the search to go. -/
theorem unique (h : Saturates rules rounds known found) {rounds' : Nat} {found' : List String}
    (h' : Saturates rules rounds' known found') : rounds = rounds' ∧ found = found' := by
  induction h generalizing rounds' with
  | still hsame =>
    cases h' with
    | still => exact ⟨rfl, rfl⟩
    | grows hmore => exact absurd hsame hmore
  | grows hmore _ ih =>
    cases h' with
    | still hsame => exact absurd hsame hmore
    | grows _ hrest =>
      obtain ⟨rfl, rfl⟩ := ih hrest
      exact ⟨rfl, rfl⟩

/-- What is found is closed. -/
theorem closed (h : Saturates rules rounds known found) : NullableClosed rules found := by
  induction h with
  | still hsame => exact nullableRound_eq_iff.1 hsame
  | grows _ _ ih => exact ih

/-- A search that begins within closed names stays within them. -/
theorem subset (h : Saturates rules rounds known found) (hclosed : NullableClosed rules names)
    (hknown : known ⊆ names) : found ⊆ names := by
  induction h with
  | still => exact hknown
  | grows _ _ ih => exact ih (hclosed.round hknown)

end Saturates

/-- With rounds for all rules that are still to be found, the bounded search finds what the search does that
    goes on as long as it likes. -/
theorem nullableFrom_saturates {rules : List Rule} : ∀ (fuel : Nat) (known : List String),
    NamesOf rules known → rules.length ≤ fuel + known.length →
      ∃ rounds ≤ fuel + 1, Saturates rules rounds known (nullableFrom rules fuel known) := by
  intro fuel
  induction fuel with
  | zero =>
    intro known h hlength
    have hclosed : NullableClosed rules known := fun r hr _ => h.all (by omega) r hr
    exact ⟨1, Nat.le_refl _, .still (nullableRound_eq_iff.2 hclosed)⟩
  | succ fuel ih =>
    intro known h hlength
    have hsuffix := suffix_nullableRound rules known
    unfold nullableFrom
    simp only
    split
    case isTrue hsame =>
      exact ⟨1, Nat.le_add_left _ _, .still (hsuffix.eq_of_length hsame.symm).symm⟩
    case isFalse hmore =>
      have hgrown := hsuffix.length_le
      obtain ⟨rounds, hrounds, hrun⟩ := ih (nullableRound rules known) h.round (by omega)
      exact ⟨rounds + 1, Nat.succ_le_succ hrounds, .grows (mt (congrArg List.length) hmore) hrun⟩

/-! ## The least closed names -/

section Least

variable (rules : List Rule)

/-- **The search ends**, with at most one round more than there are rules. -/
theorem nullableRules_saturates :
    ∃ rounds ≤ rules.length + 1, Saturates rules rounds [] (nullableRules rules) :=
  nullableFrom_saturates rules.length [] ⟨List.nodup_nil, fun _ h => absurd h List.not_mem_nil⟩
    (Nat.le_add_right _ _)

/-- **The nullable rules are all whose bodies are nullable given them.** -/
theorem nullableRules_closed : NullableClosed rules (nullableRules rules) := by
  obtain ⟨rounds, -, hrun⟩ := nullableRules_saturates rules
  exact hrun.closed

variable {rules}

/-- The nullable rules are among all closed names. -/
theorem nullableRules_subset {names : List String} (h : NullableClosed rules names) :
    nullableRules rules ⊆ names := by
  obtain ⟨rounds, -, hrun⟩ := nullableRules_saturates rules
  exact hrun.subset h (List.nil_subset names)

/-- The nullable rules are no others than those whose bodies are nullable given them. -/
theorem mem_nullableRules_iff {name : String} : name ∈ nullableRules rules ↔
    ∃ r ∈ rules, r.name = name ∧ r.body.isNullable rules (nullableRules rules) := by
  have hfound : nullableGiven rules (nullableRules rules) ⊆ nullableRules rules :=
    nullableClosed_iff.1 (nullableRules_closed rules)
  -- What is nullable given closed names is closed itself, so that nothing else belongs to the least ones.
  have hclosed : NullableClosed rules (nullableGiven rules (nullableRules rules)) :=
    nullableClosed_iff.2 (nullableGiven_mono hfound)
  rw [← mem_nullableGiven_iff]
  exact ⟨fun hname => nullableRules_subset hclosed hname, fun hname => hfound hname⟩

/-- The nullable rules are the least closed set of names. -/
theorem nullableRules_isLeast (rules : List Rule) :
    IsLeast {names : Finset String | NullableClosed rules names.toList} (nullableRules rules).toFinset := by
  constructor
  · intro r hr hnullable
    have hlisted : (nullableRules rules).toFinset.toList ⊆ nullableRules rules :=
      fun name hname => List.mem_toFinset.1 (Finset.mem_toList.1 hname)
    have hfound := nullableRules_closed rules r hr (r.body.isNullable_mono hlisted hnullable)
    exact Finset.mem_toList.2 (List.mem_toFinset.2 hfound)
  · intro names hclosed name hname
    exact Finset.mem_toList.1 (nullableRules_subset hclosed (List.mem_toFinset.1 hname))

end Least

/-- **The nullable rules are the least fixpoint of the judgement.**  Take any list of rules, also one that
    declares a name twice.  The search, which nothing bounds, ends after at most one round more than there
    are rules, and in one way only.  What it finds is the least of the sets of names to which each rule
    belongs whose body is nullable given the set; it holds no other rules than those, and does not depend on
    the order in which the rules are listed. -/
theorem nullable_rules_least (rules : List Rule) :
    (∃ rounds ≤ rules.length + 1, Saturates rules rounds [] (nullableRules rules)) ∧
    (∀ rounds found, Saturates rules rounds [] found → found = nullableRules rules) ∧
    IsLeast {names : Finset String | NullableClosed rules names.toList} (nullableRules rules).toFinset ∧
    (∀ name, name ∈ nullableRules rules ↔
      ∃ r ∈ rules, r.name = name ∧ r.body.isNullable rules (nullableRules rules)) ∧
    ∀ listed : List Rule, listed.Perm rules →
      (nullableRules listed).toFinset = (nullableRules rules).toFinset := by
  obtain ⟨rounds, hrounds, hrun⟩ := nullableRules_saturates rules
  refine ⟨⟨rounds, hrounds, hrun⟩, fun _ found hfound => (hfound.unique hrun).2,
    nullableRules_isLeast rules, fun _ => mem_nullableRules_iff, fun listed hperm => ?_⟩
  have hnames : ∀ name, (findRule listed name).isSome = (findRule rules name).isSome := fun name => by
    rw [Bool.eq_iff_iff, findRule_isSome_iff, findRule_isSome_iff]
    exact exists_congr fun r => and_congr_left' hperm.mem_iff
  have hsame : ∀ names, NullableClosed listed names ↔ NullableClosed rules names := fun names =>
    forall_congr' fun r => by rw [hperm.mem_iff, r.body.isNullable_congr hnames]
  have hleast := nullableRules_isLeast listed
  simp only [hsame] at hleast
  exact hleast.unique (nullableRules_isLeast rules)

end

/-- Margins of lines, which need not be there, each listed before what it is made of; and a rule that is
    nothing but itself. -/
def margins : List Rule :=
  numberRules
    [⟨"line", [], .sequence [.call "margin" [], .literal "x"]⟩,
      ⟨"margin", [], .sequence [.call "indent" [], .ahead (.literal "x")]⟩,
      ⟨"indent", [], .choice [.plus (.literal "\t"), .direct "gap" []]⟩,
      ⟨"gap", [], .star (.literal " ")⟩,
      ⟨"echo", [], .tag (.call "echo" []) "again"⟩]

/-- Listed this way, a rule is found in each round, and listed the other way all are found in the first.
    The rule that is nothing but itself is not found, although it could be added. -/
theorem nullable_rules_least_margins :
    Saturates margins 4 [] ["margin", "indent", "gap"] ∧
      Saturates margins.reverse 2 [] ["margin", "indent", "gap"] ∧
      (nullableRules margins.reverse).toFinset = ["margin", "indent", "gap"].toFinset ∧
      NullableClosed margins ["echo", "margin", "indent", "gap"] := by
  have hslow : Saturates margins 4 [] ["margin", "indent", "gap"] :=
    .grows (by decide) (.grows (by decide) (.grows (by decide) (.still rfl)))
  have hfast : Saturates margins.reverse 2 [] ["margin", "indent", "gap"] :=
    .grows (by decide) (.still rfl)
  obtain ⟨-, hunique, -, -, horder⟩ := nullable_rules_least margins
  refine ⟨hslow, hfast, ?_, nullableRound_eq_iff.1 rfl⟩
  rw [horder _ margins.reverse_perm, ← hunique _ _ hslow]

end MemoPeg
