import Mathlib.Data.List.Nodup
import MemoPeg.Emit.Body
import MemoPeg.Proofs.Checked
import MemoPeg.Proofs.Phrases
import MemoPeg.RuleSet.Compile
import MemoPeg.Regex.Reader

/-
  Which declarations build, and what is settled by that.

  Building runs one check after another, and each of them looks things up in tables.  What they amount to should
  be said without tables and in no order: this is what a well-formed declaration is.

  1. **Well-formed declarations** — what a declaration has to be, said of the declared rules and links as
     they are written: no look-up, no error and no order of checks occurs in it.
  2. **Acceptance (`Declaration.build_iff`)** — a node is reported exactly if it is not allowed, and a
     declaration builds exactly if it is well-formed.  Rules are found by their last declaration and links
     by their last one, which for rules makes no difference since names are different.
  3. **Resolution (`Grammar.Resolves`)** — every operator of a built grammar has all that it refers to.
     Evaluation, compilation and emission each have a way to go on where something is missing; none of
     them is ever taken.

  Most of 2 is one equivalence for each kind of node.  What does not fit this scheme are loops: whether a
  repetition is idle depends on which rules are nullable, and that is found out from all rules together.  So the
  well-formedness of a loop is said in terms of the nullable rules, which have a description of their own.
-/

namespace MemoPeg

/-! ## Well-formed declarations -/

namespace Declaration

variable [RegexLibrary]

/-- A rule of the name is declared that takes this many arguments. -/
def Takes (d : Declaration) (name : String) (count : Nat) : Prop :=
  ∃ r ∈ d.rules, r.name = name ∧ r.params.length = count

/-- The last link of the name leads to a rule set with a rule that takes this many arguments. -/
def LinkTakes (d : Declaration) (grammar name : String) (count : Nat) : Prop :=
  ∃ before callee after, d.links = before ++ (grammar, callee) :: after ∧
    (∀ l ∈ after, l.1 ≠ grammar) ∧
    ∃ rule info, callee.lookup name = some rule ∧ callee.summary? rule = some info ∧
      info.params.length = count

/-- What is asked of a node, wherever it stands in a body. -/
def Allows (d : Declaration) : Operator → Prop
  | .range lo hi => (∃ c, lo.toList = [c]) ∧ ∃ c, hi.toList = [c]
  | .choice ops => ops ≠ []
  | .repetition _ min (some max) _ => min ≤ max
  | .repetition op _ none _ => op.isNullable d.numbered (nullableRules d.numbered) = false
  | .call name args | .direct name args => d.Takes name args.length
  | .foreign grammar name args => d.LinkTakes grammar name args.length
  | _ => True

/-- What a declaration has to be. -/
structure WellFormed (d : Declaration) : Prop where
  rules : d.rules ≠ []
  names : (d.rules.map (·.name)).Nodup
  root : ∀ name, d.root = some name → ∃ r ∈ d.rules, r.name = name
  nodes : ∀ r ∈ d.rules, ∀ op ∈ r.body.nodes, d.Allows op

end Declaration

/-! ## Look-ups -/

/-- Both bounds of a range are single characters. -/
theorem singleChars_isSome {lo hi : String} :
    (singleChars lo hi).isSome ↔ (∃ c, lo.toList = [c]) ∧ ∃ c, hi.toList = [c] := by
  unfold singleChars
  constructor
  · intro h
    split at h
    case h_1 a b hlo hhi => exact ⟨⟨a, hlo⟩, b, hhi⟩
    case h_2 => cases h
  · rintro ⟨⟨a, hlo⟩, b, hhi⟩
    rw [hlo, hhi]
    rfl

section

variable [RegexLibrary]

/-- Where names are different, a name means the only rule that has it. -/
theorem findRule_eq_some {rules : List Rule} (hnames : (rules.map (·.name)).Nodup) {name : String}
    {r : Rule} : findRule rules name = some r ↔ r ∈ rules ∧ r.name = name := by
  constructor
  · exact findRule_mem
  · rintro ⟨hmem, hname⟩
    have hsome : (findRule rules name).isSome := by
      refine List.find?_isSome.2 ⟨r, List.mem_reverse.2 hmem, ?_⟩
      exact beq_iff_eq.2 hname
    obtain ⟨r', hr'⟩ := Option.isSome_iff_exists.1 hsome
    obtain ⟨hmem', hname'⟩ := findRule_mem hr'
    have hsame : r' = r := List.inj_on_of_nodup_map hnames hmem' hmem (hname'.trans hname.symm)
    rw [hr', hsame]

/-- A name means the last link that has it. -/
theorem findLink_eq_some {links : List (String × RuleSet)} {name : String} {callee : RuleSet} :
    findLink links name = some callee ↔
      ∃ before after, links = before ++ (name, callee) :: after ∧ ∀ l ∈ after, l.1 ≠ name := by
  unfold findLink
  constructor
  · intro h
    obtain ⟨⟨name', callee'⟩, hfind, heq⟩ := Option.map_eq_some_iff.1 h
    obtain ⟨hname, later, earlier, hsplit, hlater⟩ := List.find?_eq_some_iff_append.1 hfind
    obtain rfl : name' = name := eq_of_beq hname
    obtain rfl : callee' = callee := heq
    refine ⟨earlier.reverse, later.reverse, ?_, fun l hl heq => ?_⟩
    · have hback := congrArg List.reverse hsplit
      simpa using hback
    · have hnot := hlater l (List.mem_reverse.1 hl)
      simp [heq] at hnot
  · rintro ⟨before, after, rfl, hafter⟩
    have hfind : (before ++ (name, callee) :: after).reverse.find? (fun l => l.1 == name) =
        some (name, callee) := by
      refine List.find?_eq_some_iff_append.2
        ⟨beq_self_eq_true name, after.reverse, before.reverse, by simp, fun l hl => ?_⟩
      have hne := hafter l (List.mem_reverse.1 hl)
      simp [hne]
    rw [hfind]
    rfl

/-! ## Errors of a node -/

omit [RegexLibrary] in
/-- Nothing is reported if there are as many arguments as parameters. -/
theorem countErrors_eq_nil {rule name : String} {params : List String} {args : List Arg} :
    countErrors rule name params args = [] ↔ params.length = args.length := by
  unfold countErrors
  constructor
  · intro h
    split at h
    case isTrue heq => exact heq
    case isFalse => cases h
  · intro h
    rw [if_pos h]

/-- The errors of a call are those of its arguments, if its rule is declared. -/
theorem Declaration.takes_iff {d : Declaration} (hnames : (d.rules.map (·.name)).Nodup)
    {rule name : String} {args : List Arg} :
    nodeErrors d.numbered d.links rule (.call name args) = [] ↔ d.Takes name args.length := by
  simp only [nodeErrors, Takes]
  constructor
  · intro h
    cases hfind : findRule d.numbered name with
    | none => rw [hfind] at h; cases h
    | some r =>
      rw [hfind] at h
      obtain ⟨hmem, hname⟩ := findRule_mem hfind
      have hcount : r.params.length = args.length := countErrors_eq_nil.1 h
      exact ⟨r.toDeclaredRule, mem_numberRules hmem, hname, hcount⟩
  · rintro ⟨declared, hdeclared, hname, hcount⟩
    obtain ⟨r, hmem, rfl⟩ := exists_mem_numberRules hdeclared
    have hnumbered : (d.numbered.map (·.name)).Nodup := map_name_numberRules d.rules ▸ hnames
    have hfind : findRule d.numbered name = some r := (findRule_eq_some hnumbered).2 ⟨hmem, hname⟩
    rw [hfind]
    exact countErrors_eq_nil.2 hcount

/-- The errors of a call across a link are those of its arguments, if its rule is to be found. -/
theorem Declaration.linkTakes_iff {d : Declaration} {rule grammar name : String} {args : List Arg} :
    nodeErrors d.numbered d.links rule (.foreign grammar name args) = [] ↔
      d.LinkTakes grammar name args.length := by
  simp only [nodeErrors, LinkTakes]
  constructor
  · intro h
    cases hlink : findLink d.links grammar with
    | none => rw [hlink] at h; cases h
    | some callee =>
      rw [hlink] at h
      obtain ⟨before, after, hlinks, hafter⟩ := findLink_eq_some.1 hlink
      cases hlookup : callee.lookup name with
      | none => simp [hlookup] at h
      | some id =>
        cases hinfo : callee.summary? id with
        | none => simp [hlookup, hinfo] at h
        | some info =>
          simp only [hlookup, Option.bind_some, hinfo] at h
          have hcount : info.params.length = args.length := countErrors_eq_nil.1 h
          exact ⟨before, callee, after, hlinks, hafter, id, info, hlookup, hinfo, hcount⟩
  · rintro ⟨before, callee, after, hlinks, hafter, id, info, hlookup, hinfo, hcount⟩
    have hlink : findLink d.links grammar = some callee :=
      findLink_eq_some.2 ⟨before, after, hlinks, hafter⟩
    simp only [hlink, hlookup, Option.bind_some, hinfo]
    exact countErrors_eq_nil.2 hcount

/-- **A node is allowed exactly if nothing is reported of it.** -/
theorem Declaration.allows_iff {d : Declaration} (hnames : (d.rules.map (·.name)).Nodup)
    (rule : String) (op : Operator) :
    d.Allows op ↔ nodeErrors d.numbered d.links rule op = [] ∧
      isIdleLoop d.numbered (nullableRules d.numbered) op = false := by
  cases op with
  | range lo hi =>
    have hchars : (singleChars lo hi).isSome ↔ _ := singleChars_isSome
    simp only [Allows, nodeErrors, isIdleLoop, and_true, ← hchars]
    split <;> simp_all
  | choice ops => cases ops <;> simp [Allows, nodeErrors, isIdleLoop]
  | repetition op min max captures =>
    cases max with
    | none => simp [Allows, nodeErrors, isIdleLoop]
    | some max =>
      simp only [Allows, nodeErrors, isIdleLoop, and_true]
      split <;> simp <;> omega
  | call name args =>
    have htakes : nodeErrors d.numbered d.links rule (.call name args) = [] ↔ _ := takes_iff hnames
    simp only [Allows, isIdleLoop, and_true, htakes]
  | direct name args =>
    -- A call past the memo table is checked as one through it.
    have htakes : nodeErrors d.numbered d.links rule (.direct name args) = [] ↔ _ := takes_iff hnames
    simp only [Allows, isIdleLoop, and_true, htakes]
  | «foreign» grammar name args =>
    have htakes : nodeErrors d.numbered d.links rule (.foreign grammar name args) = [] ↔ _ :=
      linkTakes_iff
    simp only [Allows, isIdleLoop, and_true, htakes]
  | _ => simp [Allows, nodeErrors, isIdleLoop]

/-! ## Errors of a declaration -/

/-- No duplicate is reported if names are different. -/
theorem duplicateErrors_eq_nil {rules : List Rule} : ∀ {seen : List String},
    (∀ r ∈ rules, r.name ∉ seen) → (rules.map (·.name)).Nodup → duplicateErrors seen rules = [] := by
  induction rules with
  | nil => intro seen _ _; rfl
  | cons r rules ih =>
    intro seen hseen hnames
    obtain ⟨hfirst, hrest⟩ := List.nodup_cons.1 hnames
    have hnew : ¬seen.contains r.name := by
      rw [List.contains_iff_mem]
      exact hseen r List.mem_cons_self
    have hlater : ∀ r' ∈ rules, r'.name ∉ r.name :: seen := by
      intro r' hr' hmem
      rcases List.mem_cons.1 hmem with heq | hmem
      · exact hfirst (List.mem_map.2 ⟨r', hr', heq⟩)
      · exact hseen r' (List.mem_cons_of_mem _ hr') hmem
    rw [duplicateErrors, if_neg hnew, ih hlater hrest]
    rfl

/-- Nothing is reported of a rule without idle loops. -/
theorem loopErrors_eq_nil {rules : List Rule} {known : List String} {r : Rule} :
    loopErrors rules known r = [] ↔ ∀ op ∈ r.body.nodes, isIdleLoop rules known op = false := by
  unfold loopErrors
  rw [List.map_eq_nil_iff, List.filter_eq_nil_iff]
  simp

/-- The checks find no error exactly if names are different and every node is allowed. -/
theorem Declaration.check_eq_nil {d : Declaration} :
    (check d.numbered d.links).errors = [] ↔
      (d.rules.map (·.name)).Nodup ∧ ∀ r ∈ d.rules, ∀ op ∈ r.body.nodes, d.Allows op := by
  unfold check
  rw [List.append_eq_nil_iff, List.append_eq_nil_iff, List.flatMap_eq_nil_iff,
    List.flatMap_eq_nil_iff]
  constructor
  · rintro ⟨⟨hduplicates, hnodes⟩, hloops⟩
    have hnames := (nodup_of_duplicateErrors hduplicates).2
    rw [numbered, map_name_numberRules] at hnames
    refine ⟨hnames, fun declared hdeclared op hop => ?_⟩
    obtain ⟨r, hr, rfl⟩ := exists_mem_numberRules hdeclared
    have herrors := List.flatMap_eq_nil_iff.1 (hnodes r hr) op hop
    have hidle := loopErrors_eq_nil.1 (hloops r hr) op hop
    exact (allows_iff hnames r.name op).2 ⟨herrors, hidle⟩
  · rintro ⟨hnames, hallows⟩
    have hduplicates : duplicateErrors [] d.numbered = [] :=
      duplicateErrors_eq_nil (fun _ _ => List.not_mem_nil) (map_name_numberRules d.rules ▸ hnames)
    refine ⟨⟨hduplicates, fun r hr => ?_⟩, fun r hr => ?_⟩
    · refine List.flatMap_eq_nil_iff.2 fun op hop => ?_
      exact ((allows_iff hnames r.name op).1 (hallows _ (mem_numberRules hr) op hop)).1
    · refine loopErrors_eq_nil.2 fun op hop => ?_
      exact ((allows_iff hnames r.name op).1 (hallows _ (mem_numberRules hr) op hop)).2

/-- The root is found exactly if the one that is named is declared. -/
theorem Declaration.rootId_isOk {d : Declaration} :
    (∃ root, d.rootId (d.numbered.map Rule.entry) = .ok root) ↔
      ∀ name, d.root = some name → ∃ r ∈ d.rules, r.name = name := by
  have hid : ∀ name, ((d.numbered.map Rule.entry).lookup name).isSome ↔ ∃ r ∈ d.rules, r.name = name := by
    intro name
    rw [d.lookup_entries, List.findIdx?_isSome, List.any_eq_true]
    constructor
    · rintro ⟨r, hr, hname⟩
      exact ⟨r.toDeclaredRule, mem_numberRules hr, eq_of_beq hname⟩
    · rintro ⟨declared, hdeclared, rfl⟩
      obtain ⟨r, hr, rfl⟩ := exists_mem_numberRules hdeclared
      exact ⟨r, hr, beq_self_eq_true r.name⟩
  unfold rootId
  constructor
  · rintro ⟨root, h⟩ name hname
    rw [hname] at h
    refine (hid name).1 ?_
    cases hfound : (d.numbered.map Rule.entry).lookup name with
    | none => simp only [hfound] at h; cases h
    | some id => rfl
  · intro h
    cases hname : d.root with
    | none => exact ⟨_, rfl⟩
    | some name =>
      obtain ⟨id, hfound⟩ := Option.isSome_iff_exists.1 ((hid name).2 (h name hname))
      simp only [hfound]
      exact ⟨id, rfl⟩

/-- **A declaration builds exactly if it is well-formed.** -/
theorem Declaration.build_iff {d : Declaration} : (∃ g, d.build = .ok g) ↔ d.WellFormed := by
  constructor
  · rintro ⟨g, h⟩
    obtain ⟨hrules, herrors, root, hroot, -⟩ := built h
    obtain ⟨hnames, hnodes⟩ := check_eq_nil.1 herrors
    exact ⟨hrules, hnames, rootId_isOk.1 ⟨root, hroot⟩, hnodes⟩
  · intro h
    have herrors := check_eq_nil.2 ⟨h.names, h.nodes⟩
    obtain ⟨root, hroot⟩ := rootId_isOk.2 h.root
    have hempty : ¬d.rules.isEmpty := fun hempty => h.rules (List.isEmpty_iff.1 hempty)
    unfold build
    rw [if_neg hempty]
    simp only [herrors, hroot]
    exact ⟨_, rfl⟩

/-! ## Numbering -/

/-- A name is looked up to an id exactly if that is the id of a rule of the name: look-up and naming are
    inverse to each other, between the declared names and the ids below the number of rules. -/
structure Grammar.Indexed (g : Grammar) : Prop where
  lookup_iff : ∀ name rule,
    g.lookup name = some rule ↔ (RuleSet.grammar g).nameOf? rule = some name
  ids : ∀ rule, ((RuleSet.grammar g).nameOf? rule).isSome ↔ rule < g.rules.length

/-- In a checked grammar a rule is found by its name at its place. -/
theorem Grammar.Checked.indexed {g : Grammar} (hg : g.Checked) : g.Indexed := by
  constructor
  · intro name rule
    rw [RuleSet.nameOf?_grammar]
    constructor
    · intro h
      obtain ⟨r, hr, rfl⟩ := Grammar.lookup_rule h
      rw [hr]
      rfl
    · intro h
      obtain ⟨r, hr, rfl⟩ := Option.map_eq_some_iff.1 h
      exact hg.lookup_of_rule hr
  · intro rule
    rw [RuleSet.nameOf?_grammar, Option.isSome_map, isSome_getElem?]

/-! ## Resolution -/

/-- The rule that a phrase of the shape calls, and its rule set. -/
def Shape.callee? : Shape → Option (RuleSet × RuleId)
  | .apply rs rule _ | .invoke rs rule _ | .cross _ rs rule _ => some (rs, rule)
  | .leaf _ | .sequence _ | .choice _ | .repetition _ _ _ _ | .ahead _ | .notAhead _ | .tag _ _
  | .collect _ | .bounds _ => none

/-- The operator has all that it refers to: neither when it is evaluated, nor when it is compiled, nor when
    its source is emitted is the way taken that is left where something is missing. -/
structure Grammar.Resolves (g : Grammar) (op : Operator) : Prop where
  evaluated : op.shape g ≠ .leaf .fail
  compiled : g.compileOp op ≠ .fail
  emitted : ∀ n, (Emit.body g op n).1 ≠ Emit.failedOutcome
  /-- The rule that it calls is a rule of its rule set. -/
  called : ∀ rs rule, (op.shape g).callee? = some (rs, rule) → (rs.summary? rule).isSome

omit [RegexLibrary] in
/-- Source that begins with another token than a path does is not the source of a failure. -/
theorem Emit.ne_failedOutcome {source : List Token} (t : Token) (h : source.head? = some t)
    (ht : t ≠ .raw "::") : source ≠ failedOutcome := by
  rintro rfl
  have heq : some (Token.raw "::") = some t := h
  exact ht (Option.some.inj heq).symm

/-- An operator that calls no rule is resolved if it is read and compiled as what it is. -/
theorem Grammar.Resolves.of_callee?_eq_none {op : Operator} (hcallee : (op.shape g).callee? = none)
    (hshape : op.shape g ≠ .leaf .fail) (hcompiled : g.compileOp op ≠ .fail)
    (hemitted : ∀ n, (Emit.body g op n).1 ≠ Emit.failedOutcome) : g.Resolves op where
  evaluated := hshape
  compiled := hcompiled
  emitted := hemitted
  called rs rule hsome := by
    rw [hcallee] at hsome
    cases hsome

section Resolution

variable {d : Declaration} {g : Grammar}

/-- A rule that is declared is looked up in what is built. -/
theorem Declaration.Takes.lookup (h : d.build = .ok g) {name : String} {count : Nat}
    (htakes : d.Takes name count) :
    ∃ rule, g.lookup name = some rule ∧ ((RuleSet.grammar g).summary? rule).isSome := by
  obtain ⟨declared, hdeclared, rfl, -⟩ := htakes
  obtain ⟨r, hr, rfl⟩ := exists_mem_numberRules hdeclared
  have hrules : g.rules = d.numbered := (build_eq_ok h).1
  have hmem : r ∈ g.rules := hrules ▸ hr
  obtain ⟨rule, hrule⟩ := List.mem_iff_getElem?.1 hmem
  have hlookup : g.lookup r.name = some rule := (checked h).lookup_of_rule hrule
  refine ⟨rule, hlookup, ?_⟩
  rw [RuleSet.summary?, RuleSet.registry, g.getElem?_registry, hrule]
  rfl

/-- A rule across a link is found in what is built. -/
theorem Declaration.LinkTakes.lookup (h : d.build = .ok g) {grammar name : String} {count : Nat}
    (htakes : d.LinkTakes grammar name count) :
    ∃ callee rule, g.link? grammar = some callee ∧ callee.lookup name = some rule ∧
      (callee.summary? rule).isSome := by
  obtain ⟨before, callee, after, hlinks, hafter, rule, info, hlookup, hinfo, -⟩ := htakes
  have hlink : g.link? grammar = some callee :=
    findLink_eq_some.2 ⟨before, after, (links_eq h).trans hlinks, hafter⟩
  refine ⟨callee, rule, hlink, hlookup, ?_⟩
  rw [hinfo]
  rfl

/-- **Whatever a declaration allows is resolved in the grammar it builds.** -/
theorem Declaration.Allows.resolves (h : d.build = .ok g) {op : Operator} (hop : d.Allows op) :
    g.Resolves op := by
  -- What refers to nothing is resolved; its source begins with a word or with a group.
  cases op with
  | any | literal _ | pattern _ | tag _ _ =>
    refine .of_callee?_eq_none rfl (by simp [Operator.shape]) (by simp [Grammar.compileOp]) fun n => ?_
    exact Emit.ne_failedOutcome (.raw "match") rfl (by simp)
  | sequence _ | repetition _ _ _ _ | collect _ | bounds _ =>
    refine .of_callee?_eq_none rfl (by simp [Operator.shape]) (by simp [Grammar.compileOp]) fun n => ?_
    exact Emit.ne_failedOutcome (.group .curly _) rfl (by simp)
  | ahead op | notAhead op =>
    -- An action ahead is read as a test.
    cases op <;>
      exact .of_callee?_eq_none rfl (by simp [Operator.shape]) (by simp [Grammar.compileOp]) fun n =>
        Emit.ne_failedOutcome (.group .curly _) rfl (by simp)
  | choice ops =>
    obtain ⟨op, ops, rfl⟩ := List.exists_cons_of_ne_nil hop
    refine .of_callee?_eq_none rfl (by simp [Operator.shape]) (by simp [Grammar.compileOp]) fun n => ?_
    exact Emit.ne_failedOutcome (.group .curly _) rfl (by simp)
  | action a =>
    refine .of_callee?_eq_none rfl (by simp [Operator.shape]) (by simp [Grammar.compileOp]) ?_
    intro n hsame
    -- The source of a match has its name where that of a failure has another.
    have hname : some (Token.raw "Matched") = some (Token.raw "Failed") :=
      congrArg (fun source => source[5]?) hsame
    simp at hname
  | range lo hi =>
    have hchars : (singleChars lo hi).isSome := singleChars_isSome.2 hop
    obtain ⟨⟨a, b⟩, hab⟩ := Option.isSome_iff_exists.1 hchars
    constructor
    · simp [Operator.shape, hab]
    · simp [Grammar.compileOp, hab]
    · intro n
      rw [Emit.body, hab]
      exact Emit.ne_failedOutcome (.raw "match") rfl (by simp)
    · simp [Operator.shape, hab, Shape.callee?]
  | call name args | direct name args =>
    obtain ⟨rule, hlookup, hrule⟩ := Takes.lookup h hop
    constructor
    · simp [Operator.shape, hlookup]
    · simp [Grammar.compileOp, hlookup]
    · intro n
      rw [Emit.body, hlookup]
      exact Emit.ne_failedOutcome (.raw "__engine") rfl (by simp)
    · intro rs rule' hcallee
      simp only [Operator.shape, hlookup] at hcallee
      cases hcallee
      exact hrule
  | «foreign» grammar name args =>
    obtain ⟨callee, rule, hlink, hlookup, hrule⟩ := LinkTakes.lookup h hop
    constructor
    · simp [Operator.shape, hlink, hlookup]
    · simp [Grammar.compileOp, hlink, hlookup]
    · intro n
      exact Emit.ne_failedOutcome (.raw "match") rfl (by simp)
    · intro rs rule' hcallee
      simp only [Operator.shape, hlink, hlookup] at hcallee
      cases hcallee
      exact hrule

end Resolution

/-! ## What is built -/

/-- **Declarations build exactly if they are well-formed, and what they build lacks nothing.**  A declaration
    builds exactly if it has rules, their names are different, the root it names is declared and every node
    of every body is allowed.  What it builds has the declared rules in their order, each of which tells its
    own place and stands in the registry there, with its name, its text and its parameters; its names and
    ids belong together one to one, its root is one of its rules, and none of its operators is ever
    evaluated, compiled or emitted as one that lacks what it refers to. -/
theorem builds_iff_wellFormed (d : Declaration) :
    ((∃ g, d.build = .ok g) ↔ d.WellFormed) ∧
    ∀ g, d.build = .ok g →
      g.declared = d.rules ∧
      (∀ i r, g.rules[i]? = some r → r.index = i ∧ (RuleSet.grammar g).summary? i = some r.summary) ∧
      (RuleSet.grammar g).registry =
        d.rules.map (fun r => { name := r.name, rendered := r.body.render, params := r.params }) ∧
      g.Indexed ∧
      g.root < g.rules.length ∧
      ∀ r ∈ g.rules, ∀ op ∈ r.body.nodes, g.Resolves op := by
  refine ⟨Declaration.build_iff, fun g hbuild => ?_⟩
  have hwell : d.WellFormed := Declaration.build_iff.1 ⟨g, hbuild⟩
  have hindexed : g.Indexed := (Declaration.checked hbuild).indexed
  have hroot : g.root < g.rules.length := Declaration.root_lt hbuild
  have hresolves : ∀ r ∈ g.rules, ∀ op ∈ r.body.nodes, g.Resolves op := by
    intro r hr op hop
    rw [(Declaration.build_eq_ok hbuild).1] at hr
    have hdeclared : r.toDeclaredRule ∈ d.rules := mem_numberRules hr
    have hallowed : d.Allows op := hwell.nodes _ hdeclared op hop
    exact hallowed.resolves hbuild
  obtain ⟨-, -, root, -, rfl⟩ := Declaration.built hbuild
  refine ⟨map_toDeclaredRule_numberRules d.rules, fun i r hr => ?_, ?_, hindexed, hroot, hresolves⟩
  · constructor
    · obtain ⟨declared, -, rfl⟩ := Option.map_eq_some_iff.1 (getElem?_numberRules d.rules i ▸ hr)
      rfl
    · show ((numberRules d.rules).map Rule.summary)[i]? = some r.summary
      rw [List.getElem?_map, show (numberRules d.rules)[i]? = some r from hr, Option.map_some]
  · exact map_summary_numberRules d.rules

end

/-- Sums of letters and of digits from a linked grammar; an earlier link of its name does not count. -/
def linkedTerms : Declaration :=
  { name := "terms"
    rules :=
      [⟨"sum", [], .sequence [.call "term" [],
        .star (.sequence [.literal "+", .direct "term" []])]⟩,
        ⟨"term", [], .choice [.foreign "digits" "digit" [], .range "a" "z"]⟩]
    root := some "sum"
    links := [("digits", .vacant "none"),
      ("digits", .grammar (.ofRules "digits" [⟨"digit", [], .range "0" "9"⟩] 0 [] []))] }

/-- What the declaration builds. -/
def linkedTermsGrammar : Grammar := .ofRules "terms" linkedTerms.rules 0 linkedTerms.links []

/-- The declaration is well-formed, and the call across the link is resolved in what it builds. -/
theorem builds_iff_wellFormed_linkedTerms :
    linkedTerms.build = .ok linkedTermsGrammar ∧ linkedTerms.WellFormed ∧
      linkedTermsGrammar.Resolves (.foreign "digits" "digit" []) := by
  have hbuild : linkedTerms.build = .ok linkedTermsGrammar := rfl
  obtain ⟨haccepted, hbuilt⟩ := builds_iff_wellFormed linkedTerms
  obtain ⟨-, -, -, -, -, hresolved⟩ := hbuilt linkedTermsGrammar hbuild
  refine ⟨hbuild, haccepted.1 ⟨_, hbuild⟩, ?_⟩
  refine hresolved
    (DeclaredRule.number ⟨"term", [], .choice [.foreign "digits" "digit" [], .range "a" "z"]⟩ 1) ?_ _ ?_
  · exact List.mem_cons_of_mem _ List.mem_cons_self
  · exact List.mem_cons_of_mem _ List.mem_cons_self

end MemoPeg
