import MemoPeg.Grammar.Build
import MemoPeg.Proofs.Agreement

/-
  What building a grammar makes sure of.

  1. **Checked grammars (`Grammar.Checked`)** — no name is declared twice, no node of a body is wrong in
     itself, and the cycles are those of the rules.  Every grammar that a declaration builds is checked
     (`Declaration.checked`); what is proved of built grammars is proved of checked ones.
  2. **Names (`Grammar.Checked.findRule_eq`)** — a run finds the first rule of a name and the checks the
     last one.  With different names these are one rule, so that both mean the same by it.
  3. **Calls (`Grammar.Checked.callee`)** — a call names a rule of the grammar and has as many arguments as
     that has parameters.
  4. **Root (`Declaration.root_lt`)** — the root is a rule of the grammar, whether it was named, is called
     `root` or is the first one.

  Whether a loop is idle is no part of being checked, though a built grammar has no such loop: it takes what is
  known of all rules together, and is dealt with where that is.
-/

namespace MemoPeg

variable [RegexLibrary]

/-- The grammar has passed every check of single nodes. -/
structure Grammar.Checked (g : Grammar) : Prop where
  names : (g.rules.map (·.name)).Nodup
  nodes : ∀ r ∈ g.rules, ∀ op ∈ r.body.nodes, nodeErrors g.rules g.links r.name op = []
  cycles : g.cycles = MemoPeg.cycles g.rules (nullableRules g.rules)

/-- Names are different if no duplicate is reported. -/
theorem nodup_of_duplicateErrors {rules : List Rule} : ∀ {seen : List String},
    duplicateErrors seen rules = [] →
      (∀ r ∈ rules, r.name ∉ seen) ∧ (rules.map (·.name)).Nodup := by
  induction rules with
  | nil => intro seen _; exact ⟨fun r hr => absurd hr List.not_mem_nil, List.nodup_nil⟩
  | cons r rules ih =>
    intro seen h
    obtain ⟨hfirst, hrest⟩ := List.append_eq_nil_iff.1 h
    obtain ⟨hnew, hnodup⟩ := ih hrest
    have hseen : r.name ∉ seen := by
      intro hmem
      rw [if_pos (List.contains_iff_mem.2 hmem)] at hfirst
      cases hfirst
    constructor
    · intro r' hr' hmem
      rcases List.mem_cons.1 hr' with rfl | hr'
      · exact hseen hmem
      · exact hnew r' hr' (List.mem_cons_of_mem _ hmem)
    · refine List.nodup_cons.2 ⟨fun hmem => ?_, hnodup⟩
      obtain ⟨r', hr', hname⟩ := List.mem_map.1 hmem
      exact hnew r' hr' (hname ▸ List.mem_cons_self)

/-- What a declaration builds is made of its parts, its root and the cycles that are found, where it has
    rules and no error is found. -/
theorem Declaration.built {d : Declaration} {g : Grammar} (h : d.build = .ok g) :
    d.rules ≠ [] ∧ (check d.numbered d.links).errors = [] ∧
      ∃ root, d.rootId (d.numbered.map Rule.entry) = .ok root ∧
      g = .ofRules d.name d.rules root d.links (check d.numbered d.links).cycles := by
  unfold Declaration.build at h
  split at h
  case isTrue => cases h
  case isFalse hempty =>
    simp only at h
    split at h
    case h_1 => cases h
    case h_2 herrors =>
      cases hroot : d.rootId (d.numbered.map Rule.entry) with
      | error err => rw [hroot] at h; cases h
      | ok root =>
        rw [hroot] at h
        cases h
        exact ⟨fun hnil => hempty (List.isEmpty_iff.2 hnil), herrors, root, rfl, rfl⟩

/-- What a declaration builds has its rules and links, and its checks have found no error. -/
theorem Declaration.build_eq_ok {d : Declaration} {g : Grammar} (h : d.build = .ok g) :
    g.rules = d.numbered ∧ (check g.rules g.links).errors = [] ∧
      g.cycles = (check g.rules g.links).cycles := by
  obtain ⟨-, herrors, root, -, rfl⟩ := built h
  exact ⟨rfl, herrors, rfl⟩

/-- What a declaration builds declares its rules. -/
theorem Declaration.declared_eq {d : Declaration} {g : Grammar} (h : d.build = .ok g) :
    g.declared = d.rules := by
  rw [Grammar.declared, (build_eq_ok h).1]
  exact map_toDeclaredRule_numberRules d.rules

/-- The links are those of the declaration. -/
theorem Declaration.links_eq {d : Declaration} {g : Grammar} (h : d.build = .ok g) : g.links = d.links := by
  obtain ⟨-, -, root, -, rfl⟩ := built h
  rfl

/-- What is looked up is the id of a rule. -/
theorem Grammar.lookup_lt {g : Grammar} {name : String} {rule : RuleId} (h : g.lookup name = some rule) :
    rule < g.rules.length := by
  rw [g.lookup_eq] at h
  exact (List.findIdx?_eq_some_iff_getElem.1 h).1

/-- The index of a declaration tells the place of the first rule of a name. -/
theorem Declaration.lookup_entries (d : Declaration) (name : String) :
    (d.numbered.map Rule.entry).lookup name = d.numbered.findIdx? fun r => r.name == name :=
  (tabulates_numberRules d.rules).lookup_eq name

/-- What is found in the index of a declaration is the place of a rule. -/
theorem Declaration.lookup_lt {d : Declaration} {name : String} {id : RuleId}
    (h : (d.numbered.map Rule.entry).lookup name = some id) : id < d.numbered.length := by
  rw [d.lookup_entries] at h
  exact (List.findIdx?_eq_some_iff_getElem.1 h).1

/-- The root of a declaration is the place of a rule. -/
theorem Declaration.rootId_lt {d : Declaration} (hrules : 0 < d.numbered.length) {root : RuleId}
    (h : d.rootId (d.numbered.map Rule.entry) = .ok root) : root < d.numbered.length := by
  unfold rootId at h
  cases hname : d.root with
  | some name =>
    rw [hname] at h
    cases hid : (d.numbered.map Rule.entry).lookup name with
    | none => simp only [hid] at h; cases h
    | some id => simp only [hid] at h; cases h; exact lookup_lt hid
  | none =>
    rw [hname] at h
    cases h
    cases hid : (d.numbered.map Rule.entry).lookup "root" with
    | none => exact hrules
    | some id => exact lookup_lt hid

/-- The root of a built grammar is one of its rules. -/
theorem Declaration.root_lt {d : Declaration} {g : Grammar} (h : d.build = .ok g) :
    g.root < g.rules.length := by
  obtain ⟨hrules, -, root, hroot, rfl⟩ := built h
  refine rootId_lt ?_ hroot
  rw [numbered, length_numberRules]
  exact List.length_pos_iff.2 hrules

/-- **Built grammars are checked.** -/
theorem Declaration.checked {d : Declaration} {g : Grammar} (h : d.build = .ok g) : g.Checked := by
  obtain ⟨-, herrors, hcycles⟩ := build_eq_ok h
  obtain ⟨hearlier, -⟩ := List.append_eq_nil_iff.1 herrors
  obtain ⟨hduplicates, hnodes⟩ := List.append_eq_nil_iff.1 hearlier
  refine ⟨(nodup_of_duplicateErrors hduplicates).2, fun r hr op hop => ?_, hcycles⟩
  exact List.flatMap_eq_nil_iff.1 (List.flatMap_eq_nil_iff.1 hnodes r hr) op hop

/-- A name means a rule that has it. -/
theorem findRule_mem {rules : List Rule} {name : String} {r : Rule} (h : findRule rules name = some r) :
    r ∈ rules ∧ r.name = name := by
  have hname := List.find?_some h
  exact ⟨List.mem_reverse.1 (List.mem_of_find?_eq_some h), eq_of_beq hname⟩

namespace Grammar.Checked

variable {g : Grammar}

/-- A name that stands at a place means the rule at that place. -/
theorem lookup_of_rule (h : g.Checked) {rule : RuleId} {r : Rule} (hr : g.rules[rule]? = some r) :
    g.lookup r.name = some rule := by
  obtain ⟨hlt, rfl⟩ := List.getElem?_eq_some_iff.1 hr
  rw [g.lookup_eq]
  refine List.findIdx?_eq_some_iff_getElem.2 ⟨hlt, beq_self_eq_true _, fun j hj => ?_⟩
  -- No earlier rule has the name, since names are declared once.
  intro hname
  have hnames := List.pairwise_iff_getElem.1 h.names j rule
    (by rw [List.length_map]; omega) (by rw [List.length_map]; exact hlt) hj
  rw [List.getElem_map, List.getElem_map] at hnames
  exact hnames (eq_of_beq hname)

/-- The checks mean the same rule by a name as a run does. -/
theorem findRule_eq (h : g.Checked) (name : String) : findRule g.rules name = g.rule? name := by
  cases hfind : findRule g.rules name with
  | some r =>
    obtain ⟨hmem, hname⟩ := findRule_mem hfind
    obtain ⟨rule, hr⟩ := List.mem_iff_getElem?.1 hmem
    exact (Grammar.rule?_eq_some.2 ⟨rule, hname ▸ h.lookup_of_rule hr, hr⟩).symm
  | none =>
    refine (Grammar.rule?_eq_none.2 ?_).symm
    rw [g.lookup_eq]
    refine List.findIdx?_eq_none_iff.2 fun r hr => ?_
    have hnone := List.find?_eq_none.1 hfind r (List.mem_reverse.2 hr)
    simpa using hnone

/-- A call names a rule of the grammar, and gives it as many arguments as it has parameters. -/
theorem callee (h : g.Checked) {r : Rule} (hr : r ∈ g.rules) {name : String} {args : List Arg}
    (hop : .call name args ∈ r.body.nodes ∨ .direct name args ∈ r.body.nodes) :
    ∃ r', g.rule? name = some r' ∧ r'.params.length = args.length := by
  -- A call past the memo table is checked as one through it.
  have hsame : nodeErrors g.rules g.links r.name (.direct name args) =
      nodeErrors g.rules g.links r.name (.call name args) := rfl
  have herrors : nodeErrors g.rules g.links r.name (.call name args) = [] := by
    rcases hop with hop | hop
    · exact h.nodes r hr _ hop
    · exact hsame ▸ h.nodes r hr _ hop
  simp only [nodeErrors, h.findRule_eq] at herrors
  cases hcallee : g.rule? name with
  | none => rw [hcallee] at herrors; cases herrors
  | some r' =>
    rw [hcallee] at herrors
    have hcount : countErrors r.name name r'.params args = [] := herrors
    refine ⟨r', rfl, Decidable.byContradiction fun hne => ?_⟩
    rw [countErrors, if_neg hne] at hcount
    cases hcount

end Grammar.Checked

end MemoPeg
