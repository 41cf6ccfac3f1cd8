import MemoPeg.Operator.Render

/-
  Rule sets: what the engine can run.

  1. **Rules** — a rule is declared by its name, its parameters and its body (`DeclaredRule`).  As a rule
     of a grammar it also has its place among the others and the text of its body (`Rule`), which
     `numberRules` gives to a whole list of declarations.
  2. **Grammar** — rules as operator trees that refer to each other by name, and links to other rule
     sets by name.  Two tables are made with it and kept: a registry, which tells by the id of a rule what
     can be known of it from outside, and an index, which tells ids by names.  That they tell of these
     rules is part of the structure (`Tabulates`), so there is no grammar in which they do not; what
     makes all four is `Grammar.ofRules`.
  3. **Program** — the same rules as code in which every name has been resolved: rules by their ids,
     linked rule sets by themselves.
  4. **RuleSet** — either of them, or the rule set without rules.  A registry describes all of them
     alike, and everything that is said of a rule set from outside is read from it.

  Only these three can be run and linked here.  A rule set of any other make, such as one written by
  hand, is not among them; a parser made by an emitted module enters as the program that it runs like
  (`Grammar.instantiate`).
-/

namespace MemoPeg

/-- The place of a rule in the order of declaration. -/
abbrev RuleId := Nat

variable [RegexLibrary]

/-- A rule as it is declared. -/
structure DeclaredRule where
  name : String
  params : List String
  body : Operator

/-- A rule of a grammar: its declaration, its place in the order of declaration, and the text of its
    body. -/
structure Rule extends DeclaredRule where
  index : Nat
  rendered : String

/-- The rule of a declaration at a place. -/
def DeclaredRule.number (r : DeclaredRule) (index : Nat) : Rule :=
  { r with index := index, rendered := r.body.render }

/-- The rules of a list of declarations. -/
def numberRules (declared : List DeclaredRule) : List Rule := declared.zipIdx.map fun r => r.1.number r.2

/-- The rule with another body. -/
def Rule.mapBody (f : Operator → Operator) (r : Rule) : Rule :=
  { r with body := f r.body, rendered := (f r.body).render }

/-- What a registry says about a rule. -/
structure RuleSummary where
  name : String
  rendered : String
  params : List String
deriving DecidableEq, Repr

/-- The registry entry of a rule. -/
def Rule.summary (r : Rule) : RuleSummary := ⟨r.name, r.rendered, r.params⟩

/-- The index entry of a rule. -/
def Rule.entry (r : Rule) : String × RuleId := (r.name, r.index)

/-- The rules stand at the places they say and hold the texts of their bodies, and a registry and an
    index tell of them in this order. -/
structure Tabulates (rules : List Rule) (registry : List RuleSummary) (index : List (String × RuleId)) :
    Prop where
  place : ∀ (i : Nat) (r : Rule), rules[i]? = some r → r.index = i
  text : ∀ r ∈ rules, r.rendered = r.body.render
  registry_eq : registry = rules.map Rule.summary
  index_eq : index = rules.map Rule.entry

mutual

/-- A table of rules that refer to each other by name. -/
structure Grammar where
  name : String
  rules : List Rule
  registry : List RuleSummary
  /-- The ids of rules by their names. -/
  index : List (String × RuleId)
  /-- The rule to start from when none is named. -/
  root : RuleId
  /-- Linked rule sets; the last of a name counts. -/
  links : List (String × RuleSet)
  /-- The rules that can call themselves before reading anything, each by the calls that lead back
      to it. -/
  cycles : List (List String)
  tabulates : Tabulates rules registry index

/-- The code of a rule body. -/
inductive Code where
  | any
  | literal (s : String)
  | scan (matcher : Matcher)
  | range (lo hi : Char)
  | sequence (steps : List Code)
  | choice (alternatives : List Code)
  | repetition (body : Code) (min : Nat) (max : Option Nat) (captures : Bool)
  | ahead (body : Code)
  | notAhead (body : Code)
  /-- Matches when the action's value holds (`wanted`) or when it does not. -/
  | test (a : Action) (wanted : Bool)
  | tag (body : Code) (name : String)
  | action (a : Action)
  | collect (body : Code)
  | bounds (body : Code)
  | apply (rule : RuleId) (args : List Arg)
  | invoke (rule : RuleId) (args : List Arg)
  | foreign (grammar : String) (callee : RuleSet) (rule : RuleId) (args : List Arg)
  /-- Never matches: a name that could not be resolved. -/
  | fail

/-- The code of a rule with its parameters. -/
structure Routine where
  params : List String
  body : Code

/-- A grammar whose rules have been compiled. -/
structure Program where
  name : String
  registry : List RuleSummary
  root : RuleId
  routines : List Routine

/-- A table of rules that the engine can run. -/
inductive RuleSet where
  | grammar (g : Grammar)
  | program (p : Program)
  /-- The rule set of that name without any rules. -/
  | vacant (name : String)

end

/-- The last linked rule set of a name. -/
def findLink (links : List (String × RuleSet)) (name : String) : Option RuleSet :=
  (links.reverse.find? fun l => l.1 == name).map (·.2)

/-! ## Numbered rules -/

@[simp] theorem DeclaredRule.toDeclaredRule_number (r : DeclaredRule) (index : Nat) :
    (r.number index).toDeclaredRule = r := rfl

@[simp] theorem DeclaredRule.index_number (r : DeclaredRule) (index : Nat) :
    (r.number index).index = index := rfl

@[simp] theorem DeclaredRule.rendered_number (r : DeclaredRule) (index : Nat) :
    (r.number index).rendered = r.body.render := rfl

@[simp] theorem Rule.name_mapBody (f : Operator → Operator) (r : Rule) : (r.mapBody f).name = r.name := rfl

@[simp] theorem Rule.params_mapBody (f : Operator → Operator) (r : Rule) : (r.mapBody f).params = r.params :=
  rfl

@[simp] theorem Rule.body_mapBody (f : Operator → Operator) (r : Rule) : (r.mapBody f).body = f r.body := rfl

@[simp] theorem getElem?_numberRules (declared : List DeclaredRule) (i : Nat) :
    (numberRules declared)[i]? = declared[i]?.map fun r => r.number i := by
  simp [numberRules, Function.comp_def]

@[simp] theorem length_numberRules (declared : List DeclaredRule) :
    (numberRules declared).length = declared.length := by
  simp [numberRules]

/-- Numbering keeps the declarations. -/
@[simp] theorem map_toDeclaredRule_numberRules (declared : List DeclaredRule) :
    (numberRules declared).map Rule.toDeclaredRule = declared := by
  refine List.ext_getElem? fun i => ?_
  simp [Function.comp_def]

/-- What a registry says about numbered rules. -/
theorem map_summary_numberRules (declared : List DeclaredRule) :
    (numberRules declared).map Rule.summary =
      declared.map fun r => { name := r.name, rendered := r.body.render, params := r.params } := by
  refine List.ext_getElem? fun i => ?_
  simp [Function.comp_def, Rule.summary]

/-- A rule with its place was declared. -/
theorem mem_numberRules {declared : List DeclaredRule} {r : Rule} (h : r ∈ numberRules declared) :
    r.toDeclaredRule ∈ declared := by
  rw [← map_toDeclaredRule_numberRules declared]
  exact List.mem_map_of_mem h

/-- A declared rule has a place. -/
theorem exists_mem_numberRules {declared : List DeclaredRule} {d : DeclaredRule} (h : d ∈ declared) :
    ∃ r ∈ numberRules declared, r.toDeclaredRule = d := by
  rw [← map_toDeclaredRule_numberRules declared] at h
  exact List.mem_map.1 h

/-- Numbering keeps the names. -/
theorem map_name_numberRules (declared : List DeclaredRule) :
    (numberRules declared).map (·.name) = declared.map (·.name) := by
  have hnames := congrArg (List.map DeclaredRule.name) (map_toDeclaredRule_numberRules declared)
  rwa [List.map_map] at hnames

/-- Rules that are told of are their own declarations, numbered. -/
theorem Tabulates.numberRules {rules : List Rule} {registry : List RuleSummary} {index : List (String × RuleId)}
    (h : Tabulates rules registry index) : numberRules (rules.map Rule.toDeclaredRule) = rules := by
  refine List.ext_getElem? fun i => ?_
  cases hr : rules[i]? with
  | none => simp [hr]
  | some r =>
    have hplace : r.index = i := h.place i r hr
    have htext : r.rendered = r.body.render := h.text r (List.mem_of_getElem? hr)
    simp only [getElem?_numberRules, List.getElem?_map, hr, Option.map_some, Option.some.injEq]
    rw [DeclaredRule.number, ← hplace, ← htext]

/-- An index of rules at places from `first` on tells the place of the first rule of a name. -/
theorem lookup_map_entry (name : String) : ∀ (rules : List Rule) (first : Nat),
    (∀ (i : Nat) (r : Rule), rules[i]? = some r → r.index = first + i) →
      (rules.map Rule.entry).lookup name = (rules.findIdx? fun r => r.name == name).map (first + ·)
  | [], _, _ => rfl
  | r :: rules, first, hplace => by
    have hr : r.index = first := hplace 0 r rfl
    have ih : (rules.map Rule.entry).lookup name =
        (rules.findIdx? fun r => r.name == name).map (first + 1 + ·) :=
      lookup_map_entry name rules (first + 1) fun i r' h => by
        have hnext : r'.index = first + (i + 1) := hplace (i + 1) r' h
        omega
    rw [List.map_cons, Rule.entry, List.lookup_cons, List.findIdx?_cons, BEq.comm, ih]
    cases r.name == name
    · simp [Function.comp_def, Nat.add_assoc, Nat.add_comm 1]
    · simp [hr]

/-- The index tells the place of the first rule of a name. -/
theorem Tabulates.lookup_eq {rules : List Rule} {registry : List RuleSummary} {index : List (String × RuleId)}
    (h : Tabulates rules registry index) (name : String) :
    index.lookup name = rules.findIdx? fun r => r.name == name := by
  have hplace : ∀ (i : Nat) (r : Rule), rules[i]? = some r → r.index = 0 + i := fun i r hr => by
    rw [h.place i r hr, Nat.zero_add]
  rw [h.index_eq, lookup_map_entry name rules 0 hplace]
  simp

/-- Numbered rules are told of by their own tables. -/
theorem tabulates_numberRules (declared : List DeclaredRule) :
    Tabulates (numberRules declared) ((numberRules declared).map Rule.summary)
      ((numberRules declared).map Rule.entry) where
  place i r hr := by
    obtain ⟨d, -, rfl⟩ := Option.map_eq_some_iff.1 (getElem?_numberRules declared i ▸ hr)
    rfl
  text r hr := by
    obtain ⟨d, -, rfl⟩ := List.mem_map.1 hr
    rfl
  registry_eq := rfl
  index_eq := rfl

namespace Grammar

/-- The grammar of a list of declarations, with its tables. -/
def ofRules (name : String) (declared : List DeclaredRule) (root : RuleId) (links : List (String × RuleSet))
    (cycles : List (List String)) : Grammar :=
  let rules := numberRules declared
  { name := name, rules := rules, registry := rules.map Rule.summary, index := rules.map Rule.entry
    root := root, links := links, cycles := cycles, tabulates := tabulates_numberRules declared }

/-- The id of the rule of a name. -/
def lookup (g : Grammar) (name : String) : Option RuleId := g.index.lookup name

/-- The linked rule set of a name. -/
def link? (g : Grammar) (name : String) : Option RuleSet := findLink g.links name

/-- The rules of a grammar as they were declared. -/
def declared (g : Grammar) : List DeclaredRule := g.rules.map Rule.toDeclaredRule

/-- The rules of a grammar are those it was declared with, numbered anew. -/
theorem numberRules_declared (g : Grammar) : numberRules g.declared = g.rules := g.tabulates.numberRules

theorem getElem?_declared {g : Grammar} {i : RuleId} {r : Rule} (h : g.rules[i]? = some r) :
    g.declared[i]? = some r.toDeclaredRule := by
  rw [declared, List.getElem?_map, h, Option.map_some]

theorem length_declared (g : Grammar) : g.declared.length = g.rules.length := List.length_map _

/-- A declared rule is numbered by its place. -/
theorem rule_of_declared {g : Grammar} {i : RuleId} {d : DeclaredRule} (h : g.declared[i]? = some d) :
    g.rules[i]? = some (d.number i) := by
  rw [← g.numberRules_declared, getElem?_numberRules, h, Option.map_some]

/-- A grammar is made of its declared rules. -/
theorem ofRules_declared (g : Grammar) : .ofRules g.name g.declared g.root g.links g.cycles = g := by
  have hrules : numberRules g.declared = g.rules := g.numberRules_declared
  obtain ⟨name, rules, registry, index, root, links, cycles, htabulates⟩ := g
  obtain rfl : registry = rules.map Rule.summary := htabulates.registry_eq
  obtain rfl : index = rules.map Rule.entry := htabulates.index_eq
  simp only [ofRules, mk.injEq, true_and, and_true]
  exact ⟨hrules, congrArg (List.map Rule.summary) hrules, congrArg (List.map Rule.entry) hrules⟩

/-- The indices of rules are their places. -/
theorem map_index {α : Type} (f : Rule → α) (g : Grammar) :
    (g.rules.map fun r => (r.index, f r)) = g.rules.zipIdx.map fun r => (r.2, f r.1) := by
  refine List.ext_getElem? fun i => ?_
  cases hr : g.rules[i]? with
  | none => simp [hr]
  | some r => simp [hr, g.tabulates.place i r hr]

/-- The registry tells of a rule at its place. -/
theorem getElem?_registry (g : Grammar) (i : Nat) : g.registry[i]? = g.rules[i]?.map Rule.summary := by
  rw [g.tabulates.registry_eq, List.getElem?_map]

/-- The index tells the place of the first rule of a name. -/
theorem lookup_eq (g : Grammar) (name : String) : g.lookup name = g.rules.findIdx? fun r => r.name == name :=
  g.tabulates.lookup_eq name

/-- The grammar with other bodies of rules. -/
def mapBodies (f : Operator → Operator) (g : Grammar) : Grammar :=
  .ofRules g.name (g.declared.map fun r => { r with body := f r.body }) g.root g.links g.cycles

/-- Rules with other bodies stay at their places. -/
theorem rules_mapBodies (f : Operator → Operator) (g : Grammar) :
    (g.mapBodies f).rules = g.rules.map (Rule.mapBody f) := by
  refine List.ext_getElem? fun i => ?_
  cases hr : g.rules[i]? with
  | none => simp [mapBodies, ofRules, declared, hr]
  | some r =>
    have hplace : r.index = i := g.tabulates.place i r hr
    simp [mapBodies, ofRules, declared, hr, DeclaredRule.number, Rule.mapBody, hplace]

/-- The names of the rules are looked up as before. -/
theorem lookup_mapBodies (f : Operator → Operator) (g : Grammar) (name : String) :
    (g.mapBodies f).lookup name = g.lookup name := by
  rw [lookup_eq, lookup_eq, rules_mapBodies, List.findIdx?_map]
  rfl

end Grammar

namespace RuleSet

/-- The name of a rule set. -/
def name : RuleSet → String
  | .grammar g => g.name
  | .program p => p.name
  | .vacant name => name

/-- The registry of a rule set: its rules in the order of their ids. -/
def registry : RuleSet → List RuleSummary
  | .grammar g => g.registry
  | .program p => p.registry
  | .vacant _ => []

/-- The rule to start from when none is named. -/
def root : RuleSet → Option RuleId
  | .grammar g => some g.root
  | .program p => some p.root
  | .vacant _ => none

/-- The registry entry of a rule. -/
def summary? (rs : RuleSet) (rule : RuleId) : Option RuleSummary := rs.registry[rule]?

/-- The id of the rule of a name. -/
def lookup (rs : RuleSet) (name : String) : Option RuleId :=
  match rs with
  | .grammar g => g.lookup name
  | .program p => p.registry.findIdx? fun r => r.name == name
  | .vacant _ => none

/-- The name of a rule. -/
def nameOf? (rs : RuleSet) (rule : RuleId) : Option String := (rs.summary? rule).map (·.name)

/-- A rule of a grammar has the name it was declared with. -/
theorem nameOf?_grammar (g : Grammar) (rule : RuleId) :
    (grammar g).nameOf? rule = g.rules[rule]?.map (·.name) := by
  rw [nameOf?, summary?, registry, g.getElem?_registry, Option.map_map]
  rfl

/-- The name of a rule for messages; an id without a rule has none. -/
def ruleName (rs : RuleSet) (rule : RuleId) : String := (rs.nameOf? rule).getD "?"

end RuleSet

end MemoPeg
