import MemoPeg.Proofs.Decoding
import MemoPeg.Regex.Reader

/-
  A module holds all of its grammar but what its actions do.

  Emission is one way; nobody reads a module back into a grammar.  That it could be done says that nothing has
  been lost on the way, and that two grammars with the same module need not be told apart.

  1. **Items** — before the functions, a module has a fixed number of tokens at its top, so that each of its
     items is found at its place: the tables hold the registry, the patterns and the number of actions,
     the rule set holds the name and the root.
  2. **Functions (`Emit.functions_injective`)** — each rule has one function, which holds its body.
  3. **Grammars (`Grammar.Checked.sameSource`)** — in two modules with one stream the rules have the same ids,
     and a number stands for the same pattern.  So the bodies, which are known from their sources, are
     the same after whatever makes the actions of one number the same.
  4. **The theorem (`stream_determines_grammar`)** — made blank, all actions are the same; without their labels,
     actions that do the same are.

  Links are not in a module either: they are given when a parser is made of it, like the actions.  So the
  second half of 4 takes equal links and equal actions, and says that the grammars then behave alike.
-/

namespace MemoPeg

/-- A literal is no comma. -/
theorem Quoted.literalString_ne_comma (s : String) : literalString s ≠ "," := by
  intro h
  have hlists : '"' :: literalBody s.toList ++ ['"'] = [','] := String.ofList_injective h
  have hhead : '"' = ',' := (List.cons.inj hlists).1
  exact absurd hhead (by decide)

namespace Emit

open Token

variable [RegexLibrary]

/-! ## Tables -/

omit [RegexLibrary] in
/-- A row of strings is known from its stream. -/
theorem texts_injective {ss ts : List String}
    (h : lexemes (commaSeparated (ss.map fun s => [.text s])) =
      lexemes (commaSeparated (ts.map fun s => [.text s]))) : ss = ts := by
  have hitem : ∀ s : String, IsItem (lexemes [.text s]) := by
    intro s
    constructor
    · simp
    · simpa [comma] using (Quoted.literalString_ne_comma s).symm
  simpa using commaSeparated_injective (g := id) hitem (fun s t hst => by simpa using hst) h

/-- The rows of the registry show names and texts. -/
theorem ruleRows_injective {rules rules' : List Rule}
    (h : lexemes (commaSeparated (rules.map fun r => [parens [.text r.name, ",", .text r.rendered]])) =
      lexemes (commaSeparated (rules'.map fun r => [parens [.text r.name, ",", .text r.rendered]]))) :
    rules.map (fun r => (r.name, r.rendered)) = rules'.map fun r => (r.name, r.rendered) := by
  refine commaSeparated_injective (fun r => ?_) (fun r r' hrow => ?_) h
  · constructor <;> simp [comma]
  · simpa using hrow

/-- The rows of the parameters show the parameters of each rule. -/
theorem paramRows_injective {rules rules' : List Rule}
    (h : lexemes (commaSeparated (rules.map fun r =>
        ["&", brackets (commaSeparated (r.params.map fun p => [.text p]))])) =
      lexemes (commaSeparated (rules'.map fun r =>
        ["&", brackets (commaSeparated (r.params.map fun p => [.text p]))]))) :
    rules.map (·.params) = rules'.map (·.params) := by
  refine commaSeparated_injective (fun r => ?_) (fun r r' hrow => ?_) h
  · constructor <;> simp [comma]
  · have hinner : lexemes (commaSeparated (r.params.map fun p => [.text p])) =
        lexemes (commaSeparated (r'.params.map fun p => [.text p])) := by simpa using hrow
    exact texts_injective hinner

/-- Names, renderings and parameters make a registry. -/
theorem registry_eq_of {g h : Grammar}
    (hrows : g.rules.map (fun r => (r.name, r.rendered)) = h.rules.map fun r => (r.name, r.rendered))
    (hparams : g.rules.map (·.params) = h.rules.map (·.params)) : g.registry = h.registry := by
  have hzip : ∀ k : Grammar, k.registry = List.zipWith (fun row params => ⟨row.1, row.2, params⟩)
      (k.rules.map fun r => (r.name, r.rendered)) (k.rules.map (·.params)) := by
    intro k
    rw [k.tabulates.registry_eq, List.zipWith_map, List.zipWith_self]
    rfl
  rw [hzip, hzip, hrows, hparams]

/-- **The tables hold** the registry, the patterns and the number of actions. -/
theorem tables_injective {g h : Grammar} {m n : Numbering} {us vs : List Token}
    (heq : lexemes (tables g m ++ us) = lexemes (tables h n ++ vs)) :
    g.registry = h.registry ∧ m.patterns = n.patterns ∧ m.actions = n.actions ∧
      lexemes us = lexemes vs := by
  simp [tables, comment, allow, stringsType, code] at heq
  obtain ⟨hrules, hparams, hpatterns, hactions, hrest⟩ := heq
  exact ⟨registry_eq_of (ruleRows_injective hrules) (paramRows_injective hparams),
    texts_injective hpatterns, hactions, hrest⟩

/-- The parser as a rule set holds the name and the root. -/
theorem ruleSetItem_injective {g h : Grammar} {us vs : List Token}
    (heq : lexemes (ruleSetItem g ++ us) = lexemes (ruleSetItem h ++ vs)) :
    g.name = h.name ∧ g.root = h.root ∧ lexemes us = lexemes vs := by
  simp [ruleSetItem, engineParam, argsParam, outcomeType, runtime, code] at heq
  obtain ⟨⟨hname, hroot, harms⟩, hrest⟩ := heq
  exact ⟨hname, hroot, hrest⟩

/-- **What stands before the functions holds** everything of a grammar but the bodies. -/
theorem preamble_injective {g h : Grammar} {m n : Numbering} {us vs : List Token}
    (heq : lexemes (preamble g m ++ us) = lexemes (preamble h n ++ vs)) :
    g.name = h.name ∧ g.root = h.root ∧ g.registry = h.registry ∧ m.patterns = n.patterns ∧
      m.actions = n.actions ∧ lexemes us = lexemes vs := by
  have hcancel : ∀ {ts us vs : List Token}, lexemes (ts ++ us) = lexemes (ts ++ vs) →
      lexemes us = lexemes vs := by
    intro ts us vs h
    rw [lexemes_append, lexemes_append] at h
    exact List.append_cancel_left h
  simp only [preamble, List.append_assoc] at heq
  obtain ⟨hregistry, hpatterns, hactions, hrest⟩ := tables_injective (hcancel heq)
  obtain ⟨hname, hroot, hfunctions⟩ := ruleSetItem_injective (hcancel (hcancel hrest))
  exact ⟨hname, hroot, hregistry, hpatterns, hactions, hfunctions⟩

/-! ## Functions -/

/-- The function of a rule ends where the next one begins, and shows what stands in it. -/
theorem functionOf_injective {r r' : Rule} (hparams : r.params = r'.params) {inner inner' us vs : List Token}
    (heq : lexemes (functionOf r inner ++ us) = lexemes (functionOf r' inner' ++ vs)) :
    lexemes inner = lexemes inner' ∧ lexemes us = lexemes vs := by
  simp [functionOf, allow, engineParam, argsParam, outcomeType, runtime, code, hparams] at heq
  exact ⟨heq.2.1, heq.2.2⟩

/-- The functions of rules with the same parameters hold the sources of the bodies. -/
theorem functions_injective : ∀ {rules rules' : List Rule} {inners inners' : List (List Token)},
    rules.map (·.params) = rules'.map (·.params) → inners.length = rules.length →
    inners'.length = rules'.length →
    lexemes (List.zipWith functionOf rules inners).flatten =
      lexemes (List.zipWith functionOf rules' inners').flatten →
    inners.map lexemes = inners'.map lexemes
  | [], [], [], [], _, _, _, _ => rfl
  | r :: rules, r' :: rules', inner :: inners, inner' :: inners', hparams, hlength, hlength', heq => by
    obtain ⟨hfirst, hrest⟩ := List.cons.inj hparams
    rw [List.zipWith_cons_cons, List.zipWith_cons_cons, List.flatten_cons, List.flatten_cons] at heq
    obtain ⟨hinner, heq⟩ := functionOf_injective hfirst heq
    rw [List.map_cons, List.map_cons, hinner,
      functions_injective hrest (Nat.succ.inj hlength) (Nat.succ.inj hlength') heq]

end Emit

/-! ## Names and patterns -/

namespace Grammar

variable [RegexLibrary]

/-- Ids of rules are known from the registry. -/
theorem lookup_eq_of_registry {g h : Grammar} (hregistry : g.registry = h.registry) : g.lookup = h.lookup := by
  have hnames : ∀ (k : Grammar) (name : String),
      k.lookup name = k.registry.findIdx? fun r => r.name == name := by
    intro k name
    rw [k.lookup_eq, k.tabulates.registry_eq, List.findIdx?_map]
    rfl
  funext name
  rw [hnames, hnames, hregistry]

/-- A rule has one name. -/
theorem lookup_oneName (g : Grammar) : Emit.OneName g.lookup := by
  intro name name' rule h h'
  rw [g.lookup_eq] at h h'
  obtain ⟨hrule, hname, -⟩ := List.findIdx?_eq_some_iff_getElem.1 h
  obtain ⟨hrule', hname', -⟩ := List.findIdx?_eq_some_iff_getElem.1 h'
  exact (beq_iff_eq.1 hname).symm.trans (beq_iff_eq.1 hname')

end Grammar

section

variable [RegexLibrary]

/-- A pattern is known from its expression. -/
theorem Pattern.eq_of_anchored {p q : Pattern} (h : anchored p.source = anchored q.source) : p = q := by
  refine eq_of_source ?_
  exact (String.append_right_inj _).1 ((String.append_left_inj _).1 h)

/-- The tree of an operator without what its actions do and are called. -/
def Operator.bare (op : Operator) : Operator := op.mapActions fun _ => ⟨none, fun _ => (.nil, [])⟩

/-- The action without its label. -/
def Action.unlabelled (a : Action) : Action := ⟨none, a.run⟩

/-- Actions of two grammars that stand at the same place are the same after `f`. -/
theorem Grammar.agree_of {g h : Grammar} {f : Action → Action}
    (hactions : g.actions.map f = h.actions.map f)
    (hpatterns : g.numbering.patterns = h.numbering.patterns) :
    Emit.Agree f g.actions.zipIdx h.actions.zipIdx g.patterns.zipIdx h.patterns.zipIdx where
  actions {a b i} ha hb := by
    have hga : (g.actions.map f)[i]? = some (f a) := by
      rw [List.getElem?_map, List.mk_mem_zipIdx_iff_getElem?.1 ha, Option.map_some]
    have hhb : (h.actions.map f)[i]? = some (f b) := by
      rw [List.getElem?_map, List.mk_mem_zipIdx_iff_getElem?.1 hb, Option.map_some]
    rw [hactions, hhb] at hga
    exact (Option.some.inj hga).symm
  patterns {p q i} hp hq := by
    have hgp : g.numbering.patterns[i]? = some (anchored p.source) := by
      simp [numbering, Emit.Numbering.after, List.mk_mem_zipIdx_iff_getElem?.1 hp]
    have hhq : h.numbering.patterns[i]? = some (anchored q.source) := by
      simp [numbering, Emit.Numbering.after, List.mk_mem_zipIdx_iff_getElem?.1 hq]
    rw [hpatterns, hhq] at hgp
    exact (Pattern.eq_of_anchored (Option.some.inj hgp)).symm

/-! ## Grammars -/

/-- What equal streams say of their grammars. -/
structure Grammar.SameSource (g h : Grammar) : Prop where
  name : g.name = h.name
  root : g.root = h.root
  registry : g.registry = h.registry
  count : g.actions.length = h.actions.length
  /-- Bodies are the same if what replaces their actions is. -/
  bodies : ∀ f : Action → Action, g.actions.map f = h.actions.map f →
    g.rules.map (fun r => r.body.mapActions f) = h.rules.map fun r => r.body.mapActions f

/-- **A module holds its grammar**, but for the actions. -/
theorem Grammar.Checked.sameSource {g h : Grammar} (hg : g.Checked) (hh : h.Checked)
    (hstream : g.stream = h.stream) : g.SameSource h := by
  obtain ⟨inners, hemit, hsources⟩ := hg.emit_eq
  obtain ⟨inners', hemit', hsources'⟩ := hh.emit_eq
  -- The streams are cut into items, and the functions at the end into rows.
  rw [stream, stream, hemit, hemit'] at hstream
  obtain ⟨hname, hroot, hregistry, hpatterns, hcount, hfunctions⟩ := Emit.preamble_injective hstream
  have hlength : inners.length = g.rules.length := by rw [hsources.length_eq, List.length_map]
  have hlength' : inners'.length = h.rules.length := by rw [hsources'.length_eq, List.length_map]
  have hparams : g.rules.map (·.params) = h.rules.map (·.params) := by
    have hmap := congrArg (List.map RuleSummary.params) hregistry
    simpa [g.tabulates.registry_eq, h.tabulates.registry_eq, Rule.summary, Function.comp_def] using hmap
  have hrows := Emit.functions_injective hparams hlength hlength' hfunctions
  have hactions : g.actions.length = h.actions.length := by
    simpa [numbering, Emit.Numbering.after] using hcount
  refine ⟨hname, hroot, hregistry, hactions, fun f hf => ?_⟩
  -- Names are looked up alike, so that ids in the bodies mean the same rules.
  rw [← lookup_eq_of_registry hregistry] at hsources'
  have hbodies := Emit.Sources.mapActionsAll_eq g.lookup_oneName hsources hsources'
    (agree_of hf hpatterns) hrows
  rw [Operator.mapActionsAll_eq, Operator.mapActionsAll_eq, List.map_map, List.map_map] at hbodies
  exact hbodies

/-- The rule with each action replaced. -/
def DeclaredRule.mapActions (f : Action → Action) (r : DeclaredRule) : DeclaredRule :=
  { r with body := r.body.mapActions f }

/-- The grammar without the labels of its actions. -/
def Grammar.unlabelled (g : Grammar) : Grammar := g.mapBodies (Operator.mapActions Action.unlabelled)

/-- Rules are made of their entries in the registry and of their bodies. -/
theorem Grammar.SameSource.declared {g h : Grammar} (hsame : g.SameSource h) {f : Action → Action}
    (hf : g.actions.map f = h.actions.map f) :
    g.declared.map (DeclaredRule.mapActions f) = h.declared.map (DeclaredRule.mapActions f) := by
  have hdeclared : ∀ k : Grammar, k.declared.map (DeclaredRule.mapActions f) =
      List.zipWith (fun s body => ⟨s.name, s.params, body⟩) k.registry
        (k.rules.map fun r => r.body.mapActions f) := by
    intro k
    rw [k.tabulates.registry_eq, List.zipWith_map, List.zipWith_self, Grammar.declared, List.map_map]
    rfl
  rw [hdeclared, hdeclared, hsame.registry, hsame.bodies f hf]

/-- Grammars of the same source have the same rules without labels, if their actions do the same. -/
theorem Grammar.SameSource.unlabelled_rules {g h : Grammar} (hsame : g.SameSource h)
    (hruns : g.actions.map Action.run = h.actions.map Action.run) :
    g.unlabelled.rules = h.unlabelled.rules := by
  have hactions : g.actions.map Action.unlabelled = h.actions.map Action.unlabelled :=
    map_eq_map (fun a b hab => by rw [Action.unlabelled, Action.unlabelled, hab]) hruns
  exact congrArg numberRules (hsame.declared hactions)

/-- Equal sources, actions that do the same and the same links make grammars that run alike. -/
theorem Grammar.SameSource.runAlike {g h : Grammar} (hsame : g.SameSource h)
    (hruns : g.actions.map Action.run = h.actions.map Action.run)
    (hlinks : ∀ name, g.link? name = h.link? name) :
    (RuleSet.grammar g).RunAlike (.grammar h) ∧
    (RuleSet.program g.compile).RunAlike (.program h.compile) := by
  have hg : g.Relabelled Action.unlabelled g.unlabelled := ⟨rules_mapBodies _ g, fun _ => rfl⟩
  have hh : h.Relabelled Action.unlabelled g.unlabelled :=
    ⟨(hsame.unlabelled_rules hruns).trans (rules_mapBodies _ h), hlinks⟩
  exact Relabelled.runAlike (f := Action.unlabelled) (fun _ => rfl) hg hh hsame.registry.symm hsame.root.symm

/-- **Emission loses nothing.**  If the modules of two built grammars are the same token stream, the
    grammars have the same name and root, and the same names, renderings and parameters of rules in the same
    order; and the bodies of the rules are the same trees, but for what their actions do and are called.
    So with actions that do the same and with the same links, the grammars, and the programs that their
    modules make, parse alike. -/
theorem stream_determines_grammar {d d' : Declaration} {g h : Grammar} (hg : d.build = .ok g)
    (hh : d'.build = .ok h) (hstream : g.stream = h.stream) :
    g.name = h.name ∧ g.root = h.root ∧ g.registry = h.registry ∧
    g.rules.map (fun r => r.body.bare) = h.rules.map (fun r => r.body.bare) ∧
    (g.actions.map Action.run = h.actions.map Action.run → (∀ name, g.link? name = h.link? name) →
      (RuleSet.grammar g).RunAlike (.grammar h) ∧
      (RuleSet.program g.compile).RunAlike (.program h.compile)) := by
  have hsame : g.SameSource h := (Declaration.checked hg).sameSource (Declaration.checked hh) hstream
  refine ⟨hsame.name, hsame.root, hsame.registry, ?_, hsame.runAlike⟩
  have hblank : g.actions.map (fun _ => (⟨none, fun _ => (.nil, [])⟩ : Action)) =
      h.actions.map fun _ => ⟨none, fun _ => (.nil, [])⟩ := by
    rw [List.map_const', List.map_const', hsame.count]
  exact hsame.bodies _ hblank

end

/-- A letter that is tested before it is read. -/
def testedLetter (test : Scope → Value) (links : List (String × RuleSet)) : Grammar :=
  .ofRules "letters" [⟨"letter", ["wanted"], .sequence [.ahead (.action (.pure test)), .literal "a"]⟩] 0 links
    []

/-- Such a grammar is built, whatever the test does. -/
theorem testedLetter_built (test : Scope → Value) (links : List (String × RuleSet)) :
    Declaration.build ⟨"letters", (testedLetter test links).declared, none, links⟩ =
      .ok (testedLetter test links) := rfl

/-- Two tests make the same module and the same tree.  With one of them, a letter is read alike whether or
    not a link stands before another one of its name. -/
theorem stream_determines_grammar_testedLetter :
    (testedLetter (·.value "wanted") []).stream = (testedLetter (fun _ => .nil) []).stream ∧
    (testedLetter (·.value "wanted") []).rules.map (fun r => r.body.bare) =
      (testedLetter (fun _ => .nil) []).rules.map (fun r => r.body.bare) ∧
    (RuleSet.grammar (testedLetter (·.value "wanted") [("b", .vacant "b")])).RunAlike
      (.grammar (testedLetter (·.value "wanted") [("b", .vacant "a"), ("b", .vacant "b")])) := by
  have hstream : (testedLetter (·.value "wanted") []).stream = (testedLetter (fun _ => .nil) []).stream := rfl
  obtain ⟨-, -, -, hbare, -⟩ := stream_determines_grammar (testedLetter_built (·.value "wanted") [])
    (testedLetter_built (fun _ => .nil) []) hstream
  obtain ⟨-, -, -, -, halike⟩ := stream_determines_grammar
    (testedLetter_built (·.value "wanted") [("b", .vacant "b")])
    (testedLetter_built (·.value "wanted") [("b", .vacant "a"), ("b", .vacant "b")]) rfl
  refine ⟨hstream, hbare, (halike rfl fun name => ?_).1⟩
  by_cases hname : "b" = name <;> simp [testedLetter, Grammar.ofRules, Grammar.link?, findLink, hname]

end MemoPeg
