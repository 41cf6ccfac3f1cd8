import MemoPeg.Parser
import MemoPeg.Proofs.Steps
import MemoPeg.RuleSet.Compile
import MemoPeg.Regex.Reader

/-
  Compiling a grammar changes nothing that a run can show.

  A grammar is walked operator by operator; a program holds closures that were made of the operators
  beforehand, with all names resolved.  The two are written apart, and this is where they meet.

  1. **Compiled forms** — `CompiledForm rs rs'`: the second rule set is the first one, with the grammar
     itself, grammars linked to it, or both turned into programs, at any depth of linking.
  2. **Specification** — a body, a call past the memo table, a call through it and a whole parse end
     alike under both, in the SAME engine: cursor, result, memo table with its counts, furthest
     failure and history.  Runs are compared at every amount of fuel, so neither rule set ends a run
     that the other does not end.
  3. **One law for each kind of operator** — that a closure does what the step of the operator does is shown
     before, whatever the parts are.  Here the laws are put together.
  4. **The crux (`exec_compileOp`, `agreeWith`)** — operators and their code take fuel at the
     same pace, and the names that compiling has resolved are looked up to the same rules.  One
     induction on the fuel carries both facts: an operator of a rule needs the bodies of the rules
     that it calls with less fuel, and a body needs its operator with less fuel.

  A name that cannot be resolved is compiled to a closure that fails, which is what the operator does each time
  it is run.  The links of a grammar may be compiled while the grammar is not, and the other way round; so
  relinking (`eval_of_relinked`) is a case of its own, and needs the induction too.
-/

namespace MemoPeg

/-! ## Compiled forms -/

section

variable [RegexLibrary]

mutual

/-- The second rule set is a compiled form of the first. -/
inductive CompiledForm : RuleSet → RuleSet → Prop
  | same (rs : RuleSet) : CompiledForm rs rs
  /-- Only linked rule sets have been compiled. -/
  | relinked {g : Grammar} {links : List (String × RuleSet)} (h : CompiledLinks g.links links) :
    CompiledForm (.grammar g) (.grammar { g with links := links })
  /-- The grammar has been compiled, with some of its linked rule sets. -/
  | compiled {g : Grammar} {links : List (String × RuleSet)} (h : CompiledLinks g.links links) :
    CompiledForm (.grammar g) (.program (Grammar.compile { g with links := links }))

/-- The links of the second row lead to compiled forms of those of the first. -/
inductive CompiledLinks : List (String × RuleSet) → List (String × RuleSet) → Prop
  | nil : CompiledLinks [] []
  | cons {rs rs' : RuleSet} {links links' : List (String × RuleSet)} (name : String)
      (h : CompiledForm rs rs') (hs : CompiledLinks links links') :
    CompiledLinks ((name, rs) :: links) ((name, rs') :: links')

end

namespace CompiledLinks

/-- Links that are left as they are. -/
theorem refl : ∀ links : List (String × RuleSet), CompiledLinks links links
  | [] => .nil
  | (name, rs) :: links => .cons name (.same rs) (refl links)

/-- Compiled links, one row after the other. -/
theorem append {as as' bs bs' : List (String × RuleSet)} (h : CompiledLinks as as')
    (k : CompiledLinks bs bs') : CompiledLinks (as ++ bs) (as' ++ bs') := by
  match h with
  | .nil => exact k
  | .cons name hf hs => exact .cons name hf (hs.append k)

/-- The order in which links are searched is kept. -/
theorem reverse {links links' : List (String × RuleSet)} (h : CompiledLinks links links') :
    CompiledLinks links.reverse links'.reverse := by
  match h with
  | .nil => exact .nil
  | .cons name hf hs =>
    rw [List.reverse_cons, List.reverse_cons]
    exact hs.reverse.append (.cons name hf .nil)

/-- The first link of a name leads to a compiled form of where it led. -/
theorem find {links links' : List (String × RuleSet)} (h : CompiledLinks links links')
    (name : String) :
    Option.Rel CompiledForm ((links.find? fun l => l.1 == name).map (·.2))
      ((links'.find? fun l => l.1 == name).map (·.2)) := by
  match h with
  | .nil => exact .none
  | .cons other hf hs =>
    cases ho : other == name with
    | true =>
      simp only [List.find?_cons, ho, Option.map_some]
      exact .some hf
    | false =>
      simp only [List.find?_cons, ho]
      exact hs.find name

/-- The last link of a name, which counts, leads to a compiled form of where it led. -/
theorem findLink {links links' : List (String × RuleSet)} (h : CompiledLinks links links')
    (name : String) :
    Option.Rel CompiledForm (findLink links name) (findLink links' name) := h.reverse.find name

end CompiledLinks

/-- A grammar and its program. -/
theorem CompiledForm.compile (g : Grammar) : CompiledForm (.grammar g) (.program g.compile) := by
  cases g
  exact .compiled (.refl _)

/-! ## What a registry says -/

section

variable {rs rs' : RuleSet}

/-- All that is said of a rule set from outside is read from its registry. -/
theorem RuleSet.summary?_congr (h : rs'.registry = rs.registry) (rule : RuleId) :
    rs'.summary? rule = rs.summary? rule := by
  rw [RuleSet.summary?, RuleSet.summary?, h]

theorem RuleSet.nameOf?_congr (h : rs'.registry = rs.registry) (rule : RuleId) :
    rs'.nameOf? rule = rs.nameOf? rule := by
  rw [RuleSet.nameOf?, RuleSet.nameOf?, summary?_congr h]

/-- Rules have the same names in messages. -/
theorem RuleSet.ruleName_congr (h : rs'.registry = rs.registry) : rs'.ruleName = rs.ruleName := by
  funext rule
  rw [RuleSet.ruleName, RuleSet.ruleName, nameOf?_congr h]

/-- A culprit is named alike. -/
theorem Culprit.name_congr (h : rs'.registry = rs.registry) (c : Culprit) : c.name rs' = c.name rs := by
  cases c with
  | rule id => rw [Culprit.name, Culprit.name, RuleSet.nameOf?_congr h]
  | «foreign» name => rfl
  | endOfText => rfl
  | unknown name => rfl

/-- A culprit is shown alike. -/
theorem Culprit.rendered_congr (h : rs'.registry = rs.registry) (c : Culprit) :
    c.rendered rs' = c.rendered rs := by
  cases c with
  | rule id => rw [Culprit.rendered, Culprit.rendered, RuleSet.summary?_congr h]
  | «foreign» name => rfl
  | endOfText => rfl
  | unknown name => rfl

/-- The diagnostics of a failure are made from the registry. -/
theorem Furthest.diagnostics_congr (h : rs'.registry = rs.registry) (furthest : Furthest) (t : Text) :
    furthest.error t rs' = furthest.error t rs ∧ furthest.report t rs' = furthest.report t rs := by
  cases furthest with
  | none => exact ⟨rfl, rfl⟩
  | some known =>
    constructor
    · simp only [Furthest.error, Culprit.name_congr h]
    · simp only [Furthest.report, Culprit.name_congr h, Culprit.rendered_congr h]

end

namespace CompiledForm

variable {rs rs' : RuleSet}

/-- Compiling keeps the registry. -/
theorem registry_eq (h : CompiledForm rs rs') : rs'.registry = rs.registry := by
  cases h <;> rfl

/-- Compiling keeps the rule to start from. -/
theorem root_eq (h : CompiledForm rs rs') : rs'.root = rs.root := by
  cases h <;> rfl

theorem nameOf?_eq (h : CompiledForm rs rs') (rule : RuleId) : rs'.nameOf? rule = rs.nameOf? rule :=
  RuleSet.nameOf?_congr h.registry_eq rule

theorem ruleName_eq (h : CompiledForm rs rs') : rs'.ruleName = rs.ruleName :=
  RuleSet.ruleName_congr h.registry_eq

/-- Names are looked up alike: the index of a grammar and the registry of a program tell the same. -/
theorem lookup_eq (h : CompiledForm rs rs') (name : String) : rs'.lookup name = rs.lookup name := by
  cases h with
  | same => rfl
  | relinked => rfl
  | compiled =>
    show (List.findIdx? _ (Grammar.registry _)) = Grammar.lookup _ _
    rw [Grammar.lookup_eq, (Grammar.tabulates _).registry_eq, List.findIdx?_map]
    rfl

/-- The diagnostics of a failure are the same. -/
theorem diagnostics_eq (h : CompiledForm rs rs') (furthest : Furthest) (t : Text) :
    furthest.error t rs' = furthest.error t rs ∧ furthest.report t rs' = furthest.report t rs :=
  Furthest.diagnostics_congr h.registry_eq furthest t

end CompiledForm

/-! ## Operators and their code -/

/-- Rows are compiled part by part. -/
theorem Grammar.compileAll_eq_map (g : Grammar) (ops : List Operator) :
    g.compileAll ops = ops.map g.compileOp := by
  induction ops with
  | nil => rfl
  | cons op ops ih => rw [compileAll, ih, List.map_cons]

/-- With this much fuel, the bodies of a rule set and of its compiled forms are the same. -/
def AgreeWith (fuel : Nat) : Prop :=
  ∀ rs rs' : RuleSet, CompiledForm rs rs' → rs'.runner fuel = rs.runner fuel

/-- Relinking a grammar keeps what its operators do, if calls agree with less fuel. -/
theorem eval_of_relinked {g : Grammar} {links : List (String × RuleSet)}
    (hl : CompiledLinks g.links links) :
    ∀ fuel, (∀ m, m < fuel → AgreeWith m) → ∀ op : Operator,
      Grammar.eval fuel { g with links := links } op = Grammar.eval fuel g op := by
  intro fuel
  induction fuel with
  | zero => intro _ op; rfl
  | succ fuel ih =>
    intro hagree op
    have part : Grammar.eval fuel { g with links := links } = Grammar.eval fuel g :=
      funext (ih fun m hm => hagree m (by omega))
    have own : RuleSet.runner (.grammar { g with links := links }) fuel =
        RuleSet.runner (.grammar g) fuel := hagree fuel (by omega) _ _ (.relinked hl)
    have bodies : RuleSet.body fuel (.grammar { g with links := links }) =
        RuleSet.body fuel (.grammar g) := congrArg Runner.body own
    cases op with
    | any => rfl
    | literal s => rfl
    | pattern p => rfl
    | range lo hi => rfl
    | sequence ops => simp only [Grammar.eval, part]
    | choice ops => simp only [Grammar.eval, part]
    | repetition op min max captures => simp only [Grammar.eval, part]
    | ahead op => cases op <;> simp only [Grammar.eval, part]
    | notAhead op => cases op <;> simp only [Grammar.eval, part]
    | tag op name => simp only [Grammar.eval, part]
    | action a => rfl
    | collect op => simp only [Grammar.eval, part]
    | bounds op => simp only [Grammar.eval, part]
    | call name args =>
      simp only [Grammar.eval, bodies]
      rfl
    | direct name args =>
      simp only [Grammar.eval, bodies]
      rfl
    | «foreign» grammar name args =>
      have found := hl.findLink grammar
      simp only [Grammar.eval, Grammar.link?]
      generalize findLink links grammar = callee' at found ⊢
      generalize findLink g.links grammar = callee at found ⊢
      cases found with
      | none => rfl
      | some hf =>
        have same := congrArg Runner.body (hagree fuel (by omega) _ _ hf)
        simp only [RuleSet.runner] at same
        simp only [hf.lookup_eq, hf.ruleName_eq, same]

/-- The code of an operator does what the operator does, if the bodies of the program and of the grammar
    are the same with less fuel.  Each case is the law of the closure that the operator is compiled to. -/
theorem exec_compileOp (g : Grammar) :
    ∀ fuel, (∀ m, m < fuel → (RuleSet.program g.compile).runner m = (RuleSet.grammar g).runner m) →
      ∀ op : Operator, Program.exec fuel g.compile (g.compileOp op) = Grammar.eval fuel g op := by
  intro fuel
  induction fuel with
  | zero => intro _ op; rfl
  | succ fuel ih =>
    intro hagree op
    have part : ∀ op, Program.exec fuel g.compile (g.compileOp op) = Grammar.eval fuel g op :=
      ih fun m hm => hagree m (by omega)
    have parts : ∀ ops : List Operator, (g.compileAll ops).map (Program.exec fuel g.compile) =
        ops.map (Grammar.eval fuel g) := by
      intro ops
      rw [Grammar.compileAll_eq_map, List.map_map]
      exact List.map_congr_left fun op _ => part op
    -- Calls of the operator itself run the bodies with the fuel that is left.
    have own := hagree fuel (by omega)
    -- What remains of each case is the law of its closure; a name that is not found fails in both.
    cases op with
    | any => exact Closure.any_eq
    | literal s => exact Closure.literal_eq s
    | pattern p => exact Closure.scan_eq p.matcher
    | range lo hi =>
      simp only [Grammar.compileOp, Grammar.eval]
      cases singleChars lo hi with
      | none => rfl
      | some bounds => exact Closure.range_eq bounds.1 bounds.2
    | sequence ops => simp only [Grammar.compileOp, Program.exec, Grammar.eval, parts, Closure.sequence_eq]
    | choice ops => simp only [Grammar.compileOp, Program.exec, Grammar.eval, parts, Closure.choice_eq]
    | repetition op min max captures =>
      simp only [Grammar.compileOp, Program.exec, Grammar.eval, part, Closure.repetition_eq]
    | ahead op =>
      cases op with
      | action a => exact Closure.test_eq a true
      | _ => simp only [Grammar.compileOp, Program.exec, Grammar.eval, ← part, Closure.ahead_eq]
    | notAhead op =>
      cases op with
      | action a => exact Closure.test_eq a false
      | _ => simp only [Grammar.compileOp, Program.exec, Grammar.eval, ← part, Closure.notAhead_eq]
    | tag op name => simp only [Grammar.compileOp, Program.exec, Grammar.eval, part, Closure.tag_eq]
    | action a => exact Closure.action_eq a
    | collect op => simp only [Grammar.compileOp, Program.exec, Grammar.eval, part, Closure.collect_eq]
    | bounds op => simp only [Grammar.compileOp, Program.exec, Grammar.eval, part, Closure.bounds_eq]
    | call name args =>
      simp only [Grammar.compileOp, Grammar.eval]
      cases g.lookup name with
      | none => rfl
      | some rule => rw [Program.exec_succ, own]; rfl
    | direct name args =>
      simp only [Grammar.compileOp, Grammar.eval]
      cases g.lookup name with
      | none => rfl
      | some rule => rw [Program.exec_succ, own]; rfl
    | «foreign» grammar name args =>
      simp only [Grammar.compileOp, Grammar.eval]
      cases g.link? grammar with
      | none => rfl
      | some callee =>
        simp only
        cases callee.lookup name with
        | none => rfl
        | some rule => exact Closure.call_eq _ args

/-! ## Rule sets -/

/-- The routine of a rule of a compiled grammar. -/
theorem Grammar.routine_compile (g : Grammar) (rule : RuleId) :
    g.compile.routines[rule]? = g.rules[rule]?.map fun r => ⟨r.params, g.compileOp r.body⟩ := by
  simp only [Grammar.compile, List.getElem?_map]

/-- **Bodies of compiled forms.**  A rule set and its compiled forms run the same bodies. -/
theorem agreeWith : ∀ fuel, AgreeWith fuel := by
  intro fuel
  induction fuel using Nat.strongRecOn with
  | ind fuel ih =>
    intro rs rs' hf
    suffices hbody : rs'.body fuel = rs.body fuel by
      simp only [RuleSet.runner, hf.ruleName_eq, hbody]
    funext rule args e
    cases fuel with
    | zero => cases rs <;> cases rs' <;> rfl
    | succ fuel =>
      have hless : ∀ m, m < fuel → AgreeWith m := fun m hm => ih m (by omega)
      cases hf with
      | same => rfl
      | relinked hl => simp only [RuleSet.body, eval_of_relinked hl fuel hless]
      | compiled hl =>
        simp only [RuleSet.body, Grammar.routine_compile]
        rename_i g links
        cases g.rules[rule]? with
        | none => rfl
        | some r =>
          have hcode := exec_compileOp _ fuel fun m hm => hless m hm _ _ (.compile { g with links := links })
          simp only [Option.map_some, hcode, eval_of_relinked hl fuel hless]

/-! ## Running and parsing -/

/-- Where a parse starts depends on the root and on the names only. -/
theorem Parser.startRule_congr {rs rs' : RuleSet} (hroot : rs'.root = rs.root)
    (hlookup : ∀ name, rs'.lookup name = rs.lookup name) (start : Option String) :
    Parser.startRule rs' start = Parser.startRule rs start := by
  cases start with
  | none => simp only [Parser.startRule, hroot]
  | some name => simp only [Parser.startRule, hlookup]

/-- Rule sets that start and run alike leave a parser alike, but for the rule set that it holds. -/
theorem Parser.parse_congr {rs rs' : RuleSet} {fuel : Nat} {start : Option String}
    (hstart : Parser.startRule rs' start = Parser.startRule rs start)
    (hrunner : rs'.runner fuel = rs.runner fuel) (toEnd : Bool) (e : Engine) :
    Parser.parse fuel start ⟨rs', toEnd, e⟩ =
      (Parser.parse fuel start ⟨rs, toEnd, e⟩).map
        fun (ok, p) => (ok, { p with rules := rs' }) := by
  simp only [Parser.parse, hstart]
  cases Parser.startRule rs start with
  | error name => rfl
  | ok rule =>
    simp only [Engine.applyRule, hrunner]
    cases (Engine.new e.text).apply (rs.runner fuel) fuel rule [] with
    | error stop => rfl
    | ok result =>
      obtain ⟨outcome, after⟩ := result
      cases outcome with
      | failed => rfl
      | matched stop value =>
        show (if _ then _ else _) = Except.map _ (if _ then _ else _)
        split <;> rfl

/-- A parse with the compiled form leaves the parser as one with the rule set does, but for the rule
    set that it holds. -/
theorem CompiledForm.parse_eq {rs rs' : RuleSet} (h : CompiledForm rs rs') (fuel : Nat)
    (start : Option String) (toEnd : Bool) (e : Engine) :
    Parser.parse fuel start ⟨rs', toEnd, e⟩ =
      (Parser.parse fuel start ⟨rs, toEnd, e⟩).map
        fun (ok, p) => (ok, { p with rules := rs' }) :=
  Parser.parse_congr (Parser.startRule_congr h.root_eq h.lookup_eq start) (agreeWith fuel rs rs' h) toEnd e

/-- **Compiled forms run alike.**  With any fuel and from any engine, the body of a rule, a call past
    the memo table and a call through it end alike under a rule set and under its compiled forms; so
    does a parse with any parser, and failures are reported in the same words. -/
theorem compiledForm_runs_alike {rs rs' : RuleSet} (h : CompiledForm rs rs') (fuel : Nat) :
    (∀ (rule : RuleId) (args : List Value) (e : Engine),
      rs'.body fuel rule args e = rs.body fuel rule args e ∧
      e.invokeRule fuel rs' rule args = e.invokeRule fuel rs rule args ∧
      e.applyRule fuel rs' rule args = e.applyRule fuel rs rule args) ∧
    (∀ (start : Option String) (toEnd : Bool) (e : Engine),
      Parser.parse fuel start ⟨rs', toEnd, e⟩ =
        (Parser.parse fuel start ⟨rs, toEnd, e⟩).map fun (ok, p) => (ok, { p with rules := rs' })) ∧
    ∀ (furthest : Furthest) (t : Text),
      furthest.error t rs' = furthest.error t rs ∧ furthest.report t rs' = furthest.report t rs := by
  have same : rs'.runner fuel = rs.runner fuel := agreeWith fuel rs rs' h
  refine ⟨fun rule args e => ⟨?_, ?_, ?_⟩, h.parse_eq fuel, h.diagnostics_eq⟩
  · exact congrFun (congrFun (congrFun (congrArg Runner.body same) rule) args) e
  · rw [Engine.invokeRule, Engine.invokeRule, same]
  · rw [Engine.applyRule, Engine.applyRule, same]

end

/-- Digits, to be linked. -/
def digits : Grammar := .ofRules "digits" [⟨"digit", [], .range "0" "9"⟩] 0 [] []

/-- Sums of linked digits, grown from the left. -/
def sumsOver (callee : RuleSet) : Grammar :=
  .ofRules "sums"
    [⟨"sum", [], .choice
      [.sequence [.tag (.call "sum" []) "l", .literal "+", .foreign "digits" "digit" []],
        .foreign "digits" "digit" []]⟩]
    0 [("digits", callee)] [["sum"]]

/-- Sums and digits compiled match a sum as the grammars do, and leave the same engine. -/
theorem compiledForm_runs_alike_sums :
    CompiledForm (.grammar (sumsOver (.grammar digits)))
      (.program (sumsOver (.program digits.compile)).compile) ∧
    ∃ after, (Engine.new "1+2".toList).applyRule 30 (.grammar (sumsOver (.grammar digits))) 0 [] =
        .ok (.matched 3 (.char '2'), after) ∧
      (Engine.new "1+2".toList).applyRule 30
        (.program (sumsOver (.program digits.compile)).compile) 0 [] =
        .ok (.matched 3 (.char '2'), after) := by
  have form : CompiledForm (.grammar (sumsOver (.grammar digits)))
      (.program (sumsOver (.program digits.compile)).compile) :=
    .compiled (.cons "digits" (.compile digits) .nil)
  obtain ⟨after, hrun⟩ := ends_with_outcome (o := .matched 3 (.char '2'))
    (x := (Engine.new "1+2".toList).applyRule 30 (.grammar (sumsOver (.grammar digits))) 0 [])
    (by decide +kernel)
  refine ⟨form, after, hrun, ?_⟩
  obtain ⟨-, -, happly⟩ := (compiledForm_runs_alike form 30).1 0 [] (Engine.new "1+2".toList)
  rw [happly, hrun]

end MemoPeg
