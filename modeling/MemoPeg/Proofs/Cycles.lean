import Mathlib.Data.List.Chain
import Mathlib.Data.List.Rotate
import MemoPeg.Proofs.LeftCalls
import MemoPeg.Regex.Reader

/-
  The report of left recursion.

  1. **First calls (`Operator.CallsFirst`)** — a rule is called first where its call stands below an
     operator with only nullable parts of sequences before it.  It is said of places in the tree; the
     search goes by the list of all such calls (`mem_leftCalls_iff`).
  2. **The search (`Searched`)** — from a rule along all first calls, with nothing that bounds how deep it
     goes.  It ends from every rule, since the rules on its way are different (`searched`).
  3. **Rings (`Grammar.IsCycle`)** — names of which each calls the next one first, the last name being the
     first one again and no other occurring twice.  A ring can be turned to begin with any of its rules
     (`IsCycle.turn`).
  4. **Specification (`reported_cycles`)** — what is reported are rings; every ring is reported, from each
     of its rules; and a rule can come back to itself by first calls just if a report begins with it.

  The search that is run has fuel and a path that it looks names up in.  2 says the same without fuel, one
  rule for each thing that can come of a call: it leads back to the start, into the middle of the path, to
  a new rule, or nowhere.  Soundness is read off its steps, and completeness follows a ring along them.
-/

namespace MemoPeg

section

variable [RegexLibrary]

/-! ## First calls -/

/-- A rule is called at a place below the operator with nothing before it but nullable parts of
    sequences. -/
inductive Operator.CallsFirst (rules : List Rule) (known : List String) : Operator → String → Prop
  | call (name : String) (args : List Arg) : CallsFirst rules known (.call name args) name
  | direct (name : String) (args : List Arg) : CallsFirst rules known (.direct name args) name
  | sequence {earlier later : List Operator} {op : Operator} {name : String}
      (hearlier : ∀ op' ∈ earlier, op'.isNullable rules known) (h : op.CallsFirst rules known name) :
    CallsFirst rules known (.sequence (earlier ++ op :: later)) name
  /-- Into every child of an operator that is no sequence. -/
  | child {op c : Operator} {name : String} (hop : ∀ ops, op ≠ .sequence ops) (hc : c ∈ op.children)
      (h : c.CallsFirst rules known name) : CallsFirst rules known op name

namespace Operator

variable {rules : List Rule} {known : List String} {d : String}

/-- A left call of a sequence is one of a part with only nullable parts before it. -/
theorem exists_of_mem_leftCallsOfSequence {ops : List Operator} (h : d ∈ leftCallsOfSequence rules known ops) :
    ∃ earlier op later, ops = earlier ++ op :: later ∧ (∀ op' ∈ earlier, op'.isNullable rules known) ∧
      d ∈ op.leftCalls rules known := by
  induction ops with
  | nil => cases h
  | cons op ops ih =>
    rcases List.mem_append.1 h with hfirst | hrest
    · exact ⟨[], op, ops, rfl, fun _ hmem => absurd hmem List.not_mem_nil, hfirst⟩
    · split at hrest
      case isTrue hnull =>
        obtain ⟨earlier, op', later, rfl, hearlier, hd⟩ := ih hrest
        refine ⟨op :: earlier, op', later, rfl, fun c hc => ?_, hd⟩
        rcases List.mem_cons.1 hc with rfl | hc
        · exact hnull
        · exact hearlier c hc
      case isFalse => cases hrest

/-- A left call of a choice is one of an alternative. -/
theorem exists_of_mem_leftCallsOfChoice {ops : List Operator} (h : d ∈ leftCallsOfChoice rules known ops) :
    ∃ op ∈ ops, d ∈ op.leftCalls rules known := by
  induction ops with
  | nil => cases h
  | cons op ops ih =>
    rcases List.mem_append.1 h with hfirst | hrest
    · exact ⟨op, List.mem_cons_self, hfirst⟩
    · obtain ⟨op', hop', hd⟩ := ih hrest
      exact ⟨op', List.mem_cons_of_mem _ hop', hd⟩

/-- Left calls stand where calls can run first. -/
theorem callsFirst_of_mem (op : Operator) (h : d ∈ op.leftCalls rules known) : op.CallsFirst rules known d := by
  cases op with
  | call name args | direct name args =>
    obtain rfl := List.mem_singleton.1 h
    constructor
  | sequence ops =>
    obtain ⟨earlier, op, later, rfl, hearlier, hd⟩ := exists_of_mem_leftCallsOfSequence h
    have hmem : op ∈ earlier ++ op :: later := List.mem_append_right _ List.mem_cons_self
    have hless : sizeOf op < sizeOf (Operator.sequence (earlier ++ op :: later)) := sizeOf_child hmem
    exact .sequence hearlier (callsFirst_of_mem op hd)
  | choice ops =>
    obtain ⟨op, hop, hd⟩ := exists_of_mem_leftCallsOfChoice h
    have hless : sizeOf op < sizeOf (Operator.choice ops) := sizeOf_child hop
    exact .child (fun _ heq => by cases heq) hop (callsFirst_of_mem op hd)
  | repetition c _ _ _ | ahead c | notAhead c | tag c _ | collect c | bounds c =>
    exact .child (fun _ heq => by cases heq) (List.mem_singleton_self c) (callsFirst_of_mem c h)
  | _ => cases h
termination_by sizeOf op

/-- **The left calls of an operator are the calls that can run first in it.** -/
theorem mem_leftCalls_iff {op : Operator} : d ∈ op.leftCalls rules known ↔ op.CallsFirst rules known d := by
  refine ⟨callsFirst_of_mem op, fun h => ?_⟩
  induction h with
  | call name args | direct name args => exact List.mem_singleton_self name
  | sequence hearlier _ ih => exact mem_leftCallsOfSequence hearlier ih
  | @child op c name hop hc _ ih =>
    cases op with
    | sequence ops => exact absurd rfl (hop ops)
    | choice ops => exact mem_leftCallsOfChoice hc ih
    | repetition c' _ _ _ | ahead c' | notAhead c' | tag c' _ | collect c' | bounds c' =>
      obtain rfl := List.mem_singleton.1 hc
      exact ih
    | _ => cases hc

end Operator

namespace Grammar

/-- The first rule calls the second one before it has read anything, as far as the analysis can tell. -/
def CallsFirst (g : Grammar) (c d : String) : Prop :=
  ∃ r ∈ g.rules, r.name = c ∧ r.body.CallsFirst g.rules (nullableRules g.rules) d

/-- The rules call each other first and in a ring: the last name is the first one again, and no other name
    occurs twice. -/
structure IsCycle (g : Grammar) (cycle : List String) : Prop where
  two_le : 2 ≤ cycle.length
  closed : cycle.getLast? = cycle.head?
  calls : cycle.IsChain g.CallsFirst
  different : cycle.dropLast.Nodup

variable {g : Grammar}

/-- A rule that is found by its name calls first what its body calls on the left. -/
theorem Checked.callsFirst_iff (hg : g.Checked) {c d : String} :
    g.CallsFirst c d ↔ g.LeftCall (nullableRules g.rules) c d := by
  constructor
  · rintro ⟨r, hr, rfl, hd⟩
    obtain ⟨rule, hrule⟩ := List.mem_iff_getElem?.1 hr
    exact ⟨r, rule?_eq_some.2 ⟨rule, hg.lookup_of_rule hrule, hrule⟩, Operator.mem_leftCalls_iff.2 hd⟩
  · rintro ⟨r, hr, hd⟩
    obtain ⟨rule, hlookup, hrule⟩ := rule?_eq_some.1 hr
    obtain ⟨r', hr', rfl⟩ := lookup_rule hlookup
    rw [hrule] at hr'
    cases hr'
    exact ⟨r, List.mem_of_getElem? hrule, rfl, Operator.mem_leftCalls_iff.1 hd⟩

end Grammar

/-! ## The search -/

/-- The search that has come along `path`, and has these calls of its last rule still to follow, ends with
    these cycles found. -/
inductive Searched (rules : List Rule) (known : List String) :
    List String → List String → List (List String) → Prop
  | done (path : List String) : Searched rules known path [] []
  /-- The call leads back to where the path began. -/
  | closes {path calls : List String} {name : String} {found : List (List String)}
      (hhead : path.head? = some name) (h : Searched rules known path calls found) :
    Searched rules known path (name :: calls) ((path ++ [name]) :: found)
  /-- The call leads back into the middle of the path. -/
  | turnsBack {path calls : List String} {name : String} {found : List (List String)}
      (hname : name ∈ path) (hhead : path.head? ≠ some name) (h : Searched rules known path calls found) :
    Searched rules known path (name :: calls) found
  | goesOn {path calls : List String} {name : String} {r : Rule} {inner found : List (List String)}
      (hname : name ∉ path) (hr : findRule rules name = some r)
      (hinner : Searched rules known (path ++ [name]) (r.body.leftCalls rules known) inner)
      (h : Searched rules known path calls found) :
    Searched rules known path (name :: calls) (inner ++ found)
  | undeclared {path calls : List String} {name : String} {found : List (List String)}
      (hname : name ∉ path) (hr : findRule rules name = none) (h : Searched rules known path calls found) :
    Searched rules known path (name :: calls) found

/-- **The search ends.**  A path is of different rules, so that with fuel for all rules that are not on it,
    the search that goes as deep as it likes finds the same. -/
theorem searched (rules : List Rule) (known : List String) : ∀ (fuel : Nat) (path : List String)
    (body : Operator), path.Nodup → path ⊆ rules.map (·.name) → rules.length < fuel + path.length →
      Searched rules known path (body.leftCalls rules known) (cyclesFrom rules known fuel path body) := by
  intro fuel
  induction fuel with
  | zero =>
    intro path body hnodup hdeclared hfuel
    have hlength := (List.Nodup.subperm hnodup hdeclared).length_le
    rw [List.length_map] at hlength
    omega
  | succ fuel ih =>
    intro path body hnodup hdeclared hfuel
    rw [cyclesFrom]
    generalize body.leftCalls rules known = calls
    induction calls with
    | nil => exact .done path
    | cons name calls ihcalls =>
      rw [List.flatMap_cons]
      -- Fuel is for the rules that are not on the path yet, and each step puts one more there.
      by_cases hname : name ∈ path
      · rw [if_pos (List.contains_iff_mem.2 hname)]
        by_cases hhead : path.head? = some name
        · rw [if_pos hhead]
          exact .closes hhead ihcalls
        · rw [if_neg hhead]
          exact .turnsBack hname hhead ihcalls
      · rw [if_neg (mt List.contains_iff_mem.1 hname)]
        cases hr : findRule rules name with
        | none => exact .undeclared hname hr ihcalls
        | some r =>
          obtain ⟨hmem, rfl⟩ := findRule_mem hr
          have hlonger : (path ++ [r.name]).Nodup := List.concat_eq_append ▸ hnodup.concat hname
          have hdeclared' : path ++ [r.name] ⊆ rules.map (·.name) :=
            List.append_subset.2 ⟨hdeclared,
              List.cons_subset.2 ⟨List.mem_map.2 ⟨r, hmem, rfl⟩, List.nil_subset _⟩⟩
          have hfuel' : rules.length < fuel + (path ++ [r.name]).length := by
            rw [List.length_append, List.length_singleton]
            omega
          exact .goesOn hname hr (ih _ r.body hlonger hdeclared' hfuel') ihcalls

/-- **What the search finds are cycles.**  The path along which it comes calls first at every step, and so
    do the calls that it follows. -/
theorem Searched.isCycle {g : Grammar} {path calls : List String} {found : List (List String)}
    (h : Searched g.rules (nullableRules g.rules) path calls found) (hpath : path.IsChain g.CallsFirst)
    (hnodup : path.Nodup) (hcalls : ∀ c ∈ path.getLast?, ∀ d ∈ calls, g.CallsFirst c d) :
    ∀ cycle ∈ found, g.IsCycle cycle := by
  have onward : ∀ {path calls : List String} {name : String},
      (∀ c ∈ path.getLast?, ∀ d ∈ name :: calls, g.CallsFirst c d) →
        ∀ c ∈ path.getLast?, ∀ d ∈ calls, g.CallsFirst c d :=
    fun hcalls c hc d hd => hcalls c hc d (List.mem_cons_of_mem _ hd)
  have longer : ∀ {path calls : List String} {name : String}, path.IsChain g.CallsFirst →
      (∀ c ∈ path.getLast?, ∀ d ∈ name :: calls, g.CallsFirst c d) →
        (path ++ [name]).IsChain g.CallsFirst := by
    intro path calls name hpath hcalls
    refine List.isChain_append.2 ⟨hpath, List.isChain_singleton name, fun c hc d hd => ?_⟩
    obtain rfl : name = d := Option.some.inj hd
    exact hcalls c hc name List.mem_cons_self
  -- The path is a chain of first calls to different rules; what closes it makes a ring of it.
  induction h with
  | done => exact fun _ hcycle => absurd hcycle List.not_mem_nil
  | @closes path calls name found hhead _ ih =>
    intro cycle hcycle
    rcases List.mem_cons.1 hcycle with rfl | hcycle
    · have hne : path ≠ [] := by rintro rfl; cases hhead
      have hlength := List.length_pos_iff.2 hne
      refine ⟨?_, ?_, longer hpath hcalls, ?_⟩
      · rw [List.length_append, List.length_singleton]
        omega
      · rw [List.getLast?_concat, List.head?_append, hhead]
        rfl
      · rw [List.dropLast_concat]
        exact hnodup
    · exact ih hpath hnodup (onward hcalls) cycle hcycle
  | turnsBack _ _ _ ih | undeclared _ _ _ ih => exact ih hpath hnodup (onward hcalls)
  | @goesOn path calls name r inner found hname hr _ _ ihinner ih =>
    intro cycle hcycle
    rcases List.mem_append.1 hcycle with hcycle | hcycle
    · have hlonger : (path ++ [name]).Nodup := List.concat_eq_append ▸ hnodup.concat hname
      refine ihinner (longer hpath hcalls) hlonger (fun c hc d hd => ?_) cycle hcycle
      · rw [List.getLast?_concat] at hc
        obtain rfl : name = c := Option.some.inj hc
        obtain ⟨hmem, hrname⟩ := findRule_mem hr
        exact ⟨r, hmem, hrname, Operator.mem_leftCalls_iff.1 hd⟩
    · exact ih hpath hnodup (onward hcalls) cycle hcycle

/-! ## Rings of first calls -/

namespace Grammar

variable {g : Grammar}

/-- A chain of first calls in a checked grammar is a path of the search. -/
theorem LeftPath.of_isChain (hg : g.Checked) : ∀ {rest : List String} {c e : String},
    (c :: rest).IsChain g.CallsFirst → (c :: rest).getLast? = some e →
      g.LeftPath (nullableRules g.rules) c rest e := by
  intro rest
  induction rest with
  | nil =>
    intro c e _ hlast
    cases hlast
    exact .nil c
  | cons d rest ih =>
    intro c e hchain hlast
    obtain ⟨hcall, hchain⟩ := List.isChain_cons_cons.1 hchain
    exact .cons (hg.callsFirst_iff.1 hcall) (ih hchain ((List.getLast?_cons_cons).symm.trans hlast))

/-- A ring is a row of different rules with the first one put behind it. -/
theorem isCycle_iff {cycle : List String} : g.IsCycle cycle ↔
    ∃ c rest, cycle = c :: rest ++ [c] ∧ (c :: rest).Nodup ∧ (c :: rest ++ [c]).IsChain g.CallsFirst := by
  constructor
  · rintro ⟨htwo, hclosed, hcalls, hdifferent⟩
    match cycle with
    | c :: d :: rest =>
      obtain ⟨init, last, hsplit⟩ := (d :: rest).eq_nil_or_concat.resolve_left (List.cons_ne_nil d rest)
      rw [List.concat_eq_append] at hsplit
      rw [hsplit] at hclosed hcalls hdifferent ⊢
      rw [← List.cons_append, List.getLast?_concat] at hclosed
      obtain rfl : last = c := Option.some.inj hclosed
      rw [← List.cons_append, List.dropLast_concat] at hdifferent
      exact ⟨last, init, rfl, hdifferent, hcalls⟩
  · rintro ⟨c, rest, rfl, hnodup, hchain⟩
    refine ⟨by simp, by rw [List.getLast?_concat]; rfl, hchain, ?_⟩
    rw [List.dropLast_concat]
    exact hnodup

/-- **Every ring is reported.** -/
theorem IsCycle.reported (hg : g.Checked) {cycle : List String} (h : g.IsCycle cycle) :
    cycle ∈ g.cycles := by
  obtain ⟨c, rest, rfl, hnodup, hchain⟩ := isCycle_iff.1 h
  obtain ⟨hpath, -, hlast⟩ := List.isChain_append.1 hchain
  obtain ⟨e, he⟩ : ∃ e, (c :: rest).getLast? = some e :=
    ⟨_, List.getLast?_eq_some_getLast (List.cons_ne_nil c rest)⟩
  have hclose := hg.callsFirst_iff.1 (hlast e he c rfl)
  rw [hg.cycles]
  exact (LeftPath.of_isChain hg hpath he).mem_cycles hg hnodup hclose

/-- A ring can be turned so that it begins with any of its rules. -/
theorem IsCycle.turn {cycle : List String} (h : g.IsCycle cycle) {x : String} (hx : x ∈ cycle) :
    ∃ turned, g.IsCycle turned ∧ turned.head? = some x ∧ turned.dropLast.IsRotated cycle.dropLast := by
  obtain ⟨c, rest, rfl, hnodup, hchain⟩ := isCycle_iff.1 h
  have hmem : x ∈ c :: rest := by
    rcases List.mem_append.1 hx with hx | hx
    · exact hx
    · exact List.mem_singleton.1 hx ▸ List.mem_cons_self
  rcases List.mem_cons.1 hmem with rfl | hmem
  · exact ⟨_, h, rfl, List.IsRotated.refl _⟩
  · obtain ⟨before, after, rfl⟩ := List.append_of_mem hmem
    -- The part from `x` on comes first now, then the part up to it.
    have hturned : (x :: after ++ c :: before).IsRotated (c :: (before ++ x :: after)) :=
      List.isRotated_append
    have hsplit : (c :: before ++ x :: (after ++ [c])).IsChain g.CallsFirst := by
      simpa using hchain
    obtain ⟨hbefore, hafter⟩ := List.isChain_split.1 hsplit
    have hjoin : (x :: after ++ c :: (before ++ [x])).IsChain g.CallsFirst :=
      List.isChain_split.2 ⟨hafter, hbefore⟩
    refine ⟨x :: (after ++ c :: before) ++ [x], isCycle_iff.2 ⟨x, _, rfl, ?_, ?_⟩, rfl, ?_⟩
    · exact hturned.nodup_iff.2 hnodup
    · simpa using hjoin
    · rw [List.dropLast_concat, List.dropLast_concat]
      exact hturned

/-- A ring leads from its first rule back to it. -/
theorem IsCycle.transGen {cycle : List String} (h : g.IsCycle cycle) {c : String}
    (hc : cycle.head? = some c) : Relation.TransGen g.CallsFirst c c := by
  obtain ⟨c', rest, rfl, -, hchain⟩ := isCycle_iff.1 h
  obtain rfl : c' = c := Option.some.inj hc
  obtain ⟨hpath, -, hlast⟩ := List.isChain_append.1 hchain
  have hne := List.cons_ne_nil c' rest
  have hreaches := List.relationReflTransGen_of_exists_isChain_cons rest hpath
    (show (c' :: rest).getLast hne = (c' :: rest).getLast hne from rfl)
  exact .tail' hreaches (hlast _ (List.getLast?_eq_some_getLast hne) c' rfl)

end Grammar

/-! ## What is reported -/

/-- **The report of left recursion is sound and complete.**  Let a grammar be built.  The search along first
    calls, which nothing bounds, ends from each of its rules, and what it finds is the report.  A list is
    reported exactly if it is a ring of first calls through different rules; every ring is reported from
    each of its rules; and a list that begins with a rule is reported exactly if first calls lead from the
    rule back to it. -/
theorem reported_cycles {d : Declaration} {g : Grammar} (hbuild : d.build = .ok g) :
    (∃ found : Rule → List (List String), g.cycles = g.rules.flatMap found ∧
      ∀ r ∈ g.rules, Searched g.rules (nullableRules g.rules) [r.name]
        (r.body.leftCalls g.rules (nullableRules g.rules)) (found r)) ∧
    (∀ cycle, cycle ∈ g.cycles ↔ g.IsCycle cycle) ∧
    (∀ cycle, g.IsCycle cycle → ∀ c ∈ cycle, ∃ turned ∈ g.cycles, turned.head? = some c ∧
      turned.dropLast.IsRotated cycle.dropLast) ∧
    ∀ c, (∃ cycle ∈ g.cycles, cycle.head? = some c) ↔ Relation.TransGen g.CallsFirst c c := by
  have hg : g.Checked := Declaration.checked hbuild
  have hsearch : ∀ r ∈ g.rules, Searched g.rules (nullableRules g.rules) [r.name]
      (r.body.leftCalls g.rules (nullableRules g.rules))
      (cyclesFrom g.rules (nullableRules g.rules) g.rules.length [r.name] r.body) := by
    intro r hr
    refine searched _ _ _ [r.name] r.body (List.pairwise_singleton _ _) ?_ (by simp)
    exact List.cons_subset.2 ⟨List.mem_map.2 ⟨r, hr, rfl⟩, List.nil_subset _⟩
  have hsound : ∀ cycle ∈ g.cycles, g.IsCycle cycle := by
    intro cycle hcycle
    rw [hg.cycles] at hcycle
    obtain ⟨r, hr, hfound⟩ := List.mem_flatMap.1 hcycle
    refine (hsearch r hr).isCycle (List.isChain_singleton _) (List.pairwise_singleton _ _) ?_ _ hfound
    intro c hc d hd
    obtain rfl : r.name = c := Option.some.inj hc
    exact ⟨r, hr, rfl, Operator.mem_leftCalls_iff.1 hd⟩
  refine ⟨⟨_, hg.cycles, hsearch⟩, fun cycle => ⟨hsound cycle, fun h => h.reported hg⟩, ?_, fun c => ?_⟩
  · intro cycle h c hc
    obtain ⟨turned, hturned, hhead, hrotated⟩ := h.turn hc
    exact ⟨turned, hturned.reported hg, hhead, hrotated⟩
  · constructor
    · rintro ⟨cycle, hcycle, hhead⟩
      exact (hsound cycle hcycle).transGen hhead
    -- A way back to the rule can be cut down to a ring, and a ring is reported from each of its rules.
    · intro hleads
      have hleft : Relation.TransGen (g.LeftCall (nullableRules g.rules)) c c :=
        hleads.lift id fun _ _ hcall => hg.callsFirst_iff.1 hcall
      obtain ⟨cycle, hcycle, hhead, -⟩ := hg.reports hleft
      exact ⟨cycle, hcycle, hhead⟩

end

/-- Sums that begin behind blanks, which need not be there. -/
def indented : Declaration :=
  { name := "indented"
    rules := [⟨"line", [], .sequence [.star (.literal " "), .ahead (.literal "x"), .call "sum" []]⟩,
      ⟨"sum", [], .choice [.sequence [.direct "line" [], .literal "+"], .literal "x"]⟩]
    root := none
    links := [] }

/-- What the declaration builds. -/
def indentedGrammar : Grammar :=
  .ofRules "indented" indented.rules 0 [] [["line", "sum", "line"], ["sum", "line", "sum"]]

/-- A line and a sum call each other first, through blanks and a look ahead that need not read. -/
theorem reported_cycles_indented :
    indented.build = .ok indentedGrammar ∧ indentedGrammar.IsCycle ["line", "sum", "line"] ∧
      Relation.TransGen indentedGrammar.CallsFirst "sum" "sum" := by
  have hbuild : indented.build = .ok indentedGrammar := rfl
  obtain ⟨-, hcycles, -, hleads⟩ := reported_cycles hbuild
  refine ⟨hbuild, (hcycles _).1 List.mem_cons_self, (hleads "sum").1 ?_⟩
  exact ⟨["sum", "line", "sum"], List.mem_cons_of_mem _ List.mem_cons_self, rfl⟩

end MemoPeg
