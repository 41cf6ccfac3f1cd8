import Mathlib.Data.List.Nodup
import MemoPeg.Proofs.Numbering
import MemoPeg.Proofs.Quoting
import MemoPeg.Regex.Reader

/-
  Rules and their functions.

  An emitted module has a function for each rule.  Names of rules are any strings, names of functions are
  not, so the one has to be spelled in the letters of the other.  If two rules were spelled alike, the module
  would not compile; if an arm of the dispatch led to the function of another rule, it would parse wrongly.

  1. **Spelling (`Spelled.append_inj`)** — a spelled character is known from its front, whatever follows.  An
     underscore of a name is written as two, so that a single one always begins an escape, and the
     character behind it says which one; the hexadecimal digits of a code end at the next underscore.
     Names that look like escapes themselves do no harm.
  2. **Names (`functionName_injective`)** — so different rules have different functions, with names that are
     words of the language.  No key word can come out, because of the prefix.
  3. **Reading (`Emit.functions`, `Emit.dispatch?`)** — two readers of tokens that know nothing of emission:
     the functions that a module declares, and the arms by which it picks one of them.
  4. **The theorem (`rules_have_own_functions`)** — what is read from an emitted module is one function for
     each rule, with the source of its body, and for each number the function of the rule with that number.

  Functions are looked for outside of all groups, where those of the rules stand.  The methods of the parser
  are inside one, and no rule can clash with them.
-/

namespace MemoPeg

/-! ## Spelling -/

/-- The four ways of spelling a character. -/
inductive Spelled : Char → List Char → Prop
  | plain {c : Char} (h : c.isAlphanum) : Spelled c [c]
  | underscore : Spelled '_' ['_', '_']
  | hyphen : Spelled '-' ['_', 'h', 'y', 'p', 'h', 'e', 'n', '_']
  | code (c : Char) : Spelled c ('_' :: 'u' :: Quoted.hex c.toNat ++ ['_'])

/-- Each character is spelled in one of the four ways. -/
theorem spellChar_spelled (c : Char) : Spelled c (spellChar c) := by
  unfold spellChar
  split_ifs with hplain hunderscore hhyphen
  · exact .plain hplain
  · subst hunderscore
    exact .underscore
  · subst hhyphen
    exact .hyphen
  · exact .code c

/-- The digits of a number are letters and digits. -/
theorem Quoted.isAlphanum_of_mem_hex {n : Nat} {c : Char} (h : c ∈ hex n) : c.isAlphanum := by
  obtain ⟨k, hk, rfl⟩ := mem_hex h
  have hall : ∀ a : Fin 16, a.val.digitChar.isAlphanum := by decide
  exact hall ⟨k, hk⟩

/-- So an underscore ends the digits of a code. -/
theorem Quoted.underscore_not_mem_hex {n : Nat} : '_' ∉ hex n := fun h =>
  absurd (isAlphanum_of_mem_hex h) (by decide)

namespace Spelled

variable {c d : Char} {u v s t : List Char}

/-- A letter or a digit is not how an escape begins. -/
theorem plain_ne_escape (h : c.isAlphanum) : c :: s ≠ '_' :: t := by
  intro heq
  rw [(List.cons.inj heq).1] at h
  exact absurd h (by decide)

/-- **A spelled character is known from its front.** -/
theorem append_inj (hu : Spelled c u) (hv : Spelled d v) (h : u ++ s = v ++ t) : c = d ∧ s = t := by
  cases hu with
  | plain hc =>
    cases hv with
    | plain hd => exact List.cons.inj h
    | underscore | hyphen | code => exact absurd h (plain_ne_escape hc)
  | underscore =>
    cases hv with
    | plain hd => exact absurd h.symm (plain_ne_escape hd)
    | underscore => exact ⟨rfl, List.append_cancel_left h⟩
    | hyphen | code => simp at h
  | hyphen =>
    cases hv with
    | plain hd => exact absurd h.symm (plain_ne_escape hd)
    | hyphen => exact ⟨rfl, List.append_cancel_left h⟩
    | underscore | code => simp at h
  | code c =>
    cases hv with
    | plain hd => exact absurd h.symm (plain_ne_escape hd)
    | underscore | hyphen => simp at h
    | code d =>
      -- Both are codes: the next underscore ends the digits.
      have hdigits : Quoted.hex c.toNat ++ '_' :: s = Quoted.hex d.toNat ++ '_' :: t := by simpa using h
      obtain ⟨hhex, hrest⟩ :=
        append_cons_inj Quoted.underscore_not_mem_hex Quoted.underscore_not_mem_hex hdigits
      exact ⟨Char.toNat_inj.1 (Quoted.hex_injective hhex), hrest⟩

/-- No character is spelled by nothing. -/
theorem ne_nil (h : Spelled c u) : u ≠ [] := by
  cases h <;> exact List.cons_ne_nil _ _

/-- Spellings are made of letters, digits and underscores. -/
theorem word (h : Spelled c u) : ∀ x ∈ u, x.isAlphanum ∨ x = '_' := by
  cases h with
  | plain hc =>
    intro x hx
    rw [List.mem_singleton.1 hx]
    exact .inl hc
  | underscore | hyphen => simp
  | code c =>
    intro x hx
    rcases List.mem_append.1 hx with hx | hx
    · rcases List.mem_cons.1 hx with rfl | hx
      · exact .inr rfl
      · rcases List.mem_cons.1 hx with rfl | hx
        · exact .inl (by decide)
        · exact .inl (Quoted.isAlphanum_of_mem_hex hx)
    · exact .inr (List.mem_singleton.1 hx)

end Spelled

/-! ## Names -/

/-- A spelled text is known from its front, character by character. -/
theorem flatMap_spellChar_injective : ∀ {s t : List Char}, s.flatMap spellChar = t.flatMap spellChar → s = t
  | [], [], _ => rfl
  | [], d :: t, h => by
    rw [List.flatMap_cons] at h
    exact absurd h.symm (List.append_ne_nil_of_left_ne_nil (spellChar_spelled d).ne_nil _)
  | c :: s, [], h => by
    rw [List.flatMap_cons] at h
    exact absurd h (List.append_ne_nil_of_left_ne_nil (spellChar_spelled c).ne_nil _)
  | c :: s, d :: t, h => by
    rw [List.flatMap_cons, List.flatMap_cons] at h
    obtain ⟨rfl, hrest⟩ := (spellChar_spelled c).append_inj (spellChar_spelled d) h
    rw [flatMap_spellChar_injective hrest]

/-- **Different rules have different functions.** -/
theorem functionName_injective : Function.Injective functionName := by
  intro a b h
  have hspelled := List.append_cancel_left (String.ofList_injective h)
  exact String.toList_inj.1 (flatMap_spellChar_injective hspelled)

/-- What is behind the prefix of a function name are letters, digits and underscores. -/
theorem functionName_word (a : String) :
    ∃ spelled, (functionName a).toList = "__parse_".toList ++ spelled ∧
      ∀ c ∈ spelled, c.isAlphanum ∨ c = '_' := by
  refine ⟨a.toList.flatMap spellChar, String.toList_ofList, fun c hc => ?_⟩
  obtain ⟨d, -, hd⟩ := List.mem_flatMap.1 hc
  exact (spellChar_spelled d).word c hd

example : functionName "é_u-" = "__parse__ue9___u_hyphen_" := by decide +kernel

namespace Emit

open Token

/-! ## Readers -/

/-- What stands in the first braces. -/
def braced? : List Token → Option (List Token)
  | [] => none
  | .group .curly inner :: _ => some inner
  | _ :: ts => braced? ts

/-- What stands in the first braces behind a word. -/
def bracedBehind? (word : String) : List Token → Option (List Token)
  | [] => none
  | t :: ts => if isWord word t then braced? ts else bracedBehind? word ts

/-- The word at the front. -/
def word? : List Token → Option String
  | .raw s :: _ => some s
  | _ => none

/-- The functions that are declared, outside of all groups: the name of each, and what stands in its
    braces. -/
def functions : List Token → List (String × List Token)
  | [] => []
  | t :: ts =>
    (if isWord "fn" t then (word? ts).toList.map fun name => (name, (braced? ts).getD []) else []) ++
      functions ts

/-- The arms at the front: for each number, the function that it leads to. -/
def arms : List Token → List (Nat × String)
  | .count id :: .raw "=>" :: .raw name :: .group .round _ :: .raw "," :: ts => (id, name) :: arms ts
  | _ => []

/-- The arms of the match in the method that runs a rule, in the item that makes a type a rule set. -/
def dispatch? (ts : List Token) : Option (List (Nat × String)) :=
  (((bracedBehind? "for" ts).bind (bracedBehind? "invoke_body")).bind (bracedBehind? "match")).map arms

/-- A word declares nothing, unless it is the one that functions begin with. -/
@[simp] theorem functions_raw_cons (s : String) (ts : List Token) :
    functions (.raw s :: ts) =
      (if s = "fn" then (word? ts).toList.map fun name => (name, (braced? ts).getD []) else []) ++
        functions ts := by
  simp [functions]

@[simp] theorem functions_brackets_cons (inner ts : List Token) :
    functions (brackets inner :: ts) = functions ts := rfl

@[simp] theorem functions_braces_cons (inner ts : List Token) :
    functions (braces inner :: ts) = functions ts := rfl

@[simp] theorem functions_count_cons (n : Nat) (ts : List Token) :
    functions (.count n :: ts) = functions ts := rfl

variable [RegexLibrary]

/-! ## Modules -/

/-- The statements that make the scope of a rule. -/
def scopeOf (r : Rule) : List Token :=
  code ["let", "mut", "__scope_frame", "="] ++ runtime ["Scope", "new"] ++
    code [parens [], ";", "let", "__scope", "=", "&", "mut", "__scope_frame", ";"] ++
    r.params.zipIdx.flatMap fun p => bindParam p.1 p.2

/-- What stands before the functions of the rules declares none outside of its groups. -/
theorem functions_preamble (g : Grammar) (n : Numbering) (us : List Token) :
    functions (preamble g n ++ us) = functions us := by
  simp [preamble, imports, tables, comment, allow, stringsType, parserType, ruleSetItem, runtime, code]

/-- The function of a rule declares its name, with the statements that make its scope before the source. -/
theorem functions_functionOf (r : Rule) (inner us : List Token) :
    functions (functionOf r inner ++ us) =
      (functionName r.name, scopeOf r ++ inner) :: functions us := by
  simp [functionOf, allow, engineParam, argsParam, outcomeType, runtime, code, scopeOf, word?, braced?,
    parens, brackets, braces, isWord, functions]

/-- The functions of the rules are declared in their order. -/
theorem functions_flatten : ∀ (rules : List Rule) (inners : List (List Token)),
    functions (List.zipWith functionOf rules inners).flatten =
      List.zipWith (fun r inner => (functionName r.name, scopeOf r ++ inner)) rules inners
  | [], _ | _ :: _, [] => rfl
  | r :: rules, inner :: inners => by
    rw [List.zipWith_cons_cons, List.flatten_cons, functions_functionOf, functions_flatten rules inners,
      List.zipWith_cons_cons]

/-- There is an arm for each rule, with its number. -/
theorem arms_dispatchArms (us : List Token) (hus : arms us = []) : ∀ rules : List Rule,
    arms (rules.flatMap dispatchArm ++ us) = rules.map fun r => (r.index, functionName r.name)
  | [] => hus
  | r :: rules => by
    rw [List.flatMap_cons, List.append_assoc, List.map_cons, ← arms_dispatchArms us hus rules]
    rfl

/-- The match is found in the item for rule sets, in the method that runs a rule. -/
theorem dispatch?_preamble (g : Grammar) (n : Numbering) (us : List Token) :
    dispatch? (preamble g n ++ us) = some (g.rules.map fun r => (r.index, functionName r.name)) := by
  have harms := arms_dispatchArms (code ["_", "=>"] ++ failedOutcome ++ code [","]) rfl g.rules
  simpa [dispatch?, bracedBehind?, braced?, preamble, imports, tables, comment, allow, stringsType,
    parserType, ruleSetItem, engineParam, argsParam, outcomeType, runtime, code, isWord, parens, brackets,
    braces] using harms

/-- The functions of rules with different names have different names. -/
theorem nodup_functions {rules : List Rule} (hnames : (rules.map (·.name)).Nodup)
    {inners : List (List Token)} (hlength : inners.length = rules.length) :
    ((List.zipWith (fun r inner => (functionName r.name, scopeOf r ++ inner)) rules inners).map
      Prod.fst).Nodup := by
  have hfirst : (List.zipWith (fun r inner => (functionName r.name, scopeOf r ++ inner)) rules inners).map
      Prod.fst = (rules.map (·.name)).map functionName := by
    rw [List.map_zipWith, List.map_map]
    refine List.ext_getElem (by simp [hlength]) fun i h _ => ?_
    simp
  rw [hfirst]
  exact hnames.map functionName_injective

end Emit

section

variable [RegexLibrary]

open Emit Token in
/-- **Each rule has a function of its own.**  Names of functions are known apart if names of rules are, and
    they consist of the prefix and of letters, digits and underscores.  So the module of a built grammar
    declares one function for each rule, with the source of its body, and no two of one name; and the
    arm for the id of a rule calls the function of this rule. -/
theorem rules_have_own_functions :
    Function.Injective functionName ∧
    (∀ a, ∃ spelled, (functionName a).toList = "__parse_".toList ++ spelled ∧
      ∀ c ∈ spelled, c.isAlphanum ∨ c = '_') ∧
    ∀ (d : Declaration) (g : Grammar), d.build = .ok g →
      ((functions g.emit).map Prod.fst).Nodup ∧
      dispatch? g.emit = some (g.rules.zipIdx.map fun r => (r.2, functionName r.1.name)) ∧
      ∃ inners, Sources g.lookup (g.rules.map (·.body)) g.actions.zipIdx g.patterns.zipIdx inners ∧
        functions g.emit =
          List.zipWith (fun r inner => (functionName r.name, scopeOf r ++ inner)) g.rules inners := by
  refine ⟨functionName_injective, functionName_word, fun d g hbuild => ?_⟩
  have hchecked : g.Checked := Declaration.checked hbuild
  obtain ⟨inners, hemit, hsources⟩ := hchecked.emit_eq
  have hlength : inners.length = g.rules.length := by rw [hsources.length_eq, List.length_map]
  -- Nothing before the functions is one, and each of them has the name of its rule.
  have hfunctions : functions g.emit =
      List.zipWith (fun r inner => (functionName r.name, scopeOf r ++ inner)) g.rules inners := by
    rw [hemit, functions_preamble, functions_flatten]
  refine ⟨?_, ?_, inners, hsources, hfunctions⟩
  · rw [hfunctions]
    exact nodup_functions hchecked.names hlength
  · rw [hemit, dispatch?_preamble, g.map_index]

end

/-- Rules with names that look like each other's spelling. -/
def likeNames : Declaration :=
  { name := "names"
    rules := [⟨"a-b", [], .call "a_hyphen_b" []⟩, ⟨"a_hyphen_b", [], .any⟩, ⟨"a_u2d_b", [], .any⟩]
    root := none
    links := [] }

open Emit in
/-- The hyphen is spelled as the second name is, but the underscores of that name are spelled as well. -/
theorem rules_have_own_functions_likeNames :
    ∃ g, likeNames.build = .ok g ∧ ((functions g.emit).map Prod.fst).Nodup ∧
      dispatch? g.emit = some [(0, "__parse_a_hyphen_b"), (1, "__parse_a__hyphen__b"),
        (2, "__parse_a__u2d__b")] := by
  have hbuild : likeNames.build = .ok (.ofRules "names" likeNames.rules 0 [] []) := rfl
  obtain ⟨hnodup, hdispatch, -⟩ := rules_have_own_functions.2.2 _ _ hbuild
  have hspelled : functionName "a-b" = "__parse_a_hyphen_b" ∧
      functionName "a_hyphen_b" = "__parse_a__hyphen__b" ∧
      functionName "a_u2d_b" = "__parse_a__u2d__b" := by decide +kernel
  obtain ⟨hfirst, hsecond, hthird⟩ := hspelled
  refine ⟨_, hbuild, hnodup, hdispatch.trans ?_⟩
  rw [← hfirst, ← hsecond, ← hthird]
  rfl

end MemoPeg
