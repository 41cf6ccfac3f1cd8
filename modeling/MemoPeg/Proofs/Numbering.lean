import MemoPeg.Proofs.Sources
import MemoPeg.Regex.Reader

/-
  The numbers in a module line up with its tables.

  A module is emitted with a table of patterns and a count of actions, and its functions take entries of
  both by number.  Whoever makes a parser of it hands over the actions in a list; that each function gets
  the action that stands at its node depends on the numbers alone.

  1. **Reading (`Emit.taken`, `Emit.constant?`)** — two readers of tokens that know nothing of emission:
     the numbers by which entries of a table are taken, and what a constant is given.  They read any
     tokens at all, groups within groups, and so they would also find an entry that is taken in a place
     where none is expected.
  2. **Phrases** — emitted code is built of phrases with holes.  For each of them: what it takes is what is
     put into its holes takes, in the order in which the holes stand.  An entry is two tokens, a name and
     a number behind it, so putting phrases together could make one at the seam; `taken_append` says when
     it does not.
  3. **Bodies (`Emit.Source.taken`)** — a source takes the entries that it lists, in that order, and no
     others; all tokens around it take none.  By induction on sources.
  4. **The theorem (`numbers_match_tables`)** — so a module takes the actions by `0, 1, 2, …`, each once
     and in the order of nodes, and the patterns likewise; and its tables have as many entries.

  Both tables are treated at once: `table` stands for either, and a proof looks at the two names only where
  it has to see that no word of a phrase is one of them.
-/

namespace MemoPeg

namespace Emit

open Token

/-! ## Readers -/

/-- The token is this word or sign. -/
def isWord (word : String) : Token → Bool
  | .raw s => s == word
  | _ => false

/-- The number between square brackets. -/
def entry? : Token → Option Nat
  | .group .square [.count n] => some n
  | _ => none

mutual

/-- The numbers that stand in square brackets behind a name, in the order of the tokens. -/
def taken (name : String) : List Token → List Nat
  | [] => []
  | t :: ts =>
    (if isWord name t then (ts.head?.bind entry?).toList else []) ++
      takenInside name t ++ taken name ts

/-- The numbers that are taken inside a token. -/
def takenInside (name : String) : Token → List Nat
  | .group _ ts => taken name ts
  | _ => []

end

/-- The tokens between `=` and `;` of the first constant of a name. -/
def constant? (name : String) : List Token → Option (List Token)
  | [] => none
  | t :: ts =>
    if isWord "const" t && ts.head?.any (isWord name) then
      some (((ts.dropWhile fun t => !isWord "=" t).drop 1).takeWhile fun t => !isWord ";" t)
    else constant? name ts

/-- Entries are taken in groups as well, in the order of the tokens. -/
example : taken "actions" ["x", "actions", brackets [.count 2], parens ["actions", brackets [.count 0]],
    "patterns", brackets [.count 5], "actions", ".", brackets [.count 1]] = [2, 0] := by decide

@[simp] theorem isWord_raw (word s : String) : isWord word (.raw s) = (s == word) := rfl

@[simp] theorem isWord_count (word : String) (n : Nat) : isWord word (.count n) = false := rfl

@[simp] theorem isWord_parens (word : String) (inner : List Token) :
    isWord word (parens inner) = false := rfl

@[simp] theorem isWord_brackets (word : String) (inner : List Token) :
    isWord word (brackets inner) = false := rfl

@[simp] theorem isWord_braces (word : String) (inner : List Token) :
    isWord word (braces inner) = false := rfl

/-! ## Tokens that take nothing -/

section

variable {name : String}

@[simp] theorem entry?_raw (s : String) : entry? (.raw s) = none := rfl

@[simp] theorem entry?_parens (inner : List Token) : entry? (parens inner) = none := rfl

@[simp] theorem entry?_braces (inner : List Token) : entry? (braces inner) = none := rfl

@[simp] theorem entry?_brackets (n : Nat) : entry? (brackets [.count n]) = some n := rfl

@[simp] theorem taken_nil : taken name [] = [] := by rw [taken]

/-- A word or sign takes nothing by itself; if it is the name, then what stands right behind it may be an
    entry. -/
@[simp] theorem taken_raw_cons (s : String) (ts : List Token) :
    taken name (.raw s :: ts) =
      (if s = name then (ts.head?.bind entry?).toList else []) ++ taken name ts := by
  simp [taken, takenInside, isWord]

/-- What a group takes is taken inside it. -/
theorem taken_group_cons (bracket : Bracket) (inner ts : List Token) :
    taken name (.group bracket inner :: ts) = taken name inner ++ taken name ts := by
  simp [taken, takenInside, isWord]

@[simp] theorem taken_parens_cons (inner ts : List Token) :
    taken name (parens inner :: ts) = taken name inner ++ taken name ts :=
  taken_group_cons .round inner ts

@[simp] theorem taken_brackets_cons (inner ts : List Token) :
    taken name (brackets inner :: ts) = taken name inner ++ taken name ts :=
  taken_group_cons .square inner ts

@[simp] theorem taken_braces_cons (inner ts : List Token) :
    taken name (braces inner :: ts) = taken name inner ++ taken name ts :=
  taken_group_cons .curly inner ts

@[simp] theorem taken_count_cons (n : Nat) (ts : List Token) :
    taken name (.count n :: ts) = taken name ts := by
  simp [taken, takenInside, isWord]

@[simp] theorem taken_integer_cons (n : Int64) (ts : List Token) :
    taken name (.integer n :: ts) = taken name ts := by
  simp [taken, takenInside, isWord]

@[simp] theorem taken_text_cons (s : String) (ts : List Token) :
    taken name (.text s :: ts) = taken name ts := by
  simp [taken, takenInside, isWord]

@[simp] theorem taken_char_cons (c : Char) (ts : List Token) :
    taken name (.char c :: ts) = taken name ts := by
  simp [taken, takenInside, isWord]

/-- Rows take one after the other, unless an entry at the seam gets its name from the first row. -/
theorem taken_append {us : List Token} (h : us.head?.bind entry? = none) :
    ∀ ts, taken name (ts ++ us) = taken name ts ++ taken name us
  | [] => by rw [List.nil_append, taken_nil, List.nil_append]
  | t :: ts => by
    -- Behind the last token of the first row comes the head of the second, which is no entry.
    have hseam : (ts ++ us).head?.bind entry? = ts.head?.bind entry? := by
      cases ts with
      | nil => exact h
      | cons _ _ => rfl
    rw [List.cons_append, taken, taken, hseam, taken_append h ts]
    simp only [List.append_assoc]

/-- A word or sign is no entry, so nothing is lost where it is put behind other tokens. -/
@[simp] theorem taken_append_raw (ts us : List Token) (s : String) :
    taken name (ts ++ .raw s :: us) = taken name ts ++ taken name (.raw s :: us) :=
  taken_append rfl ts

/-- Neither is a block. -/
@[simp] theorem taken_append_braces (ts inner us : List Token) :
    taken name (ts ++ braces inner :: us) = taken name ts ++ taken name (braces inner :: us) :=
  taken_append rfl ts

/-- Phrases that take nothing, one after the other. -/
theorem taken_flatMap {α : Type} {f : α → List Token} (h : ∀ a us, taken name (f a ++ us) = taken name us)
    (us : List Token) : ∀ as : List α, taken name (as.flatMap f ++ us) = taken name us
  | [] => rfl
  | a :: as => by rw [List.flatMap_cons, List.append_assoc, h, taken_flatMap h us as]

/-- Rows between commas take one after the other. -/
theorem taken_commaSeparated (hcomma : "," ≠ name) : ∀ rows : List (List Token),
    taken name (commaSeparated rows) = rows.flatMap (taken name)
  | [] => by rw [commaSeparated, taken_nil, List.flatMap_nil]
  | [ts] => by rw [commaSeparated, List.flatMap_singleton]
  | ts :: ts' :: rows => by
    have hrows : commaSeparated (ts :: ts' :: rows) = ts ++ .raw "," :: commaSeparated (ts' :: rows) :=
      List.append_assoc _ _ _
    rw [hrows, taken_append_raw, taken_raw_cons, if_neg hcomma, List.nil_append,
      taken_commaSeparated hcomma (ts' :: rows), ← List.flatMap_cons]

end

/-- The tables of a parser whose entries emitted code takes by number. -/
inductive Table where
  | actions
  | patterns
deriving DecidableEq, Repr

/-- The name of a table. -/
def Table.name : Table → String
  | .actions => "actions"
  | .patterns => "patterns"

section

variable {table : Table}

/-- Rows that take nothing still take nothing between commas. -/
theorem taken_commaSeparated_eq_nil {rows : List (List Token)}
    (h : ∀ ts ∈ rows, taken table.name ts = []) : taken table.name (commaSeparated rows) = [] := by
  have hcomma : "," ≠ table.name := by cases table <;> decide
  rw [taken_commaSeparated hcomma]
  exact List.flatMap_eq_nil_iff.2 h

/-! ## Values and arguments -/

mutual

/-- Values are written out and take no entries. -/
theorem taken_value : ∀ v : Value, taken table.name (value v) = []
  | .nil | .int _ | .char _ | .str _ | .span _ _ => by
    cases table <;> simp [value, nilValue, valueOf, runtime, code, ownedString, Table.name]
  | .bool b => by
    cases table <;> cases b <;> simp [value, valueOf, runtime, code, Table.name]
  | .list items => by
    have hitems := taken_commaSeparated_eq_nil (taken_values items)
    cases table <;> simp only [Table.name] at hitems ⊢ <;>
      simp [value, valueOf, runtime, code, hitems]
  | .node name children => by
    have hchildren := taken_commaSeparated_eq_nil (taken_values children)
    cases table <;> simp only [Table.name] at hchildren ⊢ <;>
      simp [value, valueOf, runtime, code, ownedString, hchildren]

/-- Nor do lists of them. -/
theorem taken_values : ∀ vs : List Value, ∀ ts ∈ values vs, taken table.name ts = []
  | [], _, h => by rw [values] at h; exact absurd h List.not_mem_nil
  | v :: vs, ts, h => by
    rw [values] at h
    rcases List.mem_cons.1 h with rfl | h
    · exact taken_value v
    · exact taken_values vs ts h

end

/-- Arguments are values and names. -/
theorem taken_args (as : List Arg) : taken table.name (args as) = [] := by
  have hargs : taken table.name (commaSeparated (as.map arg)) = [] := by
    refine taken_commaSeparated_eq_nil fun ts hts => ?_
    obtain ⟨a, -, rfl⟩ := List.mem_map.1 hts
    cases a with
    | value v => exact taken_value v
    | binding name => cases table <;> simp [arg, Table.name]
  simp [args, hargs]

/-! ## Phrases -/

/-- The numbers that a source takes from a table. -/
def Table.numbers [RegexLibrary] (calls : Calls) (scans : Scans) : Table → List Nat
  | .actions => calls.map (·.2)
  | .patterns => scans.map (·.2)

/-- The numbers of two lists of uses, one after the other. -/
theorem Table.numbers_append [RegexLibrary] (calls calls' : Calls) (scans scans' : Scans) :
    table.numbers (calls ++ calls') (scans ++ scans') =
      table.numbers calls scans ++ table.numbers calls' scans' := by
  cases table <;> simp only [numbers, List.map_append]

/-- The terminals take nothing, but for the patterns. -/
theorem taken_readAny : taken table.name readAny = [] := by
  cases table <;>
    simp [readAny, terminal, valueOf, matchedOutcome, failedOutcome, cursor, runtime, code, Table.name]

theorem taken_readLiteral (s : String) : taken table.name (readLiteral s) = [] := by
  cases table <;>
    simp [readLiteral, terminal, matchedOutcome, failedOutcome, cursor, runtime, code, Table.name]

/-- A pattern is taken by its number. -/
theorem taken_readPattern [RegexLibrary] (p : Pattern) (i : Nat) :
    taken table.name (readPattern i) = table.numbers [] [(p, i)] := by
  cases table <;>
    simp [readPattern, terminal, matchedOutcome, failedOutcome, cursor, runtime, code, Table.name,
      Table.numbers]

theorem taken_readRange (lo hi : Char) : taken table.name (readRange lo hi) = [] := by
  cases table <;>
    simp [readRange, terminal, valueOf, matchedOutcome, failedOutcome, cursor, runtime, code,
      Table.name]

/-- An action is taken by its number. -/
theorem taken_actionCall [RegexLibrary] (a : Action) (i : Nat) :
    taken table.name (actionCall i) = table.numbers [(a, i)] [] := by
  cases table <;> simp [actionCall, Table.name, Table.numbers]

/-- A match takes what its value takes. -/
theorem taken_matchedOutcome_cursor (value : List Token) :
    taken table.name (matchedOutcome cursor value) = taken table.name value := by
  cases table <;> simp [matchedOutcome, cursor, runtime, code, Table.name]

/-- A test takes what the call of its action takes. -/
theorem taken_holds (call : List Token) : taken table.name (holds call) = taken table.name call := by
  cases table <;>
    simp [holds, matchedOutcome, failedOutcome, cursor, runtime, code, Table.name]

theorem taken_holdsNot (call : List Token) :
    taken table.name (holdsNot call) = taken table.name call := by
  cases table <;>
    simp [holdsNot, matchedOutcome, failedOutcome, nilValue, cursor, runtime, code, Table.name]

/-- A step of a sequence takes its entries before those of the rest. -/
theorem taken_sequenceStep (step continuation : List Token) :
    taken table.name (sequenceStep step continuation) =
      taken table.name step ++ taken table.name continuation := by
  cases table <;>
    simp [sequenceStep, rollback, resetCursor, failedOutcome, runtime, code, Table.name]

/-- A sequence takes what its parts take, in their order. -/
theorem taken_sequence (rows : List (List Token)) :
    taken table.name (sequence rows) = rows.flatMap (taken table.name) := by
  have hsteps : ∀ last, taken table.name (rows.foldr sequenceStep last) =
      rows.flatMap (taken table.name) ++ taken table.name last := by
    intro last
    induction rows with
    | nil => rfl
    | cons ts rows ih =>
      rw [List.foldr_cons, taken_sequenceStep, ih, List.flatMap_cons, List.append_assoc]
  cases table <;> simp only [Table.name] at hsteps ⊢ <;>
    simp [sequence, letStart, letMark, cursor, nilValue, matchedOutcome, runtime, code, hsteps]

/-- An alternative takes its entries before those that are tried after it. -/
theorem taken_alternative (step fallback : List Token) :
    taken table.name (alternative step fallback) =
      taken table.name step ++ taken table.name fallback := by
  cases table <;>
    simp [alternative, matchedOutcome, failedOutcome, runtime, code, Table.name]

/-- A choice takes what its alternatives take, in their order. -/
theorem taken_choice (rows : List (List Token)) :
    taken table.name (choice rows) = rows.flatMap (taken table.name) := by
  induction rows with
  | nil => cases table <;> simp [choice, failedOutcome, runtime, Table.name]
  | cons ts rows ih =>
    show taken table.name (alternative ts (choice rows)) = _
    rw [taken_alternative, ih, List.flatMap_cons]

/-- A repetition is a loop: its body stands there once. -/
theorem taken_repetition (ts : List Token) (min : Nat) (max : Option Nat) (captures : Bool) :
    taken table.name (repetition ts min max captures) = taken table.name ts := by
  cases table <;> cases max <;> cases captures <;>
    simp [repetition, letStart, letMark, cursor, nilValue, rollback, resetCursor, matchedOutcome,
      valueOf, failedOutcome, runtime, code, Table.name]

/-- A predicate takes what its body takes; what is done afterwards takes nothing. -/
theorem taken_predicate {arms : List Token} (harms : taken table.name arms = []) (ts : List Token) :
    taken table.name (predicate ts arms) = taken table.name ts := by
  cases table <;> simp only [Table.name] at harms ⊢ <;>
    simp [predicate, letStart, letMark, cursor, rollback, resetCursor, code, harms]

theorem taken_aheadArms : taken table.name aheadArms = [] := by
  cases table <;>
    simp [aheadArms, failedArm, matchedOutcome, failedOutcome, runtime, code, Table.name]

theorem taken_notAheadArms : taken table.name notAheadArms = [] := by
  cases table <;>
    simp [notAheadArms, matchedOutcome, failedOutcome, nilValue, runtime, code, Table.name]

theorem taken_tagged (ts : List Token) (name : String) :
    taken table.name (tagged ts name) = taken table.name ts := by
  cases table <;>
    simp [tagged, failedArm, matchedOutcome, failedOutcome, runtime, code, Table.name]

theorem taken_collected (ts : List Token) : taken table.name (collected ts) = taken table.name ts := by
  cases table <;>
    simp [collected, binding, letStart, cursor, failedArm, matchedOutcome, failedOutcome, runtime,
      code, Table.name]

theorem taken_bounded (ts : List Token) : taken table.name (bounded ts) = taken table.name ts := by
  cases table <;>
    simp [bounded, binding, letStart, cursor, failedArm, valueOf, matchedOutcome, failedOutcome,
      runtime, code, Table.name]

/-- A call names a method, and no table. -/
theorem taken_ruleCall (method : String) (rule : RuleId) (as : List Arg) :
    taken table.name (ruleCall method rule as) = [] := by
  have hargs : taken table.name (args as) = [] := taken_args as
  cases table <;> simp only [Table.name] at hargs ⊢ <;> simp [ruleCall, runtime, code, hargs]

theorem taken_foreignCall (grammar rule : String) (as : List Arg) :
    taken table.name (foreignCall grammar rule as) = [] := by
  have hargs : taken table.name (args as) = [] := taken_args as
  cases table <;> simp only [Table.name] at hargs ⊢ <;>
    simp [foreignCall, failedOutcome, runtime, code, hargs]

end

/-! ## Bodies -/

variable [RegexLibrary]

mutual

/-- **A source takes what it lists.** -/
theorem Source.taken {lookup : String → Option RuleId} {op : Operator} {calls : Calls} {scans : Scans}
    {ts : List Token} (h : Source lookup op calls scans ts) (table : Table) :
    Emit.taken table.name ts = table.numbers calls scans := by
  have hnone : table.numbers [] [] = [] := by cases table <;> rfl
  match h with
  | .any => rw [taken_readAny, hnone]
  | .literal s => rw [taken_readLiteral, hnone]
  | .pattern p i => rw [taken_readPattern p]
  | .range _ => rw [taken_readRange, hnone]
  | .sequence hs => rw [taken_sequence, hs.taken table]
  | .choice _ hs => rw [taken_choice, hs.taken table]
  | .repetition h min max captures => rw [taken_repetition, h.taken table]
  | .holds a i => rw [taken_holds, taken_actionCall a]
  | .ahead _ h => rw [taken_predicate taken_aheadArms, h.taken table]
  | .holdsNot a i => rw [taken_holdsNot, taken_actionCall a]
  | .notAhead _ h => rw [taken_predicate taken_notAheadArms, h.taken table]
  | .tag h name => rw [taken_tagged, h.taken table]
  | .action a i => rw [taken_matchedOutcome_cursor, taken_actionCall a]
  | .collect h => rw [taken_collected, h.taken table]
  | .bounds h => rw [taken_bounded, h.taken table]
  | .call _ args => rw [taken_ruleCall, hnone]
  | .direct _ args => rw [taken_ruleCall, hnone]
  | .foreign grammar rule args => rw [taken_foreignCall, hnone]

/-- Sources of several bodies take what they list, body after body. -/
theorem Sources.taken {lookup : String → Option RuleId} {ops : List Operator} {calls : Calls}
    {scans : Scans} {rows : List (List Token)} (h : Sources lookup ops calls scans rows)
    (table : Table) : rows.flatMap (Emit.taken table.name) = table.numbers calls scans := by
  match h with
  | .nil => cases table <;> rfl
  | .cons h hs => rw [List.flatMap_cons, h.taken table, hs.taken table, Table.numbers_append]

end

/-! ## Modules -/

section

variable {table : Table}

omit [RegexLibrary] in
/-- The imports take nothing. -/
theorem taken_imports (us : List Token) : taken table.name (imports ++ us) = taken table.name us := by
  cases table <;> simp [imports, allow, runtime, code, Table.name]

/-- The tables themselves are constants; they are named by their own names, in capitals. -/
theorem taken_tables (g : Grammar) (n : Numbering) (us : List Token) :
    taken table.name (tables g n ++ us) = taken table.name us := by
  have hrules : taken table.name
      (commaSeparated (g.rules.map fun r => [parens [.text r.name, ",", .text r.rendered]])) = [] := by
    refine taken_commaSeparated_eq_nil fun ts hts => ?_
    obtain ⟨r, -, rfl⟩ := List.mem_map.1 hts
    cases table <;> simp [Table.name]
  have htexts : ∀ texts : List String,
      taken table.name (commaSeparated (texts.map fun p => [.text p])) = [] := by
    refine fun texts => taken_commaSeparated_eq_nil fun ts hts => ?_
    obtain ⟨p, -, rfl⟩ := List.mem_map.1 hts
    simp
  have hparams : taken table.name (commaSeparated (g.rules.map fun r =>
      ["&", brackets (commaSeparated (r.params.map fun p => [.text p]))])) = [] := by
    refine taken_commaSeparated_eq_nil fun ts hts => ?_
    obtain ⟨r, -, rfl⟩ := List.mem_map.1 hts
    have hrow := htexts r.params
    cases table <;> simp only [Table.name] at hrow ⊢ <;> simp [hrow]
  cases table <;> simp only [Table.name] at hrules htexts hparams ⊢ <;>
    simp [tables, comment, allow, stringsType, code, hrules, htexts, hparams]

omit [RegexLibrary] in
/-- The type of the parser lists its tables as fields, and takes none of their entries. -/
theorem taken_parserType (us : List Token) :
    taken table.name (parserType ++ us) = taken table.name us := by
  cases table <;> simp [parserType, actionsType, runtime, code, Table.name]

omit [RegexLibrary] in
/-- The constructor hands the tables on as a whole. -/
theorem taken_constructor (us : List Token) :
    taken table.name (constructor ++ us) = taken table.name us := by
  cases table <;>
    simp [constructor, comment, actionsType, countCheck, readPatterns, makeRegistry, madeParser,
      runtime, code, Table.name]

omit [RegexLibrary] in
/-- Linking takes nothing. -/
theorem taken_linking : taken table.name linking = [] := by
  cases table <;> simp [linking, comment, runtime, code, Table.name]

/-- An arm of the dispatch takes nothing. -/
theorem taken_dispatchArm (r : Rule) (us : List Token) :
    taken table.name (dispatchArm r ++ us) = taken table.name us := by
  cases table <;> simp [dispatchArm, Table.name]

/-- Nor does the dispatch. -/
theorem taken_ruleSetItem (g : Grammar) (us : List Token) :
    taken table.name (ruleSetItem g ++ us) = taken table.name us := by
  have harms : taken table.name (g.rules.flatMap dispatchArm) = [] := by
    simpa using taken_flatMap taken_dispatchArm [] g.rules
  cases table <;> simp only [Table.name] at harms ⊢ <;>
    simp [ruleSetItem, engineParam, argsParam, outcomeType, failedOutcome, runtime, code, harms]

/-- All that stands before the functions takes nothing. -/
theorem taken_preamble (g : Grammar) (n : Numbering) (us : List Token) :
    taken table.name (preamble g n ++ us) = taken table.name us := by
  have himpl : taken table.name (code ["impl", "Parser", braces (constructor ++ linking)]) = [] := by
    have hinside : taken table.name (constructor ++ linking) = [] := by
      rw [taken_constructor, taken_linking]
    cases table <;> simp only [Table.name] at hinside ⊢ <;> simp [code, hinside]
  have hseam : (ruleSetItem g ++ us).head?.bind entry? = none := rfl
  rw [preamble]
  simp only [List.append_assoc]
  rw [taken_imports, taken_tables, taken_parserType, taken_append hseam, himpl, List.nil_append,
    taken_ruleSetItem]

omit [RegexLibrary] in
/-- Binding a parameter takes an argument, not an entry. -/
theorem taken_bindParam (param : String × Nat) (us : List Token) :
    taken table.name (bindParam param.1 param.2 ++ us) = taken table.name us := by
  cases table <;> simp [bindParam, Table.name]

/-- A function takes what its body takes. -/
theorem taken_functionOf (r : Rule) (inner us : List Token) :
    taken table.name (functionOf r inner ++ us) = taken table.name inner ++ taken table.name us := by
  have hparams : ∀ us, taken table.name ((r.params.zipIdx.flatMap fun p => bindParam p.1 p.2) ++ us) =
      taken table.name us := fun us => taken_flatMap taken_bindParam us _
  cases table <;> simp only [Table.name] at hparams ⊢ <;>
    simp [functionOf, allow, engineParam, argsParam, outcomeType, runtime, code, hparams]

end

/-- The functions take what their bodies take, in their order. -/
theorem taken_functions {table : Table} : ∀ {rules : List Rule} {inners : List (List Token)},
    inners.length = rules.length →
      taken table.name (List.zipWith functionOf rules inners).flatten = inners.flatMap (taken table.name)
  | [], [], _ => taken_nil
  | r :: rules, inner :: inners, h => by
    rw [List.zipWith_cons_cons, List.flatten_cons, taken_functionOf, List.flatMap_cons,
      taken_functions (Nat.succ.inj h)]

/-- The table of patterns is the constant of its name. -/
theorem constant?_patterns (g : Grammar) (n : Numbering) (functions : List Token) :
    constant? "PATTERNS" (preamble g n ++ functions) =
      some (code ["&", brackets (commaSeparated (n.patterns.map fun p => [.text p]))]) := by
  simp [constant?, preamble, imports, tables, comment, allow, stringsType, runtime, code]

/-- The number of actions is the constant of its name. -/
theorem constant?_actionCount (g : Grammar) (n : Numbering) (functions : List Token) :
    constant? "ACTION_COUNT" (preamble g n ++ functions) = some [.count n.actions] := by
  simp [constant?, preamble, imports, tables, comment, allow, stringsType, runtime, code]

end Emit

section

variable [RegexLibrary]

open Emit Token in
/-- **Numbers and tables agree.**  A module of a built grammar has as many places for actions as the grammar
    has actions, and its table of patterns has one entry for each pattern, its expression, at its place.
    The functions are made of sources of the bodies in which each action, alone or ahead, is called and
    each pattern is scanned by its place in the grammar.  Nothing else takes entries of the two tables:
    the numbers in the module are `0, 1, 2, …`, each once. -/
theorem numbers_match_tables {d : Declaration} {g : Grammar} (h : d.build = .ok g) :
    constant? "ACTION_COUNT" g.emit = some [.count g.actions.length] ∧
    constant? "PATTERNS" g.emit =
      some (code ["&", brackets (commaSeparated (g.patterns.map fun p => [.text (anchored p.source)]))]) ∧
    (∃ inners, g.emit = preamble g g.numbering ++ (List.zipWith functionOf g.rules inners).flatten ∧
      Sources g.lookup (g.rules.map (·.body)) g.actions.zipIdx g.patterns.zipIdx inners) ∧
    taken "actions" g.emit = List.range g.actions.length ∧
    taken "patterns" g.emit = List.range g.patterns.length := by
  obtain ⟨inners, hemit, hsources⟩ := (Declaration.checked h).emit_eq
  -- No token before the functions takes a number, so all that are taken are in the bodies.
  have htaken : ∀ table : Table,
      taken table.name g.emit = table.numbers g.actions.zipIdx g.patterns.zipIdx := by
    intro table
    have hlength : inners.length = g.rules.length := by rw [hsources.length_eq, List.length_map]
    rw [hemit, taken_preamble, taken_functions hlength, hsources.taken table]
  have hactions : taken "actions" g.emit = g.actions.zipIdx.map Prod.snd := htaken .actions
  have hpatterns : taken "patterns" g.emit = g.patterns.zipIdx.map Prod.snd := htaken .patterns
  refine ⟨?_, ?_, ⟨inners, hemit, hsources⟩, ?_, ?_⟩
  · rw [hemit, constant?_actionCount]
    simp [Grammar.numbering, Numbering.after]
  · rw [hemit, constant?_patterns]
    simp [Grammar.numbering, Numbering.after, Function.comp_def]
  · rw [hactions, List.zipIdx_map_snd, List.range_eq_range']
  · rw [hpatterns, List.zipIdx_map_snd, List.range_eq_range']

end

/-- The pattern of one letter. -/
def letterPattern : Pattern := ⟨"a", _, rfl⟩

/-- A letter that is counted, if nothing speaks against it. -/
def countedLetter : Declaration :=
  { name := "letters"
    rules :=
      [⟨"letter", [], .sequence [.notAhead (.action ⟨some "stop", fun _ => (.nil, [])⟩),
        .pattern letterPattern, .call "count" []]⟩,
        ⟨"count", [], .action ⟨some "count", fun _ => (.int 1, [])⟩⟩]
    root := none
    links := [] }

open Emit Token in
/-- The test is made with action 0 and the count with action 1; the letter is pattern 0. -/
theorem numbers_match_tables_countedLetter :
    ∃ g, countedLetter.build = .ok g ∧
      constant? "ACTION_COUNT" g.emit = some [.count 2] ∧
      constant? "PATTERNS" g.emit = some (code ["&", brackets [.text "^(?:a)"]]) ∧
      taken "actions" g.emit = [0, 1] ∧ taken "patterns" g.emit = [0] := by
  have hbuild : countedLetter.build = .ok (.ofRules "letters" countedLetter.rules 0 [] []) := rfl
  obtain ⟨hcount, hpatterns, -, hcalls, hscans⟩ := numbers_match_tables hbuild
  exact ⟨_, hbuild, hcount, hpatterns, hcalls, hscans⟩

end MemoPeg
