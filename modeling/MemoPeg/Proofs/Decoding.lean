import MemoPeg.Proofs.Labels
import MemoPeg.Proofs.Sources
import MemoPeg.Proofs.Streams

/-
  Operators are known from their sources.

  Emission writes an operator as code, and forgets nothing but the actions: the streams of two operators
  are equal only if the operators are.  The proof never parses a stream as a whole.  It compares two
  sources of the same stream and takes them apart at the same places.

  1. **Kinds (`Emit.kindOf`)** — a reader of streams that tells of what kind an operator is.  It looks only at
     words in fixed places: at the front, or in the group at the end, whatever stands between them.  With
     it, of all pairs of kinds only the equal ones are left in 3.
  2. **Phrases** — two phrases of one kind with equal streams hold equal parts.  The parts of a sequence
     or a choice are found one inside the other, so that the group at the end ends each of them.
  3. **Operators (`Emit.Source.mapActions_eq`)** — by induction on the source, operators with equal
     streams are equal trees, but for the actions.  An action is known by its number only, and so is a
     pattern: what the numbers stand for is a hypothesis (`Emit.Agree`).

  A test of an action and a predicate on an operator are of one kind and have different phrases, for each of
  the two predicates; these are the only cases in which equal kinds do not make equal constructors of the
  source, and two lemmas tell them apart.  A call is known by the number of its rule, and the rule by that
  number as long as no rule is found by two names (`OneName`).
-/

namespace MemoPeg

/-! ## Kinds -/

/-- The kinds of operators. -/
inductive Kind where
  | any
  | literal
  | pattern
  | range
  | sequence
  | choice
  | repetition
  | ahead
  | notAhead
  | tag
  | action
  | collect
  | bounds
  | call
  | direct
  | foreign
deriving DecidableEq

/-- The kind of an operator. -/
def Operator.kind [RegexLibrary] : Operator → Kind
  | .any => .any
  | .literal _ => .literal
  | .pattern _ => .pattern
  | .range _ _ => .range
  | .sequence _ => .sequence
  | .choice _ => .choice
  | .repetition _ _ _ _ => .repetition
  | .ahead _ => .ahead
  | .notAhead _ => .notAhead
  | .tag _ _ => .tag
  | .action _ => .action
  | .collect _ => .collect
  | .bounds _ => .bounds
  | .call _ _ => .call
  | .direct _ _ => .direct
  | .foreign _ _ _ => .foreign

namespace Emit

open Token

/-- The word at a place. -/
def wordAt (i : Nat) (xs : List Lexeme) : Option String :=
  match xs[i]? with
  | some (.word s) => some s
  | _ => none

/-- What stands in the group at a place. -/
def innerAt (i : Nat) (xs : List Lexeme) : List Lexeme :=
  match xs[i]? with
  | some (.group _ inner) => inner
  | _ => []

/-- What stands in the last group. -/
def lastInner (xs : List Lexeme) : List Lexeme :=
  match xs.getLast? with
  | some (.group _ inner) => inner
  | _ => []

@[simp] theorem lastInner_group (bracket : Bracket) (inner : List Lexeme) :
    lastInner [.group bracket inner] = inner := rfl

@[simp] theorem lastInner_cons_cons (x y : Lexeme) (ys : List Lexeme) :
    lastInner (x :: y :: ys) = lastInner (y :: ys) := by rw [lastInner, List.getLast?_cons_cons, lastInner]

@[simp] theorem lastInner_append_cons (xs : List Lexeme) (y : Lexeme) (ys : List Lexeme) :
    lastInner (xs ++ y :: ys) = lastInner (y :: ys) := by
  rw [lastInner, List.getLast?_append_of_ne_nil _ (List.cons_ne_nil y ys), lastInner]

@[simp] theorem lastInner_cons_append_cons (x : Lexeme) (xs : List Lexeme) (y : Lexeme)
    (ys : List Lexeme) : lastInner (x :: (xs ++ y :: ys)) = lastInner (y :: ys) :=
  lastInner_append_cons (x :: xs) y ys

/-- The kind that a word stands for. -/
def kindBy (words : List (String × Kind)) (word : Option String) : Option Kind :=
  word.bind fun w => (words.find? fun entry => entry.1 == w).map (·.2)

/-- The kinds of operators that are one call of the engine, by its method. -/
def methods : List (String × Kind) :=
  [("get_char", .any), ("match_string", .literal), ("scan", .pattern), ("char_range", .range),
    ("apply", .call), ("invoke", .direct)]

/-- The kind of operator that a block is the source of. -/
def blockKind (xs : List Lexeme) : Option Kind :=
  if wordAt 0 xs = some "match" then some .choice
  else if wordAt 0 xs = some "if" then some .notAhead
  else if wordAt 1 xs = some "__value" then some .ahead
  else if wordAt 8 xs = some "match" then
    kindBy [("from", .collect), ("Span", .bounds)] (wordAt 8 (innerAt 8 (lastInner xs)))
  else if wordAt 18 xs = some "__count" then some .repetition
  else if wordAt 17 xs = some "__value" then some .sequence
  else kindBy [("Matched", .ahead), ("Failed", .notAhead)] (wordAt 13 (lastInner xs))

/-- The kind of operator that a stream is the source of. -/
def kindOf (xs : List Lexeme) : Option Kind :=
  if wordAt 0 xs = none then blockKind (innerAt 0 xs)
  else if wordAt 0 xs = some "::" then some .action
  else if wordAt 0 xs = some "__engine" then kindBy methods (wordAt 2 xs)
  else if wordAt 0 (lastInner xs) = some "::" then some .tag
  else if wordAt 1 xs = some "__parser" then some .foreign
  else kindBy methods (wordAt 3 xs)

/-- The terminals are known by the method of the engine that they call. -/
theorem kindOf_readAny : kindOf (lexemes readAny) = some .any := by
  simp [readAny, terminal, matchedOutcome, valueOf, runtime, code, methods, wordAt, kindBy, kindOf]

theorem kindOf_readLiteral (s : String) : kindOf (lexemes (readLiteral s)) = some .literal := by
  simp [readLiteral, terminal, matchedOutcome, runtime, code, methods, wordAt, kindBy, kindOf]

theorem kindOf_readPattern (i : Nat) : kindOf (lexemes (readPattern i)) = some .pattern := by
  simp [readPattern, terminal, matchedOutcome, runtime, code, methods, wordAt, kindBy, kindOf]

theorem kindOf_readRange (lo hi : Char) : kindOf (lexemes (readRange lo hi)) = some .range := by
  simp [readRange, terminal, matchedOutcome, valueOf, runtime, code, methods, wordAt, kindBy, kindOf]

/-- A block is known by a word at a fixed place in it. -/
theorem kindOf_sequence (rows : List (List Token)) :
    kindOf (lexemes (sequence rows)) = some .sequence := by
  simp [sequence, letStart, letMark, cursor, code, wordAt, innerAt, kindOf, blockKind]

theorem kindOf_choice {rows : List (List Token)} (h : rows ≠ []) :
    kindOf (lexemes (choice rows)) = some .choice := by
  obtain ⟨ts, rows, rfl⟩ := List.exists_cons_of_ne_nil h
  simp [choice, alternative, code, wordAt, innerAt, kindOf, blockKind]

theorem kindOf_repetition (ts : List Token) (min : Nat) (max : Option Nat) (captures : Bool) :
    kindOf (lexemes (repetition ts min max captures)) = some .repetition := by
  simp [repetition, letStart, letMark, cursor, code, wordAt, innerAt, kindOf, blockKind]

theorem kindOf_holds (call : List Token) : kindOf (lexemes (holds call)) = some .ahead := by
  simp [holds, code, wordAt, innerAt, kindOf, blockKind]

theorem kindOf_holdsNot (call : List Token) : kindOf (lexemes (holdsNot call)) = some .notAhead := by
  simp [holdsNot, wordAt, innerAt, kindOf, blockKind]

theorem kindOf_ahead (ts : List Token) : kindOf (lexemes (predicate ts aheadArms)) = some .ahead := by
  simp [predicate, aheadArms, matchedOutcome, letStart, letMark, rollback, resetCursor, cursor, runtime,
    code, wordAt, innerAt, kindBy, kindOf, blockKind]

theorem kindOf_notAhead (ts : List Token) :
    kindOf (lexemes (predicate ts notAheadArms)) = some .notAhead := by
  simp [predicate, notAheadArms, failedOutcome, letStart, letMark, rollback, resetCursor, cursor, runtime,
    code, wordAt, innerAt, kindBy, kindOf, blockKind]

theorem kindOf_tagged (ts : List Token) (name : String) :
    kindOf (lexemes (tagged ts name)) = some .tag := by
  simp [tagged, runtime, code, wordAt, kindOf]

/-- An action is known by the path at the front. -/
theorem kindOf_action (value : List Token) :
    kindOf (lexemes (matchedOutcome cursor value)) = some .action := by
  simp [matchedOutcome, runtime, code, wordAt, kindOf]

theorem kindOf_collected (ts : List Token) : kindOf (lexemes (collected ts)) = some .collect := by
  simp [collected, binding, letStart, cursor, runtime, code, wordAt, innerAt, kindBy, kindOf, blockKind]

theorem kindOf_bounded (ts : List Token) : kindOf (lexemes (bounded ts)) = some .bounds := by
  simp [bounded, binding, valueOf, letStart, cursor, runtime, code, wordAt, innerAt, kindBy, kindOf,
    blockKind]

/-- A call is known by its method, which stands behind the parser. -/
theorem kindOf_apply (rule : RuleId) (as : List Arg) :
    kindOf (lexemes (ruleCall "apply" rule as)) = some .call := by
  simp [ruleCall, wordAt, kindBy, methods, kindOf]

theorem kindOf_invoke (rule : RuleId) (as : List Arg) :
    kindOf (lexemes (ruleCall "invoke" rule as)) = some .direct := by
  simp [ruleCall, wordAt, kindBy, methods, kindOf]

theorem kindOf_foreignCall (grammar rule : String) (as : List Arg) :
    kindOf (lexemes (foreignCall grammar rule as)) = some .foreign := by
  simp [foreignCall, code, wordAt, kindOf]

/-- **A source says of what kind its operator is.** -/
theorem Source.kindOf_eq [RegexLibrary] {lookup : String → Option RuleId} {op : Operator} {calls : Calls}
    {scans : Scans} {ts : List Token} (h : Source lookup op calls scans ts) :
    kindOf (lexemes ts) = some op.kind := by
  cases h with
  | any => exact kindOf_readAny
  | literal s => exact kindOf_readLiteral s
  | pattern p i => exact kindOf_readPattern i
  | range h => exact kindOf_readRange _ _
  | sequence h => exact kindOf_sequence _
  | choice hne h => exact kindOf_choice (h.rows_ne_nil hne)
  | repetition h min max captures => exact kindOf_repetition _ min max captures
  | holds a i => exact kindOf_holds _
  | ahead hop h => exact kindOf_ahead _
  | holdsNot a i => exact kindOf_holdsNot _
  | notAhead hop h => exact kindOf_notAhead _
  | tag h name => exact kindOf_tagged _ name
  | action a i => exact kindOf_action _
  | collect h => exact kindOf_collected _
  | bounds h => exact kindOf_bounded _
  | call h args => exact kindOf_apply _ args
  | direct h args => exact kindOf_invoke _ args
  | «foreign» grammar rule args => exact kindOf_foreignCall grammar rule args

/-! ## Phrases -/

/-- A literal is known from the string that is looked for. -/
theorem readLiteral_inj {s t : String} (h : lexemes (readLiteral s) = lexemes (readLiteral t)) : s = t := by
  simpa [readLiteral, terminal, matchedOutcome, runtime, code] using h

/-- A pattern is known by its number. -/
theorem readPattern_inj {i j : Nat} (h : lexemes (readPattern i) = lexemes (readPattern j)) : i = j := by
  simpa [readPattern, terminal, matchedOutcome, runtime, code] using h

/-- A range is known from its two characters. -/
theorem readRange_inj {lo hi lo' hi' : Char} (h : lexemes (readRange lo hi) = lexemes (readRange lo' hi')) :
    lo = lo' ∧ hi = hi' := by
  simpa [readRange, terminal, matchedOutcome, runtime, code] using h

/-- So is an action, by its number. -/
theorem actionCall_inj {i j : Nat} (h : lexemes (actionCall i) = lexemes (actionCall j)) : i = j := by
  simpa [actionCall] using h

/-- The call of a test is what it tests. -/
theorem holds_inj {xs ys : List Token} (h : lexemes (holds xs) = lexemes (holds ys)) :
    lexemes xs = lexemes ys := by
  simpa [holds, code] using h

theorem holdsNot_inj {xs ys : List Token} (h : lexemes (holdsNot xs) = lexemes (holdsNot ys)) :
    lexemes xs = lexemes ys := by
  simpa [holdsNot] using h

/-- The value of a match stands in it. -/
theorem matchedOutcome_inj {xs ys : List Token}
    (h : lexemes (matchedOutcome cursor xs) = lexemes (matchedOutcome cursor ys)) :
    lexemes xs = lexemes ys := by
  simpa [matchedOutcome, cursor, runtime, code] using h

/-- A step is found in the group at its front, and the rest of the sequence in the group at its end. -/
theorem sequenceStep_inj {step step' rest rest' : List Token}
    (h : lexemes (sequenceStep step rest) = lexemes (sequenceStep step' rest')) :
    lexemes step = lexemes step' ∧ lexemes rest = lexemes rest' := by
  simpa [sequenceStep, runtime, code, List.append_singleton_inj] using h

/-- The steps of a sequence are found one inside the other, down to the match at the end. -/
theorem sequence_inj {rows rows' : List (List Token)}
    (h : lexemes (sequence rows) = lexemes (sequence rows')) :
    rows.map lexemes = rows'.map lexemes := by
  have hsteps : lexemes (rows.foldr sequenceStep (matchedOutcome cursor ["__value"])) =
      lexemes (rows'.foldr sequenceStep (matchedOutcome cursor ["__value"])) := by
    simpa [sequence, letStart, letMark, cursor, nilValue, runtime, code] using h
  -- The row is nested in the source, each part in the arm of the one before it.
  clear h
  induction rows generalizing rows' with
  | nil =>
    cases rows' with
    | nil => rfl
    | cons ts' rows' => simp [sequenceStep, matchedOutcome, runtime, code] at hsteps
  | cons ts rows ih =>
    cases rows' with
    | nil => simp [sequenceStep, matchedOutcome, runtime, code] at hsteps
    | cons ts' rows' =>
      obtain ⟨hfirst, hrest⟩ := sequenceStep_inj hsteps
      rw [List.map_cons, List.map_cons, hfirst, ih hrest]

/-- An alternative is found at the front, and what is tried after it in the group at the end. -/
theorem alternative_inj {step step' rest rest' : List Token}
    (h : lexemes (alternative step rest) = lexemes (alternative step' rest')) :
    lexemes step = lexemes step' ∧ lexemes rest = lexemes rest' := by
  simpa [alternative, runtime, code, List.append_singleton_inj] using h

/-- The alternatives of a choice are found one inside the other, down to the failure at the end. -/
theorem choice_inj {rows rows' : List (List Token)} (h : lexemes (choice rows) = lexemes (choice rows')) :
    rows.map lexemes = rows'.map lexemes := by
  induction rows generalizing rows' with
  | nil =>
    cases rows' with
    | nil => rfl
    | cons ts' rows' => simp [choice, alternative, failedOutcome, runtime, code] at h
  | cons ts rows ih =>
    cases rows' with
    | nil => simp [choice, alternative, failedOutcome, runtime, code] at h
    | cons ts' rows' =>
      obtain ⟨hfirst, hrest⟩ := alternative_inj h
      rw [List.map_cons, List.map_cons, hfirst, ih hrest]

/-- A repetition shows its body, its limits, and whether the values are kept. -/
theorem repetition_inj {ts ts' : List Token} {min min' : Nat} {max max' : Option Nat}
    {captures captures' : Bool}
    (h : lexemes (repetition ts min max captures) = lexemes (repetition ts' min' max' captures')) :
    lexemes ts = lexemes ts' ∧ min = min' ∧ max = max' ∧ captures = captures' := by
  cases max <;> cases max' <;> cases captures <;> cases captures' <;>
    simp [repetition, letStart, letMark, cursor, nilValue, valueOf, matchedOutcome, rollback, resetCursor,
      failedOutcome, runtime, code, List.append_singleton_inj] at h ⊢ <;> simp [h]

/-- The operator of a predicate stands in front of the arms. -/
theorem predicate_inj {ts ts' arms : List Token}
    (h : lexemes (predicate ts arms) = lexemes (predicate ts' arms)) : lexemes ts = lexemes ts' := by
  simpa [predicate, letStart, letMark, cursor, rollback, resetCursor, code] using h

/-- A test is no predicate on an operator. -/
theorem holds_ne_predicate (xs ts arms : List Token) : lexemes (holds xs) ≠ lexemes (predicate ts arms) := by
  simp [holds, predicate, letStart, code]

/-- Nor is a negated one. -/
theorem holdsNot_ne_predicate (xs ts arms : List Token) :
    lexemes (holdsNot xs) ≠ lexemes (predicate ts arms) := by
  simp [holdsNot, predicate, letStart, code]

/-- A tag shows the operator and the name. -/
theorem tagged_inj {ts ts' : List Token} {name name' : String}
    (h : lexemes (tagged ts name) = lexemes (tagged ts' name')) :
    lexemes ts = lexemes ts' ∧ name = name' := by
  simpa [tagged, runtime, code, List.append_singleton_inj] using h

theorem collected_inj {ts ts' : List Token} (h : lexemes (collected ts) = lexemes (collected ts')) :
    lexemes ts = lexemes ts' := by
  simpa [collected, binding, letStart, cursor, runtime, code] using h

theorem bounded_inj {ts ts' : List Token} (h : lexemes (bounded ts) = lexemes (bounded ts')) :
    lexemes ts = lexemes ts' := by
  simpa [bounded, binding, letStart, cursor, runtime, code] using h

/-- A call shows the number of the rule and the arguments. -/
theorem ruleCall_inj {method : String} {rule rule' : RuleId} {as as' : List Arg}
    (h : lexemes (ruleCall method rule as) = lexemes (ruleCall method rule' as')) :
    rule = rule' ∧ as = as' := by
  have hparts : rule = rule' ∧ lexemes (args as) = lexemes (args as') := by
    simpa [ruleCall, runtime, code] using h
  exact ⟨hparts.1, args_injective hparts.2⟩

/-- A call to a linked rule set shows both names and the arguments. -/
theorem foreignCall_inj {grammar grammar' rule rule' : String} {as as' : List Arg}
    (h : lexemes (foreignCall grammar rule as) = lexemes (foreignCall grammar' rule' as')) :
    grammar = grammar' ∧ rule = rule' ∧ as = as' := by
  have hparts : grammar = grammar' ∧ rule = rule' ∧ grammar = grammar' ∧
      lexemes (args as) = lexemes (args as') := by
    simpa [foreignCall, failedOutcome, runtime, code] using h
  obtain ⟨hgrammar, hrule, -, hargs⟩ := hparts
  exact ⟨hgrammar, hrule, args_injective hargs⟩

/-! ## Operators -/

/-- Bounds are known from their characters. -/
theorem singleChars_injective {lo hi lo' hi' : String} {bounds : Char × Char}
    (h : singleChars lo hi = some bounds) (h' : singleChars lo' hi' = some bounds) :
    lo = lo' ∧ hi = hi' := by
  have hchars : ∀ {s t : String}, singleChars s t = some bounds →
      s.toList = [bounds.1] ∧ t.toList = [bounds.2] := by
    intro s t hst
    unfold singleChars at hst
    split at hst
    case h_1 a b hs ht =>
      cases hst
      exact ⟨hs, ht⟩
    case h_2 => cases hst
  have hfirst := hchars h
  have hsecond := hchars h'
  exact ⟨String.toList_inj.1 (hfirst.1.trans hsecond.1.symm),
    String.toList_inj.1 (hfirst.2.trans hsecond.2.symm)⟩

/-- No rule is found by two names. -/
def OneName (lookup : String → Option RuleId) : Prop :=
  ∀ (name name' : String) (rule : RuleId), lookup name = some rule → lookup name' = some rule → name = name'

variable [RegexLibrary]

/-- Actions with the same number are the same after `f`, patterns with the same number are the same. -/
structure Agree (f : Action → Action) (calls calls' : Calls) (scans scans' : Scans) : Prop where
  actions : ∀ {a b : Action} {i : Nat}, (a, i) ∈ calls → (b, i) ∈ calls' → f a = f b
  patterns : ∀ {p q : Pattern} {i : Nat}, (p, i) ∈ scans → (q, i) ∈ scans' → p = q

section

variable {f : Action → Action} {calls calls' more more' : Calls} {scans scans' rest rest' : Scans}

/-- Lists of uses that agree have first parts that agree. -/
theorem Agree.left (h : Agree f (calls ++ more) (calls' ++ more') (scans ++ rest) (scans' ++ rest')) :
    Agree f calls calls' scans scans' where
  actions ha hb := h.actions (List.mem_append_left more ha) (List.mem_append_left more' hb)
  patterns hp hq := h.patterns (List.mem_append_left rest hp) (List.mem_append_left rest' hq)

/-- Their rests agree as well. -/
theorem Agree.right (h : Agree f (calls ++ more) (calls' ++ more') (scans ++ rest) (scans' ++ rest')) :
    Agree f more more' rest rest' where
  actions ha hb := h.actions (List.mem_append_right calls ha) (List.mem_append_right calls' hb)
  patterns hp hq := h.patterns (List.mem_append_right scans hp) (List.mem_append_right scans' hq)

end

section

variable {lookup : String → Option RuleId} {f : Action → Action}

mutual

/-- **An operator is known from its source**, but for its actions: equal streams are sources of equal
    trees, in which actions stand at the same places by the same numbers. -/
theorem Source.mapActions_eq (hnames : OneName lookup) {op op' : Operator} {ts ts' : List Token}
    {calls calls' : Calls} {scans scans' : Scans} (h : Source lookup op calls scans ts)
    (h' : Source lookup op' calls' scans' ts') (hagree : Agree f calls calls' scans scans')
    (hts : lexemes ts = lexemes ts') :
    op.mapActions f = op'.mapActions f := by
  have hkind : op.kind = op'.kind := by
    have hkinds := h.kindOf_eq
    rw [hts, h'.kindOf_eq] at hkinds
    exact (Option.some.inj hkinds).symm
  -- The two sources are of one kind, which leaves one case for the second operator, or two where a
  -- predicate may have been emitted as a test.
  match h with
  | .any =>
    cases h' with
    | any => rfl
    | _ => cases hkind
  | .literal s =>
    cases h' with
    | literal s' => rw [readLiteral_inj hts]
    | _ => cases hkind
  | .pattern p i =>
    cases h' with
    | pattern q j =>
      obtain rfl : i = j := readPattern_inj hts
      rw [hagree.patterns List.mem_cons_self List.mem_cons_self]
    | _ => cases hkind
  | .range hbounds =>
    cases h' with
    | range hbounds' =>
      obtain ⟨rfl, rfl⟩ := readRange_inj hts
      obtain ⟨rfl, rfl⟩ := singleChars_injective hbounds hbounds'
      rfl
    | _ => cases hkind
  | .sequence hs =>
    cases h' with
    | sequence hs' =>
      rw [Operator.mapActions, Operator.mapActions,
        Sources.mapActionsAll_eq hnames hs hs' hagree (sequence_inj hts)]
    | _ => cases hkind
  | .choice _ hs =>
    cases h' with
    | choice _ hs' =>
      rw [Operator.mapActions, Operator.mapActions,
        Sources.mapActionsAll_eq hnames hs hs' hagree (choice_inj hts)]
    | _ => cases hkind
  | .repetition h min max captures =>
    cases h' with
    | repetition h' min' max' captures' =>
      obtain ⟨hbody, rfl, rfl, rfl⟩ := repetition_inj hts
      rw [Operator.mapActions, Operator.mapActions, Source.mapActions_eq hnames h h' hagree hbody]
    | _ => cases hkind
  | .holds a i =>
    cases h' with
    -- A number stands for the same action in both, up to what `f` makes the same.
    | holds b j =>
      obtain rfl : i = j := actionCall_inj (holds_inj hts)
      have hf : f a = f b := hagree.actions List.mem_cons_self List.mem_cons_self
      rw [Operator.mapActions, Operator.mapActions, Operator.mapActions, Operator.mapActions, hf]
    | ahead _ h' => exact absurd hts (holds_ne_predicate _ _ _)
    | _ => cases hkind
  | .ahead _ h =>
    cases h' with
    | holds b j => exact absurd hts.symm (holds_ne_predicate _ _ _)
    | ahead _ h' =>
      rw [Operator.mapActions, Operator.mapActions, Source.mapActions_eq hnames h h' hagree (predicate_inj hts)]
    | _ => cases hkind
  | .holdsNot a i =>
    cases h' with
    | holdsNot b j =>
      obtain rfl : i = j := actionCall_inj (holdsNot_inj hts)
      have hf : f a = f b := hagree.actions List.mem_cons_self List.mem_cons_self
      rw [Operator.mapActions, Operator.mapActions, Operator.mapActions, Operator.mapActions, hf]
    | notAhead _ h' => exact absurd hts (holdsNot_ne_predicate _ _ _)
    | _ => cases hkind
  | .notAhead _ h =>
    cases h' with
    | holdsNot b j => exact absurd hts.symm (holdsNot_ne_predicate _ _ _)
    | notAhead _ h' =>
      rw [Operator.mapActions, Operator.mapActions, Source.mapActions_eq hnames h h' hagree (predicate_inj hts)]
    | _ => cases hkind
  | .tag h name =>
    cases h' with
    | tag h' name' =>
      obtain ⟨hbody, rfl⟩ := tagged_inj hts
      rw [Operator.mapActions, Operator.mapActions, Source.mapActions_eq hnames h h' hagree hbody]
    | _ => cases hkind
  | .action a i =>
    cases h' with
    | action b j =>
      obtain rfl : i = j := actionCall_inj (matchedOutcome_inj hts)
      have hf : f a = f b := hagree.actions List.mem_cons_self List.mem_cons_self
      rw [Operator.mapActions, Operator.mapActions, hf]
    | _ => cases hkind
  | .collect h =>
    cases h' with
    | collect h' =>
      rw [Operator.mapActions, Operator.mapActions, Source.mapActions_eq hnames h h' hagree (collected_inj hts)]
    | _ => cases hkind
  | .bounds h =>
    cases h' with
    | bounds h' =>
      rw [Operator.mapActions, Operator.mapActions, Source.mapActions_eq hnames h h' hagree (bounded_inj hts)]
    | _ => cases hkind
  | .call hrule args =>
    cases h' with
    | call hrule' args' =>
      obtain ⟨rfl, rfl⟩ := ruleCall_inj hts
      rw [hnames _ _ _ hrule hrule']
    | _ => cases hkind
  | .direct hrule args =>
    cases h' with
    | direct hrule' args' =>
      obtain ⟨rfl, rfl⟩ := ruleCall_inj hts
      rw [hnames _ _ _ hrule hrule']
    | _ => cases hkind
  | .foreign grammar rule args =>
    cases h' with
    | «foreign» grammar' rule' args' =>
      obtain ⟨rfl, rfl, rfl⟩ := foreignCall_inj hts
      rfl
    | _ => cases hkind

/-- Rows of equal streams are sources of equal rows of trees, one after the other. -/
theorem Sources.mapActionsAll_eq (hnames : OneName lookup) {ops ops' : List Operator}
    {rows rows' : List (List Token)} {calls calls' : Calls} {scans scans' : Scans}
    (h : Sources lookup ops calls scans rows) (h' : Sources lookup ops' calls' scans' rows')
    (hagree : Agree f calls calls' scans scans') (hrows : rows.map lexemes = rows'.map lexemes) :
    Operator.mapActionsAll f ops = Operator.mapActionsAll f ops' := by
  match h with
  | .nil =>
    cases h' with
    | nil => rfl
    | cons h' hs' => cases hrows
  | .cons h hs =>
    cases h' with
    | nil => cases hrows
    | cons h' hs' =>
      obtain ⟨hfirst, hrest⟩ := List.cons.inj hrows
      rw [Operator.mapActionsAll, Operator.mapActionsAll, Source.mapActions_eq hnames h h' hagree.left hfirst,
        Sources.mapActionsAll_eq hnames hs hs' hagree.right hrest]

end

end

end Emit

end MemoPeg
