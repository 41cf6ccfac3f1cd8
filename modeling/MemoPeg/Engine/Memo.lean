import MemoPeg.Engine.PosMap
import MemoPeg.RuleSet.Basic

/-
  The memo table: what is known of a rule at a position.

  1. **Key** — a rule, the position it was tried at, and the arguments it was given.  Calls of one rule
     at one position with other arguments have entries of their own.
  2. **Status** — still in progress, matched, or failed.  An entry in progress remembers whether the
     rule has called itself there, which is how left recursion shows.
  3. **Answer** — a status, and with it the end and the value that are recorded.  Every answer has
     both, whatever its status: an entry is made with the position of its key and no value, and so is
     a failure recorded (`Answer.parked`).  That no others come up but for matches is not built in;
     it is a property of the tables of engines that have run.
  4. **Memo** — the entries, in a row for each position.  Entries are added and changed, never
     removed.
  5. **Look-ups** — whatever is done to the entry of one key, the entries of the others are as they
     were (`find?_start`, `find?_modify`).  All else that is proved of tables goes through these two.
  6. **Answers alike (`AllAnswers`)** — what holds of every answer in a table goes on to hold when an
     entry is made or changed, if it holds of the answer that is put there.

  A row is searched from its newest entry on, and `start` does not look whether its key has an entry
  already.  An older entry of the same key would be hidden, not changed.  The engine opens a call only
  after a look-up has found nothing, so there never is one; the lemmas here do not rely on that.
-/

namespace MemoPeg

/-- What an entry of the memo table is about. -/
structure Key where
  rule : RuleId
  pos : Nat
  args : List Value
deriving DecidableEq

/-- How it stands with a rule at a position. -/
inductive Status where
  /-- The rule is being tried; `detected` once it has called itself there. -/
  | inProgress (detected : Bool)
  | matched
  | failed
deriving DecidableEq

/-- What is recorded of a rule at a position: how it stands, and an end and a value. -/
structure Answer where
  status : Status
  stop : Nat
  value : Value
deriving DecidableEq

namespace Answer

/-- The answer that is recorded of a match. -/
@[match_pattern] abbrev matched (stop : Nat) (value : Value) : Answer := ⟨.matched, stop, value⟩

/-- The answer that is recorded of anything but a match: it ends at the position of its key and has
    no value. -/
abbrev parked (status : Status) (pos : Nat) : Answer := ⟨status, pos, .nil⟩

end Answer

/-- An entry of the memo table; `uses` counts how often it was made or looked up. -/
structure Entry where
  answer : Answer
  uses : Nat
deriving DecidableEq

namespace Entry

/-- The entry of a rule that is about to be tried at a position. -/
def new (pos : Nat) : Entry := ⟨.parked (.inProgress false) pos, 1⟩

/-- The rule is being tried. -/
def isInProgress (entry : Entry) : Bool :=
  match entry.answer.status with
  | .inProgress _ => true
  | .matched | .failed => false

/-- An entry in progress is one whose answer says so, detected or not. -/
theorem isInProgress_iff {entry : Entry} :
    entry.isInProgress = true ↔ ∃ detected, entry.answer.status = .inProgress detected := by
  unfold isInProgress
  cases entry.answer.status with
  | inProgress detected => exact ⟨fun _ => ⟨detected, rfl⟩, fun _ => rfl⟩
  | matched => exact ⟨fun h => (by cases h), fun ⟨_, h⟩ => by cases h⟩
  | failed => exact ⟨fun h => (by cases h), fun ⟨_, h⟩ => by cases h⟩

end Entry

/-- The entries of one position, newest first. -/
abbrev Row := List (Key × Entry)

namespace Row

/-- The entry of a key. -/
def find? : Row → Key → Option Entry
  | [], _ => none
  | (k, entry) :: row, key => if k = key then some entry else find? row key

/-- Changes the entry of a key. -/
def modify (f : Entry → Entry) : Row → Key → Row
  | [], _ => []
  | (k, entry) :: row, key =>
    if k = key then (k, f entry) :: row else (k, entry) :: modify f row key

/-- A change concerns the entry of its key only. -/
theorem find?_modify (f : Entry → Entry) (row : Row) (key other : Key) :
    find? (modify f row key) other = if key = other then (find? row other).map f else find? row other := by
  induction row with
  | nil => split <;> rfl
  | cons m row ih =>
    obtain ⟨k, entry⟩ := m
    by_cases hk : k = key
    · subst hk
      by_cases h : k = other <;> simp [modify, find?, h]
    · by_cases h : key = other
      · subst h
        simp [modify, find?, hk, ih]
      · simp [modify, find?, hk, ih, h]

end Row

/-- The memo table. -/
structure Memo where
  rows : PosMap Row
deriving DecidableEq

namespace Memo

/-- The table without entries. -/
def empty : Memo := ⟨.empty⟩

/-- The entry of a key. -/
def find? (memo : Memo) (key : Key) : Option Entry :=
  (memo.rows.find? key.pos).bind (Row.find? · key)

/-- Adds an entry for a rule that is about to be tried. -/
def start (memo : Memo) (key : Key) : Memo :=
  ⟨memo.rows.alter (fun row => some ((key, .new key.pos) :: row.getD [])) key.pos⟩

/-- Changes the entry of a key. -/
def modify (f : Entry → Entry) (memo : Memo) (key : Key) : Memo :=
  ⟨memo.rows.alter (·.map fun row => row.modify f key) key.pos⟩

/-- Counts a use of an entry. -/
def use (memo : Memo) (key : Key) : Memo :=
  memo.modify (fun entry => { entry with uses := entry.uses + 1 }) key

/-- Records an answer, if there is an entry. -/
def settle (memo : Memo) (key : Key) (answer : Answer) : Memo :=
  memo.modify (fun entry => { entry with answer := answer }) key

/-- All entries. -/
def entries (memo : Memo) : List (Key × Entry) := memo.rows.toList.flatten

/-! ## What a change does to a look-up -/

/-- A table without entries knows nothing. -/
@[simp] theorem find?_empty (key : Key) : empty.find? key = none := rfl

/-- A new entry hides no other. -/
theorem find?_start (memo : Memo) (key other : Key) :
    (memo.start key).find? other =
      if key = other then some (.new key.pos) else memo.find? other := by
  unfold find? start
  rw [PosMap.find?_alter]
  -- Keys of other positions are in other rows, which are not touched at all.
  by_cases hpos : key.pos = other.pos
  · rw [if_pos hpos, Option.bind_some, Row.find?]
    by_cases h : key = other
    · rw [if_pos h, if_pos h]
    · rw [if_neg h, if_neg h]
      cases memo.rows.find? other.pos <;> rfl
  · rw [if_neg hpos, if_neg fun h => hpos (congrArg Key.pos h)]

/-- A change concerns the entry of its key only. -/
theorem find?_modify (f : Entry → Entry) (memo : Memo) (key other : Key) :
    (modify f memo key).find? other =
      if key = other then (memo.find? other).map f else memo.find? other := by
  unfold find? modify
  rw [PosMap.find?_alter]
  by_cases hpos : key.pos = other.pos
  · rw [if_pos hpos]
    cases memo.rows.find? other.pos with
    | none => split <;> rfl
    | some row => exact Row.find?_modify f row key other
  · rw [if_neg hpos, if_neg fun h => hpos (congrArg Key.pos h)]

/-! ## What holds of every entry -/

/-- This holds of every key that has an entry and of the answer recorded in it. -/
def AllAnswers (P : Key → Answer → Prop) (memo : Memo) : Prop :=
  ∀ key entry, memo.find? key = some entry → P key entry.answer

section

variable {P : Key → Answer → Prop} {memo : Memo}

/-- A table without entries has no answers. -/
theorem allAnswers_empty : empty.AllAnswers P := fun _ _ hfind => by cases hfind

/-- A new entry has the answer of a rule that is being tried. -/
theorem AllAnswers.start (h : memo.AllAnswers P) {key : Key}
    (hkey : P key (.parked (.inProgress false) key.pos)) : (memo.start key).AllAnswers P := by
  intro other entry hfind
  rw [find?_start] at hfind
  by_cases heq : key = other
  · -- The entry that was found is the new one.
    rw [if_pos heq] at hfind
    cases hfind
    exact heq ▸ hkey
  · rw [if_neg heq] at hfind
    exact h other entry hfind

/-- Counting a use leaves the answers as they are. -/
theorem AllAnswers.use (h : memo.AllAnswers P) (key : Key) : (memo.use key).AllAnswers P := by
  intro other entry hfind
  rw [Memo.use, find?_modify] at hfind
  split at hfind
  · obtain ⟨old, hold, rfl⟩ := Option.map_eq_some_iff.1 hfind
    exact h other old hold
  · exact h other entry hfind

/-- Recording an answer replaces that of its key, if there is one. -/
theorem AllAnswers.settle (h : memo.AllAnswers P) {key : Key} {answer : Answer} (hkey : P key answer) :
    (memo.settle key answer).AllAnswers P := by
  intro other entry hfind
  rw [Memo.settle, find?_modify] at hfind
  by_cases heq : key = other
  · rw [if_pos heq] at hfind
    obtain ⟨old, -, rfl⟩ := Option.map_eq_some_iff.1 hfind
    exact heq ▸ hkey
  · rw [if_neg heq] at hfind
    exact h other entry hfind

end

/-! ## Listing -/

/-- Entries compared by rule, then by position. -/
def before (a b : Key × Entry) : Bool :=
  a.1.rule < b.1.rule || (a.1.rule == b.1.rule && a.1.pos ≤ b.1.pos)

/-- The entries made without arguments, ordered by rule and position. -/
def plain (memo : Memo) : List (Key × Entry) :=
  (memo.entries.filter fun m => m.1.args.isEmpty).mergeSort before

end Memo

end MemoPeg
