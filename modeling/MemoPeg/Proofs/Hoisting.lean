import MemoPeg.Proofs.Readback

/-
  Marks behind a predicate look as if they were under its sign.

  1. **Texts (`renderAt_sequence`, `renderAt_choice`)** — where parentheses are put.
  2. **Plain operators (`Plain`)** — no patterns, no actions, no arguments, no captures, and every sequence
     and every choice has two operators at least.  These are the operators whose texts say all about them
     but the order of signs and marks.
  3. **Hoisting (`hoisted`)** — a sign is written in front and a mark behind, and no parentheses show which
     of them is the outer one.  With all marks under the signs the text stays what it is
     (`Plain.renderAt_hoisted`), and no mark is behind a predicate any more (`Plain.upright_hoisted`).

  Hoisting chooses one operator among those with the same text: the one that a reader takes it for, to
  whom `&a*` is a predicate on `a*`.  It is idle on operators without marks behind predicates
  (`Upright.hoisted_eq`), so for these the text tells everything.  For the others it shows what exactly is
  lost.
-/

namespace MemoPeg

namespace Operator

variable [RegexLibrary]

/-! ## The texts of operators -/

/-- A row is written part by part. -/
theorem renderAll_eq (place : Place) (ops : List Operator) :
    renderAll place ops = ops.map (renderAt place) := by
  induction ops with
  | nil => rfl
  | cons op ops ih => rw [renderAll, ih, List.map_cons]

omit [RegexLibrary] in
/-- Two texts or more are joined by a separator behind the first. -/
theorem joined_cons_cons (sep t u : Text) (ts : List Text) :
    joined sep (t :: u :: ts) = t ++ (sep ++ joined sep (u :: ts)) := by
  rw [joined, List.append_assoc]
  exact fun h => List.cons_ne_nil u ts h

omit [RegexLibrary] in
/-- What is joined begins with the first text. -/
theorem exists_joined_cons (sep t : Text) (ts : List Text) : ∃ u, joined sep (t :: ts) = t ++ u := by
  cases ts with
  | nil => exact ⟨[], by rw [joined, List.append_nil]⟩
  | cons t' ts => exact ⟨_, joined_cons_cons sep t t' ts⟩

/-- A row of two or more stands in parentheses as an operand. -/
theorem renderAt_sequence {ops : List Operator} (hlen : 2 ≤ ops.length) (place : Place) :
    renderAt place (.sequence ops) =
      parenthesized (place = .operand) (joined [' '] (ops.map (renderAt .operand))) := by
  match ops, hlen with
  | op :: op' :: ops, _ =>
    rw [renderAt, renderAll_eq]
    · simp
    · simp

/-- A choice of two or more stands in parentheses inside anything else. -/
theorem renderAt_choice {ops : List Operator} (hlen : 2 ≤ ops.length) (place : Place) :
    renderAt place (.choice ops) =
      parenthesized (place ≠ .open) (joined [' ', '|', ' '] (ops.map (renderAt .alternative))) := by
  match ops, hlen with
  | op :: op' :: ops, _ =>
    rw [renderAt, renderAll_eq]
    · simp
    · simp

/-! ## Plain operators -/

/-- The operators whose texts consist of signs, names and quoted texts alone, with marks only behind
    operators as given. -/
inductive Plain (Markable : Operator → Prop) : Operator → Prop
  | any : Plain Markable .any
  | literal (s : String) : Plain Markable (.literal s)
  | range {lo hi : String} (h : (singleChars lo hi).isSome) : Plain Markable (.range lo hi)
  | call {rule : String} (h : IsName rule) : Plain Markable (.call rule [])
  | direct {rule : String} (h : IsName rule) : Plain Markable (.direct rule [])
  | sequence {ops : List Operator} (hlen : 2 ≤ ops.length) (hops : ∀ op ∈ ops, Plain Markable op) :
      Plain Markable (.sequence ops)
  | choice {ops : List Operator} (hlen : 2 ≤ ops.length) (hops : ∀ op ∈ ops, Plain Markable op) :
      Plain Markable (.choice ops)
  | repetition {op : Operator} (min : Nat) (max : Option Nat) (hop : Plain Markable op)
      (hmark : Markable op) : Plain Markable (.repetition op min max false)
  | ahead {op : Operator} (hop : Plain Markable op) : Plain Markable (.ahead op)
  | notAhead {op : Operator} (hop : Plain Markable op) : Plain Markable (.notAhead op)
  | tag {op : Operator} {name : String} (hname : IsName name) (hop : Plain Markable op)
      (hmark : Markable op) : Plain Markable (.tag op name)
  | collect {op : Operator} (hop : Plain Markable op) : Plain Markable (.collect op)
  | bounds {op : Operator} (hop : Plain Markable op) : Plain Markable (.bounds op)

/-- No predicate: marks behind the operator do not look as if they were under its sign. -/
def Unsigned : Operator → Prop
  | .ahead _ | .notAhead _ => False
  | _ => True

/-- Plain, with marks wherever there may be any. -/
abbrev Marked : Operator → Prop := Plain fun _ => True

/-- Plain, with no marks behind predicates. -/
abbrev Upright : Operator → Prop := Plain Unsigned

/-! ## Predicates move out -/

/-- Puts marks under the signs of an operator. -/
def underSigns (mark : Operator → Operator) : Operator → Operator
  | .ahead op => .ahead (underSigns mark op)
  | .notAhead op => .notAhead (underSigns mark op)
  | op => mark op

mutual

/-- The operator with all marks under the signs of what they are on. -/
def hoisted : Operator → Operator
  | .sequence ops => .sequence (hoistedAll ops)
  | .choice ops => .choice (hoistedAll ops)
  | .repetition op min max captures => underSigns (.repetition · min max captures) (hoisted op)
  | .ahead op => .ahead (hoisted op)
  | .notAhead op => .notAhead (hoisted op)
  | .tag op name => underSigns (.tag · name) (hoisted op)
  | .collect op => .collect (hoisted op)
  | .bounds op => .bounds (hoisted op)
  | op => op

/-- A row of operators with all marks under signs. -/
def hoistedAll : List Operator → List Operator
  | [] => []
  | op :: ops => hoisted op :: hoistedAll ops

end

/-- A row is hoisted part by part. -/
theorem hoistedAll_eq (ops : List Operator) : hoistedAll ops = ops.map hoisted := by
  induction ops with
  | nil => rfl
  | cons op ops ih => rw [hoistedAll, ih, List.map_cons]

section UnderSigns

variable {mark : Operator → Operator}

/-- A mark is put on an operator without signs as it is. -/
theorem underSigns_of_unsigned {op : Operator} (h : op.Unsigned) : underSigns mark op = mark op := by
  cases op with
  | ahead op => exact h.elim
  | notAhead op => exact h.elim
  | _ => rfl

/-- Marks are written behind an operator, whether they are under its signs or not. -/
theorem renderAt_underSigns {sign : Text}
    (hmark : ∀ place op, renderAt place (mark op) = renderAt .operand op ++ sign) (op : Operator) :
    ∀ place, renderAt place (underSigns mark op) = renderAt .operand op ++ sign := by
  fun_induction underSigns mark op with
  | case1 op ih =>
    intro place
    rw [renderAt, renderAt, ih, List.cons_append]
  | case2 op ih =>
    intro place
    rw [renderAt, renderAt, ih, List.cons_append]
  | case3 op _ _ => exact fun place => hmark place op

/-- A mark under the signs leaves no mark behind a predicate. -/
theorem upright_underSigns (hmark : ∀ op : Operator, op.Upright → op.Unsigned → (mark op).Upright)
    {op : Operator} (h : op.Upright) : (underSigns mark op).Upright := by
  induction h with
  | ahead hop ih => exact .ahead ih
  | notAhead hop ih => exact .notAhead ih
  | _ => exact hmark _ (by constructor <;> assumption) trivial

end UnderSigns

/-- With all marks under signs, no mark is behind a predicate. -/
theorem Plain.upright_hoisted {Markable : Operator → Prop} {op : Operator} (h : Plain Markable op) :
    op.hoisted.Upright := by
  have hrow : ∀ ops : List Operator, (∀ op ∈ ops, op.hoisted.Upright) →
      ∀ op ∈ hoistedAll ops, op.Upright := by
    intro ops hops hoisted hmem
    rw [hoistedAll_eq] at hmem
    obtain ⟨op, hop, rfl⟩ := List.mem_map.1 hmem
    exact hops op hop
  have hlength : ∀ ops : List Operator, 2 ≤ ops.length → 2 ≤ (hoistedAll ops).length := by
    intro ops hlen
    rwa [hoistedAll_eq, List.length_map]
  -- A mark goes under the signs of what has been hoisted already, where no mark is behind a sign.
  induction h with
  | any => exact .any
  | literal s => exact .literal s
  | range h => exact .range h
  | call h => exact .call h
  | direct h => exact .direct h
  | sequence hlen hops ih => exact .sequence (hlength _ hlen) (hrow _ ih)
  | choice hlen hops ih => exact .choice (hlength _ hlen) (hrow _ ih)
  | repetition min max hop hmark ih => exact upright_underSigns (fun _ => .repetition min max) ih
  | ahead hop ih => exact .ahead ih
  | notAhead hop ih => exact .notAhead ih
  | tag hname hop hmark ih => exact upright_underSigns (fun _ => .tag hname) ih
  | collect hop ih => exact .collect ih
  | bounds hop ih => exact .bounds ih

/-- The text does not show whether marks are under a sign. -/
theorem Plain.renderAt_hoisted {Markable : Operator → Prop} {op : Operator} (h : Plain Markable op) :
    ∀ place, renderAt place op.hoisted = renderAt place op := by
  have hrow : ∀ (place : Place) (ops : List Operator),
      (∀ op ∈ ops, ∀ place, renderAt place op.hoisted = renderAt place op) →
      (hoistedAll ops).map (renderAt place) = ops.map (renderAt place) := by
    intro place ops hops
    rw [hoistedAll_eq, List.map_map]
    exact List.map_congr_left fun op hmem => hops op hmem place
  have hlength : ∀ ops : List Operator, (hoistedAll ops).length = ops.length := by
    intro ops
    rw [hoistedAll_eq, List.length_map]
  -- Only marks move; a row keeps its length, and so its parentheses.
  induction h with
  | any | literal _ | range _ | call _ | direct _ => exact fun _ => rfl
  | sequence hlen hops ih =>
    intro place
    rw [hoisted, renderAt_sequence (by rwa [hlength]), renderAt_sequence hlen, hrow _ _ ih]
  | choice hlen hops ih =>
    intro place
    rw [hoisted, renderAt_choice (by rwa [hlength]), renderAt_choice hlen, hrow _ _ ih]
  | repetition min max hop hmark ih =>
    intro place
    rw [hoisted, renderAt_underSigns fun place op => by rw [renderAt], ih, renderAt]
  | tag hname hop hmark ih =>
    intro place
    rw [hoisted, renderAt_underSigns fun place op => by rw [renderAt], ih, renderAt]
  | ahead hop ih | notAhead hop ih | collect hop ih | bounds hop ih =>
    intro place
    rw [hoisted, renderAt, ih, renderAt]

/-- There is nothing to hoist where no marks are behind predicates. -/
theorem Upright.hoisted_eq {op : Operator} (h : op.Upright) : op.hoisted = op := by
  have hrow : ∀ ops : List Operator, (∀ op ∈ ops, op.hoisted = op) → hoistedAll ops = ops := by
    intro ops hops
    rw [hoistedAll_eq, List.map_congr_left hops, List.map_id']
  induction h with
  | any | literal _ | range _ | call _ | direct _ => rfl
  | sequence hlen hops ih | choice hlen hops ih => rw [hoisted, hrow _ ih]
  | repetition min max hop hmark ih => rw [hoisted, ih, underSigns_of_unsigned hmark]
  | tag hname hop hmark ih => rw [hoisted, ih, underSigns_of_unsigned hmark]
  | ahead hop ih | notAhead hop ih | collect hop ih | bounds hop ih => rw [hoisted, ih]

end Operator

end MemoPeg
