import MemoPeg.Proofs.Hoisting
import MemoPeg.Regex.Reader

/-
  What the text of an operator shows.

  The text of a rule is what users are shown of it.  How much of the operator is in there is answered by
  reading it back: a reader is given, and is shown to return what was written.

  1. **Ends** — where an operand, a row and what stands between brackets end.  Texts are read back with
     something behind them, and what that is decides how far an operand reaches.
  2. **Marks (`Bears`)** — marks stand behind what they are on, so that an operand is read from the left with
     the rest still to come: what is read at it is what its marks are read as.
  3. **Reading back (`Upright.readable`)** — one induction on the operator, which says at once how it is read
     as an operand, as a row and alone.  Parentheses lead from the last of these to the first.
  4. **The theorem (`render_shows_structure`)** — so the text determines a plain operator up to marks under
     signs, and determines it if there are no marks behind predicates.

  The sign of a predicate stands before its operand, and a mark on a predicate is written behind that operand,
  without parentheses.  So a repeated predicate and a predicate of a repetition have one text.  `hoisted`
  takes an operator to the one that the reader makes of its text, with all marks under the signs; that
  nothing else is lost is 4, and that this much is lost is `repeated_sign_renders_alike`.

  Not all operators are plain: names must be names, rows must have two elements, and ranges must be of
  single characters, for else the text does not show where they end or how many there are.
-/

namespace MemoPeg

namespace Operator

/-! ## Where texts end -/

/-- An operand ends here. -/
def EndsOperand (t : Text) : Prop := ∀ c ∈ t.head?, c = ' ' ∨ c = ')'

/-- A row of elements ends here. -/
def EndsRow (t : Text) : Prop := EndsOperand t ∧ nextElement? t = none

/-- What is written alone or between brackets ends here. -/
def EndsOpen (t : Text) : Prop := EndsRow t ∧ nextAlternative? t = none

/-- The end of the text ends everything. -/
theorem endsOpen_nil : EndsOpen [] := ⟨⟨fun _ h => (Option.not_mem_none _ h).elim, rfl⟩, rfl⟩

/-- A closing parenthesis ends everything. -/
theorem endsOpen_parenthesis (t : Text) : EndsOpen (')' :: t) :=
  ⟨⟨fun _ h => .inr (Option.some.inj h).symm, rfl⟩, rfl⟩

/-- A closing angle ends everything; the space before it would go on with a row, but for the angle behind. -/
theorem endsOpen_angle (t : Text) : EndsOpen (' ' :: '>' :: t) :=
  ⟨⟨fun _ h => .inl (Option.some.inj h).symm, rfl⟩, rfl⟩

/-- A bar ends a row, but goes on with alternatives. -/
theorem endsRow_bar (t : Text) : EndsRow (' ' :: '|' :: t) :=
  ⟨fun _ h => .inl (Option.some.inj h).symm, rfl⟩

/-- A space ends an operand. -/
theorem endsOperand_space (t : Text) : EndsOperand (' ' :: t) :=
  fun _ h => .inl (Option.some.inj h).symm

/-- Where an operand ends, so does a name. -/
theorem EndsOperand.endsName {t : Text} (h : EndsOperand t) : EndsName t := by
  intro c hc
  rcases h c hc with rfl | rfl <;> decide

section

variable [RegexLibrary]

/-- There are no marks where an operand ends. -/
theorem EndsOperand.readMarks {t : Text} (h : EndsOperand t) (op : Operator) :
    Reads (readMarks op · t) (op, t) := by
  refine .of_succ ⟨0, fun n _ => ?_⟩
  cases t with
  | nil => rfl
  | cons c t => rcases h c rfl with rfl | rfl <;> rfl

/-! ## Marks -/

omit [RegexLibrary] in
/-- Limits are read back from between their brackets. -/
theorem readLimits_eq (min max : Nat) (t : Text) :
    readLimits (Nat.toDigits 10 min ++ ',' :: ' ' :: (Nat.toDigits 10 max ++ ']' :: t)) =
      some ((min, some max), t) := by
  simp only [readLimits, readNumber_eq min (c := ',') rfl, readNumber_eq max (c := ']') rfl]

omit [RegexLibrary] in
/-- A lower limit is read back if there is no upper one. -/
theorem readLimits_unlimited (min : Nat) (t : Text) :
    readLimits (Nat.toDigits 10 min ++ ',' :: ']' :: t) = some ((min, none), t) := by
  simp only [readLimits, readNumber_eq min (c := ',') rfl]

/-- The sign of a repetition is read as that repetition. -/
theorem readMarks_repetitionSign (op : Operator) (min : Nat) (max : Option Nat) (n : Nat) (t : Text) :
    readMarks op (n + 1) (repetitionSign min max ++ t) = readMarks (.repetition op min max false) n t := by
  unfold repetitionSign
  split
  case h_1 => rfl
  case h_2 => rfl
  case h_3 => rfl
  case h_4 _ _ max _ =>
    have hlimits := readLimits_eq min max t
    simp only [List.cons_append, List.append_assoc, List.nil_append]
    rw [readMarks, hlimits, Option.bind_some]
  case h_5 =>
    have hlimits := readLimits_unlimited min t
    simp only [List.cons_append, List.append_assoc, List.nil_append]
    rw [readMarks, hlimits, Option.bind_some]

omit [RegexLibrary] in
/-- The sign of a repetition ends a name: it is no letter. -/
theorem endsName_repetitionSign (min : Nat) (max : Option Nat) (t : Text) :
    EndsName (repetitionSign min max ++ t) := by
  intro c hc
  unfold repetitionSign at hc
  split at hc <;> obtain rfl := Option.some.inj hc <;> decide

/-- What is read at an operand is what its marks are read as. -/
def Bears (op : Operator) : Prop :=
  ∀ (t : Text) (result : Operator × Text), EndsName t → Reads (readMarks op · t) result →
    Reads (readOperand · (renderAt .operand op ++ t)) result

namespace Bears

/-- A sign that stands for itself ends by itself, and so bears marks. -/
theorem any : Bears .any := fun _ _ _ h => .of_succ h

theorem literal (s : String) : Bears (.literal s) := by
  intro t result _ h
  have hquoted :
      Reads (Quoted.readQuoted · (s.toList.flatMap (Quoted.escape '"') ++ '"' :: t)) (s.toList, t) :=
    ⟨s.toList.length + 1, fun n hn => Quoted.readQuoted_eq s.toList t n hn⟩
  have hs : String.ofList s.toList = s := String.ofList_toList
  have htext : renderAt .operand (.literal s) ++ t =
      '"' :: (s.toList.flatMap (Quoted.escape '"') ++ '"' :: t) := by
    rw [renderAt, Quoted.quoteText, List.cons_append, List.cons_append, List.append_assoc]
    rfl
  rw [htext]
  exact .of_succ (hquoted.bind (by simpa only [hs] using h))

theorem range {lo hi : String} (h : (singleChars lo hi).isSome) : Bears (.range lo hi) := by
  intro t result _ hmarks
  unfold singleChars at h
  split at h
  case h_2 => cases h
  case h_1 a b hlo hhi =>
    have hranges : String.ofList [a] = lo ∧ String.ofList [b] = hi := by
      rw [← hlo, ← hhi, String.ofList_toList, String.ofList_toList]
      exact ⟨rfl, rfl⟩
    rw [renderAt, hlo, hhi]
    refine .of_succ ?_
    show Reads (readMarks (.range (String.ofList [a]) (String.ofList [b])) · t) result
    rwa [hranges.1, hranges.2]

/-- A name ends where a mark begins, and so bears marks too. -/
theorem call {rule : String} (h : IsName rule) : Bears (.call rule []) := by
  intro t result hend hmarks
  have hname := readName_eq h hend
  obtain ⟨c, cs, hrule, hc⟩ := h.front
  rw [renderAt, argsText, List.isEmpty_nil, if_pos rfl, List.append_nil]
  rw [hrule, List.cons_append] at hname ⊢
  refine .of_succ ?_
  simp only [readOperand, if_pos hc, hname]
  exact hmarks

theorem direct {rule : String} (h : IsName rule) : Bears (.direct rule []) := by
  intro t result hend hmarks
  have hname := readName_eq h hend
  obtain ⟨c, cs, hrule, hc⟩ := h.front
  -- It is no opening angle that follows the sign.
  have hne : c ≠ '<' := by
    rintro rfl
    revert hc
    decide
  rw [renderAt, argsText, List.isEmpty_nil, if_pos rfl, List.append_nil]
  rw [hrule, List.cons_append] at hname
  rw [hrule, List.cons_append, List.cons_append]
  have hstep : ∀ n, readOperand (n + 1) ('@' :: c :: (cs ++ t)) = readMarks (.direct rule []) n t := by
    intro n
    rw [readOperand, if_neg (by decide), hname]
    exact fun _ hangle => hne (List.cons.inj hangle).1
  refine .of_succ ?_
  simp only [hstep]
  exact hmarks

/-- What bears a mark bears a second one behind it. -/
theorem repetition {op : Operator} (h : Bears op) (min : Nat) (max : Option Nat) :
    Bears (.repetition op min max false) := by
  intro t result _ hmarks
  rw [renderAt, List.append_assoc]
  refine h _ _ (endsName_repetitionSign min max t) (.of_succ ?_)
  simp only [readMarks_repetitionSign]
  exact hmarks

/-- A tag is a mark with a name, which ends where the next mark begins. -/
theorem tag {op : Operator} {name : String} (hname : IsName name) (h : Bears op) : Bears (.tag op name) := by
  intro t result hend hmarks
  rw [renderAt, List.append_assoc, List.cons_append]
  refine h _ _ (fun c hc => ?_) (.of_succ ?_)
  · obtain rfl := Option.some.inj hc
    decide
  · simp only [readMarks, readName_eq hname hend]
    exact hmarks

end Bears

/-! ## Reading back -/

/-- The elements of a row: an operator that is no sequence is the only one. -/
def elements : Operator → List Operator
  | .sequence ops => ops
  | op => [op]

/-- The alternatives of an operator: one that is no choice is the only one. -/
def alternatives : Operator → List Operator
  | .choice ops => ops
  | op => [op]

/-- The text of an operand does not begin like a bar or like a closing angle. -/
theorem Plain.front {Markable : Operator → Prop} {op : Operator} (h : Plain Markable op) :
    ∃ c t, renderAt .operand op = c :: t ∧ c ≠ '|' ∧ c ≠ '>' := by
  have hname : ∀ {name : String}, IsName name →
      ∀ t, ∃ c u, name.toList ++ t = c :: u ∧ c ≠ '|' ∧ c ≠ '>' := by
    intro name hname t
    obtain ⟨c, cs, hcs, hc⟩ := hname.front
    refine ⟨c, cs ++ t, by rw [hcs, List.cons_append], ?_, ?_⟩ <;> rintro rfl <;> revert hc <;> decide
  -- Marks are behind, so an operand begins as what they are on.
  induction h with
  | any | literal _ | range _ | direct _ | ahead _ _ | notAhead _ _ | collect _ _ | bounds _ _ =>
    exact ⟨_, _, rfl, by decide, by decide⟩
  | call h =>
    rw [renderAt]
    exact hname h _
  | sequence hlen _ _ =>
    rw [renderAt_sequence hlen]
    exact ⟨'(', _, rfl, by decide, by decide⟩
  | choice hlen _ _ =>
    rw [renderAt_choice hlen]
    exact ⟨'(', _, rfl, by decide, by decide⟩
  | repetition min max _ _ ih | tag _ _ _ ih =>
    obtain ⟨c, t, ht, hc⟩ := ih
    rw [renderAt, ht]
    exact ⟨c, _, rfl, hc⟩

/-- As an operand, this is read back. -/
def ReadsAsOperand (op : Operator) : Prop :=
  ∀ t, EndsOperand t → Reads (readOperand · (renderAt .operand op ++ t)) (op, t)

/-- As an alternative, this is read back by its elements. -/
def ReadsAsRow (op : Operator) : Prop :=
  ∀ t, EndsRow t → Reads (readRow · (renderAt .alternative op ++ t)) (op.elements, t)

/-- Alone, this is read back by its alternatives. -/
def ReadsAlone (op : Operator) : Prop :=
  ∀ t, EndsOpen t → Reads (readAlternatives · (renderAt .open op ++ t)) (op.alternatives, t)

/-- An operator is read back at each place, with marks if there may be any. -/
structure Readable (op : Operator) : Prop where
  bears : op.Unsigned → op.Bears
  operand : op.ReadsAsOperand
  row : op.ReadsAsRow
  alone : op.ReadsAlone

/-- A space goes on with a row, if what follows it is an operand. -/
theorem nextElement?_row {op : Operator} (hplain : op.Upright) (ops : List Operator) (t : Text) :
    nextElement? (' ' :: (joined [' '] ((op :: ops).map (renderAt .operand)) ++ t)) =
      some (joined [' '] ((op :: ops).map (renderAt .operand)) ++ t) := by
  obtain ⟨c, u, hu, hbar, hangle⟩ := hplain.front
  obtain ⟨v, hv⟩ := exists_joined_cons [' '] (renderAt .operand op) (ops.map (renderAt .operand))
  rw [List.map_cons, hv, hu, List.cons_append, List.cons_append, nextElement?]
  · exact fun w hw => hbar (List.cons.inj hw).1
  · exact fun w hw => hangle (List.cons.inj hw).1

/-- A row of operands is read one by one. -/
theorem reads_row : ∀ {ops : List Operator}, ops ≠ [] → (∀ op ∈ ops, op.Upright) →
    (∀ op ∈ ops, op.ReadsAsOperand) → ∀ {t : Text}, EndsRow t →
      Reads (readRow · (joined [' '] (ops.map (renderAt .operand)) ++ t)) (ops, t)
  | [], hne, _, _, _, _ => absurd rfl hne
  | [op], _, _, hreads, t, hend => by
    have hop := hreads op List.mem_cons_self t hend.1
    refine .of_succ (hop.bind ?_)
    simp only [hend.2]
    exact .const _
  | op :: op' :: ops, _, hplain, hreads, t, hend => by
    have hrest := reads_row (List.cons_ne_nil op' ops) (fun x hx => hplain x (List.mem_cons_of_mem op hx))
      (fun x hx => hreads x (List.mem_cons_of_mem op hx)) hend
    have hop := hreads op List.mem_cons_self _
      (endsOperand_space (joined [' '] ((op' :: ops).map (renderAt .operand)) ++ t))
    have hnext := nextElement?_row (hplain op' (List.mem_cons_of_mem op List.mem_cons_self)) ops t
    rw [List.map_cons, List.map_cons, joined_cons_cons, List.append_assoc, List.append_assoc]
    refine .of_succ (hop.bind ?_)
    simp only [hnext]
    exact hrest.bind (.const _)

/-- A row of two or more is put together again as what it was. -/
theorem several_pair (f : List Operator → Operator) {ops : List Operator} (hlen : 2 ≤ ops.length) :
    several f ops = f ops := by
  match ops, hlen with
  | op :: op' :: ops, _ => rfl

/-- An operator is the sequence of its elements; one that is no sequence is its only element. -/
theorem Plain.several_elements {Markable : Operator → Prop} {op : Operator} (h : Plain Markable op) :
    several .sequence op.elements = op := by
  cases h with
  | sequence hlen _ => exact several_pair _ hlen
  | _ => rfl

/-- An operator is the choice among its alternatives; one that is no choice is its only alternative. -/
theorem Plain.several_alternatives {Markable : Operator → Prop} {op : Operator} (h : Plain Markable op) :
    several .choice op.alternatives = op := by
  cases h with
  | choice hlen _ => exact several_pair _ hlen
  | _ => rfl

/-- Alternatives are read one by one, each of them as a row. -/
theorem reads_alternatives : ∀ {ops : List Operator}, ops ≠ [] → (∀ op ∈ ops, op.Upright) →
    (∀ op ∈ ops, op.ReadsAsRow) → ∀ {t : Text}, EndsOpen t →
      Reads (readAlternatives · (joined [' ', '|', ' '] (ops.map (renderAt .alternative)) ++ t)) (ops, t)
  | [], hne, _, _, _, _ => absurd rfl hne
  | [op], _, hplain, hreads, t, hend => by
    have hop := hreads op List.mem_cons_self t hend.1
    refine .of_succ (hop.bind ?_)
    simp only [hend.2, (hplain op List.mem_cons_self).several_elements]
    exact .const _
  | op :: op' :: ops, _, hplain, hreads, t, hend => by
    have hrest := reads_alternatives (List.cons_ne_nil op' ops)
      (fun x hx => hplain x (List.mem_cons_of_mem op hx))
      (fun x hx => hreads x (List.mem_cons_of_mem op hx)) hend
    have hop := hreads op List.mem_cons_self _
      (endsRow_bar (' ' :: (joined [' ', '|', ' '] ((op' :: ops).map (renderAt .alternative)) ++ t)))
    -- A bar ends the first row, and the others are read behind it.
    rw [List.map_cons, List.map_cons, joined_cons_cons, List.append_assoc, List.append_assoc]
    refine .of_succ (hop.bind ?_)
    simp only [nextAlternative?, (hplain op List.mem_cons_self).several_elements]
    exact hrest.bind (.const _)

/-- What is no choice is read alone, if it is read as a row. -/
theorem ReadsAsRow.alone {op : Operator} (hrow : op.ReadsAsRow) (hplain : op.Upright)
    (halone : op.alternatives = [op]) (hsame : renderAt .open op = renderAt .alternative op) :
    op.ReadsAlone := by
  intro t hend
  have hread := reads_alternatives (List.cons_ne_nil op []) (by simpa using hplain) (by simpa using hrow) hend
  rwa [hsame, halone]

/-- What is no sequence is read as a row of one, if it is read as an operand. -/
theorem ReadsAsOperand.row {op : Operator} (h : op.ReadsAsOperand) (helements : op.elements = [op])
    (hsame : renderAt .alternative op = renderAt .operand op) : op.ReadsAsRow := by
  intro t hend
  rw [hsame, helements]
  refine .of_succ ((h t hend.1).bind ?_)
  simp only [hend.2]
  exact .const _

/-- What bears marks is an operand, since there may be none. -/
theorem Bears.operand {op : Operator} (h : Bears op) : op.ReadsAsOperand :=
  fun t hend => h t (op, t) hend.endsName (hend.readMarks op)

/-- In parentheses, what is read alone bears marks. -/
theorem ReadsAlone.bears {op : Operator} (h : op.ReadsAlone) (hplain : op.Upright)
    (htext : renderAt .operand op = parenthesized true (renderAt .open op)) : Bears op := by
  intro t result _ hmarks
  rw [htext, parenthesized, if_pos rfl, List.cons_append, List.cons_append, List.append_assoc]
  refine .of_succ ((h _ (endsOpen_parenthesis t)).bind ?_)
  simp only [hplain.several_alternatives]
  exact hmarks

/-- Between angles, what is read alone bears marks. -/
theorem ReadsAlone.collect {op : Operator} (h : op.ReadsAlone) (hplain : op.Upright) :
    Bears (.collect op) := by
  intro t result _ hmarks
  rw [renderAt, List.append_assoc, List.append_assoc]
  refine .of_succ ((h _ (endsOpen_angle t)).bind ?_)
  simp only [hplain.several_alternatives]
  exact hmarks

/-- So does what is read alone inside the longer brackets of bounds. -/
theorem ReadsAlone.bounds {op : Operator} (h : op.ReadsAlone) (hplain : op.Upright) : Bears (.bounds op) := by
  intro t result _ hmarks
  rw [renderAt, List.append_assoc, List.append_assoc]
  refine .of_succ ((h _ (endsOpen_angle t)).bind ?_)
  simp only [hplain.several_alternatives]
  exact hmarks

namespace Readable

/-- What is neither a sequence nor a choice is written the same at each place. -/
theorem of_operand {op : Operator} (hplain : op.Upright) (helements : op.elements = [op])
    (halternatives : op.alternatives = [op]) (hsame : ∀ place, renderAt place op = renderAt .operand op)
    (hbears : op.Unsigned → op.Bears) (hoperand : op.ReadsAsOperand) : Readable op :=
  have hrow := hoperand.row helements (hsame .alternative)
  ⟨hbears, hoperand, hrow, hrow.alone hplain halternatives ((hsame .open).trans (hsame .alternative).symm)⟩

/-- What bears marks is read back at each place. -/
theorem of_bears {op : Operator} (hplain : op.Upright) (helements : op.elements = [op])
    (halternatives : op.alternatives = [op]) (hsame : ∀ place, renderAt place op = renderAt .operand op)
    (hbears : op.Bears) : Readable op :=
  .of_operand hplain helements halternatives hsame (fun _ => hbears) hbears.operand

/-- A sequence is read as a row of its operands; as an operand it stands in parentheses. -/
theorem sequence {ops : List Operator} (hlen : 2 ≤ ops.length) (hplain : ∀ op ∈ ops, op.Upright)
    (h : ∀ op ∈ ops, op.ReadsAsOperand) : Readable (.sequence ops) := by
  have hop : Upright (.sequence ops) := .sequence hlen hplain
  have hrow : ReadsAsRow (.sequence ops) := by
    intro t hend
    rw [renderAt_sequence hlen]
    exact reads_row (List.ne_nil_of_length_pos (by omega)) hplain h hend
  have halone : ReadsAlone (.sequence ops) := by
    refine hrow.alone hop rfl ?_
    rw [renderAt_sequence hlen, renderAt_sequence hlen]
    rfl
  have hbears : Bears (.sequence ops) := by
    refine halone.bears hop ?_
    rw [renderAt_sequence hlen, renderAt_sequence hlen]
    rfl
  exact ⟨fun _ => hbears, hbears.operand, hrow, halone⟩

/-- A choice is read alone by its rows; as a row or as an operand it stands in parentheses. -/
theorem choice {ops : List Operator} (hlen : 2 ≤ ops.length) (hplain : ∀ op ∈ ops, op.Upright)
    (h : ∀ op ∈ ops, op.ReadsAsRow) : Readable (.choice ops) := by
  have hop : Upright (.choice ops) := .choice hlen hplain
  have halone : ReadsAlone (.choice ops) := by
    intro t hend
    rw [renderAt_choice hlen]
    exact reads_alternatives (List.ne_nil_of_length_pos (by omega)) hplain h hend
  have hbears : Bears (.choice ops) := by
    refine halone.bears hop ?_
    rw [renderAt_choice hlen, renderAt_choice hlen]
    rfl
  have hrow : ReadsAsRow (.choice ops) := by
    refine hbears.operand.row rfl ?_
    rw [renderAt_choice hlen, renderAt_choice hlen]
    rfl
  exact ⟨fun _ => hbears, hbears.operand, hrow, halone⟩

end Readable

/-- **Operators without marks behind predicates are read back from their text**, at each place. -/
theorem Upright.readable {op : Operator} (h : op.Upright) : Readable op := by
  induction h with
  | any => exact .of_bears .any rfl rfl (fun _ => rfl) .any
  | literal s => exact .of_bears (.literal s) rfl rfl (fun _ => rfl) (.literal s)
  | range h => exact .of_bears (.range h) rfl rfl (fun _ => rfl) (.range h)
  | call h => exact .of_bears (.call h) rfl rfl (fun _ => rfl) (.call h)
  | direct h => exact .of_bears (.direct h) rfl rfl (fun _ => rfl) (.direct h)
  | sequence hlen hops ih => exact .sequence hlen hops fun op hmem => (ih op hmem).operand
  | choice hlen hops ih => exact .choice hlen hops fun op hmem => (ih op hmem).row
  | repetition min max hop hmark ih =>
    exact .of_bears (.repetition min max hop hmark) rfl rfl (fun _ => rfl)
      ((ih.bears hmark).repetition min max)
  | tag hname hop hmark ih =>
    exact .of_bears (.tag hname hop hmark) rfl rfl (fun _ => rfl) ((ih.bears hmark).tag hname)
  | ahead hop ih =>
    refine .of_operand (.ahead hop) rfl rfl (fun _ => rfl) False.elim fun t hend => ?_
    exact .of_succ ((ih.operand t hend).bind (.const _))
  | notAhead hop ih =>
    refine .of_operand (.notAhead hop) rfl rfl (fun _ => rfl) False.elim fun t hend => ?_
    exact .of_succ ((ih.operand t hend).bind (.const _))
  | collect hop ih => exact .of_bears (.collect hop) rfl rfl (fun _ => rfl) (ih.alone.collect hop)
  | bounds hop ih => exact .of_bears (.bounds hop) rfl rfl (fun _ => rfl) (ih.alone.bounds hop)

/-- **From its text a plain operator is read back with all marks under signs.** -/
theorem reads_render {Markable : Operator → Prop} {op : Operator} (h : Plain Markable op) :
    Reads (read · op.render) op.hoisted := by
  have hupright : Upright op.hoisted := h.upright_hoisted
  have halone := hupright.readable.alone [] endsOpen_nil
  have htext : op.render.toList = renderAt .open op := String.toList_ofList
  rw [h.renderAt_hoisted, List.append_nil, ← htext] at halone
  have hwhole : whole (op.hoisted.alternatives, []) = some op.hoisted := by
    rw [whole, hupright.several_alternatives]
  exact halone.bind ⟨0, fun _ _ => hwhole⟩

example : read 9 "(a | !b)*" = some (star (.choice [.call "a" [], .notAhead (.call "b" [])])) := by cbv

/-- **Plain operators have the same text exactly if they are the same up to marks under signs**, and then
    they are equal if there are no marks behind predicates in them. -/
theorem render_shows_structure {a b : Operator} (ha : Marked a) (hb : Marked b) :
    (a.render = b.render ↔ a.hoisted = b.hoisted) ∧
      (Upright a → Upright b → a.render = b.render → a = b) := by
  have hiff : a.render = b.render ↔ a.hoisted = b.hoisted := by
    constructor
    · intro hrender
      have hread := reads_render ha
      rw [hrender] at hread
      exact hread.unique (reads_render hb)
    · intro hhoisted
      rw [render, render, ← ha.renderAt_hoisted, ← hb.renderAt_hoisted, hhoisted]
  refine ⟨hiff, fun haup hbup hrender => ?_⟩
  calc a = a.hoisted := haup.hoisted_eq.symm
    _ = b.hoisted := hiff.1 hrender
    _ = b := hbup.hoisted_eq

end

/-- A repeated predicate is only known up to hoisting; a row of predicates and repetitions is known. -/
theorem render_shows_structure_signs :
    let repeatedSign : Operator := star (.ahead (.call "a" []))
    let signedRepetition : Operator := .ahead (star (.call "a" []))
    let row : Operator := .sequence [.notAhead (.literal "x"), star (.call "a" [])]
    repeatedSign.hoisted = signedRepetition.hoisted ∧ row.render ≠ signedRepetition.render := by
  intro repeatedSign signedRepetition row
  have hname : IsName "a" := by decide
  have hrepeated : Marked repeatedSign := .repetition 0 none (.ahead (.call hname)) trivial
  have hsigned : Marked signedRepetition := .ahead (.repetition 0 none (.call hname) trivial)
  have hupright : Upright signedRepetition := .ahead (.repetition 0 none (.call hname) trivial)
  have helements : ∀ Markable : Operator → Prop, (∀ rule, Markable (.call rule [])) →
      ∀ op ∈ [.notAhead (.literal "x"), star (.call "a" [])], Plain Markable op := by
    intro Markable hcalls op hop
    rcases List.mem_pair.1 hop with rfl | rfl
    · exact .notAhead (.literal "x")
    · exact .repetition 0 none (.call hname) (hcalls "a")
  have hrow : Marked row := .sequence (by decide) (helements _ fun _ => trivial)
  have hrowUpright : Upright row := .sequence (by decide) (helements _ fun _ => trivial)
  refine ⟨(render_shows_structure hrepeated hsigned).1.1 rfl, fun hrender => ?_⟩
  have heq : Operator.sequence _ = Operator.ahead _ :=
    (render_shows_structure hrow hsigned).2 hrowUpright hupright hrender
  cases heq

/-- A repeated predicate and a predicate of a repetition. -/
theorem repeated_sign_renders_alike :
    let repeatedSign : Operator := star (.ahead (.call "a" []))
    let signedRepetition : Operator := .ahead (star (.call "a" []))
    Marked repeatedSign ∧ Marked signedRepetition ∧ repeatedSign.render = "&a*" ∧
      repeatedSign.render = signedRepetition.render ∧ repeatedSign ≠ signedRepetition := by
  have hname : IsName "a" := by decide
  refine ⟨.repetition 0 none (.ahead (.call hname)) trivial,
    .ahead (.repetition 0 none (.call hname) trivial), rfl, rfl, fun h => ?_⟩
  cases h

end Operator

end MemoPeg
