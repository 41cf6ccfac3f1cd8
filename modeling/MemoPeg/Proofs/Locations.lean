import MemoPeg.Proofs.FurthestFailure
import MemoPeg.Proofs.RemainingText

/-
  Line, column, source line and caret agree.

  A failure is reported at an offset in bytes and shown as a line and a column, with the line itself and a
  caret under the place.  Offsets come from outside too, so they may lie inside a character or past the end.

  1. **Boundaries (`Text.cut_greatest`)** — an offset stands for the greatest boundary before it, inside a
     character and past the end as well.
  2. **Slices (`Text.locateBySlices_eq`, `Text.lineBySlices_eq`)** — the answers can be had by searches in
     bytes too: down to a boundary, back to a newline, on to a newline.  Every slice that is taken
     between two of these offsets exists.
  3. **Lines (`Text.splitOn_getElem`)** — in front of a boundary there are as many pieces of the text as there
     are newlines, and the piece around it is its line.
  4. **Order (`Text.locate_lt`)** — between two boundaries there are characters: with a newline among them the
     line goes up, without one the column does.

  The definitions work on lists of characters, in which a slice cannot go wrong.  2 gives the answers once more
  as they are computed from bytes, with every slice as something that may not exist, so that it can be said
  that all of them do.  The column counts characters and not bytes, and so does the row of blanks before the
  caret; a tab counts as one.
-/

namespace MemoPeg

namespace Text

/-! ## Boundaries -/

/-- Of two ways of cutting a text, one cuts further on. -/
theorem exists_between {s s' r r' : Text} (h : s ++ r = s' ++ r') (hle : s.size ≤ s'.size) :
    ∃ m, s' = s ++ m ∧ r = m ++ r' := by
  rcases List.append_eq_append_iff.1 h with ⟨m, hs', hr⟩ | ⟨m, hs, hr'⟩
  · exact ⟨m, hs', hr⟩
  · -- Nothing can be between them the other way round.
    have hm : m = [] := by
      cases m with
      | nil => rfl
      | cons c m =>
        rw [hs, size_append, size_cons] at hle
        have := c.utf8Size_pos
        omega
    subst hm
    rw [List.append_nil] at hs
    exact ⟨[], by rw [hs, List.append_nil], hr'.symm⟩

/-- What a cut is: it is not behind the offset, but the next character would be. -/
theorem cut_spec (t : Text) (n : Nat) :
    (cut t n).1.size ≤ n ∧ ∀ c r, (cut t n).2 = c :: r → n < (cut t n).1.size + c.utf8Size := by
  induction t generalizing n with
  | nil => exact ⟨Nat.zero_le n, fun c r h => by cases h⟩
  | cons c t ih =>
    unfold cut
    split
    case isTrue hc =>
      obtain ⟨hle, hnext⟩ := ih (n - c.utf8Size)
      simp only [size_cons]
      refine ⟨by omega, fun d r hd => ?_⟩
      have hlt := hnext d r hd
      omega
    case isFalse hc =>
      refine ⟨Nat.zero_le n, fun d r hd => ?_⟩
      obtain ⟨rfl, -⟩ := List.cons.inj hd
      simp only [size_nil]
      omega

/-- A cut is made at a boundary. -/
theorem cut_isBoundary (t : Text) (n : Nat) : t.IsBoundary (cut t n).1.size :=
  isBoundary_iff.2 ⟨_, _, (cut_append t n).symm, rfl⟩

/-- **An offset stands for the greatest boundary that is not behind it.** -/
theorem cut_greatest {t : Text} {n b : Nat} (hb : t.IsBoundary b) (hle : b ≤ n) : b ≤ (cut t n).1.size := by
  obtain ⟨s, r, ht, rfl⟩ := isBoundary_iff.1 hb
  by_contra hlt
  have hcut : (cut t n).1 ++ (cut t n).2 = s ++ r := (cut_append t n).trans ht
  obtain ⟨m, hs, hr⟩ := exists_between hcut (by omega)
  cases m with
  | nil =>
    rw [List.append_nil] at hs
    rw [hs] at hlt
    exact hlt (Nat.le_refl _)
  | cons c m =>
    have hnext := (cut_spec t n).2 c (m ++ r) hr
    rw [hs, size_append, size_cons] at hle
    omega

/-- The boundary that an offset stands for is cut at like the offset. -/
theorem cut_cut (t : Text) (n : Nat) : cut t (cut t n).1.size = cut t n := by
  have hcut := cut_size (cut t n).1 (cut t n).2
  rwa [cut_append] at hcut

/-! ## Lines -/

/-- A newline is one byte. -/
theorem size_newline : Char.utf8Size '\n' = 1 := rfl

/-- A text is one line, or there is a last newline in it. -/
theorem newline_cases (s : Text) : '\n' ∉ s ∨ ∃ p l : Text, s = p ++ '\n' :: l ∧ '\n' ∉ l := by
  induction s with
  | nil => exact .inl List.not_mem_nil
  | cons c s ih =>
    rcases ih with hs | ⟨p, l, rfl, hl⟩
    · by_cases hc : c = '\n'
      · subst hc
        exact .inr ⟨[], s, rfl, hs⟩
      · refine .inl fun hmem => ?_
        rcases List.mem_cons.1 hmem with heq | hmem
        · exact hc heq.symm
        · exact hs hmem
    · exact .inr ⟨c :: p, l, rfl, hl⟩

/-- What stands behind newlines has no influence on those before it. -/
theorem lastLine_append {s m : Text} (hm : '\n' ∉ m) : lastLine (s ++ m) = lastLine s ++ m := by
  have hall : ∀ c ∈ m.reverse, decide (c ≠ '\n') = true := by
    intro c hc
    refine decide_eq_true fun heq => hm ?_
    rw [← heq]
    exact List.mem_reverse.1 hc
  unfold lastLine
  rw [List.reverse_append, List.takeWhile_append_of_pos hall, List.reverse_append, List.reverse_reverse]

/-- Behind a newline a new line begins. -/
theorem lastLine_newline (p : Text) : lastLine (p ++ ['\n']) = [] := by
  simp [lastLine]

/-- Without a newline all of the text is its last line. -/
theorem lastLine_of_not_mem {s : Text} (hs : '\n' ∉ s) : lastLine s = s := by
  have hline := lastLine_append (s := []) hs
  rwa [show lastLine [] = [] from rfl, List.nil_append] at hline

/-- The last line begins behind the last newline. -/
theorem lastLine_behind {p l : Text} (hl : '\n' ∉ l) : lastLine (p ++ '\n' :: l) = l := by
  rw [List.append_cons, lastLine_append hl, lastLine_newline, List.nil_append]

/-- The line at the front of a text is its first piece. -/
theorem splitOn_head (t : Text) : (t.splitOn '\n')[0]? = some (t.takeWhile (· ≠ '\n')) := by
  induction t with
  | nil => rfl
  | cons c t ih =>
    rw [List.splitOn_cons_eq_if_modifyHead]
    by_cases hc : c = '\n'
    · simp [hc]
    · obtain ⟨first, rest, hsplit⟩ := List.exists_cons_of_ne_nil (List.splitOn_ne_nil '\n' t)
      rw [hsplit] at ih ⊢
      have hfirst : first = t.takeWhile (· ≠ '\n') := by simpa using ih
      simp [hc, hfirst]

/-- A text has one piece more than newlines. -/
theorem splitOn_length (t : Text) : (t.splitOn '\n').length = t.count '\n' + 1 := by
  induction t with
  | nil => rfl
  | cons c t ih =>
    rw [List.splitOn_cons_eq_if_modifyHead]
    by_cases hc : c = '\n'
    · simp [hc, ih]
    · simp [hc, ih]

/-- **The line around a place is the piece of the text whose number is the count of newlines before it.** -/
theorem splitOn_getElem (s r : Text) :
    ((s ++ r).splitOn '\n')[s.count '\n']? = some (lastLine s ++ r.takeWhile (· ≠ '\n')) := by
  have hfirst : ∀ l : Text, '\n' ∉ l →
      ((l ++ r).splitOn '\n')[0]? = some (l ++ r.takeWhile (· ≠ '\n')) := by
    intro l hl
    rw [splitOn_head, List.takeWhile_append_of_pos]
    intro c hc
    exact decide_eq_true fun heq => hl (heq ▸ hc)
  rcases newline_cases s with hs | ⟨p, l, rfl, hl⟩
  · rw [List.count_eq_zero_of_not_mem hs, lastLine_of_not_mem hs]
    exact hfirst s hs
  · have hcount : (p ++ '\n' :: l).count '\n' = (p.splitOn '\n').length := by
      rw [splitOn_length, List.count_append, List.count_cons_self, List.count_eq_zero_of_not_mem hl]
    rw [lastLine_behind hl, List.append_assoc, List.cons_append, List.splitOn_append_cons_self, hcount,
      List.getElem?_append_right (Nat.le_refl _), Nat.sub_self]
    exact hfirst l hl

/-! ## Slices -/

/-- The greatest boundary from an offset downwards. -/
def boundaryDown (t : Text) : Nat → Nat
  | 0 => 0
  | n + 1 => if t.IsBoundary (n + 1) then n + 1 else boundaryDown t n

/-- The offset behind the last newline before an offset, or the start of the text. -/
def lineStart (t : Text) : Nat → Nat
  | 0 => 0
  | n + 1 => if t.charAt n = some '\n' then n + 1 else lineStart t n

/-- The number of bytes to the first newline, or to the end of the text. -/
def toNewline : Text → Nat
  | [] => 0
  | c :: t => if c = '\n' then 0 else c.utf8Size + toNewline t

/-- The location of an offset, found in bytes: nothing if a slice that is taken does not exist. -/
def locateBySlices (t : Text) (n : Nat) : Option Location := do
  let offset := boundaryDown t (min n t.size)
  let before ← t.slice 0 offset
  let line ← before.slice (lineStart before before.size) before.size
  return { line := before.count '\n' + 1, column := line.length + 1, offset }

/-- The line around an offset, found in bytes: nothing if a slice that is taken does not exist. -/
def lineBySlices (t : Text) (n : Nat) : Option Text := do
  let offset := boundaryDown t (min n t.size)
  let before ← t.slice 0 offset
  let after ← t.suffixAt offset
  t.slice (lineStart before before.size) (offset + toNewline after)

/-- Going down in bytes stops at the greatest boundary that is not behind the offset. -/
theorem boundaryDown_spec (t : Text) (n : Nat) :
    t.IsBoundary (boundaryDown t n) ∧ boundaryDown t n ≤ n ∧
      ∀ b, t.IsBoundary b → b ≤ n → b ≤ boundaryDown t n := by
  induction n with
  | zero => exact ⟨isBoundary_iff.2 ⟨[], t, rfl, rfl⟩, Nat.le_refl 0, fun b _ hb => hb⟩
  | succ n ih =>
    obtain ⟨hboundary, hle, hgreatest⟩ := ih
    unfold boundaryDown
    split
    case isTrue hn => exact ⟨hn, Nat.le_refl _, fun b _ hb => hb⟩
    case isFalse hn =>
      refine ⟨hboundary, Nat.le_succ_of_le hle, fun b hb hbn => ?_⟩
      refine hgreatest b hb (Nat.lt_succ_iff.1 (Nat.lt_of_le_of_ne hbn ?_))
      rintro rfl
      exact hn hb

/-- Going down in bytes finds the cut. -/
theorem boundaryDown_eq (t : Text) (n : Nat) : boundaryDown t (min n t.size) = (cut t n).1.size := by
  obtain ⟨hboundary, hle, hgreatest⟩ := boundaryDown_spec t (min n t.size)
  refine Nat.le_antisymm (cut_greatest hboundary (by omega)) ?_
  have hcut := (cut_spec t n).1
  have hsize := (cut_isBoundary t n).le_size
  exact hgreatest _ (cut_isBoundary t n) (by omega)

/-- What stands in a text is one of its characters. -/
theorem mem_of_charAt {t : Text} {n : Nat} {c : Char} (h : t.charAt n = some c) : c ∈ t := by
  obtain ⟨rest, hrest, hc⟩ := Option.bind_eq_some_iff.1 h
  obtain ⟨s, rfl, -⟩ := suffixAt_eq_some_iff.1 hrest
  exact List.mem_append_right s (List.mem_of_mem_head? hc)

/-- Without a newline the search back ends at the start. -/
theorem lineStart_of_not_mem {t : Text} (h : '\n' ∉ t) : ∀ n, lineStart t n = 0 := by
  intro n
  induction n with
  | zero => rfl
  | succ n ih => rw [lineStart, if_neg fun hc => h (mem_of_charAt hc), ih]

/-- The search back ends behind the last newline. -/
theorem lineStart_behind {p l : Text} (hl : '\n' ∉ l) :
    ∀ n, lineStart (p ++ '\n' :: l) (p.size + 1 + n) = p.size + 1 := by
  intro n
  induction n with
  | zero =>
    have hnewline : (p ++ '\n' :: l).charAt p.size = some '\n' := by
      rw [← Nat.add_zero p.size, charAt_append]
      rfl
    rw [Nat.add_zero, lineStart, if_pos hnewline]
  | succ n ih =>
    have hno : (p ++ '\n' :: l).charAt (p.size + 1 + n) ≠ some '\n' := by
      intro hc
      have hsize : (p ++ ['\n']).size = p.size + 1 := by rw [size_append, size_cons, size_newline, size_nil]
      rw [List.append_cons, ← hsize, charAt_append] at hc
      exact hl (mem_of_charAt hc)
    rw [← Nat.add_assoc, lineStart, if_neg hno, ih]

/-- The last line begins where the search back for a newline ends. -/
theorem exists_lineStart (s : Text) : ∃ p, s = p ++ lastLine s ∧ lineStart s s.size = p.size := by
  rcases newline_cases s with hs | ⟨p, l, rfl, hl⟩
  · exact ⟨[], (lastLine_of_not_mem hs).symm, lineStart_of_not_mem hs _⟩
  · refine ⟨p ++ ['\n'], by rw [lastLine_behind hl, List.append_cons], ?_⟩
    have hsize : (p ++ '\n' :: l).size = p.size + 1 + l.size := by
      rw [size_append, size_cons, size_newline, Nat.add_assoc]
    rw [hsize, lineStart_behind hl, size_append, size_cons, size_newline, size_nil]

/-- The search on ends where the line does. -/
theorem toNewline_eq (t : Text) : toNewline t = size (t.takeWhile (· ≠ '\n')) := by
  induction t with
  | nil => rfl
  | cons c t ih => by_cases hc : c = '\n' <;> simp [toNewline, hc, ih]

/-- The text in front of the boundary that an offset stands for, as a slice. -/
theorem slice_cut (t : Text) (n : Nat) : t.slice 0 (cut t n).1.size = some (cut t n).1 :=
  slice_eq_some_iff.2 ⟨[], (cut t n).2, (cut_append t n).symm, rfl, Nat.zero_add _⟩

/-- **The location can be found in bytes**, and no slice is taken that does not exist. -/
theorem locateBySlices_eq (t : Text) (n : Nat) : locateBySlices t n = some (t.locate n) := by
  obtain ⟨p, hp, hstart⟩ := exists_lineStart (cut t n).1
  have hline : (cut t n).1.slice (lineStart (cut t n).1 (cut t n).1.size) (cut t n).1.size =
      some (lastLine (cut t n).1) := by
    refine slice_eq_some_iff.2 ⟨p, [], by rw [List.append_nil]; exact hp, hstart.symm, ?_⟩
    conv => rhs; rw [hp]
    rw [size_append]
  simp only [locateBySlices, boundaryDown_eq, slice_cut, hline, Option.bind_eq_bind, Option.bind_some]
  rfl

/-- **The line can be found in bytes**, and no slice is taken that does not exist. -/
theorem lineBySlices_eq (t : Text) (n : Nat) : lineBySlices t n = some (t.lineAround n) := by
  obtain ⟨p, hp, hstart⟩ := exists_lineStart (cut t n).1
  have hafter : t.suffixAt (cut t n).1.size = some (cut t n).2 :=
    suffixAt_eq_some_iff.2 ⟨_, (cut_append t n).symm, rfl⟩
  simp only [lineBySlices, boundaryDown_eq, slice_cut, hafter, hstart, Option.bind_eq_bind,
    Option.bind_some]
  refine slice_eq_some_iff.2 ⟨p, (cut t n).2.dropWhile (· ≠ '\n'), ?_, rfl, ?_⟩
  · show t = p ++ (lastLine (cut t n).1 ++ (cut t n).2.takeWhile (· ≠ '\n')) ++ _
    rw [← List.append_assoc, ← hp, List.append_assoc, List.takeWhile_append_dropWhile, cut_append]
  · show p.size + size (lastLine (cut t n).1 ++ (cut t n).2.takeWhile (· ≠ '\n')) = _
    conv => rhs; rw [hp]
    rw [toNewline_eq, size_append, size_append, Nat.add_assoc]

/-! ## Order -/

/-- The location of a boundary, from what stands in front of it. -/
theorem locate_size (s r : Text) :
    (s ++ r).locate s.size = ⟨s.count '\n' + 1, (lastLine s).length + 1, s.size⟩ := by
  simp only [locate, cut_size]

/-- The line around a boundary, from what stands in front of it and behind it. -/
theorem lineAround_size (s r : Text) : (s ++ r).lineAround s.size = lastLine s ++ r.takeWhile (· ≠ '\n') := by
  simp only [lineAround, cut_size]

/-- **Further on in the text, the line is greater, or it is the same and the column is.** -/
theorem locate_lt {t : Text} {q q' : Nat} (hq : t.IsBoundary q) (hq' : t.IsBoundary q') (hlt : q < q') :
    (t.locate q).line < (t.locate q').line ∨
      (t.locate q).line = (t.locate q').line ∧ (t.locate q).column < (t.locate q').column := by
  obtain ⟨s, r, rfl, rfl⟩ := isBoundary_iff.1 hq
  obtain ⟨s', r', ht, rfl⟩ := isBoundary_iff.1 hq'
  obtain ⟨m, rfl, rfl⟩ := exists_between ht (Nat.le_of_lt hlt)
  have hm : 0 < m.length := by
    refine List.length_pos_iff.2 ?_
    rintro rfl
    rw [List.append_nil] at hlt
    exact Nat.lt_irrefl _ hlt
  have hloc := locate_size s (m ++ r')
  have hloc' := locate_size (s ++ m) r'
  rw [← ht] at hloc'
  rw [hloc, hloc', List.count_append]
  -- The line goes up with a newline between the two, and the column goes on without one.
  by_cases hnewline : '\n' ∈ m
  · have hcount : 0 < m.count '\n' := List.count_pos_iff.2 hnewline
    exact .inl (by show _ + 1 < _ + 1; omega)
  · rw [List.count_eq_zero_of_not_mem hnewline, lastLine_append hnewline, List.length_append]
    exact .inr ⟨rfl, by show _ + 1 < _ + 1; omega⟩

/-- A place is known by its line and its column. -/
theorem offset_of_line_column {t : Text} {q q' : Nat} (hq : t.IsBoundary q) (hq' : t.IsBoundary q')
    (hline : (t.locate q).line = (t.locate q').line) (hcolumn : (t.locate q).column = (t.locate q').column) :
    q = q' := by
  rcases Nat.lt_trichotomy q q' with hlt | heq | hlt
  · have := locate_lt hq hq' hlt
    omega
  · exact heq
  · have := locate_lt hq' hq hlt
    omega

/-! ## What a reader is shown -/

/-- The character at a boundary is the one its line has under the caret, unless the line ends there. -/
theorem underCaret_size (s r : Text) (c : Char) (hc : (s ++ r).charAt s.size = some c) (hne : c ≠ '\n') :
    ((s ++ r).lineAround s.size)[(lastLine s).length]? = some c := by
  rw [← Nat.add_zero s.size, charAt_append] at hc
  rw [lineAround_size, List.getElem?_append_right (Nat.le_refl _), Nat.sub_self]
  cases r with
  | nil => cases hc
  | cons d r =>
    obtain rfl : d = c := Option.some.inj hc
    simp [hne]

/-- At a newline and at the end of the text, the caret is just behind the line. -/
theorem behindCaret_size (s r : Text)
    (hc : (s ++ r).charAt s.size = none ∨ (s ++ r).charAt s.size = some '\n') :
    ((s ++ r).lineAround s.size).length = (lastLine s).length := by
  rw [← Nat.add_zero s.size, charAt_append] at hc
  rw [lineAround_size]
  cases r with
  | nil => simp
  | cons d r =>
    rcases hc with hc | hc
    · cases hc
    · obtain rfl : d = '\n' := Option.some.inj hc
      simp

end Text

/-- **Line, column, source line and caret agree.**  An offset inside a character or past the end is shown
    like the greatest boundary before it, and no slice is missing on the way.  The line of a boundary is
    the piece of the text with its number, the caret stands under the character there, or just behind the
    line if it ends there, and from boundary to boundary line and column grow. -/
theorem locations_agree (t : Text) :
    (∀ p, Text.locateBySlices t p = some (t.locate p) ∧ Text.lineBySlices t p = some (t.lineAround p) ∧
      ∃ q, t.IsBoundary q ∧ q ≤ min p t.size ∧ (∀ b, t.IsBoundary b → b ≤ min p t.size → b ≤ q) ∧
        (t.locate p).offset = q ∧ t.locate p = t.locate q ∧ t.lineAround p = t.lineAround q) ∧
    (∀ q, t.IsBoundary q → ∃ line column, t.locate q = ⟨line + 1, column + 1, q⟩ ∧
      (t.splitOn '\n')[line]? = some (t.lineAround q) ∧
      (∀ f : Furthest, f.offset = q →
        (f.caret t).toList = t.lineAround q ++ '\n' :: List.replicate column ' ' ++ ['^']) ∧
      (∀ c, t.charAt q = some c → c ≠ '\n' → (t.lineAround q)[column]? = some c) ∧
      (t.charAt q = none ∨ t.charAt q = some '\n' → (t.lineAround q).length = column)) ∧
    (∀ q q', t.IsBoundary q → t.IsBoundary q' →
      (q < q' → (t.locate q).line < (t.locate q').line ∨
        (t.locate q).line = (t.locate q').line ∧ (t.locate q).column < (t.locate q').column) ∧
      ((t.locate q).line = (t.locate q').line → (t.locate q).column = (t.locate q').column → q = q')) := by
  refine ⟨fun p => ⟨Text.locateBySlices_eq t p, Text.lineBySlices_eq t p, ?_⟩, fun q hq => ?_,
    fun q q' hq hq' => ⟨Text.locate_lt hq hq', Text.offset_of_line_column hq hq'⟩⟩
  · have hcut := Text.cut_isBoundary t p
    refine ⟨(Text.cut t p).1.size, hcut, Nat.le_min.2 ⟨(Text.cut_spec t p).1, hcut.le_size⟩,
      fun b hb hle => Text.cut_greatest hb (Nat.le_min.1 hle).1, rfl, ?_, ?_⟩
    · simp only [Text.locate, Text.cut_cut]
    · simp only [Text.lineAround, Text.cut_cut]
  -- A boundary parts the text, and everything is said of the part before it.
  · obtain ⟨s, r, rfl, rfl⟩ := Text.isBoundary_iff.1 hq
    refine ⟨s.count '\n', (Text.lastLine s).length, Text.locate_size s r, ?_, fun f hf => ?_,
      Text.underCaret_size s r, Text.behindCaret_size s r⟩
    · rw [Text.splitOn_getElem, Text.lineAround_size]
    · rw [Furthest.caret, hf, Text.caret, String.toList_ofList, Text.locate_size]
      rfl

/-- In `żó` and `ab` on two lines, offset 3 is inside the `ó` of the first line. -/
theorem locations_agree_insideCharacter :
    let t : Text := ['ż', 'ó', '\n', 'a', 'b']
    Text.lineBySlices t 3 = some ['ż', 'ó'] ∧ t.locate 3 = t.locate 2 ∧ t.locate 2 = ⟨1, 2, 2⟩ ∧
      (t.lineAround 2)[1]? = some 'ó' ∧ (t.lineAround 4).length = 2 ∧
      (t.locate 2).line < (t.locate 6).line := by
  intro t
  obtain ⟨hclamped, hshown, hgrow⟩ := locations_agree t
  have hboundary : t.IsBoundary 2 ∧ t.IsBoundary 4 ∧ t.IsBoundary 6 := by decide
  obtain ⟨-, hline, q, -, -, -, hoffset, hloc, -⟩ := hclamped 3
  obtain rfl : 2 = q := hoffset
  obtain ⟨line, column, hplace, -, -, hunder, -⟩ := hshown 2 hboundary.1
  obtain ⟨line', column', hplace', -, -, -, hbehind⟩ := hshown 4 hboundary.2.1
  obtain ⟨rfl, rfl⟩ : line = 0 ∧ column = 1 := by
    have hplace : (⟨1, 2, 2⟩ : Location) = ⟨line + 1, column + 1, 2⟩ := hplace
    simpa using hplace
  obtain rfl : column' = 2 := by
    have hplace' : (⟨1, 3, 4⟩ : Location) = ⟨line' + 1, column' + 1, 4⟩ := hplace'
    simpa using (Location.mk.inj hplace').2.1
  refine ⟨hline, hloc, hplace, hunder 'ó' rfl (by decide), hbehind (.inr rfl), ?_⟩
  exact ((hgrow 2 6 hboundary.1 hboundary.2.2).1 (by decide)).resolve_right (by decide)

end MemoPeg
