import MemoPeg.Emit.Module
import MemoPeg.Proofs.Quoting

/-
  Token streams.

  What a compiler gets from an emitted module is a stream of words and groups; how the module was put
  together from phrases is not in it.  So this is the form in which modules are compared.

  1. **Streams (`Lexeme`)** — what is left of emitted tokens in a stream: words, signs and literals by how
     they are written, in groups.  The text of a module is made from its stream (`print_lexemes`), so
     nothing that is said of streams could fail of the text.
  2. **Literals** — numbers, strings and characters are known from how they are written.  A negative integer
     is two words, its sign and its size.
  3. **Rows** — rows that no comma stands in are found again between the commas.  A comma inside a group
     does no harm: it is in the group, not in the row.
  4. **Values and arguments (`value_injective`, `args_injective`)** — are known from the stream of their
     source: the path at its front says which kind of value it is.  Values nest, so this is an induction on
     the first value, through the rows of its parts.
-/

namespace MemoPeg

/-- What a token stream is made of. -/
inductive Lexeme where
  /-- A word, a sign or a literal, as it is written. -/
  | word (s : String)
  | group (bracket : Bracket) (inner : List Lexeme)

namespace Token

/-- A number of things as it is written. -/
def countWord (n : Nat) : String := toString n ++ "usize"

/-- An integer, with its sign as a word of its own. -/
def integerWords (n : Int64) : List Lexeme :=
  (if n < 0 then [.word "-"] else []) ++ [.word (toString n.toInt.natAbs ++ "i64")]

mutual

/-- The stream of a row of tokens. -/
def lexemes : List Token → List Lexeme
  | [] => []
  | t :: ts => lexeme t ++ lexemes ts

/-- What a token is in a stream. -/
def lexeme : Token → List Lexeme
  | .raw s => [.word s]
  | .count n => [.word (countWord n)]
  | .integer n => integerWords n
  | .text s => [.word (Quoted.literalString s)]
  | .char c => [.word (Quoted.quoteChar c)]
  | .group bracket inner => [.group bracket (lexemes inner)]

end

@[simp] theorem lexemes_nil : lexemes [] = [] := by rw [lexemes]

/-- The stream of a row is made token by token. -/
theorem lexemes_cons (t : Token) (ts : List Token) : lexemes (t :: ts) = lexeme t ++ lexemes ts := by
  rw [lexemes]

@[simp] theorem lexemes_append (ts us : List Token) : lexemes (ts ++ us) = lexemes ts ++ lexemes us := by
  induction ts with
  | nil => rw [List.nil_append, lexemes_nil, List.nil_append]
  | cons t ts ih => rw [List.cons_append, lexemes_cons, lexemes_cons, ih, List.append_assoc]

@[simp] theorem lexemes_raw_cons (s : String) (ts : List Token) :
    lexemes (.raw s :: ts) = .word s :: lexemes ts := by rw [lexemes_cons, lexeme, List.singleton_append]

@[simp] theorem lexemes_count_cons (n : Nat) (ts : List Token) :
    lexemes (.count n :: ts) = .word (countWord n) :: lexemes ts := by
  rw [lexemes_cons, lexeme, List.singleton_append]

@[simp] theorem lexemes_integer_cons (n : Int64) (ts : List Token) :
    lexemes (.integer n :: ts) = integerWords n ++ lexemes ts := by rw [lexemes_cons, lexeme]

@[simp] theorem lexemes_text_cons (s : String) (ts : List Token) :
    lexemes (.text s :: ts) = .word (Quoted.literalString s) :: lexemes ts := by
  rw [lexemes_cons, lexeme, List.singleton_append]

@[simp] theorem lexemes_char_cons (c : Char) (ts : List Token) :
    lexemes (.char c :: ts) = .word (Quoted.quoteChar c) :: lexemes ts := by
  rw [lexemes_cons, lexeme, List.singleton_append]

@[simp] theorem lexemes_parens_cons (inner ts : List Token) :
    lexemes (parens inner :: ts) = .group .round (lexemes inner) :: lexemes ts := by
  rw [parens, lexemes_cons, lexeme, List.singleton_append]

@[simp] theorem lexemes_brackets_cons (inner ts : List Token) :
    lexemes (brackets inner :: ts) = .group .square (lexemes inner) :: lexemes ts := by
  rw [brackets, lexemes_cons, lexeme, List.singleton_append]

@[simp] theorem lexemes_braces_cons (inner ts : List Token) :
    lexemes (braces inner :: ts) = .group .curly (lexemes inner) :: lexemes ts := by
  rw [braces, lexemes_cons, lexeme, List.singleton_append]

end Token

/-! ## Printing -/

namespace Lexeme

mutual

/-- A lexeme as it is printed. -/
def print : Lexeme → String
  | .word s => s
  | .group .round inner => "(" ++ printAll inner ++ ")"
  | .group .square inner => "[" ++ printAll inner ++ "]"
  | .group .curly [] => "\x7b \x7d"
  | .group .curly inner => "\x7b " ++ printAll inner ++ " \x7d"

/-- A stream as it is printed. -/
def printAll : List Lexeme → String
  | [] => ""
  | [x] => print x
  | x :: xs => print x ++ " " ++ printAll xs

end

/-- Streams are printed with a space between them. -/
theorem printAll_append {xs ys : List Lexeme} (hxs : xs ≠ []) (hys : ys ≠ []) :
    printAll (xs ++ ys) = printAll xs ++ " " ++ printAll ys := by
  induction xs with
  | nil => exact absurd rfl hxs
  | cons x xs ih =>
    cases xs with
    | nil =>
      obtain ⟨y, ys, rfl⟩ := List.exists_cons_of_ne_nil hys
      simp only [List.singleton_append, printAll]
    | cons x' xs =>
      have hrest := ih (List.cons_ne_nil x' xs)
      simp only [List.cons_append, printAll] at hrest ⊢
      rw [hrest]
      simp only [String.append_assoc]

end Lexeme

namespace Token

/-- Every token leaves something in the stream. -/
theorem lexeme_ne_nil (t : Token) : lexeme t ≠ [] := by
  cases t <;> simp [lexeme, integerWords]

theorem lexemes_ne_nil {ts : List Token} (h : ts ≠ []) : lexemes ts ≠ [] := by
  obtain ⟨t, ts, rfl⟩ := List.exists_cons_of_ne_nil h
  rw [lexemes_cons]
  exact List.append_ne_nil_of_left_ne_nil (lexeme_ne_nil t) _

mutual

/-- **Streams hold all of the text**: tokens are printed like their stream. -/
theorem print_lexemes : ∀ ts : List Token, Lexeme.printAll (lexemes ts) = printAll ts
  | [] => by rw [lexemes_nil]; rfl
  | [t] => by rw [lexemes_cons, lexemes_nil, List.append_nil, print_lexeme t, printAll]
  | t :: t' :: ts => by
    have hrest : lexemes (t' :: ts) ≠ [] := lexemes_ne_nil (List.cons_ne_nil t' ts)
    rw [lexemes_cons, Lexeme.printAll_append (lexeme_ne_nil t) hrest, print_lexeme t,
      print_lexemes (t' :: ts)]
    rfl

/-- A token is printed like what it leaves in the stream. -/
theorem print_lexeme : ∀ t : Token, Lexeme.printAll (lexeme t) = print t
  | .raw _ | .count _ | .text _ | .char _ => by
    simp only [lexeme, countWord, Lexeme.printAll, Lexeme.print, print]
  | .integer n => by
    by_cases hn : n < 0
    · simp [lexeme, integerWords, hn, Lexeme.printAll, Lexeme.print, print, String.append_assoc]
    · simp [lexeme, integerWords, hn, Lexeme.printAll, Lexeme.print, print]
  | .group .round inner | .group .square inner => by
    simp only [lexeme, Lexeme.printAll, Lexeme.print, print, print_lexemes inner]
  | .group .curly [] => by simp only [lexeme, lexemes_nil, Lexeme.printAll, Lexeme.print, print]
  | .group .curly (t :: ts) => by
    have hne : lexemes (t :: ts) ≠ [] := lexemes_ne_nil (List.cons_ne_nil t ts)
    rw [lexeme, Lexeme.printAll, Lexeme.print, print, print_lexemes (t :: ts)]
    · exact List.cons_ne_nil t ts
    · exact hne

end

end Token

/-- The token stream of the parser module of a grammar. -/
def Grammar.stream [RegexLibrary] (g : Grammar) : List Lexeme := Token.lexemes g.emit

/-- The source text of a module is its stream, printed. -/
theorem Grammar.print_stream [RegexLibrary] (g : Grammar) : Lexeme.printAll g.stream = g.source :=
  Token.print_lexemes g.emit

/-! ## Literals -/

/-- A count is known from its word. -/
@[simp] theorem countWord_inj {m n : Nat} : Token.countWord m = Token.countWord n ↔ m = n :=
  ⟨fun h => Quoted.toString_injective ((String.append_left_inj _).1 h), congrArg _⟩

/-- A string is known from its literal. -/
@[simp] theorem text_inj {s t : String} : Quoted.literalString s = Quoted.literalString t ↔ s = t :=
  ⟨Quoted.literalString_injective, congrArg _⟩

/-- A character is known from its literal. -/
@[simp] theorem char_inj {c d : Char} : Quoted.quoteChar c = Quoted.quoteChar d ↔ c = d :=
  ⟨Quoted.quoteChar_injective, congrArg _⟩

/-- An integer is known from its sign and its size. -/
@[simp] theorem integerWords_inj {m n : Int64} :
    Token.integerWords m = Token.integerWords n ↔ m = n := by
  refine ⟨fun h => Int64.toInt_inj.1 ?_, congrArg _⟩
  have hm : m < 0 ↔ m.toInt < 0 := by rw [Int64.lt_iff_toInt_lt, Int64.toInt_zero]
  have hn : n < 0 ↔ n.toInt < 0 := by rw [Int64.lt_iff_toInt_lt, Int64.toInt_zero]
  unfold Token.integerWords at h
  obtain ⟨hsign, hword⟩ := List.append_singleton_inj.1 h
  have hsize : m.toInt.natAbs = n.toInt.natAbs := by
    exact Quoted.toString_injective ((String.append_left_inj _).1 (Lexeme.word.inj hword))
  have hneg : m < 0 ↔ n < 0 := by
    by_cases hm0 : m < 0 <;> by_cases hn0 : n < 0 <;> simp [hm0, hn0] at hsign ⊢
  have hnegative : m.toInt < 0 ↔ n.toInt < 0 := hm.symm.trans (hneg.trans hn)
  omega

/-! ## Rows -/

/-- The comma between rows. -/
def comma : Lexeme := .word ","

/-- Rows of lexemes with commas between them. -/
def separated : List (List Lexeme) → List Lexeme
  | [] => []
  | [xs] => xs
  | xs :: rows => xs ++ comma :: separated rows

/-- Rows between commas have streams between commas. -/
theorem lexemes_commaSeparated : ∀ rows : List (List Token),
    Token.lexemes (Token.commaSeparated rows) = separated (rows.map Token.lexemes)
  | [] => Token.lexemes_nil
  | [ts] => rfl
  | ts :: ts' :: rows => by
    have hrest := lexemes_commaSeparated (ts' :: rows)
    simp only [List.map_cons] at hrest ⊢
    rw [separated, Token.commaSeparated, Token.lexemes_append, Token.lexemes_append, hrest,
      List.append_assoc]
    · rfl
    · exact List.cons_ne_nil _ _
    · exact List.cons_ne_nil _ _

/-- The row can be found again between commas. -/
structure IsItem (xs : List Lexeme) : Prop where
  nonempty : xs ≠ []
  plain : comma ∉ xs

/-- What stands between commas begins with the first row, which ends at a comma or at the end. -/
theorem separated_cons (xs : List Lexeme) (rows : List (List Lexeme)) :
    separated (xs :: rows) = xs ∨ ∃ ys, separated (xs :: rows) = xs ++ comma :: ys := by
  cases rows with
  | nil => exact .inl rfl
  | cons ys rows => exact .inr ⟨_, rfl⟩

/-- **Rows are found again between the commas.** -/
theorem separated_injective : ∀ {rows rows' : List (List Lexeme)}, (∀ xs ∈ rows, IsItem xs) →
    (∀ xs ∈ rows', IsItem xs) → separated rows = separated rows' → rows = rows'
  | [], [], _, _, _ => rfl
  | [], ys :: rows', _, hrows', h => by
    have hys := hrows' ys List.mem_cons_self
    obtain hrow | ⟨zs, hrow⟩ := separated_cons ys rows' <;> rw [hrow] at h
    · exact absurd h.symm hys.nonempty
    · exact absurd h.symm (List.append_ne_nil_of_left_ne_nil hys.nonempty _)
  | xs :: rows, [], hrows, _, h => by
    have hxs := hrows xs List.mem_cons_self
    obtain hrow | ⟨zs, hrow⟩ := separated_cons xs rows <;> rw [hrow] at h
    · exact absurd h hxs.nonempty
    · exact absurd h (List.append_ne_nil_of_left_ne_nil hxs.nonempty _)
  | [xs], [ys], _, _, h => by rw [show xs = ys from h]
  | [xs], ys :: ys' :: rows', hrows, _, h => by
    -- A comma stands in the second row only.
    have hcomma : comma ∈ xs := by
      rw [show xs = ys ++ comma :: separated (ys' :: rows') from h]
      exact List.mem_append_right ys List.mem_cons_self
    exact absurd hcomma (hrows xs List.mem_cons_self).plain
  | xs :: xs' :: rows, [ys], _, hrows', h => by
    have hcomma : comma ∈ ys := by
      rw [show ys = xs ++ comma :: separated (xs' :: rows) from h.symm]
      exact List.mem_append_right xs List.mem_cons_self
    exact absurd hcomma (hrows' ys List.mem_cons_self).plain
  | xs :: xs' :: rows, ys :: ys' :: rows', hrows, hrows', h => by
    obtain ⟨rfl, hrest⟩ := append_cons_inj (hrows xs List.mem_cons_self).plain
      (hrows' ys List.mem_cons_self).plain h
    rw [separated_injective (fun zs hzs => hrows zs (List.mem_cons_of_mem xs hzs))
      (fun zs hzs => hrows' zs (List.mem_cons_of_mem xs hzs)) hrest]

/-- If one thing is known from another, then it is so for lists of them. -/
theorem map_eq_map {α β γ : Type} {f : α → β} {g : α → γ} (hfg : ∀ a b, f a = f b → g a = g b) :
    ∀ {as bs : List α}, as.map f = bs.map f → as.map g = bs.map g
  | [], [], _ => rfl
  | a :: as, b :: bs, h => by
    obtain ⟨hfirst, hrest⟩ := List.cons.inj h
    rw [List.map_cons, List.map_cons, hfg a b hfirst, map_eq_map hfg hrest]

/-- What is known of each item from its stream is known of all items from the stream of the row. -/
theorem commaSeparated_injective {α β : Type} {f : α → List Token} {g : α → β}
    (hitem : ∀ a, IsItem (Token.lexemes (f a)))
    (hg : ∀ a b, Token.lexemes (f a) = Token.lexemes (f b) → g a = g b) {as bs : List α}
    (h : Token.lexemes (Token.commaSeparated (as.map f)) =
      Token.lexemes (Token.commaSeparated (bs.map f))) : as.map g = bs.map g := by
  have hitems : ∀ cs : List α, ∀ xs ∈ cs.map (fun a => Token.lexemes (f a)), IsItem xs := by
    intro cs xs hxs
    obtain ⟨a, -, rfl⟩ := List.mem_map.1 hxs
    exact hitem a
  rw [lexemes_commaSeparated, lexemes_commaSeparated, List.map_map, List.map_map] at h
  exact map_eq_map hg (separated_injective (hitems as) (hitems bs) h)

/-! ## Values and arguments -/

namespace Emit

open Token

/-- The source of a value is a path and perhaps a group, with no comma outside the group. -/
theorem isItem_value (v : Value) : IsItem (lexemes (value v)) := by
  constructor <;> cases v <;> simp [value, nilValue, valueOf, runtime, code, comma]

/-- So is that of an argument. -/
theorem isItem_arg (a : Arg) : IsItem (lexemes (arg a)) := by
  cases a with
  | value v => exact isItem_value v
  | binding name => constructor <;> simp [arg, comma]

/-- The sources of values are made value by value. -/
theorem values_eq (vs : List Value) : values vs = vs.map value := by
  induction vs with
  | nil => rfl
  | cons v vs ih => rw [values, ih, List.map_cons]

/-- The streams of values are found again between the commas. -/
theorem lexemes_values_injective {vs ws : List Value}
    (h : lexemes (commaSeparated (values vs)) = lexemes (commaSeparated (values ws))) :
    vs.map (fun v => lexemes (value v)) = ws.map fun v => lexemes (value v) := by
  rw [values_eq, values_eq] at h
  exact commaSeparated_injective isItem_value (fun _ _ hvw => hvw) h

mutual

/-- **A value is known from the stream of its source.** -/
theorem value_injective : ∀ {v w : Value}, lexemes (value v) = lexemes (value w) → v = w
  | .nil, w, h => by
    cases w <;> simp [value, nilValue, valueOf, runtime, code] at h ⊢
  | .bool b, w, h => by
    cases w <;> simp [value, nilValue, valueOf, runtime, code] at h ⊢
    case bool b' => cases b <;> cases b' <;> simp at h ⊢
  | .int n, w, h => by
    cases w <;> simp [value, nilValue, valueOf, runtime, code] at h ⊢
    exact h
  | .char c, w, h => by
    cases w <;> simp [value, nilValue, valueOf, runtime, code] at h ⊢
    exact h
  | .str s, w, h => by
    cases w <;> simp [value, nilValue, valueOf, runtime, code, ownedString] at h ⊢
    exact h
  | .span start stop, w, h => by
    cases w <;> simp [value, nilValue, valueOf, runtime, code] at h ⊢
    exact h
  | .list items, w, h => by
    cases w <;> simp [value, nilValue, valueOf, runtime, code] at h ⊢
    exact values_injective (lexemes_values_injective h)
  | .node name children, w, h => by
    cases w <;> simp [value, nilValue, valueOf, runtime, code, ownedString] at h ⊢
    exact ⟨h.1, values_injective (lexemes_values_injective h.2)⟩

/-- Lists of values are known value by value. -/
theorem values_injective : ∀ {vs ws : List Value},
    vs.map (fun v => lexemes (value v)) = ws.map (fun v => lexemes (value v)) → vs = ws
  | [], [], _ => rfl
  | v :: vs, w :: ws, h => by
    obtain ⟨hfirst, hrest⟩ := List.cons.inj h
    rw [value_injective hfirst, values_injective hrest]

end

/-- An argument is known from the stream of its source. -/
theorem arg_injective {a b : Arg} (h : lexemes (arg a) = lexemes (arg b)) : a = b := by
  -- Values begin with a path, bindings with the scope.
  have hpath : ∀ v : Value, ∃ xs, lexemes (value v) = .word "::" :: xs := by
    intro v
    cases v <;> exact ⟨_, by simp [value, nilValue, valueOf, runtime, code]; rfl⟩
  cases a with
  | value v =>
    cases b with
    | value w => rw [value_injective h]
    | binding name =>
      obtain ⟨xs, hv⟩ := hpath v
      simp [arg, hv] at h
  | binding name =>
    cases b with
    | value w =>
      obtain ⟨xs, hw⟩ := hpath w
      simp [arg, hw] at h
    | binding name' => simpa [arg] using h

/-- **Arguments are known from the stream of their source.** -/
theorem args_injective {as bs : List Arg} (h : lexemes (args as) = lexemes (args bs)) : as = bs := by
  have hrows : lexemes (commaSeparated (as.map arg)) = lexemes (commaSeparated (bs.map arg)) := by
    simpa [args] using h
  simpa using commaSeparated_injective (g := id) isItem_arg (fun _ _ => arg_injective) hrows

end Emit

end MemoPeg
