import MemoPeg.Regex.Automaton
import MemoPeg.Regex.Footprint

/-
  Reading an expression from its written form.

  1. **Syntax** — literals, `.`, bracketed classes with ranges, nesting and set operations, named and
     hexadecimal escapes, groups with flags `i m s R U u x`, `|`, `^ $`, `* + ? {n,m}` and the lazy
     forms.  Look-around and back-references are refused: a match must not need to remember anything.
  2. **Flags** — a flag directive holds up to the end of its group, through later alternatives too.
     Letter case is resolved here: under `i` every set is closed under case variants.
  3. **Bytes** — without `u` a class is one of bytes, so it must be ASCII and cannot be negated: the
     rest of the bytes are no characters.
  4. **Height** — constructs may stand inside one another up to a limit.  The height of what has been
     read is carried along, and a construct that would be too high is refused at once.
  5. **Termination** — every step of the reader takes at least one character, so the length of the
     source bounds the recursion.
  6. **Refused** — classes of characters by Unicode property (`\p` and `\P`) are not read: an
     expression that uses them is refused as one with an escape that is unknown.
  7. **Library** — `readerLibrary` makes the reader and the automata it builds a library that grammars
     can be run with.  Nothing proved of grammars and engines depends on this one.
-/

namespace MemoPeg

/-- Why a written expression is refused. -/
inductive RegexError where
  | groupUnclosed
  | groupUnopened
  | groupName
  | lookAround
  | backReference
  | flag
  | classUnclosed
  | classRange
  | classEscape
  | escape
  | hexDigits
  | repetitionMissing
  | repetitionCount
  /-- Something that only bytes could match. -/
  | notText
  | tooHigh
  | tooLarge
deriving DecidableEq, Repr

/-- What is wrong with a refused expression. -/
def RegexError.message : RegexError → String
  | .groupUnclosed => "unclosed group"
  | .groupUnopened => "unopened group"
  | .groupName => "invalid or duplicate group name"
  | .lookAround => "look-around is not supported"
  | .backReference => "backreferences are not supported"
  | .flag => "invalid flags"
  | .classUnclosed => "unclosed character class"
  | .classRange => "invalid character class range"
  | .classEscape => "invalid escape in a character class"
  | .escape => "unrecognized escape"
  | .hexDigits => "invalid hexadecimal code point"
  | .repetitionMissing => "repetition without an expression"
  | .repetitionCount => "invalid repetition count"
  | .notText => "matches what is not text"
  | .tooHigh => "expressions nested too deeply"
  | .tooLarge => "expression too large"

namespace Regex.Reader

/-- What is read from the rest of the source, and what remains of it. -/
abbrev Read (α : Type) := Except RegexError (α × List Char)

/-! ## Flags -/

/-- The flags in force. -/
structure Flags where
  ignoreCase : Bool := false
  multiLine : Bool := false
  dotAll : Bool := false
  /-- Carriage returns end lines too. -/
  crlf : Bool := false
  swapGreed : Bool := false
  unicode : Bool := true
  /-- White space and comments stand for nothing. -/
  spaced : Bool := false
deriving DecidableEq, Repr

/-- Sets or clears one flag. -/
def Flags.assign (flags : Flags) (c : Char) (on : Bool) : Option Flags :=
  match c with
  | 'i' => some { flags with ignoreCase := on }
  | 'm' => some { flags with multiLine := on }
  | 's' => some { flags with dotAll := on }
  | 'R' => some { flags with crlf := on }
  | 'U' => some { flags with swapGreed := on }
  | 'u' => some { flags with unicode := on }
  | 'x' => some { flags with spaced := on }
  | _ => none

/-- A set closed under case variants if case is ignored. -/
def Flags.cased (flags : Flags) (s : CharSet) : CharSet :=
  if flags.ignoreCase then (if flags.unicode then s.folded else s.foldedAscii) else s

/-- The members of a set, or all other characters.  Without Unicode there are no other characters
    but other bytes. -/
def Flags.negated (flags : Flags) (negated : Bool) (s : CharSet) : Except RegexError CharSet :=
  if negated then (if flags.unicode then .ok s.compl else .error .notText) else .ok s

/-- A set under the flags, negated or not: negation comes after letter case. -/
def Flags.resolve (flags : Flags) (negated : Bool) (s : CharSet) : Except RegexError CharSet :=
  flags.negated negated (flags.cased s)

/-- What a `.` matches. -/
def Flags.dot (flags : Flags) : Except RegexError CharSet :=
  if flags.unicode then
    .ok (if flags.dotAll then .all
      else if flags.crlf then (CharSet.single '\n').union (.single '\r') |>.compl
      else (CharSet.single '\n').compl)
  else .error .notText

/-- The start of the text, or of a line. -/
def Flags.start (flags : Flags) : Assertion :=
  if flags.multiLine then .lineStart flags.crlf else .textStart

/-- The end of the text, or of a line. -/
def Flags.stop (flags : Flags) : Assertion :=
  if flags.multiLine then .lineEnd flags.crlf else .textEnd

/-! ## White space -/

/-- Drops white space and comments, each from a number sign to the end of its line. -/
def dropSpace : Bool → List Char → List Char
  | _, [] => []
  | true, c :: cs => dropSpace (c != '\n') cs
  | false, c :: cs =>
    if isSpaceChar c then dropSpace false cs
    else if c == '#' then dropSpace true cs
    else c :: cs

theorem length_dropSpace_le (comment : Bool) (cs : List Char) :
    (dropSpace comment cs).length ≤ cs.length := by
  fun_induction dropSpace comment cs <;> simp_all <;> omega

/-- What remains when white space is dropped where it stands for nothing. -/
def Flags.skip (flags : Flags) (cs : List Char) : List Char :=
  if flags.spaced then dropSpace false cs else cs

theorem Flags.length_skip_le (flags : Flags) (cs : List Char) :
    (flags.skip cs).length ≤ cs.length := by
  unfold skip
  split
  · exact length_dropSpace_le false cs
  · exact Nat.le_refl _

/-- The next character that is neither white space nor the number sign of a comment. -/
def firstShown : Bool → List Char → Option Char
  | _, [] => none
  | comment, c :: cs =>
    if isSpaceChar c then firstShown comment cs
    else if c == '#' && !comment then firstShown true cs
    else some c

/-- The character ahead, past white space where that stands for nothing. -/
def Flags.peek (flags : Flags) (cs : List Char) : Option Char :=
  if flags.spaced then firstShown false cs else cs.head?

/-! ## Numbers -/

/-- The value of a hexadecimal digit. -/
def hexValue (c : Char) : Option Nat :=
  if '0' ≤ c ∧ c ≤ '9' then some (c.toNat - '0'.toNat)
  else if 'a' ≤ c ∧ c ≤ 'f' then some (c.toNat - 'a'.toNat + 10)
  else if 'A' ≤ c ∧ c ≤ 'F' then some (c.toNat - 'A'.toNat + 10)
  else none

/-- The character with a code point. -/
def charOf (n : Nat) : Except RegexError Char :=
  if n.isValidChar then .ok (Char.ofNat n) else .error .hexDigits

/-- Hexadecimal digits up to a closing brace; `n` is the value of those so far. -/
def hexInBraces (flags : Flags) (n : Option Nat) (cs : List Char) : Read Char :=
  match cs with
  | [] => .error .hexDigits
  | c :: rest =>
    match hexValue c, n, c == '\x7d' with
    | some d, n, _ => hexInBraces flags (some (n.getD 0 * 16 + d)) (flags.skip rest)
    | none, some n, true => (charOf n).map (·, rest)
    | _, _, _ => .error .hexDigits
termination_by cs.length
decreasing_by
  have := flags.length_skip_le rest
  simp only [List.length_cons]
  omega

/-- As many hexadecimal digits as given. -/
def hexOfWidth (flags : Flags) : Nat → Nat → List Char → Read Char
  | 0, n, cs => (charOf n).map (·, cs)
  | width + 1, n, cs =>
    match flags.skip cs with
    | c :: rest =>
      match hexValue c with
      | some d => hexOfWidth flags width (n * 16 + d) rest
      | none => .error .hexDigits
    | [] => .error .hexDigits

/-- The greatest count a repetition may name. -/
def maxCount : Nat := 4294967295

/-- Decimal digits; `n` is the value of those so far. -/
def digits (flags : Flags) (n : Option Nat) (cs : List Char) : Option Nat × List Char :=
  match cs with
  | [] => (n, [])
  | c :: rest =>
    if '0' ≤ c ∧ c ≤ '9' then
      digits flags (some (n.getD 0 * 10 + (c.toNat - '0'.toNat))) (flags.skip rest)
    else (n, c :: rest)
termination_by cs.length
decreasing_by
  have := flags.length_skip_le rest
  simp only [List.length_cons]
  omega

/-- A decimal count, white space around it allowed. -/
def readCount (flags : Flags) (cs : List Char) : Read Nat :=
  match digits flags none (cs.dropWhile isSpaceChar) with
  | (some n, rest) =>
    if n ≤ maxCount then .ok (n, flags.skip (rest.dropWhile isSpaceChar))
    else .error .repetitionCount
  | (none, _) => .error .repetitionCount

/-- The bounds of a counted repetition, after its opening brace. -/
def readBounds (flags : Flags) (cs : List Char) : Read (Nat × Option Nat) :=
  match readCount flags (flags.skip cs) with
  | .ok (min, '\x7d' :: rest) => .ok ((min, some min), rest)
  | .ok (min, ',' :: rest) =>
    match flags.skip rest with
    | '\x7d' :: rest => .ok ((min, none), rest)
    | rest =>
      match readCount flags rest with
      | .ok (max, '\x7d' :: rest) =>
        if min ≤ max then .ok ((min, some max), rest) else .error .repetitionCount
      | _ => .error .repetitionCount
  | _ => .error .repetitionCount

/-! ## Escapes -/

/-- What an escape stands for. -/
inductive Escaped where
  /-- A character; `byte` if it is written as a byte. -/
  | char (c : Char) (byte : Bool)
  | set (s : CharSet)
  | assertion (a : Assertion)

/-- Any ASCII character but a letter, a digit or an angle bracket stands for itself after a
    backslash. -/
def escapesItself (c : Char) : Bool :=
  c.toNat < 0x80 && !c.isAlphanum && c != '<' && c != '>'

/-- The assertions that a name in braces makes of `\b`. -/
def namedEdge (name : List Char) : Except RegexError WordEdge :=
  if name = "start".toList then .ok .start
  else if name = "end".toList then .ok .stop
  else if name = "start-half".toList then .ok .startHalf
  else if name = "end-half".toList then .ok .stopHalf
  else .error .escape

/-- The letters of a name and what follows them. -/
def edgeName (flags : Flags) (cs : List Char) : List Char × List Char :=
  match cs with
  | [] => ([], [])
  | c :: rest =>
    if c.isAlpha || c == '-' then
      let (name, rest) := edgeName flags (flags.skip rest)
      (c :: name, rest)
    else ([], c :: rest)
termination_by cs.length
decreasing_by
  have := flags.length_skip_le rest
  simp only [List.length_cons]
  omega

/-- The edge after `\b`, which a name in braces may narrow; anything else in braces is left to be
    read as a repetition. -/
def readEdge (flags : Flags) (cs : List Char) : Read WordEdge :=
  match cs with
  | '\x7b' :: rest =>
    match edgeName flags (flags.skip rest) with
    | ([], _) => .ok (.boundary, cs)
    | (name, '\x7d' :: rest) => (namedEdge name).map (·, rest)
    | _ => .error .escape
  | _ => .ok (.boundary, cs)

/-- A class that is named by a letter. -/
def Flags.named (flags : Flags) (unicode ascii : CharSet) (negated : Bool) :
    Except RegexError Escaped :=
  (flags.negated negated (if flags.unicode then unicode else ascii)).map .set

/-- Digits of ASCII. -/
def asciiDigitSet : CharSet := ⟨[(0x30, 0x39)]⟩

/-- White space of ASCII. -/
def asciiSpaceSet : CharSet := ⟨[(0x9, 0xd), (0x20, 0x20)]⟩

/-- A character written by its code point, after the letter that says how many digits it has. -/
def readHex (flags : Flags) (width : Nat) (cs : List Char) : Read Escaped :=
  match flags.skip cs with
  | '\x7b' :: rest =>
    (hexInBraces flags none (flags.skip rest)).map fun (c, rest) => (.char c false, rest)
  | cs => (hexOfWidth flags width 0 cs).map fun (c, rest) => (.char c (width == 2), rest)

/-- An escape, after its backslash. -/
def readEscape (flags : Flags) (cs : List Char) : Read Escaped :=
  match cs with
  | [] => .error .escape
  | c :: rest =>
    let word (edge : WordEdge) : Escaped := .assertion (.word edge !flags.unicode)
    match c with
    | 'd' => (flags.named digitSet asciiDigitSet false).map (·, rest)
    | 'D' => (flags.named digitSet asciiDigitSet true).map (·, rest)
    | 's' => (flags.named spaceSet asciiSpaceSet false).map (·, rest)
    | 'S' => (flags.named spaceSet asciiSpaceSet true).map (·, rest)
    | 'w' => (flags.named wordSet asciiWordSet false).map (·, rest)
    | 'W' => (flags.named wordSet asciiWordSet true).map (·, rest)
    | 'n' => .ok (.char '\n' false, rest)
    | 't' => .ok (.char '\t' false, rest)
    | 'r' => .ok (.char '\r' false, rest)
    | 'a' => .ok (.char '\x07' false, rest)
    | 'f' => .ok (.char '\x0c' false, rest)
    | 'v' => .ok (.char '\x0b' false, rest)
    | 'A' => .ok (.assertion .textStart, rest)
    | 'z' => .ok (.assertion .textEnd, rest)
    | 'b' => (readEdge flags rest).map fun (edge, rest) => (word edge, rest)
    | 'B' => .ok (word .notBoundary, rest)
    | '<' => .ok (word .start, rest)
    | '>' => .ok (word .stop, rest)
    | 'x' => readHex flags 2 rest
    | 'u' => readHex flags 4 rest
    | 'U' => readHex flags 8 rest
    | c =>
      if c.isDigit then .error .backReference
      else if escapesItself c then .ok (.char c false, rest)
      else .error .escape

/-- A character that is written as a byte beyond ASCII is no character without Unicode. -/
def Flags.allows (flags : Flags) (c : Char) (byte : Bool) : Bool :=
  flags.unicode || !byte || c.toNat < 0x80

/-! ## Bracketed classes -/

/-- The classes that are named between `[:` and `:]`. -/
def asciiClass (name : String) : Option CharSet :=
  match name with
  | "alnum" => some ⟨[(0x30, 0x39), (0x41, 0x5a), (0x61, 0x7a)]⟩
  | "alpha" => some ⟨[(0x41, 0x5a), (0x61, 0x7a)]⟩
  | "ascii" => some ⟨[(0x0, 0x7f)]⟩
  | "blank" => some ⟨[(0x9, 0x9), (0x20, 0x20)]⟩
  | "cntrl" => some ⟨[(0x0, 0x1f), (0x7f, 0x7f)]⟩
  | "digit" => some asciiDigitSet
  | "graph" => some ⟨[(0x21, 0x7e)]⟩
  | "lower" => some ⟨[(0x61, 0x7a)]⟩
  | "print" => some ⟨[(0x20, 0x7e)]⟩
  | "punct" => some ⟨[(0x21, 0x2f), (0x3a, 0x40), (0x5b, 0x60), (0x7b, 0x7e)]⟩
  | "space" => some asciiSpaceSet
  | "upper" => some ⟨[(0x41, 0x5a)]⟩
  | "word" => some asciiWordSet
  | "xdigit" => some ⟨[(0x30, 0x39), (0x41, 0x46), (0x61, 0x66)]⟩
  | _ => none

/-- A class named between `[:` and `:]`, after its opening bracket, and whether it is negated;
    nothing if this is not one. -/
def readAsciiClass (cs : List Char) : Option ((Bool × CharSet) × List Char) :=
  match cs with
  | ':' :: rest =>
    let (negated, rest) :=
      match rest with
      | '^' :: rest => (true, rest)
      | _ => (false, rest)
    match rest.span (· != ':') with
    | (name, ':' :: ']' :: rest) => (asciiClass (String.ofList name)).map fun s => ((negated, s), rest)
    | _ => none
  | _ => none

/-- One member of a class: a character or a set. -/
def readMember (flags : Flags) (cs : List Char) : Read Escaped :=
  match cs with
  | [] => .error .classUnclosed
  | '\\' :: rest => readEscape flags rest
  | c :: rest => .ok (.char c false, rest)

/-- The character of a member that is one; without Unicode it has to be ASCII. -/
def Flags.memberChar (flags : Flags) : Escaped → Except RegexError Char
  | .char c _ => if flags.unicode || c.toNat < 0x80 then .ok c else .error .notText
  | .set _ | .assertion _ => .error .classRange

/-- The set of a member. -/
def Flags.memberSet (flags : Flags) : Escaped → Except RegexError CharSet
  | .set s => .ok s
  | .assertion _ => .error .classEscape
  | member => (flags.memberChar member).map .single

/-- The set of the characters between two members, ends included. -/
def Flags.rangeSet (flags : Flags) (lo hi : Escaped) : Except RegexError CharSet := do
  let lo ← flags.memberChar lo
  let hi ← flags.memberChar hi
  if lo ≤ hi then .ok (.range lo hi) else .error .classRange

/-- A member or a range of a class.  A hyphen before a closing bracket or another hyphen does not
    make a range. -/
def readRange (flags : Flags) (cs : List Char) : Read CharSet :=
  match readMember flags cs with
  | .error e => .error e
  | .ok (lo, rest) =>
    match flags.skip rest with
    | [] => .error .classUnclosed
    | '-' :: rest =>
      if flags.peek rest == some ']' || flags.peek rest == some '-' then
        (flags.memberSet lo).map (·, '-' :: rest)
      else
        match readMember flags (flags.skip rest) with
        | .error e => .error e
        | .ok (hi, rest) => (flags.rangeSet lo hi).map (·, rest)
    | rest => (flags.memberSet lo).map (·, rest)

/-- The greatest height of an expression. -/
def maxHeight : Nat := 250

/-- The members of a class since its last set operator: their union, their number and the greatest of
    their heights. -/
structure Members where
  set : CharSet := .none
  count : Nat := 0
  height : Nat := 0

namespace Members

/-- Adds a member of a height. -/
def add (ms : Members) (s : CharSet) (height : Nat) : Members :=
  ⟨ms.set.union s, ms.count + 1, max ms.height height⟩

/-- The height of the members together: two or more are one construct. -/
def total (ms : Members) : Nat := if ms.count < 2 then ms.height else ms.height + 1

end Members

/-- How the sets of a class combine. -/
abbrev SetOp := CharSet → CharSet → CharSet

/-- What stands before a set operator: the operator, the set of its left side and its height. -/
structure Pending where
  op : SetOp
  left : CharSet
  height : Nat

/-- The members joined with what stands before the last set operator, and the height of the whole.
    Operands are closed under case variants before they are combined. -/
def Members.close (flags : Flags) (ms : Members) : Option Pending → CharSet × Nat
  | none => (ms.set, ms.total)
  | some before =>
    (before.op (flags.cased before.left) (flags.cased ms.set), max before.height ms.total + 1)

/-- The set operator that begins with two characters, if they are one. -/
def setOp? (c d : Char) : Option SetOp :=
  if c != d then none
  else
    match c with
    | '&' => some .inter
    | '-' => some .diff
    | '~' => some .symmDiff
    | _ => none

/-- Hyphens at the start of a class. -/
def readHyphens (flags : Flags) (ms : Members) (cs : List Char) : Members × List Char :=
  match cs with
  | [] => (ms, [])
  | c :: rest =>
    if c == '-' then readHyphens flags (ms.add (.single '-') 0) (flags.skip rest) else (ms, c :: rest)
termination_by cs.length
decreasing_by
  have := flags.length_skip_le rest
  simp only [List.length_cons]
  omega

/-- The start of a class, after its opening bracket: whether it is negated, and the members that can
    stand only there, hyphens or else a closing bracket. -/
def readOpening (flags : Flags) (cs : List Char) : (Bool × Members) × List Char :=
  let (negated, cs) :=
    match flags.skip cs with
    | '^' :: rest => (true, flags.skip rest)
    | cs => (false, cs)
  match readHyphens flags {} cs with
  | (ms, ']' :: rest) =>
    if ms.count = 0 then ((negated, ms.add (.single ']') 0), rest) else ((negated, ms), ']' :: rest)
  | (ms, rest) => ((negated, ms), rest)

/-- The rest of a class, after the members given.  `depth` counts the classes around; the answer is
    the set, negated or not, and its height. -/
def readMembers (flags : Flags) (depth : Nat) (negated : Bool) :
    Nat → Option Pending → Members → List Char → Read (CharSet × Nat)
  | 0, _, _, _ => .error .classUnclosed
  | fuel + 1, before, ms, cs =>
    match flags.skip cs with
    | [] => .error .classUnclosed
    | ']' :: rest =>
      let (s, height) := ms.close flags before
      if maxHeight ≤ height then .error .tooHigh
      else (flags.resolve negated s).map fun s => ((s, height + 1), rest)
    | '[' :: rest =>
      match readAsciiClass rest with
      | some ((negates, s), rest) =>
        match flags.resolve negates s with
        | .ok s => readMembers flags depth negated fuel before (ms.add s 0) rest
        | .error e => .error e
      | none =>
        if maxHeight ≤ depth then .error .tooHigh
        else
          let ((negates, first), rest) := readOpening flags rest
          match readMembers flags (depth + 1) negates fuel none first rest with
          | .ok ((s, height), rest) =>
            readMembers flags depth negated fuel before (ms.add s height) rest
          | .error e => .error e
    | c :: rest =>
      match rest.head?.bind (setOp? c) with
      | some op =>
        let (s, height) := ms.close flags before
        if maxHeight ≤ height then .error .tooHigh
        else readMembers flags depth negated fuel (some ⟨op, s, height⟩) {} (rest.drop 1)
      | none =>
        match readRange flags (c :: rest) with
        | .ok (s, rest) => readMembers flags depth negated fuel before (ms.add s 0) rest
        | .error e => .error e

/-- A bracketed class, after its opening bracket, and its height. -/
def readClass (flags : Flags) (fuel : Nat) (cs : List Char) : Read (CharSet × Nat) :=
  let ((negated, first), rest) := readOpening flags cs
  readMembers flags 1 negated fuel none first rest

/-! ## Groups -/

/-- What an opening parenthesis begins. -/
inductive GroupHead where
  /-- A group that reports where it matched. -/
  | reporting
  /-- A group with flags of its own. -/
  | plain (flags : Flags)
  /-- Flags for the rest of the group around. -/
  | directive (flags : Flags)

/-- Flags up to `:` or `)`.  `on` turns false after a minus sign; `given` are the flags so far. -/
def readFlags (on : Bool) (given : List Char) (flags : Flags) : List Char → Read GroupHead
  | [] => .error .flag
  | ':' :: rest => if given.head? == some '-' then .error .flag else .ok (.plain flags, rest)
  | ')' :: rest =>
    if given.isEmpty then .error .repetitionMissing
    else if given.head? == some '-' then .error .flag
    else .ok (.directive flags, rest)
  | c :: rest =>
    if given.contains c then .error .flag
    else if c == '-' then readFlags false (c :: given) flags rest
    else
      match flags.assign c on with
      | some flags => readFlags on (c :: given) flags rest
      | none => .error .flag

/-- A name begins with a letter or `_` and goes on with these, numbers, dots and brackets. -/
def isGroupName : List Char → Bool
  | [] => false
  | c :: cs =>
    (c == '_' || letterSet.contains c) &&
      cs.all fun c => c == '_' || c == '.' || c == '[' || c == ']' || letterSet.contains c ||
        numberSet.contains c

/-- The name of a group, after its opening angle bracket; names are given only once. -/
def readName (names : List Text) (cs : List Char) : Read (List Text) :=
  match cs.span (· != '>') with
  | (name, _ :: rest) =>
    if isGroupName name && !names.contains name then .ok (name :: names, rest)
    else .error .groupName
  | (_, []) => .error .groupName

/-- What follows an opening parenthesis, and the names of groups with it. -/
def readGroupHead (flags : Flags) (names : List Text) (cs : List Char) :
    Read (GroupHead × List Text) :=
  match flags.skip cs with
  | '?' :: '=' :: _ | '?' :: '!' :: _ | '?' :: '<' :: '=' :: _ | '?' :: '<' :: '!' :: _ =>
    .error .lookAround
  | '?' :: 'P' :: '<' :: rest | '?' :: '<' :: rest =>
    (readName names rest).map fun (names, rest) => ((.reporting, names), rest)
  | '?' :: rest => (readFlags true [] flags rest).map fun (head, rest) => ((head, names), rest)
  | cs => .ok ((.reporting, names), cs)

/-! ## Expressions -/

/-- One part of a sequence with its height.  A flag directive takes a place in the sequence, but
    matches nothing and cannot be repeated. -/
structure Piece where
  regex : Option Regex
  height : Nat

/-- The height of pieces in a row: two or more are one construct. -/
def rowHeight (heights : List Nat) : Nat :=
  let highest := heights.foldl max 0
  if heights.length < 2 then highest else highest + 1

/-- The sequence of some pieces, given last first. -/
def sequencePiece (pieces : List Piece) : Regex × Nat :=
  (sequenceOf (pieces.reverse.filterMap (·.regex)), rowHeight (pieces.map (·.height)))

/-- The ordered choice between alternatives, given last first. -/
def choicePiece (branches : List (Regex × Nat)) : Regex × Nat :=
  (choiceOf (branches.reverse.map (·.1)), rowHeight (branches.map (·.2)))

/-- A construct around something of a height, unless that is too high already. -/
def around (r : Regex) (height : Nat) : Except RegexError Piece :=
  if maxHeight ≤ height then .error .tooHigh else .ok ⟨r, height + 1⟩

/-- A repetition of the last piece, lazy when a question mark follows. -/
def repeatLast (flags : Flags) (pieces : List Piece) (min : Nat) (max : Option Nat)
    (cs : List Char) : Read (List Piece) :=
  match pieces with
  | ⟨some r, height⟩ :: before =>
    let (greedy, rest) :=
      match cs with
      | '?' :: rest => (flags.swapGreed, rest)
      | rest => (!flags.swapGreed, rest)
    (around (repeated r min max greedy) height).map fun piece => (piece :: before, rest)
  | _ => .error .repetitionMissing

/-- A character under the flags. -/
def Flags.literal (flags : Flags) (c : Char) : Regex := ofSet (flags.cased (.single c))

/-- What an escape matches outside a class. -/
def Flags.escaped (flags : Flags) : Escaped → Except RegexError Regex
  | .char c byte => if flags.allows c byte then .ok (flags.literal c) else .error .notText
  | .set s => .ok (ofSet s)
  | .assertion a => .ok (.assertion a)

/-- A construct that is neither a group nor a repetition, and its height. -/
def readSimple (flags : Flags) (fuel : Nat) (c : Char) (rest : List Char) : Read (Regex × Nat) :=
  match c with
  | '[' => (readClass flags fuel rest).map fun ((s, height), rest) => ((ofSet s, height), rest)
  | '\\' =>
    match readEscape flags rest with
    | .ok (escaped, rest) => (flags.escaped escaped).map fun r => ((r, 0), rest)
    | .error e => .error e
  | '.' => flags.dot.map fun s => ((ofSet s, 0), rest)
  | '^' => .ok ((.assertion flags.start, 0), rest)
  | '$' => .ok ((.assertion flags.stop, 0), rest)
  | c => .ok ((flags.literal c, 0), rest)

/-- The bounds of a repetition, if the next construct is one. -/
def readRepetition (flags : Flags) (c : Char) (rest : List Char) :
    Option (Read (Nat × Option Nat)) :=
  match c with
  | '*' => some (.ok ((0, none), rest))
  | '+' => some (.ok ((1, none), rest))
  | '?' => some (.ok ((0, some 1), rest))
  | '\x7b' =>
    some ((readBounds flags rest).map fun (bounds, rest) => (bounds, flags.skip rest))
  | _ => none

/-- What is known of the groups: how many report, and the names given. -/
structure Groups where
  count : Nat := 0
  names : List Text := []

/-- Reads up to the end of the group (`depth` counts the groups around) or of the source.
    `before` are the finished alternatives and `pieces` the parts of the current one, last first.
    Answers with the expression and its height, and with what is known of the groups. -/
def readItems : Nat → Nat → Flags → Groups → List (Regex × Nat) → List Piece → List Char →
    Read ((Regex × Nat) × Groups)
  | 0, _, _, _, _, _, _ => .error .tooLarge
  | fuel + 1, depth, flags, groups, before, pieces, cs =>
    match flags.skip cs with
    | [] =>
      if depth = 0 then .ok ((choicePiece (sequencePiece pieces :: before), groups), [])
      else .error .groupUnclosed
    | ')' :: rest =>
      if depth = 0 then .error .groupUnopened
      else .ok ((choicePiece (sequencePiece pieces :: before), groups), rest)
    | '|' :: rest => readItems fuel depth flags groups (sequencePiece pieces :: before) [] rest
    | '(' :: rest =>
      match readGroupHead flags groups.names rest with
      | .error e => .error e
      | .ok ((.directive flags, _), rest) =>
        readItems fuel depth flags groups before (⟨none, 0⟩ :: pieces) rest
      | .ok ((head, names), rest) =>
        if maxHeight ≤ depth then .error .tooHigh
        else
          let number := groups.count + 1
          let (wrap, count, inner) :=
            match head with
            | .plain inner => (id, groups.count, inner)
            | _ => (Regex.group number, number, flags)
          match readItems fuel (depth + 1) inner ⟨count, names⟩ [] [] rest with
          | .error e => .error e
          | .ok (((r, height), groups), rest) =>
            match around (wrap r) height with
            | .ok piece => readItems fuel depth flags groups before (piece :: pieces) rest
            | .error e => .error e
    | c :: rest =>
      match readRepetition flags c rest with
      | some (.error e) => .error e
      | some (.ok ((min, max), rest)) =>
        match repeatLast flags pieces min max rest with
        | .ok (pieces, rest) => readItems fuel depth flags groups before pieces rest
        | .error e => .error e
      | none =>
        match readSimple flags (fuel + 1) c rest with
        | .ok ((r, height), rest) =>
          readItems fuel depth flags groups before (⟨r, height⟩ :: pieces) rest
        | .error e => .error e

end Regex.Reader

/-- Reads an expression from its written form. -/
def Regex.read (source : Text) : Except RegexError Regex :=
  match Reader.readItems (source.length + 1) 0 {} {} [] [] source with
  | .error e => .error e
  | .ok (((r, height), _), _) =>
    if Reader.maxHeight < height then .error .tooHigh
    else if r.fits then .ok r
    else .error .tooLarge

/-- The graph of a written expression. -/
def Automaton.read (source : Text) : Except RegexError Automaton :=
  (Regex.read source).map Regex.automaton

/-- The library of the expressions that the reader accepts. -/
instance readerLibrary : RegexLibrary where
  compile source :=
    match Automaton.read source.toList with
    | .ok m => .ok m.matcher
    | .error e => .error e.message

end MemoPeg
