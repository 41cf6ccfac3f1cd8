import MemoPeg.Value.Basic
import MemoPeg.Text.Quoted

/-
  Emitted source as a tree of tokens, and how it is printed.

  1. **Tokens** — groups are trees, so brackets always match.  Literals are kept as what they stand for: a
     string as its characters, a number as a number, and the spelling is left to printing.  Counts and
     integers are of two types in the emitted code, which their suffixes tell apart.
  2. **Printing** — one space stands between two tokens, none inside round and square brackets, one inside
     braces.  The sign of an integer is a token of its own, and so a space follows it.

  The source is put together from rows of tokens, in which words and signs are written as strings.  In the midst
  of an appending, `Token.code` says that such a row is meant.
-/

namespace MemoPeg

/-- The brackets of a group. -/
inductive Bracket where
  | round
  | square
  | curly
deriving DecidableEq, Repr

/-- A token of emitted source. -/
inductive Token where
  /-- A word, a sign, or a literal, printed as it is. -/
  | raw (s : String)
  /-- A number of things or a position. -/
  | count (n : Nat)
  /-- An integer of 64 bits; a sign is printed as a token of its own. -/
  | integer (n : Int64)
  | text (s : String)
  | char (c : Char)
  | group (bracket : Bracket) (body : List Token)

namespace Token

instance : Coe String Token := ⟨raw⟩

/-- A row of tokens, in which words and signs can be written as strings. -/
abbrev code (ts : List Token) : List Token := ts

/-- A group in round brackets. -/
def parens (body : List Token) : Token := .group .round body

/-- A group in square brackets. -/
def brackets (body : List Token) : Token := .group .square body

/-- A group in braces. -/
def braces (body : List Token) : Token := .group .curly body

mutual

/-- A token as it is printed. -/
def print : Token → String
  | .raw s => s
  | .count n => toString n ++ "usize"
  | .integer n => (if n < 0 then "- " else "") ++ toString n.toInt.natAbs ++ "i64"
  | .text s => Quoted.literalString s
  | .char c => Quoted.quoteChar c
  | .group .round body => "(" ++ printAll body ++ ")"
  | .group .square body => "[" ++ printAll body ++ "]"
  | .group .curly [] => "\x7b \x7d"
  | .group .curly body => "\x7b " ++ printAll body ++ " \x7d"

/-- A row of tokens as it is printed. -/
def printAll : List Token → String
  | [] => ""
  | [t] => print t
  | t :: ts => print t ++ " " ++ printAll ts

end

/-- Rows of tokens with commas between them. -/
def commaSeparated : List (List Token) → List Token
  | [] => []
  | [ts] => ts
  | ts :: rows => ts ++ code [","] ++ commaSeparated rows

end Token

end MemoPeg
