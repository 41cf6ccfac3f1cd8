import MemoPeg.Text.Basic

/-
  Where an offset lies for a reader: its line, its column and the source line around it.

  1. **Cut** — an offset inside a character or past the end stands for the greatest boundary before it,
     which is what `Text.cut` finds.  All answers read the same cut, so they cannot disagree about the
     place.
  2. **Counting** — lines and columns count from one, columns in characters.  Only a line feed ends a
     line; a carriage return is a character of the line that it stands in.
  3. **Line and caret** — the line around an offset is what stands on both sides of the cut up to the
     next line feed.  Below it, the caret has a space before it for each character before the cut.
-/

namespace MemoPeg

/-- A place in a text: line and column for the reader, and the byte offset it stands for. -/
structure Location where
  line : Nat
  column : Nat
  offset : Nat
deriving DecidableEq, Repr

/-- A location is written `line:column`. -/
def Location.render (loc : Location) : String :=
  toString loc.line ++ ":" ++ toString loc.column

namespace Text

/-- The characters after the last newline. -/
def lastLine (t : Text) : Text := (t.reverse.takeWhile (· ≠ '\n')).reverse

/-- The location of an offset: one line more than there are newlines before it, one column more
    than there are characters since the last of them. -/
def locate (t : Text) (n : Nat) : Location :=
  let before := (cut t n).1
  { line := before.count '\n' + 1
    column := (lastLine before).length + 1
    offset := before.size }

/-- The whole line around an offset, without its newline. -/
def lineAround (t : Text) (n : Nat) : Text :=
  let (before, after) := cut t n
  lastLine before ++ after.takeWhile (· ≠ '\n')

/-- The line around an offset with a caret under its column. -/
def caret (t : Text) (n : Nat) : String :=
  String.ofList (lineAround t n ++ '\n' :: List.replicate ((locate t n).column - 1) ' ' ++ ['^'])

end Text

end MemoPeg
