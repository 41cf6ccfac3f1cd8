import MemoPeg.Text.Basic
import MemoPeg.Text.Printable

/-
  Quoted text: a string between double quotes, a character between single quotes.

  1. **Escapes** — NUL, tab, line feed, carriage return and backslash have short escapes; a quote is
     escaped only inside quotes of its own kind; a hidden character is written as its code point.
  2. **Literals (`literalString`)** — a string literal of emitted code, where a NUL before an octal digit
     takes the long form, since the short form would swallow the digit.  So a literal is not written
     character by character: one character has to be known ahead.

  The text of a quoted string is wanted as a row of characters when it is put together with others, and as a
  string when it is printed; `quoteText` and `quoteString` are the same but for that.
-/

namespace MemoPeg.Quoted

/-- Hexadecimal digits of a number, lower case, without leading zeros. -/
def hex (n : Nat) : List Char := Nat.toDigits 16 n

/-- A character by its code point. -/
def codePoint (c : Char) : List Char := ['\\', 'u', '\x7b'] ++ hex c.toNat ++ ['\x7d']

/-- One character inside quotes of the kind `quote`. -/
def escape (quote c : Char) : List Char :=
  match c with
  | '\x00' => ['\\', '0']
  | '\t' => ['\\', 't']
  | '\n' => ['\\', 'n']
  | '\r' => ['\\', 'r']
  | '\\' => ['\\', '\\']
  | c =>
    if c == quote then ['\\', c]
    else if isShown c then [c]
    else codePoint c

/-- A string between double quotes. -/
def quoteText (t : Text) : List Char := '"' :: t.flatMap (escape '"') ++ ['"']

/-- A string between double quotes. -/
def quoteString (s : String) : String := String.ofList (quoteText s.toList)

/-- A character between single quotes. -/
def quoteChar (c : Char) : String := String.ofList ('\'' :: escape '\'' c ++ ['\''])

/-- The characters of a string literal in emitted code. -/
def literalBody : Text → List Char
  | [] => []
  | '\x00' :: c :: t =>
    (if '0' ≤ c ∧ c ≤ '7' then ['\\', 'x', '0', '0'] else ['\\', '0']) ++ literalBody (c :: t)
  | c :: t => escape '"' c ++ literalBody t

/-- A string literal in emitted code. -/
def literalString (s : String) : String :=
  String.ofList ('"' :: literalBody s.toList ++ ['"'])

end MemoPeg.Quoted
