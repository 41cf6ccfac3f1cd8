import MemoPeg.Text.Quoted

/-
  The names of emitted functions.

  Rules may have any name, functions may not.  Letters and digits of ASCII stand for themselves and every other
  character is spelled out between underscores, the underscore itself as two of them, so that different rules
  get different functions.

  What follows an underscore tells how to read on: another underscore, `hyphen`, or `u` with the number of
  the character.  So no spelling is the beginning of another, and a name is read back from the left.
-/

namespace MemoPeg

/-- How a character of a rule name is spelled. -/
def spellChar (c : Char) : List Char :=
  if c.isAlphanum then [c]
  else if c = '_' then ['_', '_']
  else if c = '-' then "_hyphen_".toList
  else ['_', 'u'] ++ Quoted.hex c.toNat ++ ['_']

/-- The name of the function emitted for a rule. -/
def functionName (rule : String) : String :=
  String.ofList ("__parse_".toList ++ rule.toList.flatMap spellChar)

end MemoPeg
