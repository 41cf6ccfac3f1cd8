import MemoPeg.Value.Basic
import MemoPeg.Text.Quoted

/-
  Values written for a reader: strings and characters quoted, spans as `start..stop`, lists in brackets,
  nodes as a name with their children in parentheses.

  Written values show what was parsed, and stand for constant arguments where an operator is rendered.
  Strings are quoted, so a comma inside one cannot be taken for the comma of a list.  The name of a node is
  not: a list of two nodes looks like a list of one with a comma in its name.  Written values are to be read,
  then, and where it matters that two are the same the values themselves are compared.
-/

namespace MemoPeg.Value

mutual

/-- The written form of a value. -/
def render : Value → String
  | .nil => "nil"
  | .bool b => if b then "true" else "false"
  | .int n => toString n.toInt
  | .char c => Quoted.quoteChar c
  | .str s => Quoted.quoteString s
  | .span start stop => toString start ++ ".." ++ toString stop
  | .list items => "[" ++ ", ".intercalate (renderAll items) ++ "]"
  | .node name children => name ++ "(" ++ ", ".intercalate (renderAll children) ++ ")"

/-- The written forms of a row of values. -/
def renderAll : List Value → List String
  | [] => []
  | v :: vs => render v :: renderAll vs

end

end MemoPeg.Value
