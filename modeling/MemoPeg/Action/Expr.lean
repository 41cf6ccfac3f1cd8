import MemoPeg.Action.Basic
import MemoPeg.Value.Integer
import MemoPeg.Value.Render

/-
  A small language for the code of actions: constants, bindings, tests, lists and nodes, arithmetic, notes.

  Actions are functions and cannot be read from a file.  Grammars that are read from one have their actions
  written in this language instead.

  1. **Values** — every expression has a value in every scope.  One that has no answer, because an operand
     is not of the kind it needs or a result is out of range, answers with nothing, as an unbound name does.
  2. **Notes** — operands are evaluated left to right, so notes come in the order of the operands; a note is
     left before those of the expression that it goes with.
-/

namespace MemoPeg

/-- An operation on two integers. -/
inductive Arith where
  | add
  | sub
  | mul
deriving DecidableEq, Repr

/-- The result on whole numbers. -/
def Arith.apply : Arith → Int → Int → Int
  | .add, a, b => a + b
  | .sub, a, b => a - b
  | .mul, a, b => a * b

/-- Arithmetic on values: an integer if both operands are and the result fits, else nothing. -/
def Value.arith (op : Arith) (a b : Value) : Value :=
  match a, b with
  | .int a, .int b => .ofInt? (Integer.fit (op.apply a.toInt b.toInt))
  | _, _ => .nil

/-- The number of bytes of a string, items of a list, or children of a node; else nothing. -/
def Value.length : Value → Value
  | .str s => .ofInt? (Integer.fit (Text.size s.toList))
  | .list items => .ofInt? (Integer.fit items.length)
  | .node _ children => .ofInt? (Integer.fit children.length)
  | _ => .nil

/-- The code of an action. -/
inductive Expr where
  | const (v : Value)
  | get (name : String)
  | has (name : String)
  | list (es : List Expr)
  | node (name : String) (es : List Expr)
  | eq (a b : Expr)
  | lt (a b : Expr)
  | not (a : Expr)
  /-- The integer that a string spells. -/
  | int (a : Expr)
  /-- The written form of a value. -/
  | str (a : Expr)
  | len (a : Expr)
  | arith (op : Arith) (a b : Expr)
  /-- A list with one more item at its end. -/
  | append (a b : Expr)
  | names
  | mark
  /-- Leaves a note, then goes on. -/
  | log (label : String) (a : Expr)

namespace Expr

mutual

/-- The value of an expression in a scope, and the notes left in evaluating it. -/
def eval (s : Scope) : Expr → Value × List String
  | .const v => (v, [])
  | .get name => (s.value name, [])
  | .has name => (.bool (s.get? name).isSome, [])
  | .list es =>
    let (vs, notes) := evalAll s es
    (.list vs, notes)
  | .node name es =>
    let (vs, notes) := evalAll s es
    (.node name vs, notes)
  | .eq a b =>
    let (x, m) := eval s a
    let (y, n) := eval s b
    (.bool (x = y), m ++ n)
  | .lt a b =>
    let (x, m) := eval s a
    let (y, n) := eval s b
    (match x, y with
      | .int x, .int y => .bool (x.toInt < y.toInt)
      | _, _ => .nil, m ++ n)
  | .not a =>
    let (x, m) := eval s a
    (.bool !x.holds, m)
  | .int a =>
    let (x, m) := eval s a
    (.ofInt? (x.str?.bind Integer.read), m)
  | .str a =>
    let (x, m) := eval s a
    (.str x.render, m)
  | .len a =>
    let (x, m) := eval s a
    (x.length, m)
  | .arith op a b =>
    let (x, m) := eval s a
    let (y, n) := eval s b
    (x.arith op y, m ++ n)
  | .append a b =>
    let (x, m) := eval s a
    let (y, n) := eval s b
    (.list (x.items ++ [y]), m ++ n)
  | .names => (.list (s.names.map .str), [])
  | .mark => (.ofInt? (Integer.fit s.mark), [])
  | .log label a =>
    let (x, m) := eval s a
    (x, label :: m)

/-- The values of a row of expressions and the notes left, in order. -/
def evalAll (s : Scope) : List Expr → List Value × List String
  | [] => ([], [])
  | e :: es =>
    let (v, m) := eval s e
    let (vs, n) := evalAll s es
    (v :: vs, m ++ n)

end

/-- The action with this code. -/
def action (e : Expr) (label : Option String) : Action := ⟨label, fun s => e.eval s⟩

end Expr

end MemoPeg
