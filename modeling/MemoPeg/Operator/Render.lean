import MemoPeg.Operator.Basic
import MemoPeg.Value.Render

/-
  Operators written for a reader, in the notation of parsing expression grammars.

  1. **Places (`Place`)** — a choice stands in parentheses inside anything tighter than a choice, a
     sequence inside an operand.  A sequence or a choice of one operator is written as that operator, one
     of none as `()`.
  2. **Signs** — what has one operator below it puts a sign before or after it: `&` and `!` before,
     a repetition and the name of a tag after.
  3. **Arguments** — constants as values, bindings by their names; a call without arguments has no
     parentheses either.

  The operand of any sign stands at the same place, which knows nothing of the sign around it.  So a predicate
  that is repeated has no parentheses, and looks like the predicate of a repetition.
-/

namespace MemoPeg.Operator

/-- Where an operator is written, from the loosest place to the tightest. -/
inductive Place where
  /-- On its own, or between brackets. -/
  | open
  /-- As an alternative of a choice. -/
  | alternative
  /-- As an element of a sequence, or before or after a sign. -/
  | operand
deriving DecidableEq, Repr

/-- Text in parentheses, if asked for. -/
def parenthesized (parens : Bool) (t : Text) : Text := if parens then '(' :: t ++ [')'] else t

/-- Pieces with a separator between them. -/
def joined (sep : Text) : List Text → Text
  | [] => []
  | [t] => t
  | t :: ts => t ++ sep ++ joined sep ts

/-- An argument: a constant as a value, a binding by its name. -/
def argText : Arg → Text
  | .value v => v.render.toList
  | .binding name => name.toList

/-- Arguments in parentheses; nothing at all if there are none. -/
def argsText (args : List Arg) : Text :=
  if args.isEmpty then [] else parenthesized true (joined [',', ' '] (args.map argText))

/-- The sign of a repetition, after what is repeated. -/
def repetitionSign : Nat → Option Nat → Text
  | 0, some 1 => ['?']
  | 0, none => ['*']
  | 1, none => ['+']
  | min, some max => '[' :: Nat.toDigits 10 min ++ [',', ' '] ++ Nat.toDigits 10 max ++ [']']
  | min, none => '[' :: Nat.toDigits 10 min ++ [',', ']']

/-- An action by its label. -/
def actionText (a : Action) : Text :=
  match a.label with
  | some label => ['\x7b', ' '] ++ label.toList ++ [' ', '\x7d']
  | none => ['\x7b', ' ', '.', '.', '.', ' ', '\x7d']

variable [RegexLibrary]

mutual

/-- An operator as it is written at a place. -/
def renderAt (place : Place) : Operator → Text
  | .any => ['.']
  | .literal s => Quoted.quoteText s.toList
  | .pattern p => '/' :: p.source.toList ++ ['/']
  | .range lo hi => '[' :: lo.toList ++ '-' :: hi.toList ++ [']']
  | .sequence [op] => renderAt place op
  | .sequence ops =>
    parenthesized (place = .operand ∨ ops.isEmpty) (joined [' '] (renderAll .operand ops))
  | .choice [op] => renderAt place op
  | .choice ops =>
    parenthesized (place ≠ .open ∨ ops.isEmpty) (joined [' ', '|', ' '] (renderAll .alternative ops))
  | .repetition op min max _ => renderAt .operand op ++ repetitionSign min max
  | .ahead op => '&' :: renderAt .operand op
  | .notAhead op => '!' :: renderAt .operand op
  | .tag op name => renderAt .operand op ++ ':' :: name.toList
  | .action a => actionText a
  | .collect op => ['<', ' '] ++ renderAt .open op ++ [' ', '>']
  | .bounds op => ['@', '<', ' '] ++ renderAt .open op ++ [' ', '>']
  | .call rule args => rule.toList ++ argsText args
  | .direct rule args => '@' :: rule.toList ++ argsText args
  | .foreign grammar rule args => '%' :: grammar.toList ++ '.' :: rule.toList ++ argsText args

/-- A row of operators, each as it is written at a place. -/
def renderAll (place : Place) : List Operator → List Text
  | [] => []
  | op :: ops => renderAt place op :: renderAll place ops

end

/-- An operator in the notation of parsing expression grammars. -/
def render (op : Operator) : String := String.ofList (renderAt .open op)

end MemoPeg.Operator
