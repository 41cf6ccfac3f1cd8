import MemoPeg.Value.Basic

/-
  The bindings of one rule invocation.

  1. **Bindings** — tags, captures and formal parameters add bindings at the end; the newest binding of a
     name is the one that counts.  Older ones stay below it, and can be seen again once it is undone.
  2. **Marks (`rollback`)** — a mark is the number of bindings.  Undoing a match keeps the bindings up
     to a mark, so a scope that was rolled back is always a prefix of the scope it was.
  3. **Calls** — a call starts with a scope of its own: a binding for each parameter, which is nothing where
     an argument is missing; an argument too many is bound to no name.  What the caller has bound
     comes in through arguments only, and what the call binds is gone when it is over.
-/

namespace MemoPeg

/-- The bindings of one rule invocation, oldest first. -/
abbrev Scope := List (String × Value)

namespace Scope

/-- The scope of a call: every parameter is bound to its argument, or to nothing if there is none. -/
def ofArgs : List String → List Value → Scope
  | [], _ => []
  | param :: params, [] => (param, .nil) :: ofArgs params []
  | param :: params, arg :: args => (param, arg) :: ofArgs params args

/-- Adds a binding. -/
def bind (s : Scope) (name : String) (v : Value) : Scope := s ++ [(name, v)]

/-- The newest binding of a name. -/
def get? (s : Scope) (name : String) : Option Value :=
  (s.reverse.find? fun b => b.1 == name).map (·.2)

/-- The newest binding of a name; an unbound name reads as nothing. -/
def value (s : Scope) (name : String) : Value := (s.get? name).getD .nil

/-- The names of all bindings in order, repeats included. -/
def names (s : Scope) : List String := s.map (·.1)

/-- A mark for `rollback`: the number of bindings. -/
def mark (s : Scope) : Nat := s.length

/-- Drops every binding made since the mark. -/
def rollback (s : Scope) (mark : Nat) : Scope := s.take mark

/-- A new binding hides older ones of its name, and no others. -/
theorem get?_bind (s : Scope) (name other : String) (v : Value) :
    (s.bind name v).get? other = if name = other then some v else s.get? other := by
  by_cases h : name = other <;> simp [bind, get?, h]

/-- Going back to a mark takes away what was added since. -/
theorem rollback_append (s t : Scope) : rollback (s ++ t) s.mark = s := by
  simp [rollback, mark]

end Scope

/-- An argument in a call of a rule. -/
inductive Arg where
  /-- A constant. -/
  | value (v : Value)
  /-- What the name is bound to where the call stands. -/
  | binding (name : String)
deriving DecidableEq

/-- The values of arguments in a scope. -/
def Scope.resolve (s : Scope) (args : List Arg) : List Value :=
  args.map fun
    | .value v => v
    | .binding name => s.value name

end MemoPeg
