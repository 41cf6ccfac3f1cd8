import MemoPeg.Scope

/-
  Semantic actions: what a grammar computes while it matches.

  An action sees the bindings of the rule invocation it runs in and answers with a value.  It may leave notes
  on the way; it changes nothing else.  So it is a function of a scope, and two runs of it in the same scope
  give the same value and the same notes.

  What an action does cannot be looked at, let alone compared: that an action is the same as another is
  said of what they answer with in every scope.  The label is all that a rendered grammar shows of it.
-/

namespace MemoPeg

/-- A semantic action. -/
structure Action where
  /-- The text shown for the action when its grammar is rendered. -/
  label : Option String
  /-- The value for a scope, and the notes left in computing it. -/
  run : Scope → Value × List String

namespace Action

/-- An action that leaves no notes and has no label. -/
def pure (f : Scope → Value) : Action := ⟨none, fun s => (f s, [])⟩

end Action

end MemoPeg
