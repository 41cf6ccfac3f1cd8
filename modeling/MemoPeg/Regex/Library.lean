import MemoPeg.Text.Basic

/-
  The library of regular expressions, as far as parsing depends on it.

  The engine neither reads nor runs regular expressions itself.  A library does, and nothing below
  fixes which one: grammars, engines and all that is proved of them are about any library at all.

  1. **Matcher** — a compiled expression is a function from a text to its first match, so a search
     ends and depends on the text that is given and on nothing else.  The one fact about it is that a
     match is a part of that text (`find_slice`): it starts and stops on boundaries, in order.
  2. **Library** — `RegexLibrary.compile` compiles an expression or says why it does not.  One source
     is compiled to one matcher, and nothing is assumed of which sources are accepted or of what they
     match.
  3. **Matching at an offset** — an expression is searched for in what remains of the text
     (`patternEnd`).  A match that the library finds further on is none at that offset.
-/

namespace MemoPeg

/-- A compiled regular expression. -/
structure Matcher where
  /-- Where the first match in a text starts and stops, in bytes. -/
  find : Text → Option (Nat × Nat)
  /-- A match is a part of the text that was searched. -/
  find_slice : ∀ {t : Text} {start stop : Nat},
    find t = some (start, stop) → (t.slice start stop).isSome

/-- The expression matches somewhere in a text. -/
def Matcher.isMatch (m : Matcher) (t : Text) : Bool := (m.find t).isSome

/-- A library that compiles regular expressions. -/
class RegexLibrary where
  /-- The matcher of an expression, or why it is refused. -/
  compile : String → Except String Matcher

namespace Text

/-- Where the match of an expression at offset `n` ends; there is none off a boundary. -/
def patternEnd (t : Text) (n : Nat) (m : Matcher) : Option Nat :=
  match (t.suffixAt n).bind m.find with
  | some (0, stop) => some (n + stop)
  | _ => none

/-- A match at an offset is the first match in what remains of the text from there. -/
theorem patternEnd_eq_some_iff {t : Text} {n stop : Nat} {m : Matcher} :
    t.patternEnd n m = some stop ↔
      ∃ rest length, t.suffixAt n = some rest ∧ m.find rest = some (0, length) ∧
        n + length = stop := by
  unfold patternEnd
  constructor
  · intro h
    split at h
    case h_1 length hfind =>
      obtain ⟨rest, hrest, hfind⟩ := Option.bind_eq_some_iff.1 hfind
      exact ⟨rest, length, hrest, hfind, Option.some.inj h⟩
    case h_2 => cases h
  · rintro ⟨rest, length, hrest, hfind, rfl⟩
    simp only [hrest, Option.bind_some, hfind]

/-- A match at an offset is a part of the text. -/
theorem slice_patternEnd {t : Text} {n stop : Nat} {m : Matcher}
    (h : t.patternEnd n m = some stop) : (t.slice n stop).isSome := by
  obtain ⟨rest, length, hrest, hfind, rfl⟩ := patternEnd_eq_some_iff.1 h
  obtain ⟨before, rfl, hbefore⟩ := suffixAt_eq_some_iff.1 hrest
  obtain ⟨read, hread⟩ := Option.isSome_iff_exists.1 (m.find_slice hfind)
  obtain ⟨s, after, rfl, hs, hlength⟩ := slice_eq_some_iff.1 hread
  -- What is before the match in the rest has no bytes, so the match follows what is before the rest.
  rw [Option.isSome_iff_exists]
  refine ⟨read, slice_eq_some_iff.2 ⟨before ++ s, after, by simp, ?_, ?_⟩⟩ <;>
    rw [size_append] <;> omega

end Text

end MemoPeg
