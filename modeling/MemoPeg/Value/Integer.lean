/-
  Integers of 64 bits: which whole numbers are among them, and how they are read.

  1. **Fitting (`fit`)** — arithmetic is done on whole numbers and the result kept only if it fits, so
     nothing ever wraps: what is out of range is no integer at all, and has to be dealt with.
  2. **Reading (`read`)** — one sign at most, then at least one digit of ASCII, and nothing else; leading
     zeros do no harm.  The sign is applied before the number is fitted, so the least integer can be
     read although its opposite does not fit.
-/

namespace MemoPeg.Integer

/-- A whole number as an integer of 64 bits, if it is in range. -/
def fit (n : Int) : Option Int64 :=
  if -9223372036854775808 ≤ n ∧ n ≤ 9223372036854775807 then some (Int64.ofInt n) else none

/-- A row of decimal digits as a number; nothing if it is empty or holds anything else. -/
def digits (cs : List Char) : Option Nat :=
  if cs.isEmpty || cs.any (fun c => !c.isDigit) then none
  else some (cs.foldl (fun n c => n * 10 + (c.toNat - '0'.toNat)) 0)

/-- An optional sign and decimal digits, read as an integer that fits. -/
def read (s : String) : Option Int64 :=
  match s.toList with
  | '-' :: cs => (digits cs).bind fun n => fit (-(n : Int))
  | '+' :: cs => (digits cs).bind fun n => fit n
  | cs => (digits cs).bind fun n => fit n

end MemoPeg.Integer
