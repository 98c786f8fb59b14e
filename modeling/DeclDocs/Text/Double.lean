import DeclDocs.Text.Number

/-!
# The range of double precision

Numbers of double precision have 53 significant bits and lie below the 1024th power of two.  A
number that rounds to that power or beyond has no finite double.

* `doubleLimit`: the least number that rounds beyond the largest double.
* `exceedsDouble`: a decimal number rounds beyond the largest double.
* `nearestDouble`: the double nearest to a whole number.
-/

namespace DeclDocs

/-- The least number that rounds beyond the largest double: it lies half a step above it. -/
def doubleLimit : Nat := (Nat.pow 2 54 - 1) * Nat.pow 2 970

/-- The decimal number `digits · 10 ^ exponent` rounds beyond the largest double.  Powers of ten
are only computed where the number of digits does not already decide. -/
def exceedsDouble (digits : Text) (exponent : Int) : Bool :=
  let value := digitsValue digits
  if value = 0 then false
  else if 400 < exponent then true
  else if 0 ≤ exponent then doubleLimit ≤ value * Nat.pow 10 exponent.toNat
  else if digits.length < (-exponent).toNat then false
  else doubleLimit * Nat.pow 10 (-exponent).toNat ≤ value

/-- The double nearest to a whole number, of two as near the one with an even significand. -/
def nearestDouble (n : Nat) : Nat :=
  let unit := Nat.pow 2 (n.log2 - 52)
  let down := n / unit
  let beyond := 2 * (n % unit)
  (if unit < beyond ∨ (unit = beyond ∧ down % 2 = 1) then down + 1 else down) * unit

end DeclDocs
