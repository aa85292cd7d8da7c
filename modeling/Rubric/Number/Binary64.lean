import Rubric.Number.Rounding

/-!
# Binary floating point numbers

A finite number of the double format is a sign and a count of units, one unit being `2 ^ -1074`,
the distance between zero and its neighbour.  Counting in units makes comparison the comparison
of integers and makes every operation "compute exactly, then round once".  The value that is no
number at all has no representation here: an operation whose result would be that value returns
`none`.
-/

namespace Rubric.Number

/-- A signed double: finite, in units of `2 ^ -1074`, or infinite. -/
inductive Binary64 where
  | finite (negative : Bool) (units : Nat)
  | infinite (negative : Bool)
  deriving DecidableEq, Repr, Inhabited

namespace Binary64

/-- The number of units in one. -/
def unitsPerOne : Nat := Nat.pow 2 1074

/-- The least magnitude, in units, that no finite number has. -/
def overflowUnits : Nat := Nat.pow 2 2098

/-- The distance between neighbouring doubles around a magnitude of `n` units. -/
def spacing (n : Nat) : Nat := Nat.pow 2 (n.log2 - 52)

/-- The count of units of the double nearest to `num / den` units, before the check for overflow. -/
def roundUnits (num den : Nat) : Nat :=
  let step := spacing (num / den)
  roundDiv num (den * step) * step

/-- The double nearest to `num / den` units, with the given sign. -/
def ofUnits (negative : Bool) (num den : Nat) : Binary64 :=
  let units := roundUnits num den
  if units < overflowUnits then finite negative units else infinite negative

/-- The double nearest to `num / den`, with the given sign. -/
def ofRatio (negative : Bool) (num den : Nat) : Binary64 :=
  ofUnits negative (num * unitsPerOne) den

/-- Positive zero. -/
def zero : Binary64 := finite false 0

/-- The sign bit. -/
def isNegative : Binary64 → Bool
  | finite negative _ => negative
  | infinite negative => negative

/-- Both zeros. -/
def isZero : Binary64 → Bool
  | finite _ units => units == 0
  | infinite _ => false

/-- The signed count of units of a finite number. -/
def signedUnits (negative : Bool) (units : Nat) : Int :=
  if negative then -(units : Int) else units

/-- The number itself, where it is finite. -/
def finite? : Binary64 → Option Binary64
  | finite negative units => some (finite negative units)
  | infinite _ => none

/-- The nearest double to an integer, or `none` where even the nearest would be infinite. -/
def ofInt? (n : Int) : Option Binary64 := (ofRatio (n < 0) n.natAbs 1).finite?

/-- The integer part, rounding toward zero; `none` for the infinities. -/
def truncate? : Binary64 → Option Int
  | finite negative units => some (signedUnits negative (units / unitsPerOne))
  | infinite _ => none

/-! ## Order -/

/-- Comparison by value: the two zeros are equal. -/
def compare : Binary64 → Binary64 → Ordering
  | finite n u, finite n' u' => Ord.compare (signedUnits n u) (signedUnits n' u')
  | infinite n, infinite n' => Ord.compare n'.toNat n.toNat
  | infinite n, finite _ _ => if n then .lt else .gt
  | finite _ _, infinite n => if n then .gt else .lt

/-- Exact comparison of an integer with a double. -/
def compareInt (i : Int) : Binary64 → Ordering
  | finite n u => Ord.compare (i * unitsPerOne) (signedUnits n u)
  | infinite n => if n then .gt else .lt

/-! ## Arithmetic -/

/-- The opposite number. -/
def neg : Binary64 → Binary64
  | finite n u => finite (!n) u
  | infinite n => infinite (!n)

/-- The magnitude. -/
def abs : Binary64 → Binary64
  | finite _ u => finite false u
  | infinite _ => infinite false

/-- The sum, rounded once.  A sum of zero is positive unless both terms are negative. -/
def add? : Binary64 → Binary64 → Option Binary64
  | finite n u, finite n' u' =>
    let total := signedUnits n u + signedUnits n' u'
    if total = 0 then some (finite (n && n') 0)
    else some (ofUnits (total < 0) total.natAbs 1)
  | infinite n, infinite n' => if n = n' then some (infinite n) else none
  | infinite n, finite _ _ => some (infinite n)
  | finite _ _, infinite n => some (infinite n)

/-- The difference, rounded once. -/
def sub? (x y : Binary64) : Option Binary64 := add? x y.neg

/-- The product, rounded once. -/
def mul? : Binary64 → Binary64 → Option Binary64
  | finite n u, finite n' u' => some (ofUnits (n != n') (u * u') unitsPerOne)
  | infinite n, y => if y.isZero then none else some (infinite (n != y.isNegative))
  | x, infinite n => if x.isZero then none else some (infinite (x.isNegative != n))

/-- The quotient, rounded once.  Nothing is divided by zero. -/
def div? : Binary64 → Binary64 → Option Binary64
  | finite n u, finite n' u' =>
    if u' = 0 then none else some (ofUnits (n != n') (u * unitsPerOne) u')
  | infinite n, finite n' _ => some (infinite (n != n'))
  | finite n _, infinite n' => some (finite (n != n') 0)
  | infinite _, infinite _ => none

/-- The remainder of a division rounded toward minus infinity: it has the sign of the divisor,
also where it is zero. -/
def mod? : Binary64 → Binary64 → Option Binary64
  | finite n u, finite n' u' =>
    if u' = 0 then none
    else
      let rest := u % u'
      if rest = 0 then some (finite n' 0)
      else if n = n' then some (finite n rest)
      else some (ofUnits n' (u' - rest) 1)
  | finite n u, infinite n' =>
    if u = 0 then some (finite n' 0)
    else if n = n' then some (finite n u)
    else some (infinite n')
  | infinite _, _ => none

/-- The quotient of two integers, rounded once; `none` where the quotient exceeds every double. -/
def ofQuotient? (num den : Int) : Option Binary64 :=
  match ofRatio ((num < 0) != (den < 0)) num.natAbs den.natAbs with
  | finite negative units => some (finite negative units)
  | infinite _ => none

end Binary64

end Rubric.Number
