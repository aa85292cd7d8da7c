/-!
# Rounding to the nearest integer

Quotients of natural numbers rounded to the nearest natural number, a tie going to the even
neighbour.  Every decimal and binary rounding of the library is this one.
-/

namespace Rubric.Number

/-- The natural number nearest to `num / den`; of two equally near ones, the even one. -/
def roundDiv (num den : Nat) : Nat :=
  let quotient := num / den
  let rest := num % den
  if 2 * rest < den then quotient
  else if den < 2 * rest then quotient + 1
  else if quotient % 2 = 0 then quotient else quotient + 1

/-- Rounding a multiple of the denominator changes nothing. -/
theorem roundDiv_mul (q den : Nat) (hden : 0 < den) : roundDiv (q * den) den = q := by
  have hdiv : q * den / den = q := Nat.mul_div_cancel q hden
  have hmod : q * den % den = 0 := Nat.mul_mod_left q den
  simp [roundDiv, hdiv, hmod, hden]

/-- A rounded quotient is never below the truncated one. -/
theorem div_le_roundDiv (num den : Nat) : num / den ≤ roundDiv num den := by
  unfold roundDiv
  simp only
  split
  · exact Nat.le_refl _
  · split
    · omega
    · split <;> omega

/-- A rounded quotient is at most one above the truncated one. -/
theorem roundDiv_le_div_add_one (num den : Nat) : roundDiv num den ≤ num / den + 1 := by
  unfold roundDiv
  simp only
  split
  · omega
  · split
    · omega
    · split <;> omega

/-- The integer nearest to `n / unit`, times `unit`; a tie goes to the even multiple. -/
def roundToMultiple (n : Int) (unit : Nat) : Int :=
  let magnitude : Int := (roundDiv n.natAbs unit * unit : Nat)
  if n < 0 then -magnitude else magnitude

end Rubric.Number
