import Rubric.Number.Decimal

/-!
# Digits and their number

The decimal digits of a natural number denote it, and no other number has the same digits.

* `ofDigitList_digitsOf` : written digits are read as their number.
-/

namespace Rubric.Number

open Rubric.Text

/-- The digits of a number are such. -/
theorem isDigit_of_mem_digitsOf {n : Nat} {c : Char} (h : c ∈ digitsOf n) : c.isDigit = true :=
  Nat.isDigit_of_mem_toDigits (by decide) (by decide) h

/-- The digits of a number have no point among them. -/
theorem dot_notMem_digitsOf (n : Nat) : '.' ∉ digitsOf n := by
  intro h
  exact absurd (isDigit_of_mem_digitsOf h) (by decide)

/-- A digit of ASCII stands for its distance from zero. -/
theorem digitValue?_of_isDigit {c : Char} (h : c.isDigit = true) :
    digitValue? c = some (c.toNat - '0'.toNat) := by
  simp [digitValue?, h]

/-- The value of digits is the number they denote. -/
theorem ofDigitList_digits {cs : List Char} (h : ∀ c ∈ cs, c.isDigit = true) :
    ofDigitList (cs.filterMap digitValue?) = Nat.ofDigitChars 10 cs 0 := by
  have hfold : ∀ n, (cs.filterMap digitValue?).foldl (fun n d => n * 10 + d) n
      = Nat.ofDigitChars 10 cs n := by
    induction cs with
    | nil => intro n; rfl
    | cons c cs ih =>
        intro n
        have hc := digitValue?_of_isDigit (h c (by simp))
        have hcs : ∀ d ∈ cs, d.isDigit = true := fun d hd => h d (by simp [hd])
        rw [List.filterMap_cons_some hc, List.foldl_cons, ih hcs, Nat.ofDigitChars_cons,
          Nat.mul_comm n 10]
  exact hfold 0

/-- Written digits are read as their number. -/
theorem ofDigitList_digitsOf (n : Nat) : ofDigitList ((digitsOf n).filterMap digitValue?) = n := by
  rw [ofDigitList_digits fun _ h => isDigit_of_mem_digitsOf h, digitsOf,
    Nat.ofDigitChars_toDigits (by decide) (by decide)]

/-- Different numbers have different digits. -/
theorem digitsOf_injective {m n : Nat} (h : digitsOf m = digitsOf n) : m = n := by
  rw [← ofDigitList_digitsOf m, h, ofDigitList_digitsOf]

/-- Digits end where another character follows. -/
theorem takeWhile_isDigit_append (n : Nat) {c : Char} (rest : List Char) (hc : c.isDigit = false) :
    (digitsOf n ++ c :: rest).takeWhile Char.isDigit = digitsOf n := by
  rw [List.takeWhile_append_of_pos fun c hc => isDigit_of_mem_digitsOf hc,
    List.takeWhile_cons_of_neg (by simp [hc]), List.append_nil]

end Rubric.Number
