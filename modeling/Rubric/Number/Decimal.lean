import Rubric.Number.Binary64
import Rubric.Text.Basic

/-!
# Decimal text of numbers

Writing: the fewest digits that read back to the same double, a fixed number of places, or a fixed
number of significant digits, each rounded once from the exact value.  Reading: integers and
decimals, with digits of any script and single underscores between digits.
-/

namespace Rubric.Number

open Rubric.Text

/-! ## Digits -/

/-- The decimal digits of a natural number. -/
def digitsOf (n : Nat) : List Char := Nat.toDigits 10 n

/-- The text of an integer. -/
def intText (n : Int) : String :=
  String.ofList (if n < 0 then '-' :: digitsOf n.natAbs else digitsOf n.natAbs)

namespace Binary64

/-- The number of digits before the decimal point of a positive magnitude, zero or less where the
first digit stands after it. -/
def pointPosition (units : Nat) : Int :=
  (digitsOf (units * Nat.pow 10 400 / unitsPerOne)).length - 400

/-- The exact value of `units · 10 ^ shift`, as a fraction. -/
def scaled (units : Nat) (shift : Int) : Nat × Nat :=
  if 0 ≤ shift then (units * Nat.pow 10 shift.toNat, unitsPerOne)
  else (units, unitsPerOne * Nat.pow 10 (-shift).toNat)

/-- The double nearest to `digits · 10 ^ (-shift)`. -/
def ofDigits (negative : Bool) (digits : Nat) (shift : Int) : Binary64 :=
  if 0 ≤ shift then ofRatio negative digits (Nat.pow 10 shift.toNat)
  else ofRatio negative (digits * Nat.pow 10 (-shift).toNat) 1

/-- The nearest decimal with `count` digits that reads back as the magnitude, if one does. -/
def readableDigits? (units : Nat) (point : Int) (count : Nat) : Option Nat :=
  let shift := (count : Int) - point
  let (num, den) := scaled units shift
  let lower := num / den
  let rest := num % den
  let readsBack (digits : Nat) : Bool := ofDigits false digits shift == finite false units
  match readsBack lower, readsBack (lower + 1) with
  | true, true =>
    some (if 2 * rest < den then lower
      else if den < 2 * rest then lower + 1
      else if lower % 2 = 0 then lower else lower + 1)
  | true, false => some lower
  | false, true => some (lower + 1)
  | false, false => none

/-- The shortest digits of a positive magnitude and the place of the decimal point in them. -/
def shortestDigits (units : Nat) : List Char × Int :=
  let point := pointPosition units
  let attempt (count : Nat) : Option (List Char × Int) :=
    (readableDigits? units point count).map fun digits =>
      let text := digitsOf digits
      (dropTrailing (· == '0') text, point + (text.length - count : Int))
  match (List.range 17).findSome? fun i => attempt (i + 1) with
  | some found => found
  | none => (digitsOf 0, 1)

end Binary64

/-! ## Layouts -/

/-- The exponent of scientific notation: a sign and at least two digits. -/
def exponentText (exponent : Int) : List Char :=
  (if exponent < 0 then '-' else '+') :: padLeft 2 '0' (digitsOf exponent.natAbs)

/-- Digits with a decimal point at a place, at least one digit on each side. -/
def positional (digits : List Char) (point : Int) : List Char :=
  if point ≤ 0 then '0' :: '.' :: List.replicate (-point).toNat '0' ++ digits
  else
    let whole := point.toNat
    if digits.length ≤ whole then
      digits ++ List.replicate (whole - digits.length) '0' ++ ['.', '0']
    else digits.take whole ++ '.' :: digits.drop whole

/-- Digits in scientific notation, the point after the first. -/
def scientific (digits : List Char) (point : Int) : List Char :=
  let mantissa :=
    match digits with
    | [] => []
    | [d] => [d]
    | d :: rest => d :: '.' :: rest
  mantissa ++ 'e' :: exponentText (point - 1)

/-- The range of point places that the shortest text writes without an exponent. -/
structure ShortestLayout where
  /-- The least place of the point that is written positionally. -/
  least : Int
  /-- The greatest place of the point that is written positionally. -/
  greatest : Int

/-- From `0.0001` up to below `10 ^ 16` numbers are written positionally. -/
def shortestLayout : ShortestLayout := ⟨-3, 16⟩

namespace Binary64

/-- The sign of a text, for negative numbers only. -/
def signText (negative : Bool) : List Char := if negative then ['-'] else []

/-- The shortest text that reads back to the same number. -/
def toText : Binary64 → String
  | infinite negative => String.ofList (signText negative ++ "inf".toList)
  | finite negative 0 => String.ofList (signText negative ++ "0.0".toList)
  | finite negative units =>
    let (digits, point) := shortestDigits units
    let body :=
      if shortestLayout.least ≤ point && point ≤ shortestLayout.greatest then
        positional digits point
      else scientific digits point
    String.ofList (signText negative ++ body)

/-- The magnitude with a fixed number of places after the point. -/
def fixedChars (units places : Nat) : List Char :=
  let scaled := roundDiv (units * Nat.pow 10 places) unitsPerOne
  let digits := padLeft (places + 1) '0' (digitsOf scaled)
  if places = 0 then digits
  else digits.take (digits.length - places) ++ '.' :: digits.drop (digits.length - places)

/-- The text with a fixed number of places after the point. -/
def toFixed (places : Nat) : Binary64 → String
  | infinite negative => String.ofList (signText negative ++ "inf".toList)
  | finite negative units => String.ofList (signText negative ++ fixedChars units places)

/-- The magnitude rounded to `count` significant digits: the digits and the place of the point. -/
def significantDigits (units count : Nat) : List Char × Int :=
  if units = 0 then (List.replicate count '0', 1)
  else
    let point := pointPosition units
    let (num, den) := scaled units ((count : Int) - point)
    let digits := digitsOf (roundDiv num den)
    (digits.take count, point + (digits.length - count : Int))

/-- The number nearest to `x` among the multiples of `10 ^ (-places)`, as a double; `none` where
it exceeds every double. -/
def roundPlaces? (places : Int) : Binary64 → Option Binary64
  | infinite negative => some (infinite negative)
  | finite negative units =>
    if 323 < places then some (finite negative units)
    else if places < -308 then some (finite negative 0)
    else
      let (num, den) := scaled units places
      match ofDigits negative (roundDiv num den) places with
      | finite negative units => some (finite negative units)
      | infinite _ => none

end Binary64

/-! ## Reading -/

/-- The digits that continue a numeral, each perhaps after one underscore, and what follows. -/
def readMoreDigits : List Char → List Nat × List Char
  | [] => ([], [])
  | c :: rest =>
    match digitValue? c with
    | some d =>
      let (ds, remaining) := readMoreDigits rest
      (d :: ds, remaining)
    | none =>
      if c = '_' then
        match rest with
        | [] => ([], ['_'])
        | next :: more =>
          match digitValue? next with
          | some d =>
            let (ds, remaining) := readMoreDigits more
            (d :: ds, remaining)
          | none => ([], c :: next :: more)
      else ([], c :: rest)

/-- The digits of a numeral: decimal digits with single underscores between them, and what
follows. -/
def readDigits : List Char → List Nat × List Char
  | [] => ([], [])
  | c :: rest => if isDecimal c then readMoreDigits (c :: rest) else ([], c :: rest)

/-- The number that digits denote. -/
def ofDigitList (ds : List Nat) : Nat := ds.foldl (fun n d => n * 10 + d) 0

/-- An optional sign, `true` for minus. -/
def readSign : List Char → Bool × List Char
  | '-' :: rest => (true, rest)
  | '+' :: rest => (false, rest)
  | cs => (false, cs)

/-- What a text denotes as an integer. -/
inductive IntegerReading where
  | value (n : Int)
  | tooManyDigits (count : Nat)
  | malformed
  deriving DecidableEq, Repr

/-- The most digits of an integer numeral. -/
def integerDigitLimit : Nat := 4300

/-- Reads an integer between blanks. -/
def readInteger (cs : List Char) : IntegerReading :=
  let (negative, body) := readSign (trim cs)
  match readDigits body with
  | ([], _) => .malformed
  | (ds, []) =>
    if integerDigitLimit < ds.length then .tooManyDigits ds.length
    else
      let n : Int := ofDigitList ds
      .value (if negative then -n else n)
  | (_, _ :: _) => .malformed

/-- What a text denotes as a decimal. -/
inductive DecimalReading where
  | value (x : Binary64)
  | notANumber
  | malformed
  deriving DecidableEq, Repr

/-- The double nearest to `digits · 10 ^ exponent`, settled early where the exponent decides. -/
def decimalValue (negative : Bool) (ds : List Nat) (exponent : Int) : Binary64 :=
  let significant := ds.dropWhile (· == 0)
  let magnitude := (significant.length : Int) + exponent
  if significant.isEmpty then .finite negative 0
  else if 400 < magnitude then .infinite negative
  else if magnitude < -400 then .finite negative 0
  else Binary64.ofDigits negative (ofDigitList significant) (-exponent)

/-- An optional exponent; `none` where an `e` is not followed by one. -/
def readExponent : List Char → Option (Int × List Char)
  | [] => some (0, [])
  | c :: rest =>
    if c = 'e' || c = 'E' then
      let (negative, body) := readSign rest
      match readDigits body with
      | ([], _) => none
      | (ds, remaining) =>
        let n : Int := ofDigitList ds
        some (if negative then -n else n, remaining)
    else some (0, c :: rest)

/-- Reads a decimal between blanks; infinities and the value that is no number are spelled out. -/
def readDecimal (cs : List Char) : DecimalReading :=
  let (negative, body) := readSign (trim cs)
  let spelled := String.ofList (body.map Char.toLower)
  if spelled = "inf" || spelled = "infinity" then .value (.infinite negative)
  else if spelled = "nan" then .notANumber
  else
    let (whole, afterWhole) := readDigits body
    let (places, afterPlaces) :=
      match afterWhole with
      | '.' :: rest => readDigits rest
      | rest => ([], rest)
    if whole.isEmpty && places.isEmpty then .malformed
    else
      match readExponent afterPlaces with
      | some (exponent, []) =>
        .value (decimalValue negative (whole ++ places) (exponent - places.length))
      | _ => .malformed

end Rubric.Number
