import Rubric.Value.Display
import Rubric.Value.Equality

/-!
# Text templates

A string taken modulo a value is a template: each conversion, a percent sign with optional key,
flags, width and precision before a letter, is replaced by the text of the next value.  A tuple
supplies its items one by one, a mapping supplies values by key, and any other value is the only
one.
-/

namespace Rubric

open Rubric.Number Rubric.Text

/-- The parts of a conversion between the percent sign and the letter. -/
structure Conversion where
  leftAligned : Bool := false
  signed : Bool := false
  spaced : Bool := false
  alternate : Bool := false
  zeroPadded : Bool := false
  width : Nat := 0
  precision : Option Nat := none
  deriving Inhabited

/-- What a template may still take its values from. -/
structure Supply where
  /-- The values not yet used. -/
  rest : List Value
  /-- The entries of a mapping that supplies values by key. -/
  keyed : Option (List (Value × Value))
  /-- Values of a subscriptable kind need not be used. -/
  mayRemain : Bool

namespace Supply

/-- The supply that a value is. -/
def ofValue (σ : Store) : Value → Supply
  | .tuple items => ⟨items, none, false⟩
  | .row _ _ items => ⟨items, none, false⟩
  | .mapping address => ⟨[.mapping address], some (σ.entries address), true⟩
  | .list tag items => ⟨[.list tag items], none, true⟩
  | v => ⟨[v], none, false⟩

/-- The next value. -/
def next (s : Supply) : Except Fault (Value × Supply) :=
  match s.rest with
  | [] => .error (.template .notEnough)
  | v :: vs => .ok (v, { s with rest := vs })

end Supply

namespace Conversion

/-- The text in its field, blanks on the side that the alignment leaves. -/
def inField (c : Conversion) (cs : List Char) : List Char :=
  if c.leftAligned then cs ++ List.replicate (c.width - cs.length) ' '
  else padLeft c.width ' ' cs

/-- A number in its field: the sign and prefix, then zeros where the flags ask for them. -/
def numberInField (c : Conversion) (negative : Bool) (lead digits : List Char) : List Char :=
  let sign :=
    if negative then ['-'] else if c.signed then ['+'] else if c.spaced then [' '] else []
  let body :=
    if c.zeroPadded && !c.leftAligned then
      padLeft (c.width - sign.length - lead.length) '0' digits
    else digits
  c.inField (sign ++ lead ++ body)

/-- The text of a string conversion, cut to the precision. -/
def ofText (c : Conversion) (s : String) : List Char :=
  let cs := s.toList
  c.inField (match c.precision with | some p => cs.take p | none => cs)

/-- The digits of an integer in a base, padded to the precision, with the prefix of the base. -/
def ofInteger (c : Conversion) (letter : Char) (n : Int) : List Char :=
  let base := if letter = 'o' then 8 else if letter = 'x' || letter = 'X' then 16 else 10
  let plain := Nat.toDigits base n.natAbs
  let cased := if letter = 'X' then plain.map Char.toUpper else plain
  let digits := padLeft (c.precision.getD 0) '0' cased
  let lead :=
    if !c.alternate then []
    else if letter = 'o' then ['0', 'o']
    else if letter = 'x' then ['0', 'x']
    else if letter = 'X' then ['0', 'X']
    else []
  c.numberInField (n < 0) lead digits

/-- Digits in scientific notation with a fixed number of places. -/
def scientificPlaces (alternate : Bool) (units places : Nat) : List Char :=
  let (digits, point) := Binary64.significantDigits units (places + 1)
  let fraction := digits.drop 1
  let mantissa :=
    digits.take 1 ++ (if fraction.isEmpty && !alternate then [] else '.' :: fraction)
  let exponent := if units = 0 then 0 else point - 1
  mantissa ++ 'e' :: exponentText exponent

/-- Digits with a fixed number of significant ones, in the shorter of the two notations. -/
def generalDigits (alternate : Bool) (units precision : Nat) : List Char :=
  let count := max precision 1
  let (digits, point) := Binary64.significantDigits units count
  let trimmedDigits := if alternate then digits else dropTrailing (· == '0') digits
  let exponent := if units = 0 then 0 else point - 1
  if exponent < -4 || (count : Int) ≤ exponent then
    let fraction := trimmedDigits.drop 1
    let lead := if trimmedDigits.isEmpty then ['0'] else trimmedDigits.take 1
    lead ++ (if fraction.isEmpty && !alternate then [] else '.' :: fraction) ++
      'e' :: exponentText exponent
  else
    let whole := (exponent + 1).toNat
    if exponent < 0 then
      let fraction := List.replicate (-exponent - 1).toNat '0' ++ trimmedDigits
      '0' :: (if trimmedDigits.isEmpty && !alternate then [] else '.' :: fraction)
    else
      let integer := digits.take whole
      let fraction := trimmedDigits.drop whole
      integer ++ (if fraction.isEmpty && !alternate then [] else '.' :: fraction)

/-- The text of a decimal conversion. -/
def ofDecimal (c : Conversion) (letter : Char) (x : Binary64) : List Char :=
  let upper := letter.isUpper
  let precision := c.precision.getD 6
  let cased (cs : List Char) : List Char := if upper then cs.map Char.toUpper else cs
  match x with
  | .infinite negative => c.numberInField negative [] (cased "inf".toList)
  | .finite negative units =>
    let body :=
      if letter = 'f' || letter = 'F' then
        Binary64.fixedChars units precision ++
          (if precision = 0 && c.alternate then ['.'] else [])
      else if letter = 'e' || letter = 'E' then scientificPlaces c.alternate units precision
      else generalDigits c.alternate units precision
    c.numberInField negative [] (cased body)

end Conversion

/-! ## Reading a conversion -/

/-- What follows a percent sign, read up to the letter. -/
structure Directive where
  key : Option String
  conversion : Conversion
  letter : Char
  /-- The text after the letter. -/
  rest : List Char

/-- The key in parentheses, which may hold balanced parentheses. -/
def readKey (depth : Nat) (key : List Char) : List Char → Option (List Char × List Char)
  | [] => none
  | c :: rest =>
    if c = ')' then
      if depth = 0 then some (key.reverse, rest) else readKey (depth - 1) (c :: key) rest
    else if c = '(' then readKey (depth + 1) (c :: key) rest
    else readKey depth (c :: key) rest

/-- The flags before the width. -/
def readFlags (c : Conversion) : List Char → Conversion × List Char
  | '-' :: rest => readFlags { c with leftAligned := true } rest
  | '+' :: rest => readFlags { c with signed := true } rest
  | ' ' :: rest => readFlags { c with spaced := true } rest
  | '#' :: rest => readFlags { c with alternate := true } rest
  | '0' :: rest => readFlags { c with zeroPadded := true } rest
  | cs => (c, cs)

/-- The number that leads a text. -/
def readCount (cs : List Char) : Nat × List Char :=
  let digits := cs.takeWhile Char.isDigit
  (ofDigitList (digits.map fun d => d.toNat - '0'.toNat), cs.drop digits.length)

/-- The greatest width. -/
def countLimit : Nat := Nat.pow 2 63 - 1

/-- The widest field that there is room for. -/
def fieldLimit : Nat := Nat.pow 2 31

/-- The greatest precision. -/
def precisionLimit : Nat := Nat.pow 2 31 - 1

/-- A conversion with the width that an integer gives; a negative one aligns to the left. -/
def Conversion.withWidth (c : Conversion) (n : Int) : Except Fault Conversion :=
  if countLimit < n.natAbs then .error (.template .starWidthTooBig)
  else if n < 0 then .ok { c with leftAligned := true, width := n.natAbs }
  else .ok { c with width := n.natAbs }

/-- A conversion with the precision that an integer gives; a negative one counts as zero. -/
def Conversion.withPrecision (c : Conversion) (n : Int) : Except Fault Conversion :=
  if precisionLimit < n.natAbs then .error (.template .starPrecisionTooBig)
  else .ok { c with precision := some n.toNat }

/-- The width: a number, or an asterisk for the next value. -/
def readWidth (c : Conversion) (supply : Supply) :
    List Char → Except Fault (Conversion × Supply × List Char)
  | '*' :: rest =>
    match supply.next with
    | .error fault => .error fault
    | .ok (v, remaining) =>
      match v.asInt? with
      | none => .error (.template .starNeedsInteger)
      | some n => (c.withWidth n).map fun c => (c, remaining, rest)
  | cs =>
    let (n, rest) := readCount cs
    if countLimit < n then .error (.template .widthTooBig)
    else .ok ({ c with width := n }, supply, rest)

/-- The precision after a point: a number, or an asterisk for the next value. -/
def readPrecision (c : Conversion) (supply : Supply) :
    List Char → Except Fault (Conversion × Supply × List Char)
  | '.' :: '*' :: rest =>
    match supply.next with
    | .error fault => .error fault
    | .ok (v, remaining) =>
      match v.asInt? with
      | none => .error (.template .starNeedsInteger)
      | some n => (c.withPrecision n).map fun c => (c, remaining, rest)
  | '.' :: rest =>
    let (n, remaining) := readCount rest
    if precisionLimit < n then .error (.template .precisionTooBig)
    else .ok ({ c with precision := some n }, supply, remaining)
  | cs => .ok (c, supply, cs)

/-- The value that a key names becomes the only one left. -/
def chooseKeyed (σ : Store) (supply : Supply) (key : String) : Except Fault Supply :=
  match supply.keyed with
  | none => .error (.type (.position "list" "str"))
  | some entries =>
    match Value.lookup σ (.str key) entries with
    | .error fault => .error fault
    | .ok none => .error (.access (.missingKey (quoted key)))
    | .ok (some v) => .ok { supply with rest := [v] }

/-- Reads what follows a percent sign. -/
def readDirective (σ : Store) (supply : Supply) (cs : List Char) :
    Except Fault (Directive × Supply) := do
  let (key, supply, cs) ←
    match cs with
    | '(' :: inside =>
      if supply.mayRemain then
        match readKey 0 [] inside with
        | none => .error (.template .incompleteKey)
        | some (key, rest) => do
          let chosen ← chooseKeyed σ supply (String.ofList key)
          .ok (some (String.ofList key), chosen, rest)
      else .error (.template .needsMapping)
    | cs => .ok (none, supply, cs)
  let (conversion, cs) := readFlags {} cs
  let (conversion, supply, cs) ← readWidth conversion supply cs
  let (conversion, supply, cs) ← readPrecision conversion supply cs
  let cs :=
    match cs with
    | 'h' :: rest => rest
    | 'l' :: rest => rest
    | 'L' :: rest => rest
    | cs => cs
  match cs with
  | [] => .error (.template .incomplete)
  | letter :: rest => .ok (⟨key, conversion, letter, rest⟩, supply)

/-! ## Converting a value -/

/-- A value as the integer that a decimal conversion shows. -/
def integerForDecimal (σ : Store) (letter : Char) (v : Value) : Except Fault Int :=
  match v with
  | .float x =>
    match x.truncate? with
    | some n => .ok n
    | none => .error (.number .infinityToInteger)
  | .nan _ => .error (.number .notANumberToInteger)
  | v =>
    match v.asInt? with
    | some n => .ok n
    | none => .error (.template (.needsNumber letter (v.typeName σ)))

/-- A value as a double, or the value that is no number. -/
def realForDecimal (σ : Store) (v : Value) : Except Fault (Option Binary64) :=
  match v with
  | .float x => .ok (some x)
  | .nan _ => .ok none
  | v =>
    match v.asInt? with
    | some n =>
      (Binary64.ofInt? n).elim (.error (.number .integerTooLarge)) fun x => .ok (some x)
    | none => .error (.template (.needsReal (v.typeName σ)))

/-- The character that a value stands for. -/
def characterOf (v : Value) : Except Fault Char :=
  match v with
  | .str s =>
    match s.toList with
    | [c] => .ok c
    | _ => .error (.template .needsCharacter)
  | v =>
    match v.asInt? with
    | some n =>
      if 0 ≤ n && n < 0x110000 then .ok (Char.ofNat n.toNat)
      else .error (.template .characterRange)
    | none => .error (.template .needsCharacter)

/-- The text of one value under a conversion; `index` is the place of the letter. -/
def convert (σ : Store) (c : Conversion) (letter : Char) (index : Nat) (v : Value) :
    Except Fault (List Char) :=
  match letter with
  | 's' => .ok (c.ofText (v.text σ))
  | 'r' => .ok (c.ofText (v.shown σ))
  | 'a' => .ok (c.ofText (asciiText (v.shown σ)))
  | 'd' | 'i' | 'u' => (integerForDecimal σ letter v).map (c.ofInteger letter)
  | 'o' | 'x' | 'X' =>
    match v.asInt? with
    | some n => .ok (c.ofInteger letter n)
    | none => .error (.template (.needsInteger letter (v.typeName σ)))
  | 'e' | 'E' | 'f' | 'F' | 'g' | 'G' =>
    (realForDecimal σ v).map fun
      | some x => c.ofDecimal letter x
      | none =>
        c.numberInField false [] (if letter.isUpper then "NAN".toList else "nan".toList)
  | 'c' => (characterOf v).map fun ch => c.inField [ch]
  | letter => .error (.template (.unsupported letter index))

/-! ## Filling a template -/

/-- Fills the rest of a template of `size` characters in all; each round uses up at least the
percent sign, so `fuel` never runs out before the text does. -/
def fillFrom (σ : Store) (size : Nat) : Nat → Supply → List Char → Except Fault (List Char)
  | _, supply, [] =>
    if supply.rest.isEmpty || supply.mayRemain then .ok []
    else .error (.template .notAllUsed)
  | 0, _, _ => .ok []
  | fuel + 1, supply, '%' :: '%' :: rest => (fillFrom σ size fuel supply rest).map ('%' :: ·)
  | fuel + 1, supply, '%' :: rest =>
    match readDirective σ supply rest with
    | .error fault => .error fault
    | .ok (d, supply) =>
      match supply.next with
      | .error fault => .error fault
      | .ok (v, remaining) =>
        if fieldLimit < d.conversion.width then .error (.number .outOfMemory)
        else
          match convert σ d.conversion d.letter (size - d.rest.length - 1) v with
          | .error fault => .error fault
          | .ok shown => (fillFrom σ size fuel remaining d.rest).map (shown ++ ·)
  | fuel + 1, supply, c :: rest => (fillFrom σ size fuel supply rest).map (c :: ·)

/-- A template filled with a value. -/
def fillTemplate (σ : Store) (template : String) (v : Value) : Except Fault String :=
  let cs := template.toList
  (fillFrom σ cs.length (cs.length + 1) (Supply.ofValue σ v) cs).map String.ofList

end Rubric
