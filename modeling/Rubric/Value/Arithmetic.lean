import Rubric.Value.Ordering
import Rubric.Value.Template

/-!
# Operators on values

Arithmetic of numbers, where an integer meeting a double becomes one; joining and repeating of
sequences; subscripts, lengths and the items of collections; conversion to numbers.
-/

namespace Rubric

open Rubric.Number Rubric.Text

namespace Value

/-! ## Numbers -/

/-- A number as a double, `none` standing for the value that is no number. -/
def NumberView.toDouble : NumberView → Except Fault (Option Binary64)
  | .int n => (Binary64.ofInt? n).elim (.error (.number .integerTooLarge)) fun x => .ok (some x)
  | .float x => .ok (some x)
  | .nan => .ok none

/-- A double operation on two numbers. -/
def onDoubles (op : Binary64 → Binary64 → Option Binary64) (a b : NumberView) : Eval Value := do
  let x ← Eval.ofExcept a.toDouble
  let y ← Eval.ofExcept b.toDouble
  match x, y with
  | some x, some y => Eval.ofFloat (op x y)
  | _, _ => Eval.ofFloat none

/-- An operation on two numbers: on integers where both are, else on doubles. -/
def onNumbers (ints : Int → Int → Eval Value) (doubles : Binary64 → Binary64 → Option Binary64) :
    NumberView → NumberView → Eval Value
  | .int n, .int m => ints n m
  | a, b => onDoubles doubles a b

/-- The fault of an operator without meaning for its operands. -/
def operandFault {α : Type} (operator : String) (a b : Value) : Eval α := do
  let σ ← get
  throw (.type (.operands operator (a.typeName σ) (b.typeName σ)))

/-- The sum of numbers, or two sequences of one kind joined. -/
def add (a b : Value) : Eval Value :=
  match a.number?, b.number? with
  | some x, some y => onNumbers (fun n m => return .int (n + m)) Binary64.add? x y
  | _, _ =>
    match a, b with
    | list _ xs, list _ ys => Eval.newList (xs ++ ys)
    | list _ _, b => do throw (.type (.joining "list" (b.typeName (← get))))
    | tuple xs, tuple ys => return tuple (xs ++ ys)
    | tuple xs, row _ _ ys => return tuple (xs ++ ys)
    | row _ _ xs, tuple ys => return tuple (xs ++ ys)
    | row _ _ xs, row _ _ ys => return tuple (xs ++ ys)
    | tuple _, b => do throw (.type (.joining "tuple" (b.typeName (← get))))
    | row _ _ _, b => do throw (.type (.joining "tuple" (b.typeName (← get))))
    | a, b => operandFault "+" a b

/-- The items of a list that are not found in another. -/
def without (σ : Store) (removed : List Value) : List Value → Except Fault (List Value)
  | [] => .ok []
  | v :: vs => do
    let drop ← v.foundIn σ removed
    let rest ← without σ removed vs
    return if drop then rest else v :: rest

/-- The difference of numbers or of sets. -/
def sub (a b : Value) : Eval Value :=
  match a.number?, b.number? with
  | some x, some y => onNumbers (fun n m => return .int (n - m)) Binary64.sub? x y
  | _, _ =>
    match a, b with
    | set frozen xs, set _ ys => do
      return set frozen (← Eval.ofExcept (without (← get) ys xs))
    | a, b => operandFault "-" a b

/-- The longest sequence that repeating yields. -/
def repeatLimit : Nat := Nat.pow 2 31

/-- The greatest count and index. -/
def indexLimit : Nat := Nat.pow 2 63

/-- How often a sequence of a length is repeated: never for negative counts. -/
def repeatCount (tooLong : NumberFault) (length : Nat) (times : Int) : Except Fault Nat :=
  if times < -indexLimit || (indexLimit : Int) ≤ times then .error (.number .countTooLarge)
  else if indexLimit ≤ length * times.toNat then .error (.number tooLong)
  else if repeatLimit < length * times.toNat then .error (.number .outOfMemory)
  else .ok times.toNat

/-- A list several times over. -/
def repeated {α : Type} (times : Nat) (items : List α) : List α :=
  (List.replicate times items).flatten

/-- A sequence repeated; `none` where the value is no sequence. -/
def repeat? (sequence : Value) (times : Int) : Option (Eval Value) :=
  match sequence with
  | str s => some do
    let n ← Eval.ofExcept (repeatCount .repeatedTooLong s.length times)
    return str (String.ofList (repeated n s.toList))
  | list _ items => some do
    let n ← Eval.ofExcept (repeatCount .outOfMemory items.length times)
    Eval.newList (repeated n items)
  | tuple items => some do
    let n ← Eval.ofExcept (repeatCount .outOfMemory items.length times)
    return tuple (repeated n items)
  | row _ _ items => some do
    let n ← Eval.ofExcept (repeatCount .outOfMemory items.length times)
    return tuple (repeated n items)
  | _ => none

/-- Whether a value is a sequence that can be repeated. -/
def isRepeatable : Value → Bool
  | str _ => true
  | list _ _ => true
  | tuple _ => true
  | row _ _ _ => true
  | _ => false

/-- The product of numbers, or a sequence repeated. -/
def mul (a b : Value) : Eval Value :=
  match a.number?, b.number? with
  | some x, some y => onNumbers (fun n m => return .int (n * m)) Binary64.mul? x y
  | _, _ =>
    if a.isRepeatable then
      match b.asInt? with
      | some times => (a.repeat? times).getD (operandFault "*" a b)
      | none => do throw (.type (.repetition (b.typeName (← get))))
    else if b.isRepeatable then
      match a.asInt? with
      | some times => (b.repeat? times).getD (operandFault "*" a b)
      | none => do throw (.type (.repetition (a.typeName (← get))))
    else operandFault "*" a b

/-- Whether a value equals zero. -/
def equalsZero (a : Value) : Bool :=
  match a.number? with
  | some x => x.equal (.int 0)
  | none => false

/-- The quotient of two integers, as a double. -/
def divInts (n m : Int) : Eval Value :=
  (Binary64.ofQuotient? n m).elim (throw (.number .quotientTooLarge)) fun x => return float x

/-- The quotient of numbers, always a double. -/
def div (a b : Value) : Eval Value :=
  if b.equalsZero then throw (.number .divisionByZero)
  else
    match a.number?, b.number? with
    | some x, some y => onNumbers divInts Binary64.div? x y
    | _, _ => operandFault "/" a b

/-- The remainder of numbers, with the sign of the divisor, or a filled template. -/
def mod (a b : Value) : Eval Value :=
  if b.equalsZero then throw (.number .moduloByZero)
  else
    match a.number?, b.number? with
    | some x, some y => onNumbers (fun n m => return .int (n.fmod m)) Binary64.mod? x y
    | _, _ =>
      match a with
      | str template => do return str (← Eval.ofExcept (fillTemplate (← get) template b))
      | a => operandFault "%" a b

/-- The opposite of a number. -/
def neg (a : Value) : Eval Value :=
  match a.number? with
  | some (.int n) => return int (-n)
  | some (.float x) => return float x.neg
  | some .nan => Eval.ofFloat none
  | none => do throw (.type (.negation (a.typeName (← get))))

/-- The magnitude of a number. -/
def abs (a : Value) : Eval Value :=
  match a.number? with
  | some (.int n) => return int n.natAbs
  | some (.float x) => return float x.abs
  | some .nan => Eval.ofFloat none
  | none => do throw (.type (.magnitude (a.typeName (← get))))

/-- An integer rounded to a number of decimal places, which for negative numbers are powers of
ten. -/
def roundInt (n : Int) (places : Int) : Int :=
  if 0 ≤ places then n
  else if (digitsOf n.natAbs).length + 1 < -places then 0
  else roundToMultiple n (Nat.pow 10 (-places).toNat)

/-- A number rounded to a number of decimal places, a tie to the even neighbour. -/
def round (a : Value) (places : Int) : Eval Value :=
  match a.number? with
  | some (.int n) => return int (roundInt n places)
  | some (.float x) =>
    match x.roundPlaces? places with
    | some y => return float y
    | none => throw (.number .roundedTooLarge)
  | some .nan => Eval.ofFloat none
  | none => do throw (.type (.rounding (a.typeName (← get))))

/-! ## Conversion to numbers -/

/-- The integer that a text denotes. -/
def integerOfText (s : String) : Except Fault Int :=
  match readInteger s.toList with
  | .value n => .ok n
  | .tooManyDigits count => .error (.number (.tooManyDigits integerDigitLimit count))
  | .malformed => .error (.number (.malformedInteger (quoted s)))

/-- A value as an integer, doubles without their places. -/
def toInteger (σ : Store) : Value → Except Fault Int
  | str s => integerOfText s
  | a =>
    match a.number? with
    | some (.int n) => .ok n
    | some (.float x) =>
      match x.truncate? with
      | some n => .ok n
      | none => .error (.number .infinityToInteger)
    | some .nan => .error (.number .notANumberToInteger)
    | none => .error (.type (.integer (a.typeName σ)))

/-- The decimal that a text denotes, `none` standing for the value that is no number. -/
def decimalOfText (s : String) : Except Fault (Option Binary64) :=
  match readDecimal s.toList with
  | .value x => .ok (some x)
  | .notANumber => .ok none
  | .malformed => .error (.number (.malformedDecimal (quoted s)))

/-- A value as a double, `none` standing for the value that is no number. -/
def toDecimal (σ : Store) : Value → Except Fault (Option Binary64)
  | str s => decimalOfText s
  | a =>
    match a.number? with
    | some x => x.toDouble
    | none => .error (.type (.decimal (a.typeName σ)))

/-! ## Collections -/

/-- The items of a collection: characters of a string, keys of a mapping. -/
def items (σ : Store) : Value → Except Fault (List Value)
  | str s => .ok (s.toList.map fun c => str c.toString)
  | list _ xs => .ok xs
  | tuple xs => .ok xs
  | row _ _ xs => .ok xs
  | set _ xs => .ok xs
  | mapping address => .ok ((σ.entries address).map Prod.fst)
  | v => .error (.type (.iteration (v.typeName σ)))

/-- How many items a collection has. -/
def length (σ : Store) : Value → Except Fault Nat
  | str s => .ok s.length
  | list _ xs => .ok xs.length
  | tuple xs => .ok xs.length
  | row _ _ xs => .ok xs.length
  | set _ xs => .ok xs.length
  | mapping address => .ok (σ.entries address).length
  | v => .error (.type (.length (v.typeName σ)))

/-- The item at a position, counted from the end where it is negative. -/
def itemAt (σ : Store) (sequence : String) (xs : List Value) (key : Value) :
    Except Fault Value :=
  match key.asInt? with
  | none => .error (.type (.position sequence (key.typeName σ)))
  | some n =>
    if n < -indexLimit || (indexLimit : Int) ≤ n then .error (.number .indexTooLarge)
    else
      let place := if n < 0 then n + xs.length else n
      if place < 0 then .error (.access (.outOfRange sequence))
      else
        match xs[place.toNat]? with
        | some v => .ok v
        | none => .error (.access (.outOfRange sequence))

/-- The item of a collection at a position or under a key. -/
def subscript (σ : Store) (container key : Value) : Except Fault Value :=
  match container with
  | str s => itemAt σ "string" (s.toList.map fun c => str c.toString) key
  | list _ xs => itemAt σ "list" xs key
  | tuple xs => itemAt σ "tuple" xs key
  | row _ _ xs => itemAt σ "tuple" xs key
  | mapping address => do
    key.requireHashable σ
    match ← lookup σ key (σ.entries address) with
    | some v => .ok v
    | none => .error (.access (.missingKey (key.shown σ)))
  | v => .error (.type (.subscript (v.typeName σ)))

/-- The sum of values from left to right, starting from zero. -/
def sum : List Value → Eval Value :=
  List.foldlM add (.int 0)

/-- The first of the values that no other is below, or above, by the given comparison. -/
def extreme (σ : Store) (op : OrderOp) (first : Value) (rest : List Value) : Except Fault Value :=
  rest.foldlM (fun best v => do return if ← order σ op v best then v else best) first

end Value

end Rubric
