import Rubric.Value.Basic

/-!
# Equality of values

Numbers are equal by value whatever their kind, sequences item by item, mappings entry by entry
in any order, objects of a structured type field by field, and the rest by identity.  Inside
collections a value is found by identity or equality, so a value that differs from itself is
still found.

Comparing two addresses goes through the store, and the values found there may hold addresses
again.  So equality of values is written over a given equality of addresses, and equality of
addresses by recursion on how many may still be visited.  The answer is missing only where that
bound is exceeded, which takes a value nested in itself.
-/

namespace Rubric

open Rubric.Number

/-! ## Searches that may lack an answer -/

/-- Whether all elements pass, in order up to the first that does not. -/
def allTrue {α : Type} (test : α → Option Bool) : List α → Option Bool
  | [] => some true
  | a :: rest =>
    match test a with
    | some true => allTrue test rest
    | answer => answer

/-- Whether some element passes, in order up to the first that does. -/
def anyTrue {α : Type} (test : α → Option Bool) : List α → Option Bool
  | [] => some false
  | a :: rest =>
    match test a with
    | some false => anyTrue test rest
    | answer => answer

/-! ## Selectors and setters -/

mutual

/-- Selectors are equal when they are both composite or both not, have the same expression and
read the same path, and have equal parts. -/
def Selector.same : Selector → Selector → Bool
  | .composite ps, .composite qs => Selector.sameAll ps qs
  | .composite _, _ => false
  | _, .composite _ => false
  | s, t => s.expression == t.expression && s.path? == t.path?

/-- Equality of the parts. -/
def Selector.sameAll : List Selector → List Selector → Bool
  | [], [] => true
  | p :: ps, q :: qs => Selector.same p q && Selector.sameAll ps qs
  | _, _ => false

end

/-- Setters are equal when they have the same expression and width. -/
def Setter.same (s t : Setter) : Bool :=
  s.expression == t.expression && s.width == t.width

/-- Equality of optional setters. -/
def Setter.sameOption : Option Setter → Option Setter → Bool
  | none, none => true
  | some s, some t => s.same t
  | _, _ => false

namespace Value

/-! ## Numbers -/

/-- A value as a number, for comparisons. -/
inductive NumberView where
  | int (n : Int)
  | float (x : Binary64)
  | nan
  deriving DecidableEq, Repr

/-- The number that a value is. -/
def number? : Value → Option NumberView
  | int n => some (.int n)
  | bool b => some (.int (if b then 1 else 0))
  | float x => some (.float x)
  | nan _ => some .nan
  | _ => none

/-- The order of two numbers, exact for integers beside doubles. -/
def NumberView.compare? : NumberView → NumberView → Option Ordering
  | .int n, .int m => some (compare n m)
  | .int n, .float y => some (Binary64.compareInt n y)
  | .float x, .int m => some (Binary64.compareInt m x).swap
  | .float x, .float y => some (x.compare y)
  | _, _ => none

/-- Whether two numbers are equal. -/
def NumberView.equal (a b : NumberView) : Bool := a.compare? b == some .eq

/-! ## Identity -/

/-- Values that are the same thing, whatever they hold. -/
def identical : Value → Value → Bool
  | nan s, nan t => s == t
  | mapping a, mapping b => a == b
  | object a, object b => a == b
  | function s _, function t _ => s == t
  | _, _ => false

/-! ## Equality over an equality of addresses -/

/-- A value that lives in the store. -/
inductive Place where
  | mapping (address : Nat)
  | object (address : Nat)
  deriving DecidableEq, Repr

mutual

/-- Equality of values, given equality of distinct places. -/
def equalWith (places : Place → Place → Option Bool) : Value → Value → Option Bool
  | null, null => some true
  | str s, str t => some (s == t)
  | list _ xs, list _ ys => itemsEqualWith places xs ys
  | tuple xs, tuple ys => itemsEqualWith places xs ys
  | tuple xs, row _ _ ys => itemsEqualWith places xs ys
  | row _ _ xs, tuple ys => itemsEqualWith places xs ys
  | row _ _ xs, row _ _ ys => itemsEqualWith places xs ys
  | set _ xs, set _ ys =>
    if xs.length = ys.length then allFoundWith places xs ys else some false
  | mapping a, mapping b => if a = b then some true else places (.mapping a) (.mapping b)
  | object a, object b => if a = b then some true else places (.object a) (.object b)
  | function s _, function t _ => some (s == t)
  | selector s, selector t => some (s.same t)
  | setter s, setter t => some (s.same t)
  | target s p, target t q => some (s.same t && Setter.sameOption p q)
  | a, b =>
    match a.number?, b.number? with
    | some x, some y => some (x.equal y)
    | _, _ => some false

/-- Equality item by item; sequences of different lengths differ. -/
def itemsEqualWith (places : Place → Place → Option Bool) : List Value → List Value → Option Bool
  | [], [] => some true
  | x :: xs, y :: ys =>
    if xs.length ≠ ys.length then some false
    else if identical x y then itemsEqualWith places xs ys
    else
      match equalWith places x y with
      | some true => itemsEqualWith places xs ys
      | answer => answer
  | _, _ => some false

/-- Whether every value of the first list is found in the second. -/
def allFoundWith (places : Place → Place → Option Bool) : List Value → List Value → Option Bool
  | [], _ => some true
  | x :: xs, ys =>
    match anyTrue (fun y => if identical x y then some true else equalWith places x y) ys with
    | some true => allFoundWith places xs ys
    | answer => answer

end

/-- Identity or equality, which is how collections find their values. -/
def matchWith (places : Place → Place → Option Bool) (a b : Value) : Option Bool :=
  if identical a b then some true else equalWith places a b

/-- The value found under a key: `some none` where there is none. -/
def lookupWith (places : Place → Place → Option Bool) (key : Value) :
    List (Value × Value) → Option (Option Value)
  | [] => some none
  | (k, v) :: rest =>
    match matchWith places k key with
    | some true => some (some v)
    | some false => lookupWith places key rest
    | none => none

end Value

/-! ## Equality in a store -/

namespace Store

open Value

/-- The fields of an object, in the order of its type. -/
def fieldValues (o : Object) : List Value :=
  o.type.fields.map fun name => (o.attributes.lookup name).getD .null

/-- Equality of distinct places, visiting at most `fuel` of them. -/
def placesEqual (σ : Store) : Nat → Place → Place → Option Bool
  | 0, _, _ => none
  | fuel + 1, .mapping a, .mapping b =>
    if (σ.entries a).length ≠ (σ.entries b).length then some false
    else
      allTrue (fun entry =>
        match lookupWith (placesEqual σ fuel) entry.1 (σ.entries b) with
        | some (some v) => matchWith (placesEqual σ fuel) v entry.2
        | some none => some false
        | none => none) (σ.entries a)
  | fuel + 1, .object a, .object b =>
    let o := σ.object a
    let p := σ.object b
    if o.type = p.type && o.type.structured && o.type.byValue then
      itemsEqualWith (placesEqual σ fuel) (fieldValues o) (fieldValues p)
    else some false
  | _ + 1, _, _ => some false

/-- Equality of places in the store. -/
def samePlace (σ : Store) : Place → Place → Option Bool := placesEqual σ (σ.nesting + 1)

end Store

namespace Value

/-- An answer, or the fault of a value nested in itself. -/
def settled {α : Type} : Option α → Except Fault α
  | some a => .ok a
  | none => .error .tooDeep

/-- Equality. -/
def equal (σ : Store) (a b : Value) : Except Fault Bool := settled (equalWith σ.samePlace a b)

/-- Identity or equality. -/
def found (σ : Store) (a b : Value) : Except Fault Bool := settled (matchWith σ.samePlace a b)

/-- Whether a value is found in a list. -/
def foundIn (σ : Store) (a : Value) (items : List Value) : Except Fault Bool :=
  settled (anyTrue (fun item => matchWith σ.samePlace item a) items)

/-- The value found under a key. -/
def lookup (σ : Store) (key : Value) (entries : List (Value × Value)) :
    Except Fault (Option Value) :=
  settled (lookupWith σ.samePlace key entries)

end Value

end Rubric
