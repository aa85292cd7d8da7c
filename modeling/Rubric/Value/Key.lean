import Rubric.Value.Display
import Rubric.Value.Ordering

/-!
# Keys and digests

Grouping looks records up by a key.  The key form of a value replaces collections that change by
tuples of their items, so that it can be looked up; a digest is a number that equal values share.
-/

namespace Rubric

open Rubric.Number

namespace Value

/-! ## Key forms -/

mutual

/-- The key form of a value, given that of mappings. -/
def keyFormWith (mappings : Nat → Option Value) : Value → Option Value
  | list _ xs => (keyFormsWith mappings xs).map tuple
  | tuple xs => (keyFormsWith mappings xs).map tuple
  | row _ _ xs => (keyFormsWith mappings xs).map tuple
  | set _ xs => some (set true xs)
  | mapping address => mappings address
  | v => some v

/-- The key forms of several values. -/
def keyFormsWith (mappings : Nat → Option Value) : List Value → Option (List Value)
  | [] => some []
  | v :: vs =>
    match keyFormWith mappings v, keyFormsWith mappings vs with
    | some k, some ks => some (k :: ks)
    | _, _ => none

end

/-- The key form of a mapping: its entries as pairs, in the order of their shown keys. -/
def mappingKeyForm (σ : Store) : Nat → Nat → Option Value
  | 0, _ => none
  | fuel + 1, address => do
    let entries := (σ.entries address).map fun e => (e.1.shown σ, e.1, e.2)
    let sorted := entries.mergeSort fun e f => decide (e.1 ≤ f.1)
    let pairs ← sorted.mapM fun e => do
      let form ← keyFormWith (mappingKeyForm σ fuel) e.2.2
      return tuple [e.2.1, form]
    return tuple pairs

/-- The key form of a value. -/
def keyForm (σ : Store) (v : Value) : Except Fault Value :=
  settled (keyFormWith (mappingKeyForm σ (σ.nesting + 1)) v)

/-! ## Digests -/

/-- The range of digests. -/
def digestRange : Nat := Nat.pow 2 64

/-- Two digests made one. -/
def mixDigest (a b : Nat) : Nat := (a * 1000003 + b) % digestRange

/-- The digest of a text. -/
def textDigest (s : String) : Nat := s.toList.foldl (fun d c => mixDigest d c.toNat) 5381

/-- The digest of a tag. -/
def tagDigest (tag : Tag) : Nat :=
  mixDigest (mixDigest tag.run ((tag.item.map Nat.succ).getD 0)) tag.serial

/-- The digest of a number: of its magnitude where that is an integer, so that equal numbers of
different kinds share it. -/
def NumberView.digest : NumberView → Nat
  | .int n => n.natAbs
  | .float (.finite _ units) =>
    if units % Binary64.unitsPerOne = 0 then units / Binary64.unitsPerOne else units
  | .float (.infinite _) => 314159
  | .nan => 0

mutual

/-- The digest of a value, given that of objects. -/
def digestWith (objects : Nat → Nat) : Value → Nat
  | null => 1
  | bool b => (NumberView.int (if b then 1 else 0)).digest
  | int n => (NumberView.int n).digest
  | float x => (NumberView.float x).digest
  | nan tag => tagDigest tag
  | str s => textDigest s
  | list _ xs => itemsDigestWith objects 3 xs
  | tuple xs => itemsDigestWith objects 3 xs
  | row _ _ xs => itemsDigestWith objects 3 xs
  | set _ xs => setDigestWith objects xs
  | mapping _ => 7
  | object address => objects address
  | function tag _ => tagDigest tag
  | selector s => textDigest s.expression
  | setter s => textDigest s.expression
  | target s _ => textDigest s.expression

/-- The digest of the items, in order. -/
def itemsDigestWith (objects : Nat → Nat) (start : Nat) : List Value → Nat
  | [] => start
  | v :: vs => itemsDigestWith objects (mixDigest start (digestWith objects v)) vs

/-- The digest of the members, in any order. -/
def setDigestWith (objects : Nat → Nat) : List Value → Nat
  | [] => 11
  | v :: vs => digestWith objects v + setDigestWith objects vs

end

/-- The digest of an object: of its fields where it is compared by them, else of its address. -/
def objectDigest (σ : Store) : Nat → Nat → Nat
  | 0, _ => 0
  | fuel + 1, address =>
    let o := σ.object address
    if o.type.structured && o.type.byValue then
      itemsDigestWith (objectDigest σ fuel) 3 (Store.fieldValues o)
    else address

/-- A number that values found equal share. -/
def digest (σ : Store) (v : Value) : Nat := digestWith (objectDigest σ (σ.nesting + 1)) v

end Value

end Rubric
