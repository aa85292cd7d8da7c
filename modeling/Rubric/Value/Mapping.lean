import Rubric.Value.Arithmetic

/-!
# Mappings from entries

A mapping is made from entries one after the other: a key met again keeps its place and takes the
later value.
-/

namespace Rubric

namespace Value

/-- Entries with a value under a key, at the end where the key is new. -/
def insertEntry (σ : Store) (key value : Value) :
    List (Value × Value) → Except Fault (List (Value × Value))
  | [] => .ok [(key, value)]
  | (k, v) :: rest =>
    match found σ k key with
    | .error fault => .error fault
    | .ok true => .ok ((k, value) :: rest)
    | .ok false => (insertEntry σ key value rest).map ((k, v) :: ·)

/-- Entries with more inserted, whose keys must be such as can be looked up. -/
def insertEntries (σ : Store) (entries : List (Value × Value)) :
    List (Value × Value) → Except Fault (List (Value × Value))
  | [] => .ok entries
  | (k, v) :: rest => do
    k.requireHashable σ
    let entries ← insertEntry σ k v entries
    insertEntries σ entries rest

/-- The items of a set: no two found equal, those that stand for integers first, in ascending
order. -/
def setItems (σ : Store) (items : List Value) : Except Fault (List Value) := do
  let kept ← items.foldlM (fun kept v => do
    v.requireHashable σ
    if ← v.foundIn σ kept then return kept else return kept ++ [v]) []
  let numbered := kept.filter fun v => v.asInt?.isSome
  let others := kept.filter fun v => v.asInt?.isNone
  return numbered.mergeSort (fun a b => a.asInt?.getD 0 ≤ b.asInt?.getD 0) ++ others

/-- The key and value that an item with a place in a sequence gives. -/
def entryOf (σ : Store) (index : Nat) (item : Value) : Except Fault (Value × Value) :=
  match item.items σ with
  | .ok [k, v] => .ok (k, v)
  | .ok parts => .error (.number (.entryLength index parts.length))
  | .error _ => .error (.type (.updateEntry index))

/-- The entries that the items of a sequence give, inserted as they are read. -/
def entriesOf (σ : Store) (index : Nat) (entries : List (Value × Value)) :
    List Value → Except Fault (List (Value × Value))
  | [] => .ok entries
  | item :: rest => do
    let (k, v) ← entryOf σ index item
    k.requireHashable σ
    let entries ← insertEntry σ k v entries
    entriesOf σ (index + 1) entries rest

/-- A new mapping with the entries of a mapping or of a sequence of pairs; values that count as
false give an empty one. -/
def copyMapping (v : Value) : Eval Value := do
  let σ ← get
  if !v.truthy σ then Eval.newMapping []
  else
    match v with
    | mapping address => Eval.newMapping (σ.entries address)
    | v => do
      let parts ← Eval.ofExcept (v.items σ)
      Eval.newMapping (← Eval.ofExcept (entriesOf σ 0 [] parts))

end Value

end Rubric
