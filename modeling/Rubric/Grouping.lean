import Rubric.Value.Key

/-!
# Items and contexts

An item is the first record with its key.  The context of an item is every record that a relation
ties to it, in the order of the records.  Keys that can be looked up are kept with their digests;
the others are searched one by one.
-/

namespace Rubric

/-- The keys met so far. -/
structure SeenKeys where
  /-- Keys that can be looked up, with their digests. -/
  digested : List (Nat × Value)
  /-- The other keys. -/
  listed : List Value
  deriving Inhabited

namespace SeenKeys

/-- No keys. -/
def empty : SeenKeys := ⟨[], []⟩

/-- Whether a key that can be looked up is among the digested ones. -/
def hasDigested (σ : Store) (key : Value) (seen : SeenKeys) : Except Fault Bool :=
  let candidates := seen.digested.filter fun entry => entry.1 == key.digest σ
  key.foundIn σ (candidates.map Prod.snd)

/-- The keys with one more, or `none` where it is among them already. -/
def insert? (σ : Store) (key : Value) (seen : SeenKeys) : Except Fault (Option SeenKeys) :=
  match key.unhashable? σ with
  | none => do
    if ← seen.hasDigested σ key then return none
    else return some { seen with digested := (key.digest σ, key) :: seen.digested }
  | some _ => do
    if ← key.foundIn σ seen.listed then return none
    else return some { seen with listed := seen.listed ++ [key] }

end SeenKeys

section

variable {α : Type}

/-- The keys met after one more record, or `none` where its key was met before. -/
def firstOfKey? (key : α → Eval Value) (seen : SeenKeys) (record : α) :
    Eval (Option SeenKeys) := do
  let k ← key record
  Eval.ofExcept (seen.insert? (← get) k)

/-- The records whose key is neither met before nor that of an earlier one of them. -/
def distinctFrom (key : α → Eval Value) : SeenKeys → List α → Eval (List α)
  | _, [] => return []
  | seen, record :: rest => do
    match ← firstOfKey? key seen record with
    | some seen => return record :: (← distinctFrom key seen rest)
    | none => distinctFrom key seen rest

/-- The first record of every key, in order. -/
def distinctItems (key : α → Eval Value) (records : List α) : Eval (List α) :=
  distinctFrom key .empty records

/-- How many keys the records have. -/
def countDistinct (key : α → Eval Value) (records : List α) : Eval Nat := do
  return (← distinctItems key records).length

/-- The records that a relation ties to an item, in order. -/
def contextOf (relation : α → α → Eval Bool) (item : α) : List α → Eval (List α)
  | [] => return []
  | record :: rest => do
    let tied ← relation record item
    let others ← contextOf relation item rest
    return if tied then record :: others else others

/-- Items with their contexts, of the records whose key is not met before. -/
def contextsFrom (key : α → Eval Value) (relation : α → α → Eval Bool) (all : List α) :
    SeenKeys → List α → Eval (List (α × List α))
  | _, [] => return []
  | seen, record :: rest => do
    match ← firstOfKey? key seen record with
    | some seen => do
      let context ← contextOf relation record all
      return (record, context) :: (← contextsFrom key relation all seen rest)
    | none => contextsFrom key relation all seen rest

/-- Every item with its context, in order. -/
def contexts (key : α → Eval Value) (relation : α → α → Eval Bool) (records : List α) :
    Eval (List (α × List α)) :=
  contextsFrom key relation records .empty records

/-- The relation of having equal keys. -/
def sameKey (key : α → Eval Value) (record item : α) : Eval Bool := do
  let left ← key record
  let right ← key item
  Eval.ofExcept (left.equal (← get) right)

end

end Rubric
