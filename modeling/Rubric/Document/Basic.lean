import Rubric.Number.Binary64
import Rubric.Value.Mapping

/-!
# Documents

Structured data as it is read from a file: a finite tree, which becomes a value by giving its
mappings their place in the store.
-/

namespace Rubric

open Rubric.Number

/-- The contents of a data file. -/
inductive Document where
  | null
  | bool (b : Bool)
  | int (n : Int)
  | float (x : Binary64)
  /-- The value that is no number. -/
  | nan
  | str (s : String)
  | list (items : List Document)
  | mapping (entries : List (String × Document))
  deriving Inhabited

/-- The tag of the value that is no number, which is the same wherever documents hold one.  No run has
the number of its run, so no value that is made later has it. -/
def Document.nanTag : Tag := ⟨0, some 0, 0⟩

mutual

/-- A document as a value; of entries with one key the last counts. -/
def Document.toValue : Document → Eval Value
  | .null => return .null
  | .bool b => return .bool b
  | .int n => return .int n
  | .float x => return .float x
  | .nan => return .nan Document.nanTag
  | .str s => return .str s
  | .list items => do Eval.newList (← Document.toValues items)
  | .mapping entries => do
    let parts ← Document.toEntries entries
    Eval.newMapping (← Eval.ofExcept (Value.insertEntries (← get) [] parts))

/-- Several documents as values. -/
def Document.toValues : List Document → Eval (List Value)
  | [] => return []
  | d :: ds => do
    let v ← d.toValue
    return v :: (← Document.toValues ds)

/-- Entries as values. -/
def Document.toEntries : List (String × Document) → Eval (List (Value × Value))
  | [] => return []
  | (key, d) :: rest => do
    let v ← d.toValue
    return (.str key, v) :: (← Document.toEntries rest)

end

end Rubric
