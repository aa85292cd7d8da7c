import Rubric.Value.Arithmetic

/-!
# Classification

Records are collected under the label of their result.  Labels keep the order of their first use.
A report lists how many records each label has and their share of a total.
-/

namespace Rubric

open Rubric.Number Rubric.Text

/-- Labels in order of first use, each with its records in order. -/
structure Classification (α : Type) where
  buckets : List (String × List α)
  deriving Inhabited

namespace Classification

variable {α : Type}

/-- No labels. -/
def empty : Classification α := ⟨[]⟩

/-- Buckets with one more record. -/
def addTo (label : String) (record : α) : List (String × List α) → List (String × List α)
  | [] => [(label, [record])]
  | (l, rs) :: rest =>
    if l = label then (l, rs ++ [record]) :: rest else (l, rs) :: addTo label record rest

/-- One more record under a label. -/
def add (c : Classification α) (label : String) (record : α) : Classification α :=
  ⟨addTo label record c.buckets⟩

/-- The labels in order. -/
def labels (c : Classification α) : List String := c.buckets.map Prod.fst

/-- The records under a label. -/
def bucket (c : Classification α) (label : String) : List α :=
  (c.buckets.lookup label).getD []

/-- Each label with its number of records. -/
def counts (c : Classification α) : List (String × Nat) :=
  c.buckets.map fun b => (b.1, b.2.length)

/-- The number of records. -/
def total (c : Classification α) : Nat := c.counts.foldr (fun count n => count.2 + n) 0

/-- Adding a record adds one to the total. -/
theorem total_add (c : Classification α) (label : String) (record : α) :
    (c.add label record).total = c.total + 1 := by
  obtain ⟨buckets⟩ := c
  simp only [add, total, counts]
  induction buckets with
  | nil => simp [addTo]
  | cons b rest ih =>
    obtain ⟨l, rs⟩ := b
    simp only [addTo]
    split
    · simp only [List.map_cons, List.foldr_cons, List.length_append, List.length_singleton]
      omega
    · simp only [List.map_cons, List.foldr_cons] at ih ⊢
      omega

end Classification

/-! ## Shares -/

/-- A label, its number of records and their share in percent, which a total of nothing has not. -/
structure BucketShare where
  label : String
  count : Nat
  percent : Option Value
  deriving Inhabited

/-- A value divided by a double that may be zero. -/
def shareOf (scaled : Value) (x : Binary64) : Eval Value :=
  match x.isZero, scaled.number? with
  | true, some n => do
    let _ ← Eval.ofExcept n.toDouble
    throw (.number .shareOfZero)
  | true, none => Value.operandFault "/" scaled (.float x)
  | false, _ => scaled.div (.float x)

/-- The share of a count in a total, in percent. -/
def percentage (count total : Value) : Eval Value := do
  if total.equalsZero then throw .emptyTotal
  else
    let scaled ← count.mul (.int 100)
    match ← Eval.ofExcept (total.toDecimal (← get)) with
    | some x => shareOf scaled x
    | none => scaled.div (.nan (← Eval.freshTag))

/-- The share of each bucket. -/
def shares (total : Value) : List (String × Nat) → Eval (List BucketShare)
  | [] => return []
  | (label, count) :: rest => do
    let percent ←
      if total.equalsZero then pure none
      else do pure (some (← percentage (.int count) total))
    return ⟨label, count, percent⟩ :: (← shares total rest)

/-- A number with a fixed count of places. -/
def fixedText (places : Int) (v : Value) : Except Fault String :=
  if places < 0 then .error (.number .missingPrecision)
  else
    match v with
    | .float x => .ok (x.toFixed places.toNat)
    | _ => .ok "nan"

/-- The line of a report for a label. -/
def BucketShare.line (places : Int) (s : BucketShare) : Except Fault String :=
  match s.percent with
  | none => .ok s!"  {s.label}:{s.count} -> N/A"
  | some v => (fixedText places v).map fun shown => s!"  {s.label}:{s.count} -> {shown} %"

/-- The report: the total, then each label with its count and share, an empty line before each. -/
def reportText (σ : Store) (total : Value) (places : Int) (stats : List BucketShare) :
    Except Fault String := do
  let listed ← stats.mapM (BucketShare.line places)
  let head := ["", s!"  Total -> {total.text σ}"]
  let none := if total.equalsZero then ["", "  N/A"] else []
  return join "\n" (head ++ none ++ listed.flatMap fun line => ["", line]) ++ "\n"

/-- The report on a classification. -/
def Classification.report {α : Type} (c : Classification α) (total : Value) (places : Int) :
    Eval String := do
  let stats ← shares total c.counts
  Eval.ofExcept (reportText (← get) total places stats)

end Rubric
