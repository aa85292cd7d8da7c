import Rubric.Proofs.Script.Quiet
import Rubric.Proofs.Script.RenamedExpressions
import Rubric.Proofs.Value.Integers
import Rubric.Proofs.Value.Steady

/-!
# What is selected from the records of a collection

A selector reads from a record what it reads from it at any other time, and a comparison of what it reads has the
same answer: however many lists were made in between, and which of the records come first.  So the built-in
functions can be told from what the selector reads from each record in the store that they start in.

* `gives_readBy`, `gives_comparesTo` : reading and comparing can be done again;
* `gives_keepWhere` : the records that pass a test are those that pass it in the store at the start;
* `gives_comparesTo_integer` : comparisons of integers and nulls with an integer.
-/

namespace Rubric.Script

open Eval (Gives)

variable {σ τ : Store} {collection selector value record v : Value} {records : List Value}

/-- Whether a call gives a new list of some items. -/
def GivesList (σ : Store) (action : Eval Value) (items : List Value) : Prop :=
  Gives σ action fun v => ∃ tag, v = .list tag items

/-! ## Records -/

/-- The items of a collection, or none, succeed where the items of a collection that counts as true do. -/
theorem itemsOrNone_ok : itemsOrNone collection σ = .ok records σ ↔
    (if collection.truthy σ then collection.items σ else .ok []) = .ok records := by
  show (if collection.truthy σ then Eval.ofExcept (collection.items σ) else pure []) σ = _ ↔ _
  have hanswer : ∀ answer : Except Fault (List Value),
      Eval.ofExcept answer σ = .ok records σ ↔ answer = .ok records := by
    intro answer
    cases answer with
    | ok items => exact ⟨fun h => by cases h; rfl, fun h => by cases h; rfl⟩
    | error fault => exact ⟨fun h => (by cases h), fun h => (by cases h)⟩
  split
  · exact hanswer _
  · exact hanswer (.ok [])

/-- The items of a list are its members. -/
theorem itemsOrNone_list (tag : Tag) : itemsOrNone (.list tag records) σ = .ok records σ := by
  refine itemsOrNone_ok.mpr ?_
  cases records <;> rfl

/-- They are the same some tags later. -/
theorem gives_itemsOrNone (h : itemsOrNone collection σ = .ok records σ) :
    Gives σ (itemsOrNone collection) (· = records) := by
  intro k
  refine ⟨records, k, itemsOrNone_ok.mpr ?_, rfl⟩
  rw [Value.truthy_after, Value.items_after]
  exact itemsOrNone_ok.mp h

/-- They are known where the collection is. -/
theorem knows_itemsOrNone (hgave : σ.GaveOut []) (hcollection : σ.Knows collection)
    (h : itemsOrNone collection σ = .ok records σ) : ∀ r ∈ records, σ.Knows r := by
  have hitems := itemsOrNone_ok.mp h
  split at hitems
  · exact hcollection.items hgave hitems
  · cases hitems
    exact fun r hr => absurd hr List.not_mem_nil

/-! ## Reading and comparing -/

/-- What a selector reads from a record, null where it reads nothing. -/
def readBy (σ : Store) (selector record : Value) : Value := Eval.answerIn σ (selectFrom selector record) .null

/-- What a selector reads. -/
theorem readBy_of_ok (h : selectFrom selector record σ = .ok v τ) : readBy σ selector record = v :=
  answerIn_of_ok h

/-- An integer or null that a selector reads from a record is read from it again. -/
theorem gives_readBy (hgave : σ.GaveOut []) (hselector : σ.Knows selector) (hrecord : σ.Knows record)
    (h : ∃ v τ, selectFrom selector record σ = .ok v τ ∧ v.IsIntegerOrNull) :
    Gives σ (selectFrom selector record) (· = readBy σ selector record) ∧
      (readBy σ selector record).IsIntegerOrNull := by
  obtain ⟨v, τ, hread, hv⟩ := h
  rw [readBy_of_ok hread]
  refine ⟨gives_of_renames hgave (quiet_selectFrom selector record) (fun ρ hρ hkeeps => ⟨?_, hv.retag ρ⟩) hread, hv⟩
  have hrenames := renames_selectFrom hρ selector record
  rwa [hselector ρ hkeeps, hrecord ρ hkeeps] at hrenames

/-- The answer of a comparison is that of the comparison made again. -/
theorem gives_comparesTo {operator : String} {answer : Bool} (hgave : σ.GaveOut []) (hselector : σ.Knows selector)
    (hvalue : σ.Knows value) (hrecord : σ.Knows record)
    (h : comparesTo selector (.str operator) value record σ = .ok answer τ) :
    Gives σ (comparesTo selector (.str operator) value record) (· = answer) := by
  refine gives_of_renames (f := fun _ => id) hgave (quiet_comparesTo _ _ _ _) (fun ρ hρ hkeeps => ⟨?_, rfl⟩) h
  have hrenames := renames_comparesTo hρ selector (.str operator) value record
  rwa [hselector ρ hkeeps, hvalue ρ hkeeps, hrecord ρ hkeeps] at hrenames

/-- What a selector reads is not equal to a value where it does not equal it. -/
theorem comparesTo_notEqual {answer : Bool} (h : comparesTo selector (.str "==") value record σ = .ok answer τ) :
    comparesTo selector (.str "!=") value record σ = .ok (!answer) τ := by
  obtain ⟨left, τ', hleft, hanswer⟩ := bind_ok.mp h
  refine (bind_of_ok hleft).trans ?_
  have hequal : (Eval.ofExcept (left.equal τ' value)) τ' = .ok answer τ := hanswer
  show Eval.ofExcept ((left.equal τ' value).map (!·)) τ' = _
  cases hresult : left.equal τ' value with
  | ok b =>
      rw [hresult] at hequal
      cases hequal
      rfl
  | error fault =>
      rw [hresult] at hequal
      cases hequal

/-- The comparison of an integer or null with an integer: that of the integers, and none of null. -/
theorem gives_comparesTo_integer {n : Int} (op : OrderOp) (h : Gives σ (selectFrom selector record) (· = v))
    (hv : v.IsIntegerOrNull) (hvalue : value.asInt? = some n) :
    Gives σ (comparesTo selector (.str op.text) value record)
      (· = v.asInt?.any fun m => op.holds (compare m n)) := by
  refine h.bind fun left hleft => gives_look fun k => ?_
  subst hleft
  cases hint : left.asInt? with
  | some m => exact gives_ofExcept (Value.compareText_of_asInt? op hint hvalue) rfl
  | none =>
      have hnull : left = .null := by
        cases left <;> first | rfl | simp [Value.IsIntegerOrNull, Value.isNull, hint] at hv
      subst hnull
      exact gives_ofExcept (Value.compareText_null op) rfl

/-- The records that pass a test are those that passed it. -/
theorem gives_keepWhere {α : Type} {test : α → Eval Bool} {passes : α → Bool} {as : List α}
    (h : ∀ a ∈ as, Gives σ (test a) (· = passes a)) : Gives σ (keepWhere test as) (· = as.filter passes) := by
  induction as with
  | nil => exact gives_pure rfl
  | cons a as ih =>
      obtain ⟨ha, has⟩ := List.forall_mem_cons.mp h
      rw [keepWhere]
      refine ha.bind fun keep hkeep => (ih has).bind fun others hothers => gives_pure ?_
      rw [hkeep, hothers, List.filter_cons]

/-! ## Scores -/

/-- Records with scores: a number below zero, null, a truth value and a number. -/
def scoreStore : Store :=
  ⟨#[[(.str "k", .int (-3))], [(.str "k", .null)], [(.str "k", .bool true)], [(.str "k", .int 5)]], #[], 0,
    ⟨0, none, 1⟩⟩

/-- The list of them. -/
def scoredRecords : List Value := [.mapping 0, .mapping 1, .mapping 2, .mapping 3]

/-- Their scores. -/
theorem selectFrom_scores :
    selectFrom (.str "k") (.mapping 0) scoreStore = .ok (.int (-3)) scoreStore ∧
    selectFrom (.str "k") (.mapping 1) scoreStore = .ok .null scoreStore ∧
    selectFrom (.str "k") (.mapping 2) scoreStore = .ok (.bool true) scoreStore ∧
    selectFrom (.str "k") (.mapping 3) scoreStore = .ok (.int 5) scoreStore := by
  refine ⟨?_, ?_, ?_, ?_⟩ <;> with_unfolding_all rfl

/-- They are integers or null. -/
theorem integers_scores : ∀ r ∈ scoredRecords, ∃ v τ,
    selectFrom (.str "k") r scoreStore = .ok v τ ∧ v.IsIntegerOrNull := by
  obtain ⟨h0, h1, h2, h3⟩ := selectFrom_scores
  simp only [scoredRecords, List.forall_mem_cons]
  exact ⟨⟨_, _, h0, by decide⟩, ⟨_, _, h1, by decide⟩, ⟨_, _, h2, by decide⟩, ⟨_, _, h3, by decide⟩,
    fun r hr => absurd hr List.not_mem_nil⟩

end Rubric.Script
