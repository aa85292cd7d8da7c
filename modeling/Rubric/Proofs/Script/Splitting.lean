import Rubric.Proofs.Script.Selection

/-!
# Collections that are split

Keeping the records that pass a comparison, and then those that pass the opposite one, splits a collection.
Where values are equal or not, every record is on one side.  Where integers are compared in order, null is on
neither side, and every record that has an integer is on one.

* `Splits` : two parts of a list that have its order, nothing in common and every element together;
* `filter_call_splits` : what the two calls keep splits the collection.
-/

namespace Rubric

/-- Whether two lists split a list: each has its order, they have nothing in common, and together they contain
every element once. -/
structure Splits {α : Type} (whole left right : List α) : Prop where
  left_sublist : left.Sublist whole
  right_sublist : right.Sublist whole
  disjoint : ∀ a ∈ left, a ∉ right
  perm : (left ++ right).Perm whole

/-- A list is split by whether its elements pass a test. -/
theorem splits_filter {α : Type} (whole : List α) (passes : α → Bool) :
    Splits whole (whole.filter passes) (whole.filter fun a => !passes a) where
  left_sublist := List.filter_sublist
  right_sublist := List.filter_sublist
  disjoint a hleft hright := by
    have hpasses := (List.mem_filter.mp hleft).2
    have hfails := (List.mem_filter.mp hright).2
    rw [hpasses] at hfails
    exact Bool.false_ne_true hfails
  perm := List.filter_append_perm passes whole

/-- The comparison that holds where another does not. -/
def OrderOp.opposite : OrderOp → OrderOp
  | lt => ge
  | le => gt
  | gt => le
  | ge => lt

/-- It holds where the other does not. -/
theorem OrderOp.holds_opposite (op : OrderOp) (o : Ordering) : op.opposite.holds o = !op.holds o := by
  cases op <;> cases o <;> rfl

namespace Script

open Eval (Gives)

variable {env : Environment} {σ : Store} {collection selector value operator : Value} {records : List Value}

/-- The list of the records that pass a comparison. -/
theorem givesList_filter_call {passes : Value → Bool} (hrecords : itemsOrNone collection σ = .ok records σ)
    (h : ∀ r ∈ records, Gives σ (comparesTo selector operator value r) (· = passes r)) :
    GivesList σ (Builtin.filter.call env [collection, selector, operator, value]) (records.filter passes) := by
  refine (gives_ofExcept (P := fun _ => True) (a := ()) rfl trivial).bind fun _ _ => ?_
  refine (gives_itemsOrNone hrecords).bind fun items hitems => ?_
  subst hitems
  refine (gives_keepWhere h).bind fun kept hkept => ?_
  subst hkept
  exact gives_newList _

/-! ## Equal or not -/

/-- Keeping the records whose value equals a value, and keeping those whose value does not, splits a collection. -/
theorem equal_splits (hgave : σ.GaveOut (collection.tags ++ selector.tags ++ value.tags))
    (hrecords : itemsOrNone collection σ = .ok records σ)
    (hanswers : ∀ r ∈ records, ∃ answer τ, comparesTo selector (.str "==") value r σ = .ok answer τ) :
    ∃ equal other, Splits records equal other ∧
      (∀ r ∈ records, r ∈ equal ↔ ∃ τ, comparesTo selector (.str "==") value r σ = .ok true τ) ∧
      GivesList σ (Builtin.filter.call env [collection, selector, .str "==", value]) equal ∧
      GivesList σ (Builtin.filter.call env [collection, selector, .str "!=", value]) other := by
  have hstore : σ.GaveOut [] := hgave.mono (List.nil_subset _)
  have hcollection : σ.Knows collection := (hgave.mono (by simp)).knows
  have hselector : σ.Knows selector := (hgave.mono (by simp)).knows
  have hvalue : σ.Knows value := (hgave.mono (by simp)).knows
  have hknown := knows_itemsOrNone hstore hcollection hrecords
  refine ⟨_, _, splits_filter records fun r => Eval.answerIn σ (comparesTo selector (.str "==") value r) false, ?_,
    givesList_filter_call hrecords ?_, givesList_filter_call hrecords ?_⟩
  · intro r hr
    obtain ⟨answer, τ, hanswer⟩ := hanswers r hr
    rw [List.mem_filter, answerIn_of_ok hanswer, hanswer]
    exact ⟨fun h => ⟨τ, by rw [h.2]⟩, fun ⟨τ', h⟩ => ⟨hr, by cases h; rfl⟩⟩
  · intro r hr
    obtain ⟨answer, τ, hanswer⟩ := hanswers r hr
    rw [answerIn_of_ok hanswer]
    exact gives_comparesTo hstore hselector hvalue (hknown r hr) hanswer
  · intro r hr
    obtain ⟨answer, τ, hanswer⟩ := hanswers r hr
    rw [answerIn_of_ok hanswer]
    exact gives_comparesTo hstore hselector hvalue (hknown r hr) (comparesTo_notEqual hanswer)

/-! ## Beyond an integer or not -/

/-- Whether a value stands for an integer that is in some order to another. -/
def isBeyond (op : OrderOp) (n : Int) (v : Value) : Bool := v.asInt?.any fun m => op.holds (compare m n)

/-- Null is beyond nothing. -/
theorem isBeyond_of_isNull {op : OrderOp} {n : Int} {v : Value} (h : v.isNull = true) : isBeyond op n v = false := by
  cases v <;> first | rfl | cases h

/-- An integer is beyond another, or it is so in the opposite order. -/
theorem isBeyond_opposite {op : OrderOp} {n : Int} {v : Value} (hv : v.IsIntegerOrNull) :
    isBeyond op.opposite n v = (!isBeyond op n v && !v.isNull) := by
  rcases hv with hnull | hint
  · rw [isBeyond_of_isNull hnull, hnull, Bool.not_true, Bool.and_false]
  · obtain ⟨m, hm⟩ := Option.isSome_iff_exists.mp hint
    rw [Value.isNull_of_asInt? hm, Bool.not_false, Bool.and_true, isBeyond, isBeyond, hm, Option.any_some,
      Option.any_some, OrderOp.holds_opposite]

/-- Keeping the records whose integer is in some order to another, and keeping those whose integer is not, splits
the records of a collection that have an integer. -/
theorem order_splits {n : Int} (hgave : σ.GaveOut (collection.tags ++ selector.tags))
    (hrecords : itemsOrNone collection σ = .ok records σ) (hn : value.asInt? = some n)
    (hvalues : ∀ r ∈ records, ∃ v τ, selectFrom selector r σ = .ok v τ ∧ v.IsIntegerOrNull) (op : OrderOp) :
    ∃ holding failing,
      Splits (records.filter fun r => !(readBy σ selector r).isNull) holding failing ∧
      (∀ r ∈ records, r ∈ holding ↔ ∃ m, (readBy σ selector r).asInt? = some m ∧ op.holds (compare m n) = true) ∧
      GivesList σ (Builtin.filter.call env [collection, selector, .str op.text, value]) holding ∧
      GivesList σ (Builtin.filter.call env [collection, selector, .str op.opposite.text, value]) failing := by
  have hstore : σ.GaveOut [] := hgave.mono (List.nil_subset _)
  have hcollection : σ.Knows collection := (hgave.mono (by simp)).knows
  have hselector : σ.Knows selector := (hgave.mono (by simp)).knows
  have hknown := knows_itemsOrNone hstore hcollection hrecords
  -- what each call gives is a filter by what is read of the records
  have hgives : ∀ op : OrderOp, GivesList σ (Builtin.filter.call env [collection, selector, .str op.text, value])
      (records.filter fun r => isBeyond op n (readBy σ selector r)) := by
    refine fun op => givesList_filter_call hrecords fun r hr => ?_
    obtain ⟨hread, hinteger⟩ := gives_readBy hstore hselector (hknown r hr) (hvalues r hr)
    exact gives_comparesTo_integer op hread hinteger hn
  have hholding : (records.filter fun r => !(readBy σ selector r).isNull).filter
        (fun r => isBeyond op n (readBy σ selector r))
      = records.filter fun r => isBeyond op n (readBy σ selector r) := by
    rw [List.filter_filter]
    refine List.filter_congr fun r _ => ?_
    cases hnull : (readBy σ selector r).isNull with
    | true => rw [isBeyond_of_isNull hnull, Bool.false_and]
    | false => rw [Bool.not_false, Bool.and_true]
  -- the opposite order holds of an integer where the order does not
  have hfailing : (records.filter fun r => !(readBy σ selector r).isNull).filter
        (fun r => !isBeyond op n (readBy σ selector r))
      = records.filter fun r => isBeyond op.opposite n (readBy σ selector r) := by
    rw [List.filter_filter]
    refine List.filter_congr fun r hr => ?_
    exact (isBeyond_opposite (gives_readBy hstore hselector (hknown r hr) (hvalues r hr)).2).symm
  have hsplit := splits_filter (records.filter fun r => !(readBy σ selector r).isNull)
    fun r => isBeyond op n (readBy σ selector r)
  rw [hholding, hfailing] at hsplit
  refine ⟨_, _, hsplit, fun r hr => ?_, hgives op, hgives op.opposite⟩
  rw [List.mem_filter, isBeyond, Option.any_eq_true]
  exact ⟨fun h => h.2, fun h => ⟨hr, h⟩⟩

/-- Keeping the records whose value equals a value, and those whose value does not, splits a collection, where
the values can be compared.  Keeping those whose integer is below another, or up to it, and those whose integer is
not, splits the records that have an integer, where the values are integers or null.  It does not matter which call
comes first, or what other lists are made in between: the tags in use were given out before. -/
theorem filter_call_splits (env : Environment)
    (hgave : σ.GaveOut (collection.tags ++ selector.tags ++ value.tags))
    (hrecords : itemsOrNone collection σ = .ok records σ) :
    ((∀ r ∈ records, ∃ answer τ, comparesTo selector (.str "==") value r σ = .ok answer τ) →
      ∃ equal other, Splits records equal other ∧
        (∀ r ∈ records, r ∈ equal ↔ ∃ τ, comparesTo selector (.str "==") value r σ = .ok true τ) ∧
        GivesList σ (Builtin.filter.call env [collection, selector, .str "==", value]) equal ∧
        GivesList σ (Builtin.filter.call env [collection, selector, .str "!=", value]) other) ∧
    ∀ n : Int, value.asInt? = some n →
      (∀ r ∈ records, ∃ v τ, selectFrom selector r σ = .ok v τ ∧ v.IsIntegerOrNull) →
      ∀ op : OrderOp, ∃ holding failing,
        Splits (records.filter fun r => !(readBy σ selector r).isNull) holding failing ∧
        (∀ r ∈ records,
          r ∈ holding ↔ ∃ m, (readBy σ selector r).asInt? = some m ∧ op.holds (compare m n) = true) ∧
        GivesList σ (Builtin.filter.call env [collection, selector, .str op.text, value]) holding ∧
        GivesList σ (Builtin.filter.call env [collection, selector, .str op.opposite.text, value]) failing :=
  ⟨equal_splits hgave hrecords,
    fun _ hn hvalues op => order_splits (hgave.mono (by simp)) hrecords hn hvalues op⟩

/-- Of the scores, the truth value equals one.  The record with null is on the side of those that do not, and on
neither side of those with at most one and those with more. -/
theorem filter_call_splits_scores :
    let call (operator : String) := Builtin.filter.call ⟨⟨[]⟩, .null, .null⟩
      [.list ⟨0, none, 0⟩ scoredRecords, .str "k", .str operator, .int 1]
    (∃ equal other, Splits scoredRecords equal other ∧ .mapping 2 ∈ equal ∧ .mapping 1 ∉ equal ∧
      GivesList scoreStore (call "==") equal ∧ GivesList scoreStore (call "!=") other) ∧
    ∃ holding failing, Splits [.mapping 0, .mapping 2, .mapping 3] holding failing ∧ .mapping 2 ∈ holding ∧
      .mapping 3 ∉ holding ∧ GivesList scoreStore (call "<=") holding ∧ GivesList scoreStore (call ">") failing := by
  intro call
  obtain ⟨h0, h1, h2, h3⟩ := selectFrom_scores
  have hgave : scoreStore.GaveOut
      ((Value.list ⟨0, none, 0⟩ scoredRecords).tags ++ (Value.str "k").tags ++ (Value.int 1).tags) := by decide
  have hanswers : ∀ r ∈ scoredRecords, ∃ answer τ,
      comparesTo (.str "k") (.str "==") (.int 1) r scoreStore = .ok answer τ := by
    simp only [scoredRecords, List.forall_mem_cons, comparesTo]
    exact ⟨⟨false, _, bind_of_ok h0⟩, ⟨false, _, bind_of_ok h1⟩, ⟨true, _, bind_of_ok h2⟩,
      ⟨false, _, bind_of_ok h3⟩, fun r hr => absurd hr List.not_mem_nil⟩
  have hpresent : (scoredRecords.filter fun r => !(readBy scoreStore (.str "k") r).isNull)
      = [.mapping 0, .mapping 2, .mapping 3] := by
    simp [scoredRecords, readBy_of_ok h0, readBy_of_ok h1, readBy_of_ok h2, readBy_of_ok h3, Value.isNull]
  obtain ⟨hequality, horder⟩ := filter_call_splits ⟨⟨[]⟩, .null, .null⟩ hgave (itemsOrNone_list ⟨0, none, 0⟩)
  obtain ⟨equal, other, hsplits, hmem, hcalls⟩ := hequality hanswers
  obtain ⟨holding, failing, hsplits', hmem', hcalls'⟩ := horder 1 rfl integers_scores .le
  refine ⟨⟨equal, other, hsplits, ?_, ?_, hcalls⟩, holding, failing, hpresent ▸ hsplits', ?_, ?_, hcalls'⟩
  · exact (hmem (.mapping 2) (by simp [scoredRecords])).mpr ⟨_, bind_of_ok h2⟩
  · refine fun h => ?_
    obtain ⟨τ, h⟩ := (hmem (.mapping 1) (by simp [scoredRecords])).mp h
    cases (bind_of_ok h1).symm.trans h
  · refine (hmem' (.mapping 2) (by simp [scoredRecords])).mpr ⟨1, ?_, by decide⟩
    rw [readBy_of_ok h2]
    rfl
  · refine fun h => ?_
    obtain ⟨m, hm, hle⟩ := (hmem' (.mapping 3) (by simp [scoredRecords])).mp h
    rw [readBy_of_ok h3] at hm
    cases hm
    exact absurd hle (by decide)

end Script

end Rubric
