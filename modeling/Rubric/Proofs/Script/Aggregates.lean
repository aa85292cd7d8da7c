import Rubric.Proofs.Script.Selection

/-!
# Aggregates of integers and nulls

Where a selector reads integers and nulls from the records of a collection, the aggregates leave the nulls out,
and agree on the rest: the count is their number, the extremes are among them, and the sum lies between as many
times the least and as many times the greatest.

* `recordsOf` : the records that the aggregates look at;
* `gives_selectPresent` : the values that they share;
* `gives_sum`, `gives_extreme` : the sum and the extremes of the values;
* `aggregates_agree` : how the calls of one collection and selector are related.
-/

namespace Rubric.Script

open Eval (Gives)

variable {env : Environment} {σ : Store} {collection selector : Value} {records values : List Value}

/-! ## Values -/

/-- The records of a collection, of which null has none. -/
def recordsOf (σ : Store) (collection : Value) : Except Fault (List Value) :=
  if collection.isNull then .ok [] else collection.items σ

/-- Whether a selector reads integers and nulls from the records of a collection, in a store that gave out the tags
of all three. -/
structure ReadsIntegers (σ : Store) (collection selector : Value) (records : List Value) : Prop where
  gaveOut : σ.GaveOut (collection.tags ++ selector.tags)
  records_eq : recordsOf σ collection = .ok records
  reads : ∀ r ∈ records, ∃ v τ, selectFrom selector r σ = .ok v τ ∧ v.IsIntegerOrNull

namespace ReadsIntegers

variable (h : ReadsIntegers σ collection selector records)

include h

/-- What is read from each record is read from it again. -/
theorem gives_readBy : ∀ r ∈ records, Gives σ (selectFrom selector r) (· = readBy σ selector r) ∧
    (readBy σ selector r).IsIntegerOrNull := by
  have hstore : σ.GaveOut [] := h.gaveOut.mono (List.nil_subset _)
  have hcollection : σ.Knows collection := (h.gaveOut.mono (by simp)).knows
  have hselector : σ.Knows selector := (h.gaveOut.mono (by simp)).knows
  have hknown : ∀ r ∈ records, σ.Knows r := by
    have hrecords := h.records_eq
    rw [recordsOf] at hrecords
    split at hrecords
    · cases hrecords
      exact fun r hr => absurd hr List.not_mem_nil
    · exact hcollection.items hstore hrecords
  exact fun r hr => Script.gives_readBy hstore hselector (hknown r hr) (h.reads r hr)

/-- The values of all records. -/
theorem gives_selectAll :
    Gives σ (selectAll collection selector) (· = records.map (readBy σ selector)) := by
  have hrecords := h.records_eq
  rw [recordsOf] at hrecords
  rw [selectAll]
  split at hrecords
  · rename_i hnull
    cases hrecords
    rw [if_pos hnull]
    exact gives_pure rfl
  · rename_i hnull
    rw [if_neg hnull]
    refine gives_look fun k => ?_
    rw [Value.items_after, hrecords]
    exact gives_mapM fun r hr => (h.gives_readBy r hr).1

/-- Those that are not null. -/
theorem gives_selectPresent :
    Gives σ (selectPresent collection selector)
      (· = (records.map (readBy σ selector)).filter fun v => !v.isNull) :=
  h.gives_selectAll.bind fun values hvalues => gives_pure (by rw [hvalues])

/-- They are integers. -/
theorem isSome_of_mem_present {v : Value}
    (hv : v ∈ (records.map (readBy σ selector)).filter fun v => !v.isNull) : v.asInt?.isSome := by
  obtain ⟨hmem, hpresent⟩ := List.mem_filter.mp hv
  obtain ⟨r, hr, rfl⟩ := List.mem_map.mp hmem
  rcases (h.gives_readBy r hr).2 with hnull | hint
  · rw [hnull] at hpresent
    cases hpresent
  · exact hint

end ReadsIntegers

/-! ## Counts, sums and extremes -/

/-- Two arguments fit the parameters of an aggregate. -/
theorem gives_call {b : Builtin} {P : Value → Prop} (hcheck : b.signature.check 2 = .ok ())
    (h : Gives σ (b.value env [collection, selector]) P) : Gives σ (b.call env [collection, selector]) P :=
  (gives_ofExcept (P := fun _ => True) hcheck trivial).bind fun _ _ => h

section

variable {present : List Value} (h : Gives σ (selectPresent collection selector) (· = present))

include h

/-- The count is the number of the values. -/
theorem gives_countOf (hselector : selector.isNull = false) :
    Gives σ (countOf collection selector) (· = .int present.length) := by
  rw [countOf, hselector]
  exact h.bind fun values hvalues => gives_pure (by rw [hvalues])

/-- The sum is that of the integers. -/
theorem gives_sum (hpresent : ∀ v ∈ present, v.asInt?.isSome) :
    Gives σ (do Value.sum (← selectPresent collection selector))
      (· = .int (present.filterMap Value.asInt?).sum) := by
  refine h.bind fun values hvalues => ?_
  subst hvalues
  exact fun k => ⟨_, k, Value.sum_integers hpresent, rfl⟩

/-- Where there are no values, there are no extremes. -/
theorem gives_extremeOf_nil {op : OrderOp} (hpresent : present = []) :
    Gives σ (extremeOf op collection selector) (· = .null) := by
  refine h.bind fun values hvalues => ?_
  rw [hvalues, hpresent]
  exact gives_pure rfl

/-- There is no mean either. -/
theorem gives_meanOf_nil (hpresent : present = []) : Gives σ (meanOf collection selector) (· = .null) := by
  refine h.bind fun values hvalues => ?_
  rw [hvalues, hpresent]
  exact gives_pure rfl

/-- Where there are, the extreme is one of them, and none is beyond it. -/
theorem gives_extremeOf {op : OrderOp} (hop : op = .lt ∨ op = .gt) (hpresent : ∀ v ∈ present, v.asInt?.isSome)
    (hne : present ≠ []) :
    ∃ best n, Gives σ (extremeOf op collection selector) (· = best) ∧ best ∈ present ∧ best.asInt? = some n ∧
      ∀ v ∈ present, ∀ m, v.asInt? = some m → op.holds (compare m n) = false := by
  cases present with
  | nil => exact absurd rfl hne
  | cons first rest =>
      obtain ⟨best, n, hbest, hmem, hn, hnone⟩ := Value.extreme_integers hop hpresent
      refine ⟨best, n, h.bind fun values hvalues => ?_, hmem, hn, hnone⟩
      rw [hvalues]
      exact gives_look fun k => gives_ofExcept (hbest _) rfl

end

/-! ## Agreement -/

/-- Where a selector reads integers and nulls from the records of a collection, the count is the number of the
values that are not null.  If there are none, the sum is zero and the extremes and the mean are null; otherwise the
extremes are values, and the sum lies between as many times the one and as many times the other. -/
theorem aggregates_agree (env : Environment) (h : ReadsIntegers σ collection selector records)
    (hselector : selector.isNull = false) :
    let call (b : Builtin) := b.call env [collection, selector]
    ∃ values, GivesList σ (call .values) values ∧
      let count := (values.filter fun v => !v.isNull).length
      Gives σ (call .count) (· = .int count) ∧
      (count = 0 → Gives σ (call .sum) (· = .int 0) ∧ Gives σ (call .min) (· = .null) ∧
        Gives σ (call .max) (· = .null) ∧ Gives σ (call .avg) (· = .null)) ∧
      (count ≠ 0 → ∃ least ∈ values, ∃ greatest ∈ values, ∃ n m total : Int,
        least.asInt? = some n ∧ greatest.asInt? = some m ∧
        Gives σ (call .min) (· = least) ∧ Gives σ (call .max) (· = greatest) ∧
        Gives σ (call .sum) (· = .int total) ∧ count * n ≤ total ∧ total ≤ count * m) := by
  intro call
  -- all of them look at the one list of values that are not null
  have hpresent := h.gives_selectPresent
  have hints := fun v => h.isSome_of_mem_present (v := v)
  refine ⟨records.map (readBy σ selector), ?_, ?_, fun hcount => ?_, fun hcount => ?_⟩
  · exact gives_call rfl (h.gives_selectAll.bind fun values hvalues => hvalues ▸ gives_newList _)
  · exact gives_call rfl (gives_countOf hpresent hselector)
  · have hnil := List.eq_nil_of_length_eq_zero hcount
    refine ⟨gives_call rfl ?_, gives_call rfl (gives_extremeOf_nil hpresent hnil),
      gives_call rfl (gives_extremeOf_nil hpresent hnil), gives_call rfl (gives_meanOf_nil hpresent hnil)⟩
    have hsum := gives_sum hpresent hints
    rw [hnil] at hsum
    exact hsum
  · have hne := List.ne_nil_of_length_pos (Nat.pos_of_ne_zero hcount)
    obtain ⟨least, n, hleast, hmem, hn, hbelow⟩ := gives_extremeOf hpresent (.inl rfl) hints hne
    obtain ⟨greatest, m, hgreatest, hmem', hm, habove⟩ := gives_extremeOf hpresent (.inr rfl) hints hne
    refine ⟨least, List.mem_of_mem_filter hmem, greatest, List.mem_of_mem_filter hmem', n, m, _, hn, hm,
      gives_call rfl hleast, gives_call rfl hgreatest, gives_call rfl (gives_sum hpresent hints), ?_, ?_⟩
    · refine Value.length_mul_le_sum hints fun v hv l hl => ?_
      have hlt := hbelow v hv l hl
      simp only [OrderOp.holds, beq_eq_false_iff_ne, ne_eq, Int.compare_eq_lt] at hlt
      exact Int.not_lt.mp hlt
    · refine Value.sum_le_length_mul hints fun v hv l hl => ?_
      have hgt := habove v hv l hl
      simp only [OrderOp.holds, beq_eq_false_iff_ne, ne_eq, Int.compare_eq_gt] at hgt
      exact Int.not_lt.mp hgt

/-- Scores are integers and null. -/
theorem readsIntegers_scores :
    ReadsIntegers scoreStore (.list ⟨0, none, 0⟩ scoredRecords) (.str "k") scoredRecords where
  gaveOut := by decide
  records_eq := rfl
  reads := integers_scores

/-- Three scores count, and their sum lies between three times the least and three times the greatest. -/
theorem aggregates_agree_scores :
    let call (b : Builtin) := b.call ⟨⟨[]⟩, .null, .null⟩ [.list ⟨0, none, 0⟩ scoredRecords, .str "k"]
    let scores : List Value := [.int (-3), .null, .bool true, .int 5]
    GivesList scoreStore (call .values) scores ∧ Gives scoreStore (call .count) (· = .int 3) ∧
    ∃ least ∈ scores, ∃ greatest ∈ scores, ∃ n m total : Int, least.asInt? = some n ∧ greatest.asInt? = some m ∧
      Gives scoreStore (call .min) (· = least) ∧ Gives scoreStore (call .max) (· = greatest) ∧
      Gives scoreStore (call .sum) (· = .int total) ∧ 3 * n ≤ total ∧ total ≤ 3 * m := by
  intro call scores
  obtain ⟨values, hvalues, hcount, -, hsome⟩ :=
    aggregates_agree ⟨⟨[]⟩, .null, .null⟩ readsIntegers_scores rfl
  -- the values are those that the call gives in the store itself
  have hscores : values = scores := by
    obtain ⟨v, τ, hrun, tag, rfl⟩ := hvalues.ok
    have hrun' : call .values scoreStore = .ok (.list ⟨0, none, 1⟩ scores) (scoreStore.after 1) := by
      with_unfolding_all rfl
    cases hrun'.symm.trans hrun
    rfl
  subst hscores
  exact ⟨hvalues, hcount, hsome (by decide)⟩

end Rubric.Script
