import Mathlib.Algebra.Order.BigOperators.Group.List
import Mathlib.Algebra.Order.Ring.Int
import Rubric.Proofs.Sequencing
import Rubric.Proofs.Value.Renaming
import Rubric.Value.Arithmetic

/-!
# Values that are integers

What the operators do with values that stand for integers: truth values count as zero and one.  Sums and extremes
of such values are those of the integers.

* `Value.order_of_asInt?`, `Value.compareText_of_asInt?` : comparisons are those of the integers;
* `Value.sum_integers` : so are sums, which lie between as many times the least and the greatest;
* `Value.extreme_integers` : an extreme is one of the values, and none is beyond it.
-/

namespace Rubric

namespace Value

/-- Whether a value is null or stands for an integer. -/
def IsIntegerOrNull (v : Value) : Prop := v.isNull ∨ v.asInt?.isSome

instance (v : Value) : Decidable v.IsIntegerOrNull := inferInstanceAs (Decidable (_ = true ∨ _ = true))

variable {σ : Store} {a b v : Value} {m n : Int}

/-- A value that stands for an integer is that number. -/
theorem number?_of_asInt? (h : v.asInt? = some n) : v.number? = some (.int n) := by
  cases v with
  | int m => exact congrArg (fun n : Option Int => n.map NumberView.int) h
  | bool b => exact congrArg (fun n : Option Int => n.map NumberView.int) h
  | _ => cases h

/-- It has no tags. -/
theorem IsIntegerOrNull.retag (h : v.IsIntegerOrNull) (ρ : Tag → Tag) : v.retag ρ = v := by
  cases v <;> first | rfl | simp [IsIntegerOrNull, isNull, asInt?] at h

/-- It is not null. -/
theorem isNull_of_asInt? (h : v.asInt? = some n) : v.isNull = false := by
  cases v <;> first | rfl | cases h

/-! ## Order -/

/-- The order of integers. -/
theorem order_of_asInt? (op : OrderOp) (ha : a.asInt? = some m) (hb : b.asInt? = some n) :
    order σ op a b = .ok (op.holds (compare m n)) := by
  have hnumbers := number?_of_asInt? ha
  have hnumbers' := number?_of_asInt? hb
  cases a with
  | int _ | bool _ =>
      cases b with
      | int _ | bool _ => simp [order, orderWith, hnumbers, hnumbers', NumberView.compare?]
      | _ => cases hb
  | _ => cases ha

/-- So do the comparisons of scripts. -/
theorem compareText_of_asInt? (op : OrderOp) (ha : a.asInt? = some m) (hb : b.asInt? = some n) :
    compareText σ a op.text b = .ok (op.holds (compare m n)) := by
  have horder := fun op => order_of_asInt? (σ := σ) op ha hb
  rw [compareText, isNull_of_asInt? ha, isNull_of_asInt? hb]
  cases op <;> simp [OrderOp.text, horder]

/-- Null is neither above nor below anything. -/
theorem compareText_null (op : OrderOp) : compareText σ null op.text b = .ok false := by
  cases op <;> simp [compareText, OrderOp.text, isNull]

/-! ## Sums -/

/-- The sum of two integers. -/
theorem add_of_asInt? (ha : a.asInt? = some m) (hb : b.asInt? = some n) : a.add b σ = .ok (.int (m + n)) σ := by
  unfold add
  rw [number?_of_asInt? ha, number?_of_asInt? hb]
  rfl

/-- The sum of integers. -/
theorem sum_integers {values : List Value} (h : ∀ v ∈ values, v.asInt?.isSome) :
    sum values σ = .ok (.int (values.filterMap asInt?).sum) σ := by
  have hfrom : ∀ start : Int, values.foldlM add (.int start) σ
      = .ok (.int (start + (values.filterMap asInt?).sum)) σ := by
    induction values with
    | nil => exact fun start => by rw [List.filterMap_nil, List.sum_nil, Int.add_zero]; rfl
    | cons v values ih =>
        intro start
        obtain ⟨hv, hvalues⟩ := List.forall_mem_cons.mp h
        obtain ⟨n, hn⟩ := Option.isSome_iff_exists.mp hv
        rw [List.foldlM_cons, List.filterMap_cons_some hn, List.sum_cons, ← Int.add_assoc]
        exact (bind_of_ok (add_of_asInt? rfl hn)).trans (ih hvalues (start + n))
  exact (hfrom 0).trans (by rw [Int.zero_add])

/-- As many numbers as there are integers. -/
theorem length_filterMap_asInt? {values : List Value} (h : ∀ v ∈ values, v.asInt?.isSome) :
    (values.filterMap asInt?).length = values.length := by
  induction values with
  | nil => rfl
  | cons v values ih =>
      obtain ⟨hv, hvalues⟩ := List.forall_mem_cons.mp h
      obtain ⟨n, hn⟩ := Option.isSome_iff_exists.mp hv
      rw [List.filterMap_cons_some hn, List.length_cons, List.length_cons, ih hvalues]

/-- The sum of integers is no less than as many times a number that none is below. -/
theorem length_mul_le_sum {values : List Value} (h : ∀ v ∈ values, v.asInt?.isSome)
    (hleast : ∀ v ∈ values, ∀ m, v.asInt? = some m → n ≤ m) :
    values.length * n ≤ (values.filterMap asInt?).sum := by
  have hnumbers : ∀ m ∈ values.filterMap asInt?, n ≤ m := fun m hm => by
    obtain ⟨v, hv, hvm⟩ := List.mem_filterMap.mp hm
    exact hleast v hv m hvm
  have hsum := List.card_nsmul_le_sum _ n hnumbers
  rwa [length_filterMap_asInt? h, Int.nsmul_eq_mul] at hsum

/-- It is no more than as many times a number that none is above. -/
theorem sum_le_length_mul {values : List Value} (h : ∀ v ∈ values, v.asInt?.isSome)
    (hgreatest : ∀ v ∈ values, ∀ m, v.asInt? = some m → m ≤ n) :
    (values.filterMap asInt?).sum ≤ values.length * n := by
  have hnumbers : ∀ m ∈ values.filterMap asInt?, m ≤ n := fun m hm => by
    obtain ⟨v, hv, hvm⟩ := List.mem_filterMap.mp hm
    exact hgreatest v hv m hvm
  have hsum := List.sum_le_card_nsmul _ n hnumbers
  rwa [length_filterMap_asInt? h, Int.nsmul_eq_mul] at hsum

/-! ## Extremes -/

/-- An integer that is below another is not above it. -/
theorem holds_asymm {op : OrderOp} (hop : op = .lt ∨ op = .gt) {m n : Int}
    (h : op.holds (compare m n) = true) : op.holds (compare n m) = false := by
  rcases hop with rfl | rfl <;>
    simp only [OrderOp.holds, beq_iff_eq, beq_eq_false_iff_ne, ne_eq, Int.compare_eq_lt, Int.compare_eq_gt] at *
  all_goals omega

/-- An integer that is not beyond another is not beyond what that is not beyond. -/
theorem holds_false_trans {op : OrderOp} (hop : op = .lt ∨ op = .gt) {l m n : Int}
    (hlm : op.holds (compare l m) = false) (hmn : op.holds (compare m n) = false) :
    op.holds (compare l n) = false := by
  rcases hop with rfl | rfl <;>
    simp only [OrderOp.holds, beq_eq_false_iff_ne, ne_eq, Int.compare_eq_lt, Int.compare_eq_gt] at *
  all_goals omega

/-- An extreme of integers is one of them, and none is beyond it. -/
theorem extreme_integers {op : OrderOp} (hop : op = .lt ∨ op = .gt) {rest : List Value} :
    ∀ {first : Value}, (∀ v ∈ first :: rest, v.asInt?.isSome) →
      ∃ best n, (∀ σ, extreme σ op first rest = .ok best) ∧ best ∈ first :: rest ∧ best.asInt? = some n ∧
        ∀ v ∈ first :: rest, ∀ m, v.asInt? = some m → op.holds (compare m n) = false := by
  induction rest with
  | nil =>
      intro first h
      obtain ⟨n, hn⟩ := Option.isSome_iff_exists.mp (h first (List.mem_singleton_self first))
      refine ⟨first, n, fun _ => rfl, List.mem_singleton_self first, hn, fun v hv m hm => ?_⟩
      cases List.mem_singleton.mp hv
      cases hn.symm.trans hm
      rcases hop with rfl | rfl <;> simp [OrderOp.holds]
  | cons v rest ih =>
      intro first h
      obtain ⟨hfirst, hothers⟩ := List.forall_mem_cons.mp h
      obtain ⟨hv, hrest⟩ := List.forall_mem_cons.mp hothers
      obtain ⟨n, hn⟩ := Option.isSome_iff_exists.mp hfirst
      obtain ⟨m, hm⟩ := Option.isSome_iff_exists.mp hv
      have hstep : ∀ σ, extreme σ op first (v :: rest)
          = extreme σ op (if op.holds (compare m n) then v else first) rest := by
        intro σ
        rw [extreme, List.foldlM_cons, order_of_asInt? op hm hn]
        rfl
      simp only [hstep]
      -- the better of the first two goes on; the other is not beyond it
      cases hbeyond : op.holds (compare m n) with
      | true =>
          obtain ⟨best, l, hbest, hmem, hl, hnone⟩ := ih hothers
          have hv := hnone v List.mem_cons_self m hm
          refine ⟨best, l, hbest, List.mem_cons_of_mem _ hmem, hl, List.forall_mem_cons.mpr ⟨?_, hnone⟩⟩
          intro n' hn'
          cases hn.symm.trans hn'
          exact holds_false_trans hop (holds_asymm hop hbeyond) hv
      | false =>
          obtain ⟨best, l, hbest, hmem, hl, hnone⟩ :=
            ih (List.forall_mem_cons.mpr ⟨hfirst, hrest⟩)
          obtain ⟨hfirst, hnone⟩ := List.forall_mem_cons.mp hnone
          refine ⟨best, l, hbest, List.cons_subset_cons first (List.subset_cons_self v rest) hmem, hl,
            List.forall_mem_cons.mpr ⟨hfirst, List.forall_mem_cons.mpr ⟨?_, hnone⟩⟩⟩
          intro m' hm'
          cases hm.symm.trans hm'
          exact holds_false_trans hop hbeyond (hfirst n hn)

end Value

end Rubric
