import Mathlib.Algebra.Field.Rat
import Rubric.Classification

/-!
# What a classification holds

Records that are added one after the other end up under their labels, and nowhere else.

* `buckets_collect` : the labels stand in order of first use, each with its records in order;
* `bucket_perm`, `counts_perm` : in another order, the same records stand under the labels, and as many;
* `members_collect` : every record stands in one bucket, once;
* `sum_exactShares_eq_iff` : the exact shares in a total add up to a hundred where the total is that of the
  buckets, and nowhere else.
-/

namespace Rubric

/-! ## Labels in order of first use -/

section

variable {α : Type} [BEq α] [LawfulBEq α]

/-- No member is left twice. -/
theorem nodup_eraseDups (l : List α) : l.eraseDups.Nodup := by
  induction hlength : l.length using Nat.strongRecOn generalizing l with
  | ind n ih =>
      cases l with
      | nil => exact List.nodup_nil
      | cons a l =>
          have hshorter : (l.filter fun b => !b == a).length < n := by
            rw [← hlength, List.length_cons]
            exact Nat.lt_succ_of_le (List.length_filter_le _ l)
          have hrest := ih _ hshorter (l.filter fun b => !b == a) rfl
          rw [List.eraseDups_cons, List.nodup_cons]
          exact ⟨by simp [List.mem_eraseDups], hrest⟩

/-- A further member is kept where it is the first of its kind. -/
theorem eraseDups_append_singleton (l : List α) (a : α) :
    (l ++ [a]).eraseDups = if a ∈ l then l.eraseDups else l.eraseDups ++ [a] := by
  rw [List.eraseDups_append]
  by_cases h : a ∈ l
  · simp [List.removeAll, h]
  · simp [List.removeAll, h, List.eraseDups_cons]

end

namespace Classification

variable {α : Type}

/-! ## Buckets -/

/-- The classification of records with their labels, one added after the other. -/
def collect (tallies : List (String × α)) : Classification α :=
  tallies.foldl (fun c t => c.add t.1 t.2) .empty

/-- The labels in order of first use, each with its records in order. -/
def grouped (tallies : List (String × α)) : List (String × List α) :=
  (tallies.map Prod.fst).eraseDups.map fun label =>
    (label, (tallies.filter fun t => t.1 == label).map Prod.snd)

/-- A record under a label in use comes last in its bucket. -/
theorem addTo_map_of_mem {labels : List String} {label : String} (records : String → List α)
    (record : α) (hnodup : labels.Nodup) (hlabel : label ∈ labels) :
    addTo label record (labels.map fun l => (l, records l))
      = labels.map fun l => (l, if l = label then records l ++ [record] else records l) := by
  induction labels with
  | nil => simp at hlabel
  | cons l labels ih =>
      obtain ⟨hl, hnodup⟩ := List.nodup_cons.mp hnodup
      simp only [List.map_cons, addTo]
      by_cases heq : l = label
      · subst heq
        simp only [if_true, List.cons.injEq, true_and]
        apply List.map_congr_left
        intro l' hl'
        have hne : l' ≠ l := by
          rintro rfl
          exact hl hl'
        rw [if_neg hne]
      · have hmem : label ∈ labels := by
          rcases List.mem_cons.mp hlabel with h | h
          · exact absurd h.symm heq
          · exact h
        rw [if_neg heq, if_neg heq, ih hnodup hmem]

/-- A record under a new label comes in a new bucket, the last. -/
theorem addTo_map_of_notMem {labels : List String} {label : String} (records : String → List α)
    (record : α) (hlabel : label ∉ labels) :
    addTo label record (labels.map fun l => (l, records l))
      = (labels.map fun l => (l, records l)) ++ [(label, [record])] := by
  induction labels with
  | nil => rfl
  | cons l labels ih =>
      rw [List.mem_cons, not_or] at hlabel
      have hne : l ≠ label := fun h => hlabel.1 h.symm
      simp only [List.map_cons, addTo, List.cons_append]
      rw [if_neg hne, ih hlabel.2]

/-- Adding a record keeps the buckets grouped. -/
theorem addTo_grouped (tallies : List (String × α)) (label : String) (record : α) :
    addTo label record (grouped tallies) = grouped (tallies ++ [(label, record)]) := by
  have hfilter : ∀ l, ((tallies ++ [(label, record)]).filter fun t => t.1 == l).map Prod.snd
      = if l = label then (tallies.filter fun t => t.1 == l).map Prod.snd ++ [record]
        else (tallies.filter fun t => t.1 == l).map Prod.snd := by
    intro l
    by_cases h : l = label
    · simp [h]
    · have h' : ¬ label = l := fun heq => h heq.symm
      simp [h, h']
  unfold grouped
  rw [List.map_append, List.map_singleton, eraseDups_append_singleton]
  simp only [hfilter]
  -- a label that is in use keeps its place, a new one comes last
  by_cases hmem : label ∈ tallies.map Prod.fst
  · rw [if_pos hmem, addTo_map_of_mem _ _ (nodup_eraseDups _) (List.mem_eraseDups.mpr hmem)]
  · have hnew : label ∉ (tallies.map Prod.fst).eraseDups := fun h => hmem (List.mem_eraseDups.mp h)
    have hnone : (tallies.filter fun t => t.1 == label) = [] := by
      rw [List.filter_eq_nil_iff]
      intro t ht hlabel
      exact hmem (List.mem_map.mpr ⟨t, ht, eq_of_beq hlabel⟩)
    rw [if_neg hmem, addTo_map_of_notMem _ _ hnew, List.map_append, List.map_singleton, if_pos rfl,
      hnone]
    congr 1
    apply List.map_congr_left
    intro l hl
    have hne : l ≠ label := by
      rintro rfl
      exact hnew hl
    rw [if_neg hne]

/-- The buckets of collected records: the labels in order of first use, each with its records. -/
theorem buckets_collect (tallies : List (String × α)) :
    (collect tallies).buckets = grouped tallies := by
  have hfold : ∀ done : List (String × α),
      (tallies.foldl (fun c t => c.add t.1 t.2) (⟨grouped done⟩ : Classification α)).buckets
        = grouped (done ++ tallies) := by
    induction tallies with
    | nil => simp
    | cons t tallies ih =>
        intro done
        rw [List.foldl_cons, add, addTo_grouped, ih, List.append_assoc, List.singleton_append]
  exact hfold []

/-! ## Other orders -/

/-- What a label stands for, among labels with their records. -/
theorem lookup_map_labels (labels : List String) (records : String → List α) (label : String) :
    (labels.map fun l => (l, records l)).lookup label
      = if label ∈ labels then some (records label) else none := by
  induction labels with
  | nil => rfl
  | cons l labels ih =>
      rw [List.map_cons, List.lookup_cons, ih]
      by_cases h : label = l
      · subst h
        simp
      · have hne : (label == l) = false := beq_eq_false_iff_ne.mpr h
        simp [h, hne]

/-- The records under a label are those that were added with it, in order. -/
theorem bucket_collect (tallies : List (String × α)) (label : String) :
    (collect tallies).bucket label = (tallies.filter fun t => t.1 == label).map Prod.snd := by
  rw [bucket, buckets_collect, grouped,
    lookup_map_labels _ fun l => (tallies.filter fun t => t.1 == l).map Prod.snd]
  split
  · rfl
  · rename_i hnew
    have hnone : (tallies.filter fun t => t.1 == label) = [] := by
      refine List.filter_eq_nil_iff.mpr fun t ht hlabel => hnew ?_
      exact List.mem_eraseDups.mpr (List.mem_map.mpr ⟨t, ht, eq_of_beq hlabel⟩)
    rw [hnone]
    rfl

/-- Records that are added in another order stand under the same labels. -/
theorem bucket_perm {tallies tallies' : List (String × α)} (h : tallies'.Perm tallies) (label : String) :
    ((collect tallies').bucket label).Perm ((collect tallies).bucket label) := by
  rw [bucket_collect, bucket_collect]
  exact (h.filter _).map Prod.snd

/-- The labels have as many. -/
theorem counts_perm {tallies tallies' : List (String × α)} (h : tallies'.Perm tallies) :
    (collect tallies').counts.Perm (collect tallies).counts := by
  have hcounts : ∀ tallies : List (String × α), (collect tallies).counts
      = (tallies.map Prod.fst).eraseDups.map fun l => (l, (tallies.filter fun t => t.1 == l).length) := by
    intro tallies
    simp [counts, buckets_collect, grouped, List.map_map, Function.comp_def]
  have hlabels : (tallies'.map Prod.fst).eraseDups.Perm (tallies.map Prod.fst).eraseDups := by
    refine (List.perm_ext_iff_of_nodup (nodup_eraseDups _) (nodup_eraseDups _)).mpr fun l => ?_
    rw [List.mem_eraseDups, List.mem_eraseDups, (h.map Prod.fst).mem_iff]
  rw [hcounts, hcounts]
  simp only [(h.filter _).length_eq]
  exact hlabels.map _

/-! ## Totals -/

/-- The records of all buckets. -/
def members (c : Classification α) : List α := c.buckets.flatMap Prod.snd

/-- A further record stands in one bucket, once. -/
theorem members_add (c : Classification α) (label : String) (record : α) :
    (c.add label record).members.Perm (c.members ++ [record]) := by
  obtain ⟨buckets⟩ := c
  simp only [add, members]
  induction buckets with
  | nil => simp [addTo]
  | cons b rest ih =>
      obtain ⟨l, rs⟩ := b
      simp only [addTo]
      split
      · simp only [List.flatMap_cons, List.append_assoc]
        exact List.Perm.append_left rs List.perm_append_comm
      · simp only [List.flatMap_cons, List.append_assoc]
        exact List.Perm.append_left rs ih

/-- Every collected record stands in one bucket, once. -/
theorem members_collect (tallies : List (String × α)) :
    (collect tallies).members.Perm (tallies.map Prod.snd) := by
  have hfold : ∀ c : Classification α,
      (tallies.foldl (fun c t => c.add t.1 t.2) c).members.Perm
        (c.members ++ tallies.map Prod.snd) := by
    induction tallies with
    | nil => simp
    | cons t tallies ih =>
        intro c
        rw [List.foldl_cons, List.map_cons]
        refine (ih _).trans ?_
        refine (List.Perm.append_right _ (members_add c t.1 t.2)).trans ?_
        rw [List.append_assoc, List.singleton_append]
  exact hfold .empty

/-- The total counts the records of all buckets. -/
theorem total_eq_length (c : Classification α) : c.total = c.members.length := by
  obtain ⟨buckets⟩ := c
  simp only [total, counts, members]
  induction buckets with
  | nil => rfl
  | cons b rest ih => simp [ih]

/-- The total of collected records is their number. -/
theorem total_collect (tallies : List (String × α)) : (collect tallies).total = tallies.length := by
  rw [total_eq_length, (members_collect tallies).length_eq, List.length_map]

/-! ## Shares -/

/-- The exact shares of the buckets in a total, in percent. -/
def exactShares (c : Classification α) (total : Nat) : List Rat :=
  c.counts.map fun count => (count.2 : Rat) * 100 / total

/-- The exact shares add up to that of all records. -/
theorem sum_exactShares (c : Classification α) (total : Nat) :
    (c.exactShares total).sum = (c.total : Rat) * 100 / total := by
  obtain ⟨buckets⟩ := c
  simp only [exactShares, Classification.total, counts]
  induction buckets with
  | nil => simp [Rat.div_def]
  | cons b rest ih =>
      simp only [List.map_cons, List.sum_cons, List.foldr_cons, Rat.natCast_add]
      rw [ih]
      simp only [Rat.div_def]
      rw [← Rat.add_mul, ← Rat.add_mul]

/-- The exact shares add up to a hundred where the total is that of the buckets, and nowhere else. -/
theorem sum_exactShares_eq_iff (c : Classification α) {total : Nat} (htotal : total ≠ 0) :
    (c.exactShares total).sum = 100 ↔ c.total = total := by
  have hne : (total : Rat) ≠ 0 := fun h => htotal (Rat.natCast_eq_zero_iff.mp h)
  rw [sum_exactShares]
  constructor
  · intro h
    have hscaled : ((c.total * 100 : Nat) : Rat) = ((total * 100 : Nat) : Rat) := by
      have hcancel : (c.total : Rat) * 100 / total * total = (c.total : Rat) * 100 :=
        Rat.div_mul_cancel hne
      rw [Rat.natCast_mul, Rat.natCast_mul, Rat.natCast_ofNat, ← hcancel, h, Rat.mul_comm]
    have hscaled' := Rat.natCast_inj.mp hscaled
    omega
  · intro h
    rw [h, Rat.mul_comm]
    exact Rat.mul_div_cancel hne

end Classification

end Rubric
