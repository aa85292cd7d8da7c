import Rubric.Proofs.Distinct

/-!
# Contexts of records with one key

Keys that are data and not "no number" are equal exactly where they are found in each other's place.  So
the contexts of having equal keys, which are found by comparing every record with every item, are the
classes that the items are the first records of, and there are as many as there are keys.

* `IsPartition` : contexts that share out the positions of a list;
* `contextOf_of_data` : the context of an item is its class;
* `contexts_partition` : contexts of equal keys are a partition.
-/

namespace Rubric

open Value

/-! ## Classes of positions -/

/-- Whether contexts, given by the positions of their items and of their records, share out all positions,
in order, the first of every context being its item. -/
structure IsPartition {n : Nat} (classes : List (Fin n × List (Fin n))) : Prop where
  covered : ∀ i, ∃ c ∈ classes, i ∈ c.2
  disjoint : classes.Pairwise fun c d => ∀ i ∈ c.2, i ∉ d.2
  ascending : ∀ c ∈ classes, c.2.Pairwise (· < ·)
  item_first : ∀ c ∈ classes, c.2.head? = some c.1
  items_ascending : (classes.map Prod.fst).Pairwise (· < ·)

section

variable {n : Nat} {F : Type}

/-- The least position of an ascending list is its first. -/
theorem head?_of_least {as : List (Fin n)} (h : as.Pairwise (· < ·)) {i : Fin n} (hi : i ∈ as)
    (hleast : ∀ j ∈ as, ¬ j < i) : as.head? = some i := by
  cases as with
  | nil => cases hi
  | cons a as =>
      rcases List.mem_cons.mp hi with rfl | hi
      · rfl
      · exact absurd ((List.pairwise_cons.mp h).1 i hi) (hleast a List.mem_cons_self)

open Classical in
/-- A position, with all positions of its form. -/
noncomputable def classAt (form : Fin n → F) (i : Fin n) : Fin n × List (Fin n) :=
  (i, (List.finRange n).filter fun j => form j = form i)

/-- The classes of the positions whose form comes first. -/
noncomputable def classesBy (form : Fin n → F) : List (Fin n × List (Fin n)) :=
  (firstPositions form).map (classAt form)

/-- In the class of a position are those with its form. -/
theorem mem_classAt {form : Fin n → F} {i j : Fin n} : j ∈ (classAt form i).2 ↔ form j = form i := by
  simp [classAt]

/-- A class is in order. -/
theorem ascending_classAt (form : Fin n → F) (i : Fin n) : (classAt form i).2.Pairwise (· < ·) :=
  (List.pairwise_lt_finRange n).filter _

/-- The classes are a partition. -/
theorem isPartition_classesBy (form : Fin n → F) : IsPartition (classesBy form) where
  covered i := by
    obtain ⟨j, hj, hform⟩ := exists_firstPosition form i
    exact ⟨classAt form j, List.mem_map_of_mem hj, mem_classAt.mpr hform.symm⟩
  disjoint := by
    refine List.pairwise_map.mpr ((ascending_firstPositions form).imp_of_mem ?_)
    intro i j _ hj hlt k hki hkj
    exact mem_firstPositions.mp hj i hlt ((mem_classAt.mp hki).symm.trans (mem_classAt.mp hkj))
  ascending := List.forall_mem_map.mpr fun i _ => ascending_classAt form i
  item_first := by
    refine List.forall_mem_map.mpr fun i hi => ?_
    exact head?_of_least (ascending_classAt form i) (mem_classAt.mpr rfl) fun j hj hlt =>
      mem_firstPositions.mp hi j hlt (mem_classAt.mp hj)
  items_ascending := by
    rw [classesBy, List.map_map]
    exact List.pairwise_map.mpr (ascending_firstPositions form)

open Classical in
/-- The classes of what is at the positions. -/
theorem map_classesBy {α : Type} (record : Fin n → α) (form : α → F) :
    (classesBy fun i => form (record i)).map (fun c => (record c.1, c.2.map record))
      = (firsts [] (((List.finRange n).map record).map form) ((List.finRange n).map record)).map
        fun item => (item, ((List.finRange n).map record).filter fun r => form r = form item) := by
  rw [firsts_map, List.map_map, List.map_map, classesBy, firstPositions, List.map_map]
  refine List.map_congr_left fun i _ => ?_
  simp only [Function.comp_apply, classAt, List.filter_map]
  rfl

end

/-! ## The contexts of equal keys -/

section

variable {α : Type} {key : α → Eval Value} {data : α → DataForm}

/-- Whether a value has a form and equals what it is found in the place of. -/
def Comparable (σ : Store) (v : Value) (form : DataForm) : Prop :=
  (∀ tag, v ≠ .nan tag) ∧ v.HasForm σ form

open Classical in
/-- Keys are equal where their data are the same. -/
theorem sameKey_of_data {σ : Store} {r item : α}
    (hkeys : KeyedAs σ key [r, item] fun r υ k => Comparable υ k (data r)) :
    ∃ τ, sameKey key r item σ = .ok (data r = data item) τ ∧ σ.GrownTo τ := by
  obtain ⟨k, τ, hk, hτ, hnumber, hform⟩ := hkeys r (by simp) σ (.refl σ)
  obtain ⟨k', υ, hk', hυ, -, hform'⟩ := hkeys item (by simp) τ hτ
  obtain ⟨answer, hanswer, hiff⟩ := (hform.grown hυ).found hform'
  obtain rfl : answer = decide (data r = data item) := Bool.eq_iff_iff.mpr (by simpa using hiff)
  refine ⟨υ, ?_, hτ.trans hυ⟩
  rw [sameKey, bind_of_ok hk, bind_of_ok hk', bind_of_ok (get_ok υ), equal_eq_found hnumber, hanswer]
  rfl

open Classical in
/-- The context of an item is its class. -/
theorem contextOf_of_data {item : α} {records : List α} :
    ∀ {σ : Store}, KeyedAs σ key (item :: records) (fun r υ k => Comparable υ k (data r)) →
      ∃ τ, contextOf (sameKey key) item records σ
        = .ok (records.filter fun r => data r = data item) τ ∧ σ.GrownTo τ := by
  induction records with
  | nil => exact fun _ => ⟨_, rfl, .refl _⟩
  | cons r records ih =>
      intro σ hkeys
      have hpair : KeyedAs σ key [r, item] fun r υ k => Comparable υ k (data r) :=
        hkeys.later (by simp) (.refl σ)
      obtain ⟨τ, htied, hτ⟩ := sameKey_of_data hpair
      obtain ⟨υ, hothers, hυ⟩ := ih (hkeys.later (by simp +contextual) hτ)
      refine ⟨υ, contextOf_cons_ok.mpr ⟨_, τ, _, htied, hothers, ?_⟩, hτ.trans hυ⟩
      rw [List.filter_cons]

open Classical in
/-- The contexts of the records whose key is new. -/
theorem contextsFrom_of_data {all rest : List α} (hrest : ∀ r ∈ rest, r ∈ all) :
    ∀ {σ : Store} {seen : SeenKeys} {met : List DataForm}, seen.StandFor σ met →
      KeyedAs σ key all (fun r υ k => Comparable υ k (data r)) →
      ∃ τ, contextsFrom key (sameKey key) all seen rest σ
        = .ok ((firsts met (rest.map data) rest).map fun item =>
          (item, all.filter fun r => data r = data item)) τ := by
  induction rest with
  | nil => exact fun _ _ => ⟨_, rfl⟩
  | cons r rest ih =>
      intro σ seen met hseen hkeys
      obtain ⟨hr, hrest⟩ := List.forall_mem_cons.mp hrest
      obtain ⟨k, τ, hkey, hτ, -, hform⟩ := hkeys r hr σ (.refl σ)
      obtain ⟨found, hfirst, hmet, hnew⟩ := firstOfKey?_of_form hseen hkey hτ hform
      rw [contextsFrom, bind_of_ok hfirst, List.map_cons, firsts]
      by_cases hmem : data r ∈ met
      · rw [hmet hmem, if_pos hmem]
        exact ih hrest (hseen.grown hτ) (hkeys.later (fun _ => id) hτ)
      · obtain ⟨seen', rfl, hseen'⟩ := hnew hmem
        obtain ⟨υ, hcontext, hυ⟩ :=
          contextOf_of_data (hkeys.later (List.forall_mem_cons.mpr ⟨hr, fun _ => id⟩) hτ)
        obtain ⟨τ', hothers⟩ := ih hrest (hseen'.grown hυ) (hkeys.later (fun _ => id) (hτ.trans hυ))
        refine ⟨τ', ?_⟩
        rw [if_neg hmem]
        show (contextOf (sameKey key) r all >>= _) τ = _
        rw [bind_of_ok hcontext]
        show (contextsFrom key (sameKey key) all seen' rest >>= _) υ = _
        rw [bind_of_ok hothers]
        rfl

end

section

variable {α : Type} {key : α → Eval Value} {data : α → DataForm} {records : List α} {σ : Store}

/-- The contexts of having equal keys share out the records: every record is in one context, in order,
each item is the first record of its context, the items come in the order of the records, and there are
as many contexts as keys.  The keys are built from ordinary values, and are the same data every time
they are asked for. -/
theorem contexts_partition
    (hkeys : KeyedAs σ key records fun r υ k =>
      k.BuiltFrom υ IsOrdinary (fun _ => True) ∧ k.HasForm υ (data r)) :
    ∃ (classes : List (Fin records.length × List (Fin records.length))) (τ : Store),
      contexts key (sameKey key) records σ
          = .ok (classes.map fun c => (records.get c.1, c.2.map records.get)) τ ∧
        IsPartition classes ∧
        (∀ c ∈ classes, ∀ i, i ∈ c.2 ↔ data (records.get i) = data (records.get c.1)) ∧
        ∀ υ, σ.GrownTo υ → ∃ υ', countDistinct key records υ = .ok classes.length υ' := by
  have hkeys : KeyedAs σ key records fun r υ k => Comparable υ k (data r) :=
    hkeys.imp fun _ _ _ _ hk => ⟨hk.1.ne_nan, hk.2⟩
  have hclasses := map_classesBy records.get data
  rw [List.map_get_finRange] at hclasses
  obtain ⟨τ, hcontexts⟩ := contextsFrom_of_data (fun _ => id) (SeenKeys.standFor_empty σ) hkeys
  refine ⟨classesBy fun i => data (records.get i), τ, ?_, isPartition_classesBy _, ?_, ?_⟩
  · rw [contexts, hcontexts, hclasses]
  · exact List.forall_mem_map.mpr fun i _ j => mem_classAt
  · intro υ hυ
    have hdata : KeyedAs υ key records fun r υ k => ∃ form, form = data r ∧ k.HasForm υ form :=
      (hkeys.later (fun _ => id) hυ).imp fun _ _ _ _ hk => by simpa using hk.2
    obtain ⟨-, forms, υ', -, -, -, hforms, hkept⟩ :=
      distinctFrom_of_forms (SeenKeys.standFor_empty υ) hdata
    have hsame : List.Forall₂ (fun r form => form = data r) records (records.map data) :=
      List.forall₂_map_right_iff.mpr (List.forall₂_same.mpr fun _ _ => rfl)
    obtain rfl : forms = records.map data :=
      List.right_unique_forall₂' (fun _ _ _ h h' => h.trans h'.symm) hforms hsame
    refine ⟨υ', ?_⟩
    rw [countDistinct, distinctItems, bind_of_ok hkept]
    have hlength := congrArg List.length hclasses
    rw [List.length_map, List.length_map] at hlength
    rw [hlength]
    rfl

/-- Of some keys, `1` and `True` have one context, and so have two mappings with the same entries. -/
theorem contexts_partition_mixed : ∃ (data : Value → DataForm)
    (classes : List (Fin mixedKeys.length × List (Fin mixedKeys.length))) (τ : Store),
    contexts pure (sameKey pure) mixedKeys mirroredStore
        = .ok (classes.map fun c => (mixedKeys.get c.1, c.2.map mixedKeys.get)) τ ∧
      IsPartition classes ∧
      (∀ c ∈ classes, ∀ i, i ∈ c.2 ↔ data (mixedKeys.get i) = data (mixedKeys.get c.1)) ∧
      ∀ υ, mirroredStore.GrownTo υ → ∃ υ', countDistinct pure mixedKeys υ = .ok classes.length υ' := by
  have hforms : ∀ v, ∃ form, v ∈ mixedKeys → v.HasForm mirroredStore form := by
    intro v
    by_cases hv : v ∈ mixedKeys
    · obtain ⟨form, hform⟩ := (builtFrom_mixed v hv).exists_form fun _ => IsOrdinary.isScalar
      exact ⟨form, fun _ => hform⟩
    · exact ⟨.list [], fun h => absurd h hv⟩
  choose data hdata using hforms
  refine ⟨data, contexts_partition fun v hv τ hτ => ⟨v, τ, rfl, .refl τ, ?_, (hdata v hv).grown hτ⟩⟩
  exact (builtFrom_mixed v hv).grown (fun _ => IsOrdinary.isScalar) hτ

end

end Rubric
