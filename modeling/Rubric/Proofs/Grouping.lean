import Rubric.Grouping
import Rubric.Proofs.Value.Writes

/-!
# Items and contexts are found locally

Finding the items of a dataset and the context of an item goes by the keys of the records and by the
relation only: where reading a key and asking the relation are local, so is all of this.
-/

namespace Rubric

open Eval StateFrame

/-! ## Keys met so far -/

/-- Whether the keys met so far are within a region. -/
structure SeenKeys.Within (region : Region) (seen : SeenKeys) : Prop where
  digested : ∀ entry ∈ seen.digested, entry.2.Within region
  listed : ∀ key ∈ seen.listed, key.Within region

section

variable {σ σ' : Store} {region : Region}

/-- Where no keys were met, all are within every region. -/
theorem SeenKeys.within_empty : SeenKeys.empty.Within region := ⟨by simp [empty], by simp [empty]⟩

/-- Whether a key was met goes by the keys. -/
theorem SeenKeys.insert?_agree (h : σ.Agree region σ') {seen : SeenKeys} (hseen : seen.Within region)
    {key : Value} (hkey : key.Within region) : seen.insert? σ' key = seen.insert? σ key := by
  have hcandidates : ∀ v ∈ (seen.digested.filter fun entry => entry.1 == key.digest σ).map Prod.snd,
      v.Within region := by
    intro v hv
    obtain ⟨entry, hentry, rfl⟩ := List.mem_map.mp hv
    exact hseen.digested entry (List.mem_filter.mp hentry).1
  simp only [insert?, hasDigested, Value.unhashable?_agree h hkey, Value.digest_agree h hkey,
    Value.foundIn_agree h hkey hcandidates, Value.foundIn_agree h hkey hseen.listed]

/-- What a search that found nothing answers. -/
theorem eq_of_unless {α : Type} {found : Except Fault Bool} {a b : α}
    (h : (do if ← found then return none else return some a : Except Fault (Option α))
      = .ok (some b)) : a = b := by
  cases found with
  | error fault => cases h
  | ok found =>
      cases found with
      | true => cases h
      | false =>
          cases h
          rfl

/-- The keys met are within a region after one more key within it. -/
theorem SeenKeys.insert?_within {seen seen' : SeenKeys} (hseen : seen.Within region) {key : Value}
    (hkey : key.Within region) (h : seen.insert? σ key = .ok (some seen')) : seen'.Within region := by
  unfold insert? at h
  split at h
  · rw [← eq_of_unless h]
    exact ⟨List.forall_mem_cons.mpr ⟨hkey, hseen.digested⟩, hseen.listed⟩
  · rw [← eq_of_unless h]
    exact ⟨hseen.digested, List.forall_mem_append.mpr ⟨hseen.listed, by simpa using hkey⟩⟩

end

/-! ## Items and contexts -/

section

variable {F : Scope} {α : Type} {key : α → Eval Value} {relation : α → α → Eval Bool}

/-- Finding out whether a record has a new key is local. -/
theorem local_firstOfKey? {seen : SeenKeys} (hseen : seen.Within F.reads) {record : α}
    (hkey : Eval.Local F (key record) (Value.Within F.reads)) :
    Eval.Local F (firstOfKey? key seen record)
      fun found => ∀ seen' ∈ found, seen'.Within F.reads := by
  refine hkey.bind fun k hk => ?_
  refine local_reads (fun σ σ' hσ => SeenKeys.insert?_agree hσ hseen hk) fun σ found _ hfound => ?_
  rintro seen' hsome
  rw [Option.mem_def] at hsome
  exact SeenKeys.insert?_within hseen hk (hsome ▸ hfound)

/-- Finding the first records of all keys is local. -/
theorem local_distinctFrom {records : List α}
    (hkey : ∀ record ∈ records, Eval.Local F (key record) (Value.Within F.reads)) :
    ∀ {seen : SeenKeys}, seen.Within F.reads →
      Eval.Local F (distinctFrom key seen records) fun _ => True := by
  induction records with
  | nil => exact fun _ => local_pure trivial
  | cons record records ih =>
      intro seen hseen
      obtain ⟨hrecord, hrest⟩ := List.forall_mem_cons.mp hkey
      refine (local_firstOfKey? hseen hrecord).bind fun found hfound => ?_
      cases found with
      | none => exact ih hrest hseen
      | some seen' => exact (ih hrest (hfound seen' rfl)).bind fun _ _ => local_pure trivial

/-- Counting the keys is local. -/
theorem local_countDistinct {records : List α}
    (hkey : ∀ record ∈ records, Eval.Local F (key record) (Value.Within F.reads)) :
    Eval.Local F (countDistinct key records) fun _ => True :=
  (local_distinctFrom hkey SeenKeys.within_empty).bind fun _ _ => local_pure trivial

/-- Finding the context of an item is local. -/
theorem local_contextOf {item : α} {records : List α}
    (h : ∀ record ∈ records, Eval.Local F (relation record item) fun _ => True) :
    Eval.Local F (contextOf relation item records)
      fun context => ∀ record ∈ context, record ∈ records := by
  induction records with
  | nil => exact local_pure (by simp)
  | cons record records ih =>
      obtain ⟨hrecord, hrest⟩ := List.forall_mem_cons.mp h
      refine hrecord.bind fun tied _ => (ih hrest).bind fun others hothers => local_pure ?_
      have hkept : ∀ other ∈ others, other ∈ record :: records := fun other hother =>
        List.mem_cons_of_mem _ (hothers other hother)
      split
      · exact List.forall_mem_cons.mpr ⟨List.mem_cons_self, hkept⟩
      · exact hkept

end

end Rubric
