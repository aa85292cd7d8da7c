import Rubric.Proofs.Value.Quiet

/-!
# Computations that commute

Two computations neither of which looks at what the other writes can be done in either order: they give
the same answers, and leave the same store.

* `Eval.Touches` : what a computation looks at, what it writes, and that it takes no tags for good;
* `Eval.Touches.commute` : two such computations in the other order;
* `mapM_swap` : two neighbours of many computations in the other order.
-/

namespace Rubric

open Value (Place)

/-! ## What a computation touches -/

/-- The scope of a region that may be read and written everywhere. -/
def Scope.free (reads : Region) : Scope where
  reads := reads
  mayWrite _ _ := True
  rewrites _ _ := True
  setters_may _ _ _ _ := trivial
  refl _ := trivial
  trans _ _ := trivial
  withTag _ _ := trivial
  setEntries _ _ _ _ _ _ _ := trivial
  setAttributes _ _ _ _ _ _ _ _ := trivial

/-- Whether a computation looks at a region only, writes no more than some attributes, and ends with the
next tag that it began with. -/
structure Eval.Touches {α : Type} (action : Eval α) (region : Region) (writes : Place → List String) :
    Prop where
  reads : Eval.Local (.free region) action fun _ => True
  rewrites : Leaves (Store.Rewrites writes) action
  tags : ∀ {σ a τ}, action σ = .ok a τ → τ.nextTag = σ.nextTag

namespace Store

variable {writes : Place → List String} {region : Region} {σ τ : Store}

/-- A store is known by its sizes, its contents and its counters. -/
theorem eq_of_contents (hmappings : τ.mappings.size = σ.mappings.size)
    (hobjects : τ.objects.size = σ.objects.size) (hentries : ∀ a, τ.entries a = σ.entries a)
    (hobject : ∀ a, τ.object a = σ.object a) (hruns : τ.runs = σ.runs)
    (htag : τ.nextTag = σ.nextTag) : τ = σ := by
  have hm : τ.mappings = σ.mappings := by
    refine Array.ext hmappings fun a ha ha' => ?_
    have h := hentries a
    rwa [entries, entries, Array.getD, Array.getD, dif_pos ha, dif_pos ha'] at h
  have ho : τ.objects = σ.objects := by
    refine Array.ext hobjects fun a ha ha' => ?_
    have h := hobject a
    rwa [object, object, Array.getD, Array.getD, dif_pos ha, dif_pos ha'] at h
  cases σ
  cases τ
  simp_all

/-- Stores agree on a closed region in which nothing was written. -/
theorem Rewrites.agree (h : σ.Rewrites writes τ) (htag : τ.nextTag = σ.nextTag)
    (hclosed : σ.Closed region) (hnone : ∀ p ∈ region, writes p = []) : σ.Agree region τ where
  mappings_size := h.mappings_size
  objects_size := h.objects_size
  entries_eq _ ha := h.entries_kept (hnone _ ha)
  object_eq _ ha := h.object_kept (hnone _ ha)
  nextTag_eq := htag
  closed := hclosed

/-- Writing nothing, or what may be written elsewhere too, at every place. -/
theorem Rewrites.mono {writes' : Place → List String} (h : σ.Rewrites writes τ)
    (hwrites : ∀ p, writes p = [] ∨ writes p = writes' p) : σ.Rewrites writes' τ where
  mappings_size := h.mappings_size
  objects_size := h.objects_size
  runs_eq := h.runs_eq
  entries_eq a := by
    rcases hwrites (.mapping a) with hnone | hsame
    · rw [h.entries_kept hnone]
    · exact hsame ▸ h.entries_eq a
  type_eq := h.type_eq
  attributes_eq a := by
    rcases hwrites (.object a) with hnone | hsame
    · rw [h.object_kept hnone]
    · exact hsame ▸ h.attributes_eq a
  frozen_eq := h.frozen_eq

end Store

/-! ## Two computations -/

namespace Eval.Touches

variable {α β : Type} {first : Eval α} {second : Eval β} {region region' : Region}
  {writes writes' : Place → List String} {σ τ υ : Store} {a : α} {b : β}

/-- What a computation that succeeds leaves differs by its writes. -/
theorem rewritten (h : first.Touches region writes) (hok : first σ = .ok a τ) :
    σ.Rewrites writes τ := by
  have hleft := h.rewrites σ
  rwa [hok] at hleft

/-- A computation that succeeds keeps its region closed. -/
theorem closed (h : first.Touches region writes) (hclosed : σ.Closed region)
    (hok : first σ = .ok a τ) : τ.Closed region := by
  obtain ⟨-, -, _, -, hsees, -⟩ := h.reads.ok (Store.Agree.refl hclosed) hok
  exact hsees.closed

/-- It keeps a region closed in which it writes nothing. -/
theorem closed_elsewhere (h : first.Touches region writes) (hclosed : σ.Closed region')
    (hnone : ∀ p ∈ region', writes p = []) (hok : first σ = .ok a τ) : τ.Closed region' :=
  ((h.rewritten hok).agree (h.tags hok) hclosed hnone).closed_right

/-- Two computations of which neither looks at what the other writes give the same answers and leave the
same store in either order. -/
theorem commute (hfirst : first.Touches region writes) (hsecond : second.Touches region' writes')
    (hwrites : ∀ p, writes p ≠ [] → p ∈ region ∧ p ∉ region')
    (hwrites' : ∀ p, writes' p ≠ [] → p ∈ region' ∧ p ∉ region)
    (hclosed : σ.Closed region) (hclosed' : σ.Closed region')
    (hok : first σ = .ok a τ) (hok' : second τ = .ok b υ) :
    ∃ τ', second σ = .ok b τ' ∧ first τ' = .ok a υ := by
  have hnone : ∀ p ∈ region', writes p = [] := fun p hp => by
    by_contra hne
    exact (hwrites p hne).2 hp
  have hnone' : ∀ p ∈ region, writes' p = [] := fun p hp => by
    by_contra hne
    exact (hwrites' p hne).2 hp
  have hστ := hfirst.rewritten hok
  have hτυ := hsecond.rewritten hok'
  -- the second computation does not see what the first one wrote
  obtain ⟨-, -, τ', hok₂, hsees₂, -⟩ := hsecond.reads.ok
    (hστ.agree (hfirst.tags hok) hclosed' hnone).symm hok'
  have hστ' := hsecond.rewritten hok₂
  -- nor does the first one see what the second one wrote
  obtain ⟨-, -, υ', hok₁, hsees₁, -⟩ := hfirst.reads.ok
    (hστ'.agree (hsecond.tags hok₂) hclosed hnone') hok
  have hτυ' := hfirst.rewritten hok₁
  -- each place holds what the one that writes it left
  have hplace : ∀ {γ : Type} (read : Store → γ) (p : Place),
      (∀ {σ τ : Store} {writes}, σ.Rewrites writes τ → writes p = [] → read τ = read σ) →
      (∀ {σ τ : Store} {region}, σ.Agree region τ → p ∈ region → read τ = read σ) →
      read υ' = read υ := by
    intro γ read p hkept hseen
    by_cases hp : writes p = []
    · by_cases hp' : writes' p = []
      · calc read υ' = read τ' := hkept hτυ' hp
          _ = read σ := hkept hστ' hp'
          _ = read τ := (hkept hστ hp).symm
          _ = read υ := (hkept hτυ hp').symm
      · calc read υ' = read τ' := hkept hτυ' hp
          _ = read υ := hseen hsees₂ (hwrites' p hp').1
    · calc read υ' = read τ := hseen hsees₁ (hwrites p hp).1
        _ = read υ := (hkept hτυ (hnone' p (hwrites p hp).1)).symm
  have hυ : υ' = υ := by
    refine Store.eq_of_contents ?_ ?_ (fun a => hplace (·.entries a) (.mapping a)
      (fun h hp => h.entries_kept hp) fun h hp => h.entries_eq a hp) (fun a => hplace (·.object a)
      (.object a) (fun h hp => h.object_kept hp) fun h hp => h.object_eq a hp) ?_ ?_
    · rw [hτυ'.mappings_size, hστ'.mappings_size, hτυ.mappings_size, hστ.mappings_size]
    · rw [hτυ'.objects_size, hστ'.objects_size, hτυ.objects_size, hστ.objects_size]
    · rw [hτυ'.runs_eq, hστ'.runs_eq, hτυ.runs_eq, hστ.runs_eq]
    · rw [hfirst.tags hok₁, hsecond.tags hok₂, hsecond.tags hok', hfirst.tags hok]
  exact ⟨τ', hok₂, hυ ▸ hok₁⟩

end Eval.Touches

/-! ## Many computations -/

section

variable {ε S ι α : Type} {v : ι → EStateM ε S α} {I : S → Prop}

/-- Many computations succeed where the first does and then the others. -/
theorem mapM_cons_ok {i : ι} {rest : List ι} {s t : S} {as : List α} :
    (i :: rest).mapM v s = .ok as t ↔
      ∃ a u as', v i s = .ok a u ∧ rest.mapM v u = .ok as' t ∧ as = a :: as' := by
  rw [List.mapM_cons, bind_ok]
  simp only [bind_ok]
  constructor
  · rintro ⟨a, u, hv, as', t', hrest, hpure⟩
    cases hpure
    exact ⟨a, u, as', hv, hrest, rfl⟩
  · rintro ⟨a, u, as', hv, hrest, rfl⟩
    exact ⟨a, u, hv, as', t, hrest, rfl⟩

/-- Two neighbours among many computations can be done in the other order, where they can on their own
in every state that can be met. -/
theorem mapM_swap {before after : List ι} {i j : ι}
    (hkeeps : ∀ k ∈ before, ∀ {s a t}, I s → v k s = .ok a t → I t)
    (hswap : ∀ {s a t b u}, I s → v i s = .ok a t → v j t = .ok b u →
      ∃ t', v j s = .ok b t' ∧ v i t' = .ok a u) :
    ∀ {s t as}, I s → (before ++ i :: j :: after).mapM v s = .ok as t →
      ∃ as', (before ++ j :: i :: after).mapM v s = .ok as' t ∧ as'.Perm as := by
  induction before with
  | nil =>
      intro s t as hs hok
      obtain ⟨a, u, as', hi, hok', rfl⟩ := mapM_cons_ok.mp hok
      obtain ⟨b, w, rest, hj, hrest, rfl⟩ := mapM_cons_ok.mp hok'
      obtain ⟨u', hj', hi'⟩ := hswap hs hi hj
      exact ⟨b :: a :: rest, mapM_cons_ok.mpr ⟨b, u', _, hj', mapM_cons_ok.mpr
        ⟨a, w, _, hi', hrest, rfl⟩, rfl⟩, .swap a b rest⟩
  | cons k rest ih =>
      intro s t as hs hok
      obtain ⟨a, u, as', hk, hok', rfl⟩ := mapM_cons_ok.mp hok
      have hu : I u := hkeeps k List.mem_cons_self hs hk
      obtain ⟨bs, hbs, hperm⟩ := ih (fun l hl => hkeeps l (List.mem_cons_of_mem k hl)) hu hok'
      exact ⟨a :: bs, mapM_cons_ok.mpr ⟨a, u, bs, hk, hbs, rfl⟩, hperm.cons a⟩

end

end Rubric
