import Rubric.Proofs.Evaluator.Variants
import Rubric.Proofs.Record.Selectors

/-!
# What a new evaluator binds

A new evaluator binds the attributes of its records to selectors that read them, and the reserved names
to nothing yet, each with its kind.

* `binding_of_initialBinder` : the bindings of a new evaluator;
* `Session.IsSound`, `isSound_of_start` : sessions that mention no place that they do not have, as that
  of a new evaluator.
-/

namespace Rubric

open Rubric.Script
open Value

/-- Whether the values of bound names, but some, are within a region. -/
def Binder.WithinBut (names : List String) (region : Region) (b : Binder) : Prop :=
  ∀ name binding, b.get? name = some binding → name ∉ names → binding.value.Within region

/-- Binding a name to a value within the region, or one of the names to anything. -/
theorem Binder.WithinBut.rebind {names : List String} {region : Region} {b : Binder}
    (h : b.WithinBut names region) {name : String} {value : Value}
    (hvalue : name ∉ names → value.Within region) :
    (b.rebind name value none).WithinBut names region := by
  intro other binding hget hother
  rw [get?_rebind] at hget
  obtain ⟨old, hold, rfl⟩ := Option.map_eq_some_iff.mp hget
  split
  · rename_i heq
    exact hvalue (heq ▸ hother)
  · exact h other old hold hother

namespace Evaluator

/-- Whether a binding holds a selector that mentions nothing. -/
def ReadsAttribute (binding : Binding) : Prop :=
  ∃ s, binding.value = .selector s ∧ ∀ region, s.Within region

/-- The attributes of a shape are bound to selectors that mention nothing. -/
theorem bindings_of_bindFields {resolver : Resolver} (names : List String) :
    ∀ {b b' : Binder}, bindFields resolver b names = .ok b' →
      (∀ binding ∈ b.bindings, ReadsAttribute binding) →
      ∀ binding ∈ b'.bindings, ReadsAttribute binding := by
  induction names with
  | nil =>
      intro b b' h hb
      cases h
      exact hb
  | cons name names ih =>
      intro b b' h hb
      simp only [bindFields, bind, Except.bind] at h
      split at h
      · cases h
      · rename_i selector hselector
        split at h
        · cases h
        · rename_i added hadded
          refine ih h fun binding hbinding => ?_
          unfold Binder.add at hadded
          split at hadded
          · cases hadded
          · cases hadded
            rcases List.mem_append.mp hbinding with hold | hnew
            · exact hb binding hold
            · rw [List.mem_singleton.mp hnew]
              exact ⟨selector, rfl, fun region =>
                Resolver.compile_within hselector (within_str name)⟩

/-- The reserved names are new, and are bound to nothing at first. -/
theorem bindings_of_bindReserved (entries : List (String × BindingKind)) :
    ∀ {b b' : Binder}, bindReserved b entries = .ok b' →
      (∀ entry ∈ entries, ¬ b.contains entry.1) ∧
        b'.bindings = b.bindings ++ entries.map fun entry => ⟨entry.1, .null, entry.2⟩ := by
  induction entries with
  | nil =>
      intro b b' h
      cases h
      simp
  | cons entry entries ih =>
      obtain ⟨name, kind⟩ := entry
      intro b b' h
      simp only [bindReserved, bind, Except.bind] at h
      split at h
      · cases h
      · rename_i added hadded
        obtain ⟨hnew, hbindings⟩ := ih h
        have hrest : ∀ entry ∈ entries, ¬ b.contains entry.1 := fun entry hentry hcontains =>
          hnew entry hentry (contains_of_add hadded (.inr hcontains))
        unfold Binder.add at hadded
        split at hadded
        · cases hadded
        · rename_i hfree
          cases hadded
          refine ⟨List.forall_mem_cons.mpr ⟨hfree, hrest⟩, ?_⟩
          rw [hbindings]
          simp

/-- A new evaluator binds a reserved name to nothing, with its kind, and every other name to a selector
that mentions nothing. -/
theorem binding_of_initialBinder {e : Evaluator} {b : Binder} (h : e.initialBinder = .ok b)
    {name : String} {binding : Binding} (hget : b.get? name = some binding) :
    (∃ kind, (name, kind) ∈ reservedBindings ∧ binding.kind = kind ∧ binding.value = .null) ∨
      name ∉ reservedBindings.map Prod.fst ∧ ReadsAttribute binding := by
  simp only [initialBinder, bind, Except.bind] at h
  split at h
  · cases h
  · rename_i fields hfields
    have hattributes := bindings_of_bindFields _ hfields fun binding hbinding => by cases hbinding
    obtain ⟨hnew, hbindings⟩ := bindings_of_bindReserved _ h
    have hname := Binder.name_of_get? hget
    rw [Binder.get?, hbindings, List.find?_append, Option.or_eq_some_iff] at hget
    rcases hget with hfield | ⟨-, hreserved⟩
    · refine .inr ⟨fun hmem => ?_, hattributes _ (List.mem_of_find?_eq_some hfield)⟩
      obtain ⟨entry, hentry, rfl⟩ := List.mem_map.mp hmem
      exact hnew entry hentry (by simp [Binder.contains, Binder.get?, hfield])
    · obtain ⟨⟨other, kind⟩, hentry, rfl⟩ := List.mem_map.mp (List.mem_of_find?_eq_some hreserved)
      obtain rfl : other = name := hname
      exact .inl ⟨kind, hentry, rfl, rfl⟩

/-- A new evaluator starts with the contents it is given. -/
theorem eq_of_start {e : Evaluator} {σ : Store} {s : Session} (h : e.start σ = .ok s) :
    ∃ b, e.initialBinder = .ok b ∧ s = ⟨σ, b, .empty, "", [], []⟩ := by
  unfold start at h
  cases hbinder : e.initialBinder with
  | error fault => simp [hbinder, Except.map] at h
  | ok b =>
      simp only [hbinder, Except.map, Except.ok.injEq] at h
      exact ⟨b, rfl, h.symm⟩

end Evaluator

/-- Whether a session mentions no place that it does not have, and keeps right programs only. -/
structure Session.IsSound (s : Session) : Prop where
  closed : s.store.Closed s.store.all
  binds : s.binder.WithinBut [] s.store.all
  programs_sound : CacheIsSound s.programs

/-- The session of a new evaluator is sound. -/
theorem Evaluator.isSound_of_start {e : Evaluator} {σ : Store} {s : Session} (h : e.start σ = .ok s)
    (hclosed : σ.Closed σ.all) : s.IsSound := by
  obtain ⟨b, hb, rfl⟩ := eq_of_start h
  refine ⟨hclosed, fun name binding hget _ => ?_, cacheIsSound_nil⟩
  rcases binding_of_initialBinder hb hget with ⟨kind, -, -, hvalue⟩ | ⟨-, selector, hvalue, hwithin⟩
  · exact hvalue ▸ within_null
  · exact hvalue ▸ within_selector.mpr (hwithin _)

end Rubric
