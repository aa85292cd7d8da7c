import Rubric.Proofs.Value.Template
import Rubric.Record.Resolver

/-!
# Compiled selectors stay within what they are compiled from

Compiling an expression looks at nothing but the values in it, and the selector that it gives mentions
nothing else.

* `Resolver.compile_agree`, `Resolver.compile_within` : compiling a selector goes by what the expression
  mentions, and mentions no more.
-/

namespace Rubric.Resolver

variable {r : Resolver} {σ σ' : Store} {region : Region}

/-! ## Compiling goes by the expression -/

mutual

/-- Compiling an expression is the same in stores that agree on what it mentions. -/
theorem compile_agree (h : σ.Agree region σ') : ∀ {v : Value}, v.Within region →
    r.compile σ' v = r.compile σ v
  | .list _ items, hv => by
      rw [compile, compile, compileParts, compileParts, compileAll_agree h (Value.within_list.mp hv)]
  | .tuple items, hv => by
      rw [compile, compile, compileParts, compileParts, compileAll_agree h (Value.within_tuple.mp hv)]
  | .row _ _ items, hv => by
      rw [compile, compile, compileParts, compileParts, compileAll_agree h (Value.within_row.mp hv)]
  | .selector _, _ | .str _, _ | .function _ _, _ | .setter _, _ => by rw [compile, compile]
  | .null, hv | .bool _, hv | .int _, hv | .float _, hv | .nan _, hv | .set _ _, hv
  | .mapping _, hv | .object _, hv | .target _ _, hv => by
      rw [compile, compile, Value.shown_agree h hv]
      all_goals simp

/-- So is compiling several. -/
theorem compileAll_agree (h : σ.Agree region σ') : ∀ {vs : List Value}, (∀ v ∈ vs, v.Within region) →
    r.compileAll σ' vs = r.compileAll σ vs
  | [], _ => by rw [compileAll, compileAll]
  | v :: vs, hvs => by
      obtain ⟨hv, hrest⟩ := List.forall_mem_cons.mp hvs
      rw [compileAll, compileAll, compile_agree h hv, compileAll_agree h hrest]

end

/-! ## Compiled selectors -/

/-- Composing what was compiled keeps within what the parts are within. -/
theorem within_of_compileParts {items : List Value} {s : Selector}
    (hparts : ∀ parts, r.compileAll σ items = .ok parts → ∀ part ∈ parts, part.Within region)
    (h : r.compileParts σ items = .ok s) : s.Within region := by
  rw [compileParts] at h
  split at h
  · cases h
  · obtain ⟨parts, hcompiled, rfl⟩ := ok_of_map h
    exact Selector.within_composite.mpr (hparts parts hcompiled)

mutual

/-- A compiled selector mentions what its expression does. -/
theorem compile_within : ∀ {v : Value} {s : Selector}, r.compile σ v = .ok s → v.Within region →
    s.Within region
  | .selector s, _, h, hv => by
      rw [compile, Except.ok.injEq] at h
      exact h ▸ Value.within_selector.mp hv
  | .str expression, _, h, _ => by
      rw [compile] at h
      obtain ⟨path, -, rfl⟩ := ok_of_map h
      exact Selector.within_path _ _
  | .list _ items, _, h, hv => by
      rw [compile] at h
      exact within_of_compileParts
        (fun _ hparts => compileAll_within hparts (Value.within_list.mp hv)) h
  | .tuple items, _, h, hv => by
      rw [compile] at h
      exact within_of_compileParts
        (fun _ hparts => compileAll_within hparts (Value.within_tuple.mp hv)) h
  | .row _ _ items, _, h, hv => by
      rw [compile] at h
      exact within_of_compileParts
        (fun _ hparts => compileAll_within hparts (Value.within_row.mp hv)) h
  | .function _ _, _, h, hv => by
      rw [compile, Except.ok.injEq] at h
      exact h ▸ Selector.within_computed.mpr hv
  | .setter _, _, h, hv => by
      rw [compile, Except.ok.injEq] at h
      exact h ▸ Selector.within_computed.mpr hv
  | .null, _, h, _ | .bool _, _, h, _ | .int _, _, h, _ | .float _, _, h, _ | .nan _, _, h, _
  | .set _ _, _, h, _ | .mapping _, _, h, _ | .object _, _, h, _ | .target _ _, _, h, _ => by
      rw [compile] at h
      · cases h
      all_goals simp

/-- So do several. -/
theorem compileAll_within : ∀ {vs : List Value} {parts : List Selector},
    r.compileAll σ vs = .ok parts → (∀ v ∈ vs, v.Within region) → ∀ part ∈ parts, part.Within region
  | [], _, h, _ => by
      rw [compileAll, Except.ok.injEq] at h
      simp [← h]
  | v :: vs, _, h, hvs => by
      obtain ⟨hv, hrest⟩ := List.forall_mem_cons.mp hvs
      rw [compileAll] at h
      split at h
      · cases h
      · rename_i s hs
        obtain ⟨parts, hparts, rfl⟩ := ok_of_map h
        exact List.forall_mem_cons.mpr ⟨compile_within hs hv, compileAll_within hparts hrest⟩

end

/-- The compiled key of an expression mentions what the expression does. -/
theorem compileKey_within {v : Value} {s : Selector} (h : r.compileKey σ v = .ok s)
    (hv : v.Within region) : s.Within region := by
  obtain ⟨inner, hinner, rfl⟩ := ok_of_map h
  exact Selector.within_key.mpr (compile_within hinner hv)

/-- So does its display. -/
theorem compileDisplay_within {v : Value} {s : Selector} (h : r.compileDisplay σ v = .ok s)
    (hv : v.Within region) : s.Within region := by
  obtain ⟨inner, hinner, rfl⟩ := ok_of_map h
  exact Selector.within_display.mpr (compile_within hinner hv)

/-- What a compiled target reads with, its expression compiles to. -/
theorem compile_of_compileTarget {v : Value} {t : Target} (h : r.compileTarget σ v = .ok t) :
    r.compile σ v = .ok t.selector := by
  rw [compileTarget] at h
  split at h
  · cases h
  · rename_i s hs
    split at h
    · obtain ⟨assign, -, rfl⟩ := ok_of_map h
      exact hs
    · cases h
      exact hs

end Rubric.Resolver
