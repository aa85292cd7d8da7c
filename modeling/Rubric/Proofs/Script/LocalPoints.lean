import Rubric.Proofs.Script.Locality
import Rubric.Proofs.Script.Points

/-!
# The points of local runs

A run that goes by what it may read and write does so at all its points: whatever is at hand at a
point is within what may be read, and what values contain there differs from the start of the run by
what may be written only.

* `Locals.StayWithin` : points of which this holds;
* `stepsKeep_of_local` : the steps of such a run keep it, also where the run is in an environment that
  binds some names to something else and does not mention these.
-/

namespace Rubric.Script

open Value Eval StateFrame

/-- Whether at a point of a run what is at hand is within what may be read, and nothing but what may be
written was written since some contents. -/
structure Locals.StayWithin (F : Scope) (start : Store) (locals : Locals) (σ : Store) : Prop where
  closed : σ.Closed F.reads
  within : ∀ entry ∈ locals, entry.2.Within F.reads
  rewrites : F.rewrites start σ

section

variable {F : Scope} {start : Store} {α : Type} {post : α → Prop}

/-- A local computation stays within at every point. -/
theorem maintains_of_local {locals : Locals} {action : Eval α}
    (h : (∀ entry ∈ locals, entry.2.Within F.reads) → Eval.Local F action post) :
    Maintains (Locals.StayWithin F start locals) post action := by
  intro σ hσ
  refine ⟨rfl, ?_⟩
  have haction := h hσ.within
  cases hresult : action σ with
  | ok a τ =>
      obtain ⟨ha, hτ, _, -, hsees, -⟩ := haction.ok (.refl hσ.closed) hresult
      exact ⟨ha, hsees.closed, hσ.within, F.trans hσ.rewrites hτ⟩
  | error fault τ =>
      obtain ⟨hτ, _, -, hsees, -⟩ := haction.error (.refl hσ.closed) hresult
      exact ⟨hsees.closed, hσ.within, F.trans hσ.rewrites hτ⟩

/-- So does a local part of a run. -/
theorem maintains_of_localExec {action : Exec α} (h : Exec.Local F action post) :
    Maintains (AtState (Locals.StayWithin F start)) post action := by
  intro s hs
  refine ⟨rfl, ?_⟩
  have hself : (runFrame F).sees s s := ⟨.refl hs.closed, rfl, hs.within⟩
  cases hresult : action s with
  | ok a t =>
      obtain ⟨ha, ht, _, -, ⟨hsees, -, hlocals⟩, -⟩ := h.ok hself hresult
      exact ⟨ha, hsees.closed, hlocals, F.trans hs.rewrites ht⟩
  | error fault t =>
      obtain ⟨ht, _, -, ⟨hsees, -, hlocals⟩, -⟩ := h.error hself hresult
      exact ⟨hsees.closed, hlocals, F.trans hs.rewrites ht⟩

/-- The steps of a run stay within what may be read and written, where the environment does, some names
that are not mentioned aside. -/
theorem stepsKeep_of_local {names : List String} {env env' : Environment}
    (h : env.SameBut names env') (henv : env'.Within F) (hwrites : env'.MayWrite F) :
    StepsKeep env (fun s => SetsWithin F [s]) (· ∉ names) (Locals.StayWithin F start)
      (Value.Within F.reads) where
  str := within_str
  num n := n.within_toValue
  bool := within_bool
  null := within_null
  var locals name hname := by
    rw [lookupVar_sameBut h locals hname]
    exact maintains_of_local fun hlocals => local_lookupVar henv hlocals name
  name locals name hname := by
    rw [lookupName_sameBut h hname]
    exact maintains_of_local fun _ => local_lookupName henv name
  list _ _ hvs := maintains_of_local fun _ => local_newList hvs
  member _ _ field hv := maintains_of_local fun _ => local_readAttribute hv field
  index _ _ _ hv hplace := maintains_of_local fun _ => local_subscript hv hplace
  call locals function args hfunction hargs := by
    rw [callNamed_sameBut h locals hfunction]
    exact maintains_of_local fun hlocals => local_callNamed henv hlocals function hargs
  binary _ op _ _ hv hw := maintains_of_local fun _ => op.local_applyTo hv hw
  unary _ op _ hv := maintains_of_local fun _ => op.local_applyTo hv
  items _ _ _ _ hσ hv hvs := items_within hσ.closed hv hvs
  assign _ var _ _ hname v hv := by
    rw [assignVar_sameBut h hname]
    exact maintains_of_localExec (local_assignVar henv hwrites _ hv)
  setField line var name path value hsets _ _ _ hbase hv := by
    have hpath : ∀ field ∈ (name :: path).getLast?, ∀ p ∈ F.reads, F.mayWrite p field :=
      hsets (.assign line var (name :: path) value) (by simp)
    exact maintains_of_local fun _ => local_writePath hbase hpath hv
  loop _ _ _ _ _ _ _ hv := maintains_of_localExec (local_setLocal _ hv)

end

end Rubric.Script
