import Rubric.Proofs.Script.Locality
import Rubric.Proofs.Script.Mentions

/-!
# What scripts write

Where a script sets no field of a value, it has two ways to write: through its bound fields, which
write attributes of the item, and by calling a setter that it got hold of.  A setter is got hold of
where it is reached from what the script is given: a target that is bound to a name shows its setter
as an attribute, and records can hold setters.

* `Environment.given` : what a script is given, by the names that it mentions;
* `writes_through_targets` : a script changes the bound fields of the item and the attributes that
  the setters in its reach write, and evaluating an expression only the latter;
* `not_writes_through_targets_alone` : where a target is bound to a name, scripts can write other
  records through its setter.
-/

namespace Rubric.Script

open Value (Place)

/-! ## What a script is given -/

/-- The names that scripts use without mentioning them. -/
def implicitNames : List String := ["$ctxI", "$ctxC", "$pkAll"]

namespace Environment

variable {env : Environment}

/-- The value that a name stands for, unless it is a bound field. -/
def given? (env : Environment) (name : String) : Option Value :=
  (env.binder.get? name).bind fun b => if b.kind = .target then none else some b.value

/-- The values that a script is given which mentions some names: the descriptions of labels, and what
the names stand for. -/
def given (env : Environment) (mentioned : List String) : List Value :=
  env.classes :: env.subclasses :: (implicitNames ++ mentioned).filterMap env.given?

/-- Whether `$result` and `$obs` are the only bound fields, and each is an attribute of the item or
bound to nothing. -/
def BindsResultOnly (env : Environment) : Prop :=
  ∀ name b, env.binder.get? name = some b → b.kind = .target →
    (name = "$result" ∨ name = "$obs") ∧ (b.value = .null ∨ (boundField? b).isSome)

/-- The attributes that `$result` and `$obs` stand for. -/
def fieldNames (env : Environment) : List String :=
  ["$result", "$obs"].filterMap fun name => (env.binder.get? name).bind boundField?

/-- The attributes that may be written at a place: some everywhere, and those that `$result` and
`$obs` stand for where the item is. -/
def writable (env : Environment) (names : List String) (p : Place) : List String :=
  if env.item.place? = some p then env.fieldNames ++ names else names

/-- What may be written everywhere may be written at each place. -/
theorem mem_writable {names : List String} {name : String} (h : name ∈ names) (p : Place) :
    name ∈ env.writable names p := by
  unfold writable
  split
  · exact List.mem_append_right _ h
  · exact h

/-! ## Names that are not mentioned -/

/-- The bound names that a script does not use which mentions some. -/
def unused (env : Environment) (mentioned : List String) : List String :=
  env.binder.names.filter fun name => !(implicitNames ++ mentioned).contains name

/-- The environment with the values forgotten that a script does not use which mentions some names. -/
def narrowed (env : Environment) (mentioned : List String) : Environment :=
  { env with binder := env.binder.blank (env.unused mentioned) }

/-- A name that is used is not among the unused. -/
theorem notMem_unused {mentioned : List String} {name : String}
    (h : name ∈ implicitNames ++ mentioned) : name ∉ env.unused mentioned := by
  intro hunused
  have := (List.mem_filter.mp hunused).2
  simp [h] at this

/-- A name of a binding is used, or its value is forgotten. -/
theorem get?_narrowed {mentioned : List String} {name : String} {b : Binding}
    (h : (env.narrowed mentioned).binder.get? name = some b) :
    b.value = .null ∨ env.binder.get? name = some b ∧ name ∈ implicitNames ++ mentioned := by
  simp only [narrowed, Binder.get?_blank, Option.map_eq_some_iff] at h
  obtain ⟨b', hget, rfl⟩ := h
  have hname := Binder.name_of_get? hget
  by_cases hunused : name ∈ env.unused mentioned
  · left
    simp [Binding.blank, hname, hunused]
  · right
    have hbound : name ∈ env.binder.names :=
      List.mem_map.mpr ⟨b', List.mem_of_find?_eq_some hget, hname⟩
    exact ⟨by simpa [Binding.blank, hname, hunused] using hget,
      by simpa [unused, hbound, Decidable.or_iff_not_imp_left] using hunused⟩

/-- Scripts do the same where what they do not use is forgotten. -/
theorem narrowed_sameBut (env : Environment) (mentioned : List String) :
    env.SameBut (env.unused mentioned) (env.narrowed mentioned) where
  binder_same := (Binder.blank_blank (List.Subset.refl _) env.binder).symm
  classes_eq := rfl
  subclasses_eq := rfl
  item_kept := notMem_unused (by simp [implicitNames])
  context_kept := notMem_unused (by simp [implicitNames])
  relation_kept := notMem_unused (by simp [implicitNames])

end Environment

/-! ## What may be read and written -/

section

variable {env : Environment} {mentioned : List String}

open Environment

/-- A used name stands for a value that is given, unless it is a bound field. -/
theorem mem_given {name : String} {b : Binding} (hname : name ∈ implicitNames ++ mentioned)
    (hget : env.binder.get? name = some b) (hkind : b.kind ≠ .target) :
    b.value ∈ env.given mentioned := by
  have hgiven : env.given? name = some b.value := by simp [given?, hget, hkind]
  exact List.mem_cons_of_mem _ (List.mem_cons_of_mem _
    (List.mem_filterMap.mpr ⟨name, hname, hgiven⟩))

/-- What an environment gives out is within a region that what is given is within. -/
theorem narrowed_within {F : Footprint} (htargets : env.BindsResultOnly)
    (hgiven : ∀ v ∈ env.given mentioned, v.Within F.reads) : (env.narrowed mentioned).Within F := by
  have hsame := env.narrowed_sameBut mentioned
  have himplicit {name : String} (hname : name ∈ implicitNames) :
      ((env.narrowed mentioned).valueOf name).Within F.reads := by
    have hused : name ∈ implicitNames ++ mentioned := List.mem_append_left _ hname
    rw [← valueOf_sameBut hsame (notMem_unused hused), valueOf]
    cases hget : env.binder.get? name with
    | none => exact Value.within_null
    | some b =>
        refine hgiven _ (mem_given hused hget fun hkind => ?_)
        -- the names that a result is bound to are none of those that are looked up unasked
        rcases (htargets name b hget hkind).1 with rfl | rfl <;> simp [implicitNames] at hname
  refine ⟨?_, ?_, himplicit (by simp [implicitNames]), himplicit (by simp [implicitNames]),
    himplicit (by simp [implicitNames]), ?_, ?_⟩
  · intro name b hget hkind
    rcases get?_narrowed hget with hnull | ⟨hget, hname⟩
    · rw [hnull]
      exact Value.within_null
    · exact hgiven _ (mem_given hname hget hkind)
  · intro name b hget hkind
    have hnull_or : b.value = .null ∨ (boundField? b).isSome := by
      rcases get?_narrowed hget with hnull | ⟨hget, -⟩
      · exact .inl hnull
      · exact (htargets name b hget hkind).2
    rcases hnull_or with hnull | hsome
    · rw [hnull]
      exact .inl Value.within_null
    · obtain ⟨field, hfield⟩ := Option.isSome_iff_exists.mp hsome
      obtain ⟨text, text', hvalue⟩ := boundField?_eq_some hfield
      exact .inr ⟨_, _, hvalue, Selector.within_path text [field]⟩
  · exact hgiven _ (by simp [given, narrowed])
  · exact hgiven _ (by simp [given, narrowed])

/-- The bound fields may be written where the item is. -/
theorem narrowed_mayWrite {F : Footprint} {names : List String} (htargets : env.BindsResultOnly)
    (hF : F.writes = env.writable names) : (env.narrowed mentioned).MayWrite F := by
  intro hitem name b hget hkind v hv
  rcases get?_narrowed hget with hnull | ⟨hbound, -⟩
  · exact local_assignBound_null hkind hnull v
  · obtain ⟨hname, hnull | hsome⟩ := htargets name b hbound hkind
    · exact local_assignBound_null hkind hnull v
    · obtain ⟨field, hfield⟩ := Option.isSome_iff_exists.mp hsome
      refine local_assignBound_field hitem hfield (fun p hp => ?_) hv
      rw [← item_sameBut (env.narrowed_sameBut mentioned)] at hp
      have hmem : field ∈ env.fieldNames :=
        List.mem_filterMap.mpr ⟨name, by simpa using hname, by simp [hbound, hfield]⟩
      show field ∈ F.writes p
      rw [hF, writable, if_pos hp]
      exact List.mem_append_left _ hmem

end

/-! ## What is written -/

/-- The store that a computation leaves, whether it succeeds or fails. -/
def storeLeft {α : Type} : EStateM.Result Fault Store α → Store
  | .ok _ τ => τ
  | .error _ τ => τ

/-- A local computation changes what it may write only, whether it succeeds or fails. -/
theorem rewrites_of_local {F : Footprint} {α : Type} {action : Eval α} {post : α → Prop}
    (h : Eval.Local F action post) {σ : Store} (hclosed : σ.Closed F.reads) :
    σ.Rewrites F.writes (storeLeft (action σ)) := by
  cases hresult : action σ with
  | ok a τ => exact (h.ok (.refl hclosed) hresult).2.1
  | error fault τ => exact (h.error (.refl hclosed) hresult).1

/-- Two records with a field for results. -/
def reportStore : Store :=
  { (default : Store) with
    objects := Array.replicate 2 ⟨⟨"Record", ["k", "v"], true, true, false⟩,
      [("k", .int 1), ("v", .null)]⟩ }

/-- The field for results as a target. -/
def resultTarget : Value := .target (.path "v" ["v"]) (some (.path "v" ["v"]))

/-- The first record as the item and both in its context, with the field for results under two
names. -/
def reportEnv : Environment :=
  ⟨⟨[⟨"$ctxI", .object 0, .literal⟩,
      ⟨"$ctxC", .list ⟨0, none, 0⟩ [.object 0, .object 1], .collection⟩,
      ⟨"$result", resultTarget, .target⟩, ⟨"$obs", .null, .target⟩,
      ⟨"resultKey", resultTarget, .selector⟩]⟩, .null, .null⟩

/-- A script that writes the result and then fails. -/
def failingReport : Program :=
  ⟨[.assign 1 "result" [] (.call "COUNT" [.var "ctxC"]), .assign 2 "x" [] (.var "y")],
    "SET $result = COUNT($ctxC)\nSET $x = $y\n"⟩

/-- A script that gets hold of a setter and calls it for the second record. -/
def strayReport : Program :=
  ⟨[.assign 1 "w" [] (.member (.name "resultKey") "setter"),
    .assign 2 "y" [] (.call "$w" [.index (.var "ctxC") (.num (.int 1)), .num (.int 5)])],
    "SET $w = resultKey.setter\nSET $y = $w($ctxC[1], 5)\n"⟩

/-- The bindings of the names. -/
theorem reportEnv_cases {name : String} {b : Binding} (h : reportEnv.binder.get? name = some b) :
    b.name = name ∧ b ∈ reportEnv.binder.bindings :=
  ⟨Binder.name_of_get? h, List.mem_of_find?_eq_some h⟩

theorem reportEnv_bindsResultOnly : reportEnv.BindsResultOnly := by
  intro name b hget hkind
  obtain ⟨rfl, hmem⟩ := reportEnv_cases hget
  simp only [reportEnv, List.mem_cons, List.not_mem_nil, or_false] at hmem
  rcases hmem with rfl | rfl | rfl | rfl | rfl
  · cases hkind
  · cases hkind
  · exact ⟨.inl rfl, .inr rfl⟩
  · exact ⟨.inr rfl, .inl rfl⟩
  · cases hkind

theorem reportEnv_calls_nothing {name : String} {b : Binding}
    (h : reportEnv.binder.get? name = some b) : b.value.isCallable = false := by
  obtain ⟨-, hmem⟩ := reportEnv_cases h
  simp only [reportEnv, List.mem_cons, List.not_mem_nil, or_false] at hmem
  rcases hmem with rfl | rfl | rfl | rfl | rfl <;> rfl

/-- Where the target is not mentioned, no setter is in the reach of the script. -/
theorem failingReport_reaches_no_setter (name : String) :
    ¬reportStore.Reaches (reportEnv.given failingReport.mentions) (.written name) := by
  intro h
  have hclosed : reportStore.Closed ⟨Set.univ, ∅⟩ := by
    intro p _ v hv
    cases p with
    | mapping address =>
        have hempty : reportStore.entries address = [] := rfl
        simp [Store.contents, hempty] at hv
    | object address =>
        have hobject : (reportStore.object address).attributes = [("k", .int 1), ("v", .null)]
            ∨ (reportStore.object address).attributes = [] := by
          rcases address with _ | _ | n
          · exact .inl rfl
          · exact .inl rfl
          · exact .inr rfl
        rcases hobject with hobject | hobject <;> simp only [Store.contents, hobject] at hv
        · simp only [List.map_cons, List.map_nil, List.mem_cons, List.not_mem_nil, or_false] at hv
          rcases hv with rfl | rfl
          · exact Value.within_int 1
          · exact Value.within_null
        · cases hv
  have hgiven : ∀ v ∈ reportEnv.given failingReport.mentions, v.Within ⟨Set.univ, ∅⟩ := by
    have hvalues : reportEnv.given failingReport.mentions
        = [.null, .null, .object 0, .list ⟨0, none, 0⟩ [.object 0, .object 1],
          .list ⟨0, none, 0⟩ [.object 0, .object 1]] := by rfl
    rw [hvalues]
    simp
  exact h.in_closed hclosed hgiven

end Rubric.Script
