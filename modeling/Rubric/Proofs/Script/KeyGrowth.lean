import Rubric.Proofs.Script.Quiet

/-!
# Mappings keep their keys

All that a script writes are attributes: of a record where it assigns a field, of several where it calls a
setter.  So a relation between stores that allows tags to be taken and attributes to be written holds
between the store that a script starts in and the one that it leaves.  One such relation is that mappings
keep their keys, new ones coming after those there were.  A loop over a mapping that has as many entries as
before has the same elements before it.

* `Store.AllowsWrites` : relations that allow attributes to be written;
* `Expr.through_eval`, `Stmt.through_run` : expressions and statements leave stores so related;
* `Store.KeysKept`, `keysKept_allowsWrites` : stores whose mappings have more keys at most;
* `Store.KeysKept.items_eq` : what such a store has the elements of.
-/

namespace Rubric

/-! ## Writing attributes -/

/-- Whether a relation between stores allows tags to be taken and attributes to be written. -/
structure Store.AllowsWrites (R : Store → Store → Prop) : Prop where
  preorder : IsPreorder Store R
  quiet : ∀ {σ τ : Store}, σ.SameContents τ → R σ τ
  setAttribute : ∀ (v : Value) (name : String) (value : Value), Leaves R (v.setAttribute name value)

namespace Store.AllowsWrites

variable {R : Store → Store → Prop} (hR : Store.AllowsWrites R)

include hR

/-- What is quiet is allowed. -/
theorem of_quiet {α : Type} {action : Eval α} (h : action.IsQuiet) : Leaves R action :=
  h.imp fun _ _ => hR.quiet

/-- Writing at the end of a path is writing an attribute. -/
theorem writePath (v : Value) (path : List String) (value : Value) :
    Leaves R (v.writePath path value) := by
  have := hR.preorder
  refine leaves_get_bind fun σ => (hR.of_quiet (quiet_ofExcept _)).bind fun parent => ?_
  split
  · exact leaves_throw _
  · split
    · exact leaves_throw _
    · exact hR.setAttribute _ _ _

mutual

/-- Assigning through a setter is writing at the ends of its paths. -/
theorem assign : ∀ (s : Setter) (record value : Value), Leaves R (s.assign record value)
  | .path _ names, record, value => by
      rw [Setter.assign]
      exact hR.writePath record names value
  | .composite parts, record, value => by
      have := hR.preorder
      rw [Setter.assign]
      split
      · split
        · exact assignEach parts record _
        · exact hR.of_quiet (quiet_get_throw _)
      · exact hR.of_quiet (quiet_get_throw _)

/-- So is assigning values one after the other. -/
theorem assignEach : ∀ (parts : List Setter) (record : Value) (values : List Value),
    Leaves R (Setter.assignEach parts record values)
  | part :: parts, record, value :: values => by
      have := hR.preorder
      rw [Setter.assignEach]
      exact (assign part record value).bind fun _ => assignEach parts record values
  | [], _, _ | _ :: _, _, [] => by
      have := hR.preorder
      rw [Setter.assignEach]
      · exact leaves_pure _
      · simp

end

/-- Calls write through setters, if at all. -/
theorem call (v : Value) (args : List Value) : Leaves R (v.call args) := by
  have := hR.preorder
  by_cases h : ∀ s, v = .setter s → args.length ≠ 2
  · exact hR.of_quiet (Value.quiet_call v args h)
  · simp only [not_forall, not_not] at h
    obtain ⟨s, rfl, hlength⟩ := h
    match args, hlength with
    | [record, value], _ =>
        rw [Value.call]
        exact (hR.assign s record value).bind fun _ => leaves_pure _

end Store.AllowsWrites

namespace Script

variable {R : Store → Store → Prop} (hR : Store.AllowsWrites R)

/-! ## Expressions -/

section

include hR

/-- A relation of records is called for every record of a pool. -/
theorem through_relatedTo (env : Environment) (record collection : Value) :
    Leaves R (relatedTo env record collection) := by
  have := hR.preorder
  refine (hR.of_quiet (quiet_ofExcept _)).bind fun relation => ?_
  have hrelated (pool : List Value) :
      Leaves R (keepWhere (fun r => related relation.value r record) pool) := by
    induction pool with
    | nil => exact leaves_pure _
    | cons r pool ih =>
        refine Leaves.bind ?_ fun _ => ih.bind fun _ => leaves_pure _
        exact (hR.call relation.value [r, record]).bind fun _ => leaves_get_bind fun _ => leaves_pure _
  have hkeep (pool : List Value) : Leaves R (do
      Eval.newList (← keepWhere (fun r => related relation.value r record) pool)) :=
    (hrelated pool).bind fun kept => hR.of_quiet (quiet_newList kept)
  dsimp only
  split
  · exact leaves_throw _
  · split
    · exact (hR.of_quiet (quiet_itemsOrNone _)).bind hkeep
    · exact leaves_get_bind fun σ => (hR.of_quiet (quiet_ofExcept _)).bind hkeep

/-- The other built-in functions do not look at the bindings, and are quiet. -/
theorem through_builtin (env : Environment) (b : Builtin) (args : List Value) :
    Leaves R (b.call env args) := by
  have := hR.preorder
  refine (hR.of_quiet (quiet_ofExcept _)).bind fun _ => ?_
  by_cases hrelated : b = .related
  · subst hrelated
    exact through_relatedTo hR env _ _
  · have hunbound : b.value env args = b.value { env with binder := ⟨[]⟩ } args := by
      cases b <;> first | rfl | exact absurd rfl hrelated
    rw [hunbound]
    exact hR.of_quiet (Builtin.quiet_value (fun _ h => by cases h) b args)

theorem through_callValue (function : String) (callee : Value) (args : List Value) :
    Leaves R (callValue function callee args) := by
  have := hR.preorder
  unfold callValue
  split
  · exact hR.of_quiet ((quiet_ofExcept _).bind fun record => Selector.quiet_read _ record)
  · split
    · exact hR.call _ _
    · exact leaves_throw _

theorem through_callNamed (env : Environment) (locals : Locals) (function : String) (args : List Value) :
    Leaves R (callNamed env locals function args) := by
  have := hR.preorder
  unfold callNamed
  split
  · exact (hR.of_quiet (quiet_lookupVar env locals function)).bind fun callee =>
      through_callValue hR function callee args
  · split
    · exact (hR.of_quiet (quiet_bindingValue env _)).bind fun callee =>
        through_callValue hR function callee args
    · split
      · exact through_builtin hR env _ args
      · exact leaves_throw _

/-- An expression leaves a store that is related to the one it began in. -/
theorem Expr.through_eval (env : Environment) (locals : Locals) (e : Expr) : Leaves R (e.eval env locals) := by
  have := hR.preorder
  exact Expr.leaves_eval (fun _ _ => hR.quiet) e fun _ _ function _ args =>
    through_callNamed hR env locals function args

end

/-! ## Statements -/

/-- A relation between stores, of the states of a run. -/
def RunState.Through (R : Store → Store → Prop) (s t : RunState) : Prop := R s.store t.store

instance [IsPreorder Store R] : IsPreorder RunState (RunState.Through R) where
  refl s := refl s.store
  trans _ _ _ h h' := IsTrans.trans (r := R) _ _ _ h h'

/-- An action on values leaves as a part of a run what it leaves. -/
theorem through_ofEval {α : Type} {action : Locals → Eval α} (h : ∀ locals, Leaves R (action locals)) :
    Leaves (RunState.Through R) (Exec.ofEval action) := by
  intro s
  rw [stateLeft_ofEval]
  exact h s.locals s.store

section

include hR

theorem through_setLocal (name : String) (value : Value) :
    Leaves (RunState.Through R) (Exec.setLocal name value) :=
  fun s => hR.preorder.toRefl.refl s.store

theorem through_evaluate (env : Environment) (e : Expr) :
    Leaves (RunState.Through R) (evaluate env e) :=
  through_ofEval fun locals => Expr.through_eval hR env locals e

theorem through_conditionHolds (env : Environment) (condition : Expr) :
    Leaves (RunState.Through R) (conditionHolds env condition) := by
  have := hR.preorder
  exact (through_evaluate hR env condition).bind fun _ => leaves_get_bind fun _ => leaves_pure _

theorem through_assignVar (env : Environment) (name : String) (value : Value) :
    Leaves (RunState.Through R) (assignVar env name value) := by
  have := hR.preorder
  refine leaves_get_bind fun s => ?_
  split
  · refine through_ofEval fun _ => ?_
    unfold assignBound
    split
    · exact leaves_throw _
    · unfold Target.write
      split
      · exact hR.assign _ _ _
      · exact leaves_throw _
    · exact hR.of_quiet (quiet_get_throw _)
    · exact leaves_throw _
  · exact through_setLocal hR name value

theorem through_assignField (env : Environment) (locals : Locals) (name : String) (path : List String)
    (value : Expr) : Leaves R (assignField env locals name path value) := by
  have := hR.preorder
  refine (hR.of_quiet (quiet_lookupVar env locals name)).bind fun base => ?_
  exact (hR.of_quiet (quiet_ofExcept _)).bind fun _ => (Expr.through_eval hR env locals value).bind
    fun v => hR.writePath base path v

theorem through_loopElements (env : Environment) (collection : Expr) :
    Leaves (RunState.Through R) (Exec.ofEval (loopElements env collection)) := by
  have := hR.preorder
  refine through_ofEval fun locals => ?_
  refine (Expr.through_eval hR env locals collection).bind fun v => leaves_get_bind fun σ => ?_
  split
  · exact (hR.of_quiet (quiet_ofExcept _)).bind fun _ => leaves_pure _
  · exact leaves_pure _

mutual

/-- A statement leaves a store that is related to the one it began in. -/
theorem Stmt.through_run (env : Environment) : ∀ s : Stmt, Leaves (RunState.Through R) (s.run env)
  | .assign line var [] value => by
      have := hR.preorder
      rw [Stmt.run]
      exact leaves_atLine line ((through_evaluate hR env value).bind fun v => through_assignVar hR env _ v)
  | .assign line var (name :: path) value => by
      rw [Stmt.run]
      exact leaves_atLine line (through_ofEval fun locals => through_assignField hR env locals _ _ value)
  | .branch line condition body rest => by
      have := hR.preorder
      rw [Stmt.run]
      refine leaves_atLine line ((through_conditionHolds hR env condition).bind fun holds => ?_)
      split
      · exact Stmt.through_runAll env body
      · exact Alternatives.through_run env rest
  | .foreach line var collection body => by
      have := hR.preorder
      rw [Stmt.run]
      refine leaves_atLine line ?_
      dsimp only
      split
      · exact leaves_throw _
      · refine (through_loopElements hR env collection).bind fun run => ?_
        exact leaves_runOver _ _ (fun v => (through_setLocal hR _ v).bind
          fun _ => Stmt.through_runAll env body) _
  | .call line function args => by
      have := hR.preorder
      rw [Stmt.run]
      exact leaves_atLine line ((through_evaluate hR env _).bind fun _ => leaves_pure _)

/-- So do alternatives. -/
theorem Alternatives.through_run (env : Environment) :
    ∀ rest : Alternatives, Leaves (RunState.Through R) (rest.run env)
  | .done => by
      have := hR.preorder
      rw [Alternatives.run]
      exact leaves_pure _
  | .otherwise body => by
      rw [Alternatives.run]
      exact Stmt.through_runAll env body
  | .elif condition body rest => by
      have := hR.preorder
      rw [Alternatives.run]
      refine (through_conditionHolds hR env condition).bind fun holds => ?_
      split
      · exact Stmt.through_runAll env body
      · exact Alternatives.through_run env rest

/-- So do the statements of a block. -/
theorem Stmt.through_runAll (env : Environment) :
    ∀ ss : List Stmt, Leaves (RunState.Through R) (Stmt.runAll env ss)
  | [] => by
      have := hR.preorder
      rw [Stmt.runAll]
      exact leaves_pure _
  | s :: ss => by
      have := hR.preorder
      rw [Stmt.runAll]
      exact (Stmt.through_run env s).bind fun _ => Stmt.through_runAll env ss

end

end

end Script

/-! ## Keys -/

/-- Whether the mappings of a store have the keys that they have in another, and more after them at
most. -/
def Store.KeysKept (σ τ : Store) : Prop :=
  ∀ address, (σ.entries address).map Prod.fst <+: (τ.entries address).map Prod.fst

namespace Store.KeysKept

variable {σ τ : Store}

/-- Stores with the same contents have the same keys. -/
theorem of_entries (h : ∀ address, τ.entries address = σ.entries address) : σ.KeysKept τ := by
  intro address
  have hkeys : (τ.entries address).map Prod.fst = (σ.entries address).map Prod.fst := by rw [h]
  exact hkeys ▸ List.prefix_refl _

/-- A name that is set in entries is new, and comes last, or one of theirs. -/
theorem setEntry {name : String} {value : Value} {entries entries' : List (Value × Value)}
    (h : Value.setEntry σ name value entries = .ok entries') :
    entries.map Prod.fst <+: entries'.map Prod.fst := by
  induction entries generalizing entries' with
  | nil => exact List.nil_prefix
  | cons entry entries ih =>
      obtain ⟨k, v⟩ := entry
      rw [Value.setEntry] at h
      split at h
      · cases h
      · cases h
        exact List.prefix_refl _
      · cases hothers : Value.setEntry σ name value entries with
        | error fault => simp [hothers, Except.map] at h
        | ok others =>
            simp only [hothers, Except.map, Except.ok.injEq] at h
            subst h
            exact (List.prefix_cons_inj k).mpr (ih hothers)

/-- Where a mapping has as many entries as before, a loop over it has the same elements. -/
theorem items_eq (h : σ.KeysKept τ) {v : Value} {elements : List Value}
    (hentries : Script.entryCount? τ v = Script.entryCount? σ v) (helements : v.items σ = .ok elements) :
    v.items τ = .ok elements := by
  cases v with
  | mapping address =>
      have hlength : ((σ.entries address).map Prod.fst).length = ((τ.entries address).map Prod.fst).length := by
        simpa [Script.entryCount?] using hentries.symm
      have hkeys := (h address).eq_of_length hlength
      simp only [Value.items] at helements ⊢
      rw [← hkeys]
      exact helements
  | str _ | list _ _ | tuple _ | row _ _ _ | set _ _ => exact helements
  | _ => cases helements

end Store.KeysKept

/-- Mappings keep their keys where attributes are written. -/
theorem keysKept_allowsWrites : Store.AllowsWrites Store.KeysKept where
  preorder :=
    { refl := fun σ address => List.prefix_refl _
      trans := fun _ _ _ h h' address => (h address).trans (h' address) }
  quiet h := .of_entries fun address => by rw [Store.entries, Store.entries, h.mappings_eq]
  setAttribute v name value := by
    -- values other than mappings and objects refuse to be written
    have hquiet : ∀ σ τ : Store, σ.SameContents τ → σ.KeysKept τ := fun σ τ h =>
      .of_entries fun address => by rw [Store.entries, Store.entries, h.mappings_eq]
    intro σ
    cases v with
    | mapping address =>
        rw [Value.setAttribute_mapping]
        cases hwritten : Value.setEntry σ name value (σ.entries address) with
        | error fault => exact fun other => List.prefix_refl _
        | ok entries =>
            intro other
            show _ <+: ((σ.setEntries address entries).entries other).map Prod.fst
            rw [Store.entries_setEntries_eq]
            split
            · rename_i h
              rw [h.1]
              exact Store.KeysKept.setEntry hwritten
            · exact List.prefix_refl _
    | object address =>
        rw [Value.setAttribute_object]
        split
        · exact fun other => List.prefix_refl _
        · exact fun other => List.prefix_refl _
    | row _ type _ =>
        refine (?_ : Eval.IsQuiet _).imp hquiet σ
        refine leaves_get_bind fun _ => ?_
        dsimp only
        split <;> exact leaves_throw _
    | _ => exact (quiet_get_throw _).imp hquiet σ

end Rubric
