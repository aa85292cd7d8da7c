import Rubric.Proofs.Evaluator.Opening
import Rubric.Proofs.Evaluator.Start
import Rubric.Proofs.Evaluator.Trace
import Rubric.Proofs.Value.Mapping

/-!
# The table of an evaluator

An evaluator binds the attributes of its records and the reserved names when it is made.  Runs bind
the reserved names one by one, and any step between two of them may fail.  What is bound suits its
name all the same, whatever was called before and wherever it stopped.

* `Table` : the names of an evaluator, with their kinds and what suits them;
* `Table.rebind` : binding a reserved name to what suits it keeps the table;
* `table_afterCalls` : calls in a row keep it.
-/

namespace Rubric

open Rubric.Script

/-- A name of a binder is bound. -/
theorem Binder.get?_of_mem_names {b : Binder} {name : String} (hname : name ∈ b.names) :
    ∃ binding ∈ b.bindings, b.get? name = some binding ∧ binding.name = name := by
  obtain ⟨found, hfound, rfl⟩ := List.mem_map.mp hname
  have hsome : (b.get? found.name).isSome := by
    rw [Binder.get?, List.find?_isSome]
    exact ⟨found, hfound, by simp⟩
  obtain ⟨binding, hget⟩ := Option.isSome_iff_exists.mp hsome
  exact ⟨binding, List.mem_of_find?_eq_some hget, hget, Binder.name_of_get? hget⟩

namespace Evaluator

/-! ## What suits a name -/

/-- Whether a value is nothing yet, or a target. -/
def HoldsTarget (v : Value) : Prop := v = .null ∨ ∃ t : Target, v = t.toValue

/-- Whether a value is nothing yet, or a compiled selector. -/
def HoldsSelector (v : Value) : Prop := v = .null ∨ ∃ s, v = .selector s

/-- Whether a value is nothing yet, or a mapping. -/
def HoldsMapping (v : Value) : Prop := v = .null ∨ ∃ address, v = .mapping address

/-- Whether a value is nothing yet, or a list. -/
def HoldsList (v : Value) : Prop := v = .null ∨ ∃ tag items, v = .list tag items

/-- What a reserved name can stand for. -/
structure Suits (name : String) (v : Value) : Prop where
  target : name ∈ targetNames → HoldsTarget v
  selector : name ∈ selectorNames → HoldsSelector v
  mapping : name ∈ ["$classes", "$subclasses"] → HoldsMapping v
  context : name = "$ctxC" → HoldsList v

/-- Nothing suits every name. -/
theorem suits_null (name : String) : Suits name .null :=
  ⟨fun _ => .inl rfl, fun _ => .inl rfl, fun _ => .inl rfl, fun _ => .inl rfl⟩

/-- A target suits the names of targets. -/
theorem suits_target {name : String} (h : name ∈ targetNames) (t : Target) :
    Suits name t.toValue where
  target _ := .inr ⟨t, rfl⟩
  selector hname := by
    have hapart : ∀ n ∈ targetNames, n ∉ selectorNames := by decide
    exact absurd hname (hapart name h)
  mapping hname := by
    have hapart : ∀ n ∈ targetNames, n ∉ ["$classes", "$subclasses"] := by decide
    exact absurd hname (hapart name h)
  context hname := by
    subst hname
    exact absurd h (by decide)

/-- A selector suits the names of selectors. -/
theorem suits_selector {name : String} (h : name ∈ selectorNames) (s : Selector) :
    Suits name (.selector s) where
  target hname := by
    have hapart : ∀ n ∈ selectorNames, n ∉ targetNames := by decide
    exact absurd hname (hapart name h)
  selector _ := .inr ⟨s, rfl⟩
  mapping hname := by
    have hapart : ∀ n ∈ selectorNames, n ∉ ["$classes", "$subclasses"] := by decide
    exact absurd hname (hapart name h)
  context hname := by
    subst hname
    exact absurd h (by decide)

/-! ## The table -/

/-- Whether a binding of an evaluator is what its name stands for: the selector of an attribute, or
what a reserved name can stand for. -/
def Stands (e : Evaluator) (binding : Binding) : Prop :=
  if binding.name ∈ e.fields then
    ∃ s, e.resolver.compile .empty (.str binding.name) = .ok s ∧ binding.value = .selector s
  else Suits binding.name binding.value

/-- Whether a binder is the table of an evaluator: its attributes and then the reserved names, each
once and with its kind, stand for what they can stand for. -/
structure Table (e : Evaluator) (b : Binder) : Prop where
  kinds : b.bindings.map (fun binding => (binding.name, binding.kind))
    = e.fields.map (·, BindingKind.selector) ++ reservedBindings
  distinct : b.names.Nodup
  stands : ∀ binding ∈ b.bindings, e.Stands binding

variable {e : Evaluator} {b : Binder}

namespace Table

/-- The names of a table. -/
theorem names_eq (h : e.Table b) : b.names = e.fields ++ reservedBindings.map Prod.fst := by
  have hnames := congrArg (List.map Prod.fst) h.kinds
  simpa [Binder.names, List.map_map, Function.comp_def] using hnames

/-- No attribute has a reserved name. -/
theorem not_mem_fields (h : e.Table b) {name : String}
    (hname : name ∈ reservedBindings.map Prod.fst) : name ∉ e.fields := by
  have hdistinct := h.distinct
  rw [h.names_eq] at hdistinct
  intro hfield
  exact (List.nodup_append.mp hdistinct).2.2 name hfield name hname rfl

/-- An attribute is bound to its selector, as a selector. -/
theorem field (h : e.Table b) {name : String} (hname : name ∈ e.fields) :
    ∃ s, e.resolver.compile .empty (.str name) = .ok s ∧
      b.get? name = some ⟨name, .selector s, .selector⟩ := by
  have hbound : name ∈ b.names := by
    rw [h.names_eq]
    exact List.mem_append_left _ hname
  obtain ⟨binding, hmem, hget, rfl⟩ := Binder.get?_of_mem_names hbound
  have hstands := h.stands binding hmem
  rw [Stands, if_pos hname] at hstands
  obtain ⟨s, hcompile, hvalue⟩ := hstands
  -- the pair of the name and its kind is among those of the attributes, no reserved name being one
  have hpair : (binding.name, binding.kind)
      ∈ e.fields.map (·, BindingKind.selector) ++ reservedBindings := by
    rw [← h.kinds]
    exact List.mem_map.mpr ⟨binding, hmem, rfl⟩
  have hkind : binding.kind = .selector := by
    rcases List.mem_append.mp hpair with hfield | hreserved
    · obtain ⟨_, -, heq⟩ := List.mem_map.mp hfield
      exact (congrArg Prod.snd heq).symm
    · exact absurd hname (h.not_mem_fields (List.mem_map.mpr ⟨_, hreserved, rfl⟩))
  refine ⟨s, hcompile, ?_⟩
  rw [hget, ← hvalue, ← hkind]

/-- A reserved name is bound to what suits it. -/
theorem reserved (h : e.Table b) (name : String) (hname : name ∈ reservedBindings.map Prod.fst) :
    ∃ binding, b.get? name = some binding ∧ Suits name binding.value := by
  have hbound : name ∈ b.names := by
    rw [h.names_eq]
    exact List.mem_append_right _ hname
  obtain ⟨binding, hmem, hget, rfl⟩ := Binder.get?_of_mem_names hbound
  have hstands := h.stands binding hmem
  rw [Stands, if_neg (h.not_mem_fields hname)] at hstands
  exact ⟨binding, hget, hstands⟩

/-- Binding a reserved name to what suits it keeps the table. -/
theorem rebind (h : e.Table b) {name : String} (hname : name ∈ reservedBindings.map Prod.fst)
    {value : Value} (hvalue : Suits name value) : e.Table (b.rebind name value none) where
  kinds := by
    rw [← h.kinds]
    simp only [Binder.rebind, List.map_map]
    refine List.map_congr_left fun binding _ => ?_
    simp only [Function.comp, Option.getD_none]
    split <;> rfl
  distinct := by
    rw [Binder.names_rebind]
    exact h.distinct
  stands := by
    intro binding hbinding
    obtain ⟨old, hold, rfl⟩ := List.mem_map.mp hbinding
    by_cases hsame : old.name = name
    · subst hsame
      rw [if_pos rfl, Stands, if_neg (h.not_mem_fields hname)]
      exact hvalue
    · rw [if_neg hsame]
      exact h.stands old hold

end Table

/-! ## Construction -/

/-- Adding a name that is new adds its binding at the end. -/
theorem bindings_of_add {b b' : Binder} {name : String} {value : Value} {kind : BindingKind}
    (h : b.add name value (some kind) = .ok b') :
    name ∉ b.names ∧ b'.bindings = b.bindings ++ [⟨name, value, kind⟩] := by
  unfold Binder.add at h
  split at h
  · cases h
  · rename_i hfree
    cases h
    refine ⟨fun hname => hfree ?_, rfl⟩
    obtain ⟨binding, hbinding, rfl⟩ := List.mem_map.mp hname
    rw [Binder.contains, Binder.get?, List.find?_isSome]
    exact ⟨binding, hbinding, by simp⟩

/-- Binding the attributes of a shape binds each to its selector, and none twice. -/
theorem fields_of_bindFields {resolver : Resolver} (names : List String) :
    ∀ {b b' : Binder}, bindFields resolver b names = .ok b' → b.names.Nodup →
      b'.names.Nodup ∧ ∃ added, b'.bindings = b.bindings ++ added ∧
        added.map (fun binding => (binding.name, binding.kind))
          = names.map (·, BindingKind.selector) ∧
        ∀ binding ∈ added, ∃ s, resolver.compile .empty (.str binding.name) = .ok s ∧
          binding.value = .selector s := by
  -- on the attributes, for every binder, since each one is bound in the binder that the ones before it leave
  induction names with
  | nil =>
      intro b b' h hb
      cases h
      exact ⟨hb, [], by simp⟩
  | cons name names ih =>
      intro b b' h hb
      simp only [bindFields, bind, Except.bind] at h
      split at h
      · cases h
      · rename_i selector hselector
        split at h
        · cases h
        · rename_i middle hmiddle
          obtain ⟨hnew, hbindings⟩ := bindings_of_add hmiddle
          have hdistinct : middle.names.Nodup := by
            simp only [Binder.names, hbindings, List.map_append, List.map_cons, List.map_nil]
            exact List.nodup_append.mpr ⟨hb, by simp, by
              intro old hold other hother
              rw [List.mem_singleton.mp hother]
              rintro rfl
              exact hnew hold⟩
          obtain ⟨hall, added, hadded, hkinds, hvalues⟩ := ih h hdistinct
          refine ⟨hall, ⟨name, .selector selector, .selector⟩ :: added, ?_, ?_, ?_⟩
          · rw [hadded, hbindings, List.append_assoc, List.singleton_append]
          · rw [List.map_cons, List.map_cons, hkinds]
          · rintro binding (_ | ⟨_, hbinding⟩)
            · exact ⟨selector, hselector, rfl⟩
            · exact hvalues binding hbinding

/-- The binder of a new evaluator is its table. -/
theorem table_of_initialBinder (h : e.initialBinder = .ok b) : e.Table b := by
  simp only [initialBinder, bind, Except.bind] at h
  split at h
  · cases h
  · rename_i attributes hattributes
    obtain ⟨hdistinct, added, hadded, hkinds, hvalues⟩ :=
      fields_of_bindFields e.fields hattributes List.nodup_nil
    obtain ⟨hnew, hbindings⟩ := bindings_of_bindReserved _ h
    have hattributes : attributes.bindings = added := by rw [hadded]; rfl
    -- the attributes are bound first, so no name of theirs is reserved: binding it again would have failed
    have hnames : attributes.names = e.fields := by
      have hfirst := congrArg (List.map Prod.fst) hkinds
      simpa [Binder.names, hattributes, List.map_map, Function.comp_def] using hfirst
    have hapart : ∀ name ∈ e.fields, name ∉ reservedBindings.map Prod.fst := by
      intro name hname hreserved
      obtain ⟨entry, hentry, rfl⟩ := List.mem_map.mp hreserved
      refine hnew entry hentry ?_
      rw [← hnames] at hname
      obtain ⟨binding, hbinding, hsame⟩ := List.mem_map.mp hname
      rw [Binder.contains, Binder.get?, List.find?_isSome]
      exact ⟨binding, hbinding, by simp [hsame]⟩
    refine ⟨?_, ?_, ?_⟩
    · rw [hbindings, hattributes, List.map_append, hkinds]
      simp [List.map_map, Function.comp_def]
    · have hall : b.names = e.fields ++ reservedBindings.map Prod.fst := by
        rw [← hnames]
        simp [Binder.names, hbindings, List.map_map, Function.comp_def]
      rw [hall]
      refine List.nodup_append.mpr ⟨hnames ▸ hdistinct, by decide, ?_⟩
      intro name hname other hother heq
      exact hapart name hname (heq ▸ hother)
    · intro binding hbinding
      rw [hbindings, hattributes] at hbinding
      rcases List.mem_append.mp hbinding with hfield | hreserved
      · have hname : binding.name ∈ e.fields := by
          rw [← hnames, Binder.names, hattributes]
          exact List.mem_map.mpr ⟨binding, hfield, rfl⟩
        rw [Stands, if_pos hname]
        exact hvalues binding hfield
      · obtain ⟨entry, hentry, rfl⟩ := List.mem_map.mp hreserved
        have hname : entry.1 ∉ e.fields := fun hfield =>
          hapart entry.1 hfield (List.mem_map.mpr ⟨entry, hentry, rfl⟩)
        rw [Stands, if_neg hname]
        exact suits_null entry.1

/-! ## What keeps the table -/

/-- Whether a session has the table of an evaluator. -/
def HasTable (e : Evaluator) (s : Session) : Prop := e.Table s.binder

/-- Whether the hooks of an evaluator keep its table where they find it. -/
structure HooksKeepTable (e : Evaluator) : Prop where
  before : ∀ item context, (e.before item context).Keeps e.HasTable
  after : ∀ item context, (e.after item context).Keeps e.HasTable

/-- Hooks that leave the bindings alone keep the table. -/
theorem HooksKeepBindings.keepTable (h : e.HooksKeepBindings) : e.HooksKeepTable := by
  have hkeeps : ∀ action : Action Unit, (∀ s, (stateLeft (action s)).binder = s.binder) →
      action.Keeps e.HasTable := by
    intro action haction s hs
    have hsame := haction s
    cases hresult : action s with
    | ok u t | error fault t =>
        rw [hresult] at hsame
        exact (congrArg e.Table hsame).mpr hs
  exact ⟨fun item context => hkeeps _ fun s => (h.before item context s).1,
    fun item context => hkeeps _ fun s => (h.after item context s).1⟩

/-- Computations on values keep the table. -/
theorem keepsTable_ofEval {α : Type} (action : Eval α) : (Action.ofEval action).Keeps e.HasTable := by
  intro s hs
  unfold Action.ofEval
  cases action s.store <;> exact hs

/-- Binding a reserved name to what suits it keeps the table. -/
theorem keepsTable_bind {name : String} (hname : name ∈ reservedBindings.map Prod.fst)
    {value : Value} (hvalue : Suits name value) : (Action.bind name value).Keeps e.HasTable := by
  intro s hs
  cases hresult : Action.bind name value s with
  | ok u t =>
      obtain ⟨-, rfl⟩ := Action.eq_of_bind hresult
      exact Table.rebind hs hname hvalue
  | error fault t =>
      unfold Action.bind at hresult
      split at hresult
      · cases hresult
      · cases hresult
        exact hs

/-- Binding a reserved name to what a computation answers keeps the table, where every answer suits
the name. -/
theorem keepsTable_bindAnswer {name : String} (hname : name ∈ reservedBindings.map Prod.fst)
    {action : Eval Value} (h : ∀ σ v σ', action σ = .ok v σ' → Suits name v) :
    (Action.ofEval action >>= Action.bind name).Keeps e.HasTable := by
  intro s hs
  cases hanswer : action s.store with
  | ok v σ =>
      have hok : Action.ofEval action s = .ok v { s with store := σ } := by
        rw [Action.ofEval, hanswer]
      rw [bind_of_ok hok]
      exact keepsTable_bind hname (h _ _ _ hanswer) _ hs
  | error fault σ =>
      have herror : Action.ofEval action s = .error fault { s with store := σ } := by
        rw [Action.ofEval, hanswer]
      rw [bind_of_error herror]
      exact hs

/-- Binding a name of selectors to a compiled expression keeps the table. -/
theorem keepsTable_bindCompiled {name : String} (hname : name ∈ selectorNames)
    (compile : Resolver → Store → Value → Except Fault Selector) (expression : Value) :
    (e.bindCompiled name compile expression).Keeps e.HasTable := by
  have hreserved : ∀ n ∈ selectorNames, n ∈ reservedBindings.map Prod.fst := by decide
  refine Action.Keeps.bind (Action.keeps_get.bind fun _ => keepsTable_ofEval _) fun s => ?_
  exact keepsTable_bind (hreserved name hname) (suits_selector hname s)

/-- Binding a target keeps the table. -/
theorem keepsTable_bindTarget {name : String} (hname : name ∈ targetNames) (t : Target) :
    (Action.bind name t.toValue).Keeps e.HasTable := by
  have hreserved : ∀ n ∈ targetNames, n ∈ reservedBindings.map Prod.fst := by decide
  exact keepsTable_bind (hreserved name hname) (suits_target hname t)

/-! ## The steps of a run -/

/-- Copying a mapping makes a mapping. -/
theorem suits_copyMapping {name : String} (hname : name ∈ ["$classes", "$subclasses"]) (v : Value) :
    ∀ σ copy σ', v.copyMapping σ = .ok copy σ' → Suits name copy := by
  intro σ copy σ' hcopy
  rw [Value.copyMapping_eq] at hcopy
  have hmapping : ∃ address, copy = .mapping address := by
    split at hcopy
    · cases hcopy
      exact ⟨_, rfl⟩
    · cases hcopy
  have hapart : ∀ n ∈ ["$classes", "$subclasses"],
      n ∉ targetNames ∧ n ∉ selectorNames ∧ n ≠ "$ctxC" := by decide
  obtain ⟨htarget, hselector, hcontext⟩ := hapart name hname
  exact ⟨fun h => absurd h htarget, fun h => absurd h hselector, fun _ => .inr hmapping,
    fun h => absurd h hcontext⟩

/-- A new list suits the name of the context. -/
theorem suits_newList (items : List Value) :
    ∀ σ list σ', Eval.newList items σ = .ok list σ' → Suits "$ctxC" list := by
  rintro σ list σ' ⟨⟩
  exact ⟨fun h => absurd h (by decide), fun h => absurd h (by decide),
    fun h => absurd h (by decide), fun _ => .inr ⟨_, items, rfl⟩⟩

/-- Binding the relation and the descriptions of labels keeps the table. -/
theorem keepsTable_bindShared (relation classes subclasses : Value) :
    (bindShared relation classes subclasses).Keeps e.HasTable := by
  have hrelation : Suits "$pkAll" relation :=
    ⟨fun h => absurd h (by decide), fun h => absurd h (by decide), fun h => absurd h (by decide),
      fun h => absurd h (by decide)⟩
  refine (keepsTable_bind (by decide) hrelation).bind fun _ => ?_
  rw [← bind_assoc]
  refine Action.Keeps.bind ?_ fun _ => ?_
  · exact keepsTable_bindAnswer (by decide) (suits_copyMapping (by decide) classes)
  · exact keepsTable_bindAnswer (by decide) (suits_copyMapping (by decide) subclasses)

/-- Binding the result field keeps the table. -/
theorem keepsTable_bindResultKey (expression : Value) :
    (e.bindResultKey expression).Keeps e.HasTable := by
  refine Action.Keeps.bind (Action.keeps_get.bind fun _ => keepsTable_ofEval _) fun target => ?_
  exact (keepsTable_bindTarget (by decide) target).bind fun _ => Action.keeps_pure target

/-- Finding the result field keeps the table. -/
theorem keepsTable_resultTarget (expression : Value) :
    (e.resultTarget expression).Keeps e.HasTable := by
  unfold Evaluator.resultTarget
  split
  · exact keepsTable_bindResultKey expression
  · refine (Action.keeps_bound _).bind fun v => ?_
    split
    · exact Action.keeps_throw _
    · split
      · exact Action.keeps_pure _
      · exact keepsTable_bindResultKey v

/-- Compiling an expression keeps the table. -/
theorem keepsTable_compiled {α : Type} (compile : Resolver → Store → Value → Except Fault α)
    (expression : Value) : (e.compiled compile expression).Keeps e.HasTable :=
  Action.keeps_get.bind fun _ => keepsTable_ofEval _

/-- What a run compiles and binds before its relation keeps the table, wherever it stops. -/
theorem keepsTable_opening (r : Run) : (r.opening e).Keeps e.HasTable := by
  cases r with
  | full values request =>
      refine (keepsTable_compiled _ _).bind fun key => ?_
      refine (keepsTable_compiled _ _).bind fun result => ?_
      refine (keepsTable_compiled _ _).bind fun obs => ?_
      refine (keepsTable_bindCompiled (by decide) _ _).bind fun _ => ?_
      refine (keepsTable_bindCompiled (by decide) _ _).bind fun _ => ?_
      refine (keepsTable_bindCompiled (by decide) _ _).bind fun _ => ?_
      refine (keepsTable_bindCompiled (by decide) _ _).bind fun _ => ?_
      refine (keepsTable_bind (by decide) (suits_selector (by decide) key)).bind fun _ => ?_
      refine (keepsTable_bindTarget (by decide) result).bind fun _ => ?_
      refine (keepsTable_bindTarget (by decide) result).bind fun _ => ?_
      exact (keepsTable_bindTarget (by decide) obs).bind fun _ => Action.keeps_pure _
  | simple values request =>
      refine (keepsTable_compiled _ _).bind fun key => ?_
      refine (keepsTable_resultTarget _).bind fun result => ?_
      refine (keepsTable_bind (by decide) (suits_selector (by decide) key)).bind fun _ => ?_
      exact (keepsTable_bindTarget (by decide) result).bind fun _ => Action.keeps_pure _

/-- Preparing a script keeps the table. -/
theorem keepsTable_prepare (script : Value) : (e.prepare script).Keeps e.HasTable := by
  refine Action.keeps_get.bind fun s => (keepsTable_ofEval _).bind fun prepared => ?_
  exact Action.Keeps.bind (fun s hs => hs) fun _ => Action.keeps_pure _

/-- What is done for an item keeps the table, wherever it stops. -/
theorem keepsTable_handleItem (hhooks : e.HooksKeepTable) (p : Plan) (records : List Record)
    (item : Record) : (handleItem e p records item).Keeps e.HasTable := by
  have hnote : ∀ step context, (note step item context).Keeps e.HasTable :=
    fun step context s hs => hs
  have hitem : Suits "$ctxI" item.value :=
    ⟨fun h => absurd h (by decide), fun h => absurd h (by decide), fun h => absurd h (by decide),
      fun h => absurd h (by decide)⟩
  refine (keepsTable_ofEval _).bind fun context => ?_
  refine (hnote _ _).bind fun _ => ?_
  refine (hhooks.before item context).bind fun _ => ?_
  refine (keepsTable_bind (by decide) hitem).bind fun _ => ?_
  rw [← bind_assoc]
  refine (keepsTable_bindAnswer (by decide) (suits_newList _)).bind fun _ => ?_
  refine (hnote _ _).bind fun _ => ?_
  refine Action.Keeps.bind (Action.keeps_get.bind fun s => keepsTable_ofEval _) fun _ => ?_
  refine (hnote _ _).bind fun _ => ?_
  refine Action.Keeps.bind ((keepsTable_ofEval _).bind fun result => fun s hs => hs) fun _ => ?_
  exact (hnote _ _).bind fun _ => hhooks.after item context

/-- Processing one item after the other keeps the table, wherever it stops. -/
theorem keepsTable_processFrom (hhooks : e.HooksKeepTable) (p : Plan)
    (records remaining : List Record) :
    ∀ (seen : SeenKeys) (count : Nat),
      (processFrom e p records seen count remaining).Keeps e.HasTable := by
  induction remaining with
  | nil =>
      intro seen count
      exact Action.keeps_pure count
  | cons record remaining ih =>
      intro seen count
      refine (keepsTable_ofEval _).bind fun found => ?_
      cases found with
      | none => exact ih seen count
      | some seen' =>
          have hitem : (processItem e p records record).Keeps e.HasTable :=
            (keepsTable_ofEval _).bind fun _ =>
              (keepsTable_handleItem hhooks p records record).bind fun _ => keepsTable_ofEval _
          exact hitem.bind fun _ => ih seen' (count + 1)

/-- Carrying out a plan keeps the table, wherever it stops. -/
theorem keepsTable_carryOut (hhooks : e.HooksKeepTable) (records : List Record) (full : Bool)
    (p : Plan) : (e.carryOut records full p).Keeps e.HasTable := by
  refine (keepsTable_ofEval _).bind fun total => ?_
  refine (keepsTable_processFrom hhooks p records records _ _).bind fun processed => ?_
  refine Action.keeps_get.bind fun _ => ?_
  refine (keepsTable_ofEval _).bind fun report => ?_
  exact Action.Keeps.bind (fun s hs => hs) fun _ => Action.keeps_pure _

/-- The steps of a run keep the table, wherever they stop. -/
theorem keepsTable_steps (hhooks : e.HooksKeepTable) (r : Run) :
    (r.plan e >>= e.carryOut r.records r.isFull).Keeps e.HasTable := by
  rw [Run.steps_eq]
  refine (keepsTable_opening r).bind fun opened => ?_
  refine (keepsTable_ofEval _).bind fun relation => ?_
  refine (keepsTable_bindShared _ _ _).bind fun _ => ?_
  refine (keepsTable_prepare _).bind fun job => ?_
  exact keepsTable_carryOut hhooks _ _ _

/-! ## Calls in a row -/

/-- A call keeps the table, whether it succeeds or fails. -/
theorem Call.keepsTable (hhooks : e.HooksKeepTable) (call : Call) {s : Session}
    (hs : e.HasTable s) : e.HasTable (call.after e s) := by
  cases call with
  | run r =>
      have hsteps := keepsTable_steps hhooks r { s with classification := .empty } hs
      simp only [Call.after, Run.perform_eq, settle]
      cases hrun : (r.plan e >>= e.carryOut r.records r.isFull)
          { s with classification := .empty } with
      | ok answer t | error fault t =>
          rw [hrun] at hsteps
          exact hsteps
  | bindResultKey expression =>
      have hbound := keepsTable_bindResultKey expression s hs
      simp only [Call.after]
      cases hresult : e.bindResultKey expression s with
      | ok target t | error fault t =>
          rw [hresult] at hbound
          exact hbound
  | elsewhere change => exact hs

/-- Calls in a row keep the table. -/
theorem hasTable_afterCalls (hhooks : e.HooksKeepTable) (calls : List Call) :
    ∀ {s : Session}, e.HasTable s → e.HasTable (e.afterCalls calls s) := by
  induction calls with
  | nil => exact fun hs => hs
  | cons call calls ih => exact fun hs => ih (call.keepsTable hhooks hs)

/-- A new evaluator has its table. -/
theorem hasTable_of_start {σ : Store} {new : Session} (hnew : e.start σ = .ok new) :
    e.HasTable new := by
  obtain ⟨b, hb, rfl⟩ := eq_of_start hnew
  exact table_of_initialBinder hb

/-- After any calls on a new evaluator, whether they succeeded or failed, and wherever, its binder has
the names it was made with, in that order and with their kinds.  Every attribute is bound to its
selector, and every reserved name to nothing yet or to what it stands for. -/
theorem table_afterCalls (hhooks : e.HooksKeepTable) {σ : Store} {new : Session}
    (hnew : e.start σ = .ok new) (calls : List Call) :
    let b := (e.afterCalls calls new).binder
    b.bindings.map (fun binding => (binding.name, binding.kind))
        = e.fields.map (·, BindingKind.selector) ++ reservedBindings ∧
      (∀ name ∈ e.fields, ∃ s, e.resolver.compile .empty (.str name) = .ok s ∧
        b.get? name = some ⟨name, .selector s, .selector⟩) ∧
      (∀ name ∈ ["$result", "$obs", "resultKey"],
        ∃ binding, b.get? name = some binding ∧ HoldsTarget binding.value) ∧
      (∀ name ∈ ["evalKey", "evalKeyDisplayValue", "evalBasedKey", "evalBasedKeyDisplayValue",
        "itemKey"], ∃ binding, b.get? name = some binding ∧ HoldsSelector binding.value) ∧
      (∀ name ∈ ["$classes", "$subclasses"],
        ∃ binding, b.get? name = some binding ∧ HoldsMapping binding.value) ∧
      ∃ binding, b.get? "$ctxC" = some binding ∧ HoldsList binding.value := by
  have htable : e.Table (e.afterCalls calls new).binder :=
    hasTable_afterCalls hhooks calls (hasTable_of_start hnew)
  refine ⟨htable.kinds, fun name hname => htable.field hname, ?_, ?_, ?_, ?_⟩
  · intro name hname
    have hreserved : ∀ n ∈ ["$result", "$obs", "resultKey"],
        n ∈ reservedBindings.map Prod.fst ∧ n ∈ targetNames := by decide
    obtain ⟨binding, hget, hsuits⟩ := htable.reserved name (hreserved name hname).1
    exact ⟨binding, hget, hsuits.target (hreserved name hname).2⟩
  · intro name hname
    have hreserved : ∀ n ∈ selectorNames, n ∈ reservedBindings.map Prod.fst := by decide
    obtain ⟨binding, hget, hsuits⟩ := htable.reserved name (hreserved name hname)
    exact ⟨binding, hget, hsuits.selector hname⟩
  · intro name hname
    have hreserved : ∀ n ∈ ["$classes", "$subclasses"], n ∈ reservedBindings.map Prod.fst := by
      decide
    obtain ⟨binding, hget, hsuits⟩ := htable.reserved name (hreserved name hname)
    exact ⟨binding, hget, hsuits.mapping hname⟩
  · obtain ⟨binding, hget, hsuits⟩ := htable.reserved "$ctxC" (by decide)
    exact ⟨binding, hget, hsuits.context rfl⟩

/-- The hooks of the evaluator of grades keep its table. -/
theorem hooksKeepTable_grader : grader.HooksKeepTable where
  before _ _ := keepsTable_ofEval (return ())
  after item _ := keepsTable_ofEval (item.value.writePath ["done"] (.bool true))

/-- The table of that evaluator after a run without a result field, a result field that no record has,
a run that stops at an item, and one whose script cannot be read. -/
theorem table_afterCalls_grader : ∃ new, grader.start gradedStore = .ok new ∧
    let calls : List Call :=
      [.run (.simple [.mapping 0] ⟨.str "k", .null, .str "SET $x = 1\n", .null, .null, .null⟩),
        .bindResultKey (.str "rank"),
        .run (.full [.mapping 0, .mapping 1] (gradeRequest "SET $result = 1 / $result\n")),
        .run (.full [.mapping 0] (gradeRequest "SET\n"))]
    let b := (grader.afterCalls calls new).binder
    b.bindings.map (fun binding => (binding.name, binding.kind))
        = [("k", BindingKind.selector), ("grade", BindingKind.selector)] ++ reservedBindings ∧
      b.get? "grade" = some ⟨"grade", .selector (.path "grade" ["grade"]), .selector⟩ ∧
      ∃ binding, b.get? "$result" = some binding ∧ HoldsTarget binding.value := by
  obtain ⟨new, hnew⟩ := start_grader gradedStore
  refine ⟨new, hnew, ?_⟩
  intro calls b
  obtain ⟨hkinds, hfields, htargets, -⟩ := table_afterCalls hooksKeepTable_grader hnew calls
  refine ⟨hkinds, ?_, htargets "$result" (by decide)⟩
  obtain ⟨s, hcompile, hget⟩ := hfields "grade" (by decide)
  rw [compile_grader_grade] at hcompile
  cases hcompile
  exact hget

end Evaluator

end Rubric
