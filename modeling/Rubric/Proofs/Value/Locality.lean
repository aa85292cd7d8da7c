import Rubric.Proofs.Sequencing
import Rubric.Proofs.Value.Reads
import Rubric.Proofs.Value.Template

/-!
# Local computations

A scope says which places a computation may read, which attributes of which places it may write, and
how stores may differ after that.  A local computation goes by what it may read and write: in two
stores that agree on what it may read it gives the same value or fault and leaves them in agreement,
and whether it succeeds or fails, it changes nothing but what it may write.

* `Scope`, `Footprint` : what may be read and written, in general and by lists of attributes;
* `Eval.Local` : computations on values that are local.
-/

namespace Rubric

open Value (Place)

/-! ## What is written -/

/-- The entries whose keys are none of some names. -/
def Value.otherEntries (names : List String) (entries : List (Value × Value)) :
    List (Value × Value) :=
  entries.filter fun entry =>
    match entry.1 with
    | .str s => !names.contains s
    | _ => true

/-- The attributes with none of some names. -/
def Value.otherAttributes (names : List String) (attributes : List (String × Value)) :
    List (String × Value) :=
  attributes.filter fun a => !names.contains a.1

/-- Where nothing may be written, all the entries are the others. -/
@[simp] theorem Value.otherEntries_nil (entries : List (Value × Value)) :
    otherEntries [] entries = entries := by
  simp only [otherEntries, List.filter_eq_self]
  intro entry _
  split <;> rfl

/-- Where nothing may be written, all the attributes are the others. -/
@[simp] theorem Value.otherAttributes_nil (attributes : List (String × Value)) :
    otherAttributes [] attributes = attributes := by
  simp [otherAttributes]

/-- Whether the fields of an object keep the value they were made with. -/
def Object.isFrozen (o : Object) : Bool := o.type.structured && o.type.frozen

/-- Whether a store differs from an earlier one by the attributes that may be written at each place
only, those of frozen objects and tags aside. -/
structure Store.Rewrites (writes : Place → List String) (σ τ : Store) : Prop where
  mappings_size : τ.mappings.size = σ.mappings.size
  objects_size : τ.objects.size = σ.objects.size
  runs_eq : τ.runs = σ.runs
  entries_eq : ∀ address, Value.otherEntries (writes (.mapping address)) (τ.entries address)
    = Value.otherEntries (writes (.mapping address)) (σ.entries address)
  type_eq : ∀ address, (τ.object address).type = (σ.object address).type
  attributes_eq : ∀ address,
    Value.otherAttributes (writes (.object address)) (τ.object address).attributes
      = Value.otherAttributes (writes (.object address)) (σ.object address).attributes
  frozen_eq : ∀ address, (σ.object address).isFrozen → τ.object address = σ.object address

namespace Store.Rewrites

variable {writes : Place → List String} {σ τ υ : Store}

/-- A store that is left as it was differs by nothing. -/
theorem refl (writes : Place → List String) (σ : Store) : σ.Rewrites writes σ :=
  ⟨rfl, rfl, rfl, fun _ => rfl, fun _ => rfl, fun _ => rfl, fun _ _ => rfl⟩

/-- What is written in a row. -/
theorem trans (h : σ.Rewrites writes τ) (h' : τ.Rewrites writes υ) : σ.Rewrites writes υ where
  mappings_size := h'.mappings_size.trans h.mappings_size
  objects_size := h'.objects_size.trans h.objects_size
  runs_eq := h'.runs_eq.trans h.runs_eq
  entries_eq address := (h'.entries_eq address).trans (h.entries_eq address)
  type_eq address := (h'.type_eq address).trans (h.type_eq address)
  attributes_eq address := (h'.attributes_eq address).trans (h.attributes_eq address)
  frozen_eq address hfrozen := by
    have hkept := h.frozen_eq address hfrozen
    rw [← hkept] at hfrozen
    exact (h'.frozen_eq address hfrozen).trans hkept

/-- Taking a tag writes nothing. -/
theorem withTag (writes : Place → List String) (σ : Store) (tag : Tag) :
    σ.Rewrites writes { σ with nextTag := tag } :=
  ⟨rfl, rfl, rfl, fun _ => rfl, fun _ => rfl, fun _ => rfl, fun _ _ => rfl⟩

/-- A mapping of which nothing may be written keeps its entries. -/
theorem entries_kept (h : σ.Rewrites writes τ) {address : Nat} (hnone : writes (.mapping address) = []) :
    τ.entries address = σ.entries address := by
  simpa [hnone] using h.entries_eq address

/-- An object of which nothing may be written is kept. -/
theorem object_kept (h : σ.Rewrites writes τ) {address : Nat} (hnone : writes (.object address) = []) :
    τ.object address = σ.object address := by
  have hattributes := h.attributes_eq address
  simp only [hnone, Value.otherAttributes_nil] at hattributes
  calc τ.object address = ⟨(τ.object address).type, (τ.object address).attributes⟩ := rfl
    _ = ⟨(σ.object address).type, (σ.object address).attributes⟩ := by
      rw [h.type_eq address, hattributes]

end Store.Rewrites

/-! ## Footprints -/

/-- What a computation may read, and the attributes that it may write at each place.  What setters
within what it may read write, may be written everywhere in it. -/
structure Footprint where
  reads : Region
  writes : Place → List String
  setters_may : ∀ name ∈ reads.written, ∀ p ∈ reads, name ∈ writes p

/-- What a computation may read, the attributes that it may write at each place, and how stores may
differ from earlier ones when no more was written.  What setters within what it may read write, may be
written everywhere in it. -/
structure Scope where
  reads : Region
  mayWrite : Place → String → Prop
  rewrites : Store → Store → Prop
  setters_may : ∀ name ∈ reads.written, ∀ p ∈ reads, mayWrite p name
  refl : ∀ σ, rewrites σ σ
  trans : ∀ {σ τ υ}, rewrites σ τ → rewrites τ υ → rewrites σ υ
  withTag : ∀ (σ : Store) (tag : Tag), rewrites σ { σ with nextTag := tag }
  setEntries : ∀ (σ : Store) {address : Nat} {name : String} {entries : List (Value × Value)},
    Place.mapping address ∈ reads → mayWrite (.mapping address) name →
    Value.otherEntries [name] entries = Value.otherEntries [name] (σ.entries address) →
    rewrites σ (σ.setEntries address entries)
  setAttributes : ∀ (σ : Store) {address : Nat} {name : String} {attributes : List (String × Value)},
    Place.object address ∈ reads → mayWrite (.object address) name →
    (σ.object address).isFrozen = false →
    Value.otherAttributes [name] attributes
      = Value.otherAttributes [name] (σ.object address).attributes →
    rewrites σ (σ.setAttributes address attributes)

/-- Whether two stores agree on what may be read. -/
abbrev Scope.Sees (F : Scope) (σ σ' : Store) : Prop := σ.Agree F.reads σ'

/-! ## Local computations -/

/-- A way to compare the states of computations: which states agree on what may be read, and which
differ from earlier ones by what may be written only. -/
structure StateFrame (S : Type) where
  sees : S → S → Prop
  rewrites : S → S → Prop
  refl : ∀ s, rewrites s s
  trans : ∀ {s t u}, rewrites s t → rewrites t u → rewrites s u

/-- Whether two computations do the same in states that agree on what may be read, where they succeed
and where they fail, leave such states in agreement, and change no more than may be written; and
whether their value has a property. -/
structure StateFrame.Alike {S α : Type} (frame : StateFrame S) (action action' : EStateM Fault S α)
    (post : α → Prop) : Prop where
  ok : ∀ ⦃s s' : S⦄, frame.sees s s' → ∀ ⦃a : α⦄ ⦃t : S⦄, action s = .ok a t →
    post a ∧ frame.rewrites s t ∧
      ∃ t', action' s' = .ok a t' ∧ frame.sees t t' ∧ frame.rewrites s' t'
  error : ∀ ⦃s s' : S⦄, frame.sees s s' → ∀ ⦃fault : Fault⦄ ⦃t : S⦄,
    action s = .error fault t → frame.rewrites s t ∧
      ∃ t', action' s' = .error fault t' ∧ frame.sees t t' ∧ frame.rewrites s' t'

/-- Whether a computation does the same in every state that agrees on what it may read, and changes no
more than it may. -/
abbrev StateFrame.Local {S α : Type} (frame : StateFrame S) (action : EStateM Fault S α)
    (post : α → Prop) : Prop :=
  frame.Alike action action post

/-- Whether two computations ended the same, in states that agree on what may be read. -/
def StateFrame.Ends {S α : Type} (frame : StateFrame S) :
    EStateM.Result Fault S α → EStateM.Result Fault S α → Prop
  | .ok a t, .ok a' t' => a = a' ∧ frame.sees t t'
  | .error fault t, .error fault' t' => fault = fault' ∧ frame.sees t t'
  | _, _ => False

/-- The states of computations on values, compared by a scope. -/
def Scope.frame (F : Scope) : StateFrame Store where
  sees := F.Sees
  rewrites := F.rewrites
  refl := F.refl
  trans := F.trans

/-- Whether a computation on values is local. -/
abbrev Eval.Local {α : Type} (F : Scope) (action : Eval α) (post : α → Prop) : Prop :=
  F.frame.Local action post

namespace StateFrame

variable {S α β : Type} {frame : StateFrame S} {post : α → Prop} {post' : β → Prop}

/-- Answering is local. -/
theorem local_pure {a : α} (ha : post a) : frame.Local (pure a) post where
  ok s s' hs _ _ hok := by
    cases hok
    exact ⟨ha, frame.refl s, s', rfl, hs, frame.refl s'⟩
  error _ _ _ _ _ herror := by cases herror

/-- Failing is local. -/
theorem local_throw (fault : Fault) : frame.Local (throw fault) post where
  ok _ _ _ _ _ hok := by cases hok
  error s s' hs _ _ herror := by
    cases herror
    exact ⟨frame.refl s, s', rfl, hs, frame.refl s'⟩

/-- Two computations in a row are alike where each is. -/
theorem Alike.bind {first first' : EStateM Fault S α} {second second' : α → EStateM Fault S β}
    (hfirst : frame.Alike first first' post)
    (hsecond : ∀ a, post a → frame.Alike (second a) (second' a) post') :
    frame.Alike (first >>= second) (first' >>= second') post' where
  ok s s' hs b u hok := by
    obtain ⟨a, t, ha, hb⟩ := bind_ok.mp hok
    obtain ⟨hpost, ht, t', ha', hsees, ht'⟩ := hfirst.ok hs ha
    obtain ⟨hpost', hu, u', hb', hsees', hu'⟩ := (hsecond a hpost).ok hsees hb
    exact ⟨hpost', frame.trans ht hu, u', bind_ok.mpr ⟨a, t', ha', hb'⟩, hsees',
      frame.trans ht' hu'⟩
  error s s' hs fault u herror := by
    rcases bind_error.mp herror with herror | ⟨a, t, ha, herror⟩
    · obtain ⟨hu, u', herror', hsees, hu'⟩ := hfirst.error hs herror
      exact ⟨hu, u', bind_error.mpr (.inl herror'), hsees, hu'⟩
    · obtain ⟨hpost, ht, t', ha', hsees, ht'⟩ := hfirst.ok hs ha
      obtain ⟨hu, u', herror', hsees', hu'⟩ := (hsecond a hpost).error hsees herror
      exact ⟨frame.trans ht hu, u', bind_error.mpr (.inr ⟨a, t', ha', herror'⟩), hsees',
        frame.trans ht' hu'⟩

/-- Computations that are alike end the same. -/
theorem Alike.ends {action action' : EStateM Fault S α} (h : frame.Alike action action' post)
    {s s' : S} (hs : frame.sees s s') : frame.Ends (action s) (action' s') := by
  cases hresult : action s with
  | ok a t =>
      obtain ⟨-, -, t', hresult', ht, -⟩ := h.ok hs hresult
      rw [hresult']
      exact ⟨rfl, ht⟩
  | error fault t =>
      obtain ⟨-, t', hresult', ht, -⟩ := h.error hs hresult
      rw [hresult']
      exact ⟨rfl, ht⟩

/-- What ends the same wherever a computation succeeds, ends the same after it. -/
theorem ends_after {first : EStateM Fault S α} {second second' : α → EStateM Fault S β}
    {P : α → S → Prop} {s : S}
    (hfirst : match first s with | .ok a t => P a t | .error _ t => frame.sees t t)
    (hsecond : ∀ a t, P a t → frame.Ends (second a t) (second' a t)) :
    frame.Ends ((first >>= second) s) ((first >>= second') s) := by
  cases hresult : first s with
  | ok a t =>
      rw [hresult] at hfirst
      rw [bind_of_ok hresult, bind_of_ok hresult]
      exact hsecond a t hfirst
  | error fault t =>
      rw [hresult] at hfirst
      rw [bind_of_error hresult, bind_of_error hresult]
      exact ⟨rfl, hfirst⟩

/-- What is alike and follows computations that ended the same ends the same. -/
theorem Ends.bind {first first' : EStateM Fault S α} {second second' : α → EStateM Fault S β}
    {s s' : S} (hfirst : frame.Ends (first s) (first' s'))
    (hsecond : ∀ a t t', frame.sees t t' → frame.Ends (second a t) (second' a t')) :
    frame.Ends ((first >>= second) s) ((first' >>= second') s') := by
  cases hresult : first s with
  | ok a t =>
      cases hresult' : first' s' with
      | ok a' t' =>
          rw [hresult, hresult'] at hfirst
          obtain ⟨rfl, ht⟩ := hfirst
          rw [bind_of_ok hresult, bind_of_ok hresult']
          exact hsecond a t t' ht
      | error fault' t' =>
          rw [hresult, hresult'] at hfirst
          exact hfirst.elim
  | error fault t =>
      cases hresult' : first' s' with
      | ok a' t' =>
          rw [hresult, hresult'] at hfirst
          exact hfirst.elim
      | error fault' t' =>
          rw [hresult, hresult'] at hfirst
          rw [bind_of_error hresult, bind_of_error hresult']
          exact hfirst

/-- Computations that look at the state are alike where they are in states that agree. -/
theorem alike_get_bind {f f' : S → EStateM Fault S β}
    (h : ∀ s s', frame.sees s s' → frame.Alike (f s) (f' s') post') :
    frame.Alike (get >>= f) (get >>= f') post' where
  ok s s' hs _ _ hok := (h s s' hs).ok hs hok
  error s s' hs _ _ herror := (h s s' hs).error hs herror

/-- A computation that looks at the state is local where it looks at what may be read only. -/
theorem local_get_bind {f : S → EStateM Fault S β}
    (hsame : ∀ s s', frame.sees s s' → f s' = f s)
    (hlocal : ∀ s s', frame.sees s s' → frame.Local (f s) post') :
    frame.Local (get >>= f) post' :=
  alike_get_bind fun s s' hs => by
    rw [hsame s s' hs]
    exact hlocal s s' hs

/-- A computation for every member of a list is local where each is. -/
theorem local_mapM {f : α → EStateM Fault S β} {as : List α}
    (h : ∀ a ∈ as, frame.Local (f a) post') :
    frame.Local (as.mapM f) fun bs => ∀ b ∈ bs, post' b := by
  induction as with
  | nil => exact local_pure (by simp)
  | cons a as ih =>
      obtain ⟨ha, has⟩ := List.forall_mem_cons.mp h
      rw [List.mapM_cons]
      exact ha.bind fun b hb => (ih has).bind fun bs hbs =>
        local_pure (List.forall_mem_cons.mpr ⟨hb, hbs⟩)

/-- Going through a list is local where every step is. -/
theorem local_foldlM {f : β → α → EStateM Fault S β} {as : List α}
    (h : ∀ a ∈ as, ∀ b, post' b → frame.Local (f b a) post') :
    ∀ {b : β}, post' b → frame.Local (as.foldlM f b) post' := by
  induction as with
  | nil => intro b hb; exact local_pure hb
  | cons a as ih =>
      intro b hb
      obtain ⟨ha, has⟩ := List.forall_mem_cons.mp h
      rw [List.foldlM_cons]
      exact (ha b hb).bind fun b' hb' => ih has hb'

end StateFrame

namespace Eval

open StateFrame

variable {F : Scope} {α β : Type} {post : α → Prop} {post' : β → Prop}

/-- A computation that looks at the store is local where it looks at what may be read only. -/
theorem local_store_bind {f : Store → Eval β} (hsame : ∀ σ σ', F.Sees σ σ' → f σ' = f σ)
    (hlocal : ∀ σ, σ.Closed F.reads → Local F (f σ) post') : Local F (get >>= f) post' :=
  StateFrame.local_get_bind hsame fun σ _ hσ => hlocal σ hσ.closed

/-- A failure that is told with what may be read in view is local. -/
theorem local_get_throw {fault : Store → Fault}
    (hsame : ∀ σ σ', F.Sees σ σ' → fault σ' = fault σ) :
    Local F (get >>= fun σ => throw (fault σ)) post :=
  local_store_bind (fun σ σ' hσ => by rw [hsame σ σ' hσ]) fun _ _ => local_throw _

/-- A computed answer is local. -/
theorem local_ofExcept {answer : Except Fault α} (h : ∀ a, answer = .ok a → post a) :
    Local F (ofExcept answer) post := by
  cases answer with
  | error fault => exact local_throw fault
  | ok a => exact local_pure (h a rfl)

/-- A computed answer of which nothing is to be known is local. -/
theorem local_answer (answer : Except Fault α) : Local F (ofExcept answer) fun _ => True :=
  local_ofExcept fun _ _ => trivial

/-- An answer that is computed from what may be read is local. -/
theorem local_reads {answer : Store → Except Fault α}
    (hsame : ∀ σ σ', F.Sees σ σ' → answer σ' = answer σ)
    (h : ∀ σ a, σ.Closed F.reads → answer σ = .ok a → post a) :
    Local F (get >>= fun σ => Eval.ofExcept (answer σ)) post :=
  local_store_bind (fun σ σ' hσ => by rw [hsame σ σ' hσ]) fun σ hclosed =>
    local_ofExcept fun a => h σ a hclosed

/-- Stores that agree still do when both go on from the same tag. -/
theorem sees_withTag {σ σ' : Store} (h : F.Sees σ σ') (tag : Tag) :
    F.Sees { σ with nextTag := tag } { σ' with nextTag := tag } where
  mappings_size := h.mappings_size
  objects_size := h.objects_size
  entries_eq := h.entries_eq
  object_eq := h.object_eq
  nextTag_eq := rfl
  closed p hp := h.closed p hp

/-- Taking a tag is local. -/
theorem local_freshTag : Local F freshTag fun _ => True where
  ok σ σ' hσ tag τ hok := by
    cases hok
    refine ⟨trivial, F.withTag σ _,
      { σ' with nextTag := { σ.nextTag with serial := σ.nextTag.serial + 1 } }, ?_,
      sees_withTag hσ _, F.withTag σ' _⟩
    show EStateM.Result.ok σ'.nextTag _ = _
    rw [hσ.nextTag_eq]
  error _ _ _ _ _ herror := by cases herror

/-- Making a list is local. -/
theorem local_newList {items : List Value} (h : ∀ v ∈ items, v.Within F.reads) :
    Local F (newList items) (Value.Within F.reads) :=
  local_freshTag.bind fun _ _ => local_pure (Value.within_list.mpr h)

/-- The value of arithmetic is local. -/
theorem local_ofFloat (x : Option Number.Binary64) :
    Local F (ofFloat x) (Value.Within F.reads) := by
  cases x with
  | none => exact local_freshTag.bind fun tag _ => local_pure (Value.within_nan tag)
  | some x => exact local_pure (Value.within_float x)

end Eval

/-! ## Operators -/

namespace Value

open Eval StateFrame

variable {F : Scope}

/-- A double operation is local. -/
theorem local_onDoubles (op : Number.Binary64 → Number.Binary64 → Option Number.Binary64)
    (a b : NumberView) : Local F (onDoubles op a b) (Within F.reads) := by
  refine (local_answer _).bind fun x _ => ?_
  refine (local_answer _).bind fun y _ => ?_
  split <;> exact local_ofFloat _

/-- An operation on two numbers is local where that on integers is. -/
theorem local_onNumbers {ints : Int → Int → Eval Value}
    {doubles : Number.Binary64 → Number.Binary64 → Option Number.Binary64}
    (hints : ∀ n m, Local F (ints n m) (Within F.reads)) (a b : NumberView) :
    Local F (onNumbers ints doubles a b) (Within F.reads) := by
  unfold onNumbers
  split
  · exact hints _ _
  · exact local_onDoubles _ _ _

/-- The fault of an operator is local. -/
theorem local_operandFault {α : Type} {post : α → Prop} (operator : String) {a b : Value}
    (ha : a.Within F.reads) (hb : b.Within F.reads) : Local F (operandFault operator a b) post :=
  local_get_throw fun _ _ hσ => by rw [typeName_agree hσ ha, typeName_agree hσ hb]

/-- Two sequences of items within a region joined. -/
theorem within_append {region : Region} {xs ys : List Value} (hxs : ∀ v ∈ xs, v.Within region)
    (hys : ∀ v ∈ ys, v.Within region) : ∀ v ∈ xs ++ ys, v.Within region :=
  List.forall_mem_append.mpr ⟨hxs, hys⟩

/-- Adding is local. -/
theorem local_add {a b : Value} (ha : a.Within F.reads) (hb : b.Within F.reads) :
    Local F (a.add b) (Within F.reads) := by
  unfold add
  split
  · exact local_onNumbers (fun n m => local_pure (within_int _)) _ _
  · split
    · exact local_newList (within_append (within_list.mp ha) (within_list.mp hb))
    · exact local_get_throw fun _ _ hσ => by rw [typeName_agree hσ hb]
    · exact local_pure (within_tuple.mpr (within_append (within_tuple.mp ha) (within_tuple.mp hb)))
    · exact local_pure (within_tuple.mpr (within_append (within_tuple.mp ha) (within_row.mp hb)))
    · exact local_pure (within_tuple.mpr (within_append (within_row.mp ha) (within_tuple.mp hb)))
    · exact local_pure (within_tuple.mpr (within_append (within_row.mp ha) (within_row.mp hb)))
    · exact local_get_throw fun _ _ hσ => by rw [typeName_agree hσ hb]
    · exact local_get_throw fun _ _ hσ => by rw [typeName_agree hσ hb]
    · exact local_operandFault _ ha hb

/-- Subtracting is local. -/
theorem local_sub {a b : Value} (ha : a.Within F.reads) (hb : b.Within F.reads) :
    Local F (a.sub b) (Within F.reads) := by
  unfold sub
  split
  · exact local_onNumbers (fun n m => local_pure (within_int _)) _ _
  · split
    · rename_i frozen xs _ ys
      refine local_store_bind (fun σ σ' hσ => ?_) fun σ hclosed => ?_
      · rw [(without_agree hσ (within_set.mp hb) (within_set.mp ha)).1]
      · refine (local_ofExcept fun rest hrest => ?_).bind fun rest hrest => local_pure (within_set.mpr hrest)
        exact (without_agree (.refl hclosed) (within_set.mp hb) (within_set.mp ha)).2 rest hrest
    · exact local_operandFault _ ha hb

/-- The items of a repeated sequence are those of the sequence. -/
theorem within_repeated {region : Region} {items : List Value} (h : ∀ v ∈ items, v.Within region)
    (times : Nat) : ∀ v ∈ repeated times items, v.Within region := by
  intro v hv
  obtain ⟨copy, hcopy, hmem⟩ := List.mem_flatten.mp hv
  rw [List.eq_of_mem_replicate hcopy] at hmem
  exact h v hmem

/-- Repeating a sequence is local. -/
theorem local_repeat? {a : Value} (ha : a.Within F.reads) {times : Int} {action : Eval Value}
    (h : a.repeat? times = some action) : Local F action (Within F.reads) := by
  have hcount : ∀ tooLong length, Local F (Eval.ofExcept (repeatCount tooLong length times)) fun _ => True :=
    fun _ _ => local_ofExcept fun _ _ => trivial
  cases a with
  | str s =>
      cases h
      exact (hcount _ _).bind fun n _ => local_pure (within_str _)
  | list _ items =>
      cases h
      exact (hcount _ _).bind fun n _ => local_newList (within_repeated (within_list.mp ha) n)
  | tuple items =>
      cases h
      exact (hcount _ _).bind fun n _ =>
        local_pure (within_tuple.mpr (within_repeated (within_tuple.mp ha) n))
  | row _ _ items =>
      cases h
      exact (hcount _ _).bind fun n _ =>
        local_pure (within_tuple.mpr (within_repeated (within_row.mp ha) n))
  | _ => cases h

/-- Repeating a sequence as often as a value says, or failing, is local. -/
theorem local_repeatBy {a times : Value} (ha : a.Within F.reads) (htimes : times.Within F.reads) {fault : Eval Value}
    (hfault : Local F fault (Within F.reads)) :
    Local F (match times.asInt? with
      | some n => (a.repeat? n).getD fault
      | none => do throw (.type (.repetition (times.typeName (← get))))) (Within F.reads) := by
  split
  · rename_i n _
    cases h : a.repeat? n with
    | none => exact hfault
    | some action => exact local_repeat? ha h
  · exact local_get_throw fun _ _ hσ => by rw [typeName_agree hσ htimes]

/-- Multiplying is local. -/
theorem local_mul {a b : Value} (ha : a.Within F.reads) (hb : b.Within F.reads) :
    Local F (a.mul b) (Within F.reads) := by
  have hfault : Local F (operandFault "*" a b) (Within F.reads) := local_operandFault _ ha hb
  unfold mul
  split
  · exact local_onNumbers (fun n m => local_pure (within_int _)) _ _
  · split
    · exact local_repeatBy ha hb hfault
    · split
      · exact local_repeatBy hb ha hfault
      · exact hfault

/-- Dividing integers is local. -/
theorem local_divInts (n m : Int) : Local F (divInts n m) (Within F.reads) := by
  unfold divInts
  cases Number.Binary64.ofQuotient? n m with
  | some x => exact local_pure (within_float x)
  | none => exact local_throw _

/-- Dividing is local. -/
theorem local_div {a b : Value} (ha : a.Within F.reads) (hb : b.Within F.reads) :
    Local F (a.div b) (Within F.reads) := by
  unfold div
  split
  · exact local_throw _
  · split
    · exact local_onNumbers local_divInts _ _
    · exact local_operandFault _ ha hb

/-- Taking a remainder, or filling a template, is local. -/
theorem local_mod {a b : Value} (ha : a.Within F.reads) (hb : b.Within F.reads) :
    Local F (a.mod b) (Within F.reads) := by
  unfold mod
  split
  · exact local_throw _
  · split
    · exact local_onNumbers (fun n m => local_pure (within_int _)) _ _
    · split
      · refine local_store_bind (fun σ σ' hσ => by rw [fillTemplate_agree hσ _ hb]) fun σ _ => ?_
        exact (local_answer _).bind fun text _ =>
          local_pure (within_str text)
      · exact local_operandFault _ ha hb

/-- Taking the opposite is local. -/
theorem local_neg {a : Value} (ha : a.Within F.reads) : Local F a.neg (Within F.reads) := by
  unfold neg
  split
  · exact local_pure (within_int _)
  · exact local_pure (within_float _)
  · exact local_ofFloat _
  · exact local_get_throw fun _ _ hσ => by rw [typeName_agree hσ ha]

/-- Taking the magnitude is local. -/
theorem local_abs {a : Value} (ha : a.Within F.reads) : Local F a.abs (Within F.reads) := by
  unfold abs
  split
  · exact local_pure (within_int _)
  · exact local_pure (within_float _)
  · exact local_ofFloat _
  · exact local_get_throw fun _ _ hσ => by rw [typeName_agree hσ ha]

/-- Rounding is local. -/
theorem local_round {a : Value} (ha : a.Within F.reads) (places : Int) :
    Local F (a.round places) (Within F.reads) := by
  unfold round
  split
  · exact local_pure (within_int _)
  · split
    · exact local_pure (within_float _)
    · exact local_throw _
  · exact local_ofFloat _
  · exact local_get_throw fun _ _ hσ => by rw [typeName_agree hσ ha]

/-- Summing up is local. -/
theorem local_sum {vs : List Value} (h : ∀ v ∈ vs, v.Within F.reads) :
    Local F (Value.sum vs) (Within F.reads) :=
  local_foldlM (fun v hv _ htotal => local_add htotal (h v hv)) (within_int 0)

/-! ## Attributes -/

/-- Reading an attribute is local. -/
theorem local_readAttribute {v : Value} (hv : v.Within F.reads) (name : String) :
    Local F (get >>= fun σ => Eval.ofExcept (v.readAttribute σ name)) (Within F.reads) :=
  local_reads (fun _ _ hσ => readAttribute_agree hσ hv name) fun _ _ hclosed hw =>
    readAttribute_within hclosed hv hw

/-- Reading a path is local. -/
theorem local_readPath {v : Value} (hv : v.Within F.reads) (path : List String) :
    Local F (get >>= fun σ => Eval.ofExcept (v.readPath σ path)) (Within F.reads) :=
  local_reads (fun _ _ hσ => (readPath_agree hσ path hv).1) fun _ w hclosed =>
    (readPath_agree (.refl hclosed) path hv).2 w

/-- Finding something in a collection is local. -/
theorem local_subscript {container key : Value} (hcontainer : container.Within F.reads)
    (hkey : key.Within F.reads) :
    Local F (get >>= fun σ => Eval.ofExcept (container.subscript σ key)) (Within F.reads) :=
  local_reads (fun _ _ hσ => subscript_agree hσ hcontainer hkey) fun _ _ hclosed hw =>
    subscript_within hclosed hcontainer hw

/-- Listing the items of a collection is local. -/
theorem local_items {v : Value} (hv : v.Within F.reads) :
    Local F (get >>= fun σ => Eval.ofExcept (v.items σ)) fun vs => ∀ w ∈ vs, w.Within F.reads :=
  local_reads (fun _ _ hσ => items_agree hσ hv) fun _ _ hclosed hvs =>
    items_within hclosed hv hvs

end Value

end Rubric
