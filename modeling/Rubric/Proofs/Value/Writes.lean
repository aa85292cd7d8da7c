import Rubric.Proofs.Value.Locality
import Rubric.Record.Call

/-!
# What is written and called

Writing an attribute changes the one attribute of the one mapping or object; a setter writes the
attributes that it is made for.  Calls of selectors and functions write what the setters that they
call write, and nothing else.

* `Value.local_setAttribute`, `Setter.local_assign` : writing an attribute, and through a setter;
* `Selector.local_read`, `Value.local_call` : reading through a selector, and calling a value.
-/

namespace Rubric

open Value (Place)

/-! ## Stores with new contents -/

namespace Store

theorem entries_setEntries_eq (σ : Store) (a b : Nat) (entries : List (Value × Value)) :
    (σ.setEntries a entries).entries b
      = if b = a ∧ a < σ.mappings.size then entries else σ.entries b := by
  by_cases hab : b = a
  · subst hab
    by_cases hsize : b < σ.mappings.size
    · rw [entries_setEntries σ b entries hsize, if_pos ⟨rfl, hsize⟩]
    · rw [if_neg fun h => hsize h.2]
      simp [setEntries, Store.entries, Array.setIfInBounds, hsize]
  · rw [entries_setEntries_ne σ a b entries (Ne.symm hab), if_neg fun h => hab h.1]

theorem object_setAttributes_eq (σ : Store) (a b : Nat) (attributes : List (String × Value)) :
    (σ.setAttributes a attributes).object b
      = if b = a ∧ a < σ.objects.size then { σ.object a with attributes := attributes }
        else σ.object b := by
  by_cases hab : b = a
  · subst hab
    by_cases hsize : b < σ.objects.size
    · simp [setAttributes, object, hsize]
    · simp [setAttributes, object, Array.setIfInBounds, hsize]
  · simp [setAttributes, object, Array.getD_eq_getD_getElem?, Ne.symm hab, hab]

variable {writes : Place → List String} {σ : Store} {address : Nat}

/-- Writing entries that leave the others of a mapping. -/
theorem rewrites_setEntries {entries : List (Value × Value)}
    (hothers : Value.otherEntries (writes (.mapping address)) entries
      = Value.otherEntries (writes (.mapping address)) (σ.entries address)) :
    σ.Rewrites writes (σ.setEntries address entries) where
  mappings_size := by simp [setEntries]
  objects_size := rfl
  runs_eq := rfl
  entries_eq b := by
    rw [entries_setEntries_eq]
    split
    · rename_i h
      rw [h.1, hothers]
    · rfl
  type_eq _ := rfl
  attributes_eq _ := rfl
  frozen_eq _ _ := rfl

/-- Writing attributes that leave the others of an object that is not frozen. -/
theorem rewrites_setAttributes {attributes : List (String × Value)}
    (hfree : (σ.object address).isFrozen = false)
    (hothers : Value.otherAttributes (writes (.object address)) attributes
      = Value.otherAttributes (writes (.object address)) (σ.object address).attributes) :
    σ.Rewrites writes (σ.setAttributes address attributes) where
  mappings_size := rfl
  objects_size := by simp [setAttributes]
  runs_eq := rfl
  entries_eq _ := rfl
  type_eq b := by
    rw [object_setAttributes_eq]
    split
    · rename_i h
      rw [h.1]
    · rfl
  attributes_eq b := by
    rw [object_setAttributes_eq]
    split
    · rename_i h
      rw [h.1, hothers]
    · rfl
  frozen_eq b hfrozen := by
    rw [object_setAttributes_eq, if_neg]
    rintro ⟨rfl, -⟩
    simp [hfree] at hfrozen

end Store

/-! ## Footprints as scopes -/

/-- Leaving out more names leaves out those left out before. -/
theorem Value.otherEntries_otherEntries {names : List String} {name : String} (h : name ∈ names)
    (entries : List (Value × Value)) :
    otherEntries names (otherEntries [name] entries) = otherEntries names entries := by
  simp only [otherEntries, List.filter_filter]
  refine List.filter_congr fun entry _ => ?_
  split
  · rename_i s _
    by_cases hs : s ∈ names
    · simp [hs]
    · have hne : s ≠ name := fun heq => hs (heq ▸ h)
      simp [hs, hne]
  · rfl

/-- Leaving out more names leaves out those left out before. -/
theorem Value.otherAttributes_otherAttributes {names : List String} {name : String}
    (h : name ∈ names) (attributes : List (String × Value)) :
    otherAttributes names (otherAttributes [name] attributes) = otherAttributes names attributes := by
  simp only [otherAttributes, List.filter_filter]
  refine List.filter_congr fun a _ => ?_
  by_cases ha : a.1 ∈ names
  · simp [ha]
  · have hne : a.1 ≠ name := fun heq => ha (heq ▸ h)
    simp [ha, hne]

/-- A footprint as a scope: stores differ by the attributes that may be written. -/
def Footprint.scope (F : Footprint) : Scope where
  reads := F.reads
  mayWrite p name := name ∈ F.writes p
  rewrites σ τ := σ.Rewrites F.writes τ
  setters_may := F.setters_may
  refl := .refl _
  trans := .trans
  withTag := .withTag _
  setEntries σ _ _ entries _ hname hothers := Store.rewrites_setEntries (by
    rw [← Value.otherEntries_otherEntries hname entries, hothers,
      Value.otherEntries_otherEntries hname])
  setAttributes σ _ _ attributes _ hname hfree hothers := Store.rewrites_setAttributes hfree (by
    rw [← Value.otherAttributes_otherAttributes hname attributes, hothers,
      Value.otherAttributes_otherAttributes hname])

instance : Coe Footprint Scope := ⟨Footprint.scope⟩

namespace Scope

variable {F : Scope} {σ σ' : Store} {address : Nat}

/-- Stores that agree still do when the same entries are written in both. -/
theorem Sees.setEntries (h : F.Sees σ σ') {entries : List (Value × Value)}
    (hentries : ∀ entry ∈ entries, entry.1.Within F.reads ∧ entry.2.Within F.reads) :
    F.Sees (σ.setEntries address entries) (σ'.setEntries address entries) where
  mappings_size := by simpa [Store.setEntries] using h.mappings_size
  objects_size := h.objects_size
  entries_eq b hb := by
    rw [Store.entries_setEntries_eq, Store.entries_setEntries_eq, h.mappings_size,
      h.entries_eq b hb]
  object_eq := h.object_eq
  nextTag_eq := h.nextTag_eq
  closed p hp v hv := by
    cases p with
    | object b => exact h.closed _ hp v hv
    | mapping b =>
        simp only [Store.contents, Store.entries_setEntries_eq] at hv
        split at hv
        · simp only [List.mem_flatMap] at hv
          obtain ⟨entry, hentry, hv⟩ := hv
          obtain ⟨hkey, hvalue⟩ := hentries entry hentry
          simp only [List.mem_cons, List.not_mem_nil, or_false] at hv
          rcases hv with rfl | rfl
          · exact hkey
          · exact hvalue
        · exact h.closed (.mapping b) hp v hv

/-- Stores that agree still do when the same attributes are written in both. -/
theorem Sees.setAttributes (h : F.Sees σ σ') (haddress : Place.object address ∈ F.reads)
    {attributes : List (String × Value)} (hattributes : ∀ a ∈ attributes, a.2.Within F.reads) :
    F.Sees (σ.setAttributes address attributes) (σ'.setAttributes address attributes) where
  mappings_size := h.mappings_size
  objects_size := by simpa [Store.setAttributes] using h.objects_size
  entries_eq := h.entries_eq
  object_eq b hb := by
    rw [Store.object_setAttributes_eq, Store.object_setAttributes_eq, h.objects_size,
      h.object_eq b hb, h.object_eq address haddress]
  nextTag_eq := h.nextTag_eq
  closed p hp v hv := by
    cases p with
    | mapping b => exact h.closed _ hp v hv
    | object b =>
        simp only [Store.contents, Store.object_setAttributes_eq] at hv
        split at hv
        · obtain ⟨a, ha, rfl⟩ := List.mem_map.mp hv
          exact hattributes a ha
        · exact h.closed (.object b) hp v hv

end Scope

/-! ## Writing an attribute -/

namespace Value

variable {F : Scope} {region : Region} {names : List String} {name : String}

/-- The place whose contents a value is, where it has contents. -/
def place? : Value → Option Place
  | .mapping address => some (.mapping address)
  | .object address => some (.object address)
  | _ => none

/-- A mapping or an object reaches its place. -/
theorem reaches_place {σ : Store} {v : Value} {p : Place} (h : v.place? = some p) :
    σ.Reaches [v] (.place p) := by
  refine .root List.mem_cons_self ?_
  cases v <;> simp_all [place?, mentions]

/-- A key that is found to be a name is that name. -/
theorem eq_str_of_found {σ : Store} {k : Value} (h : found σ k (str name) = .ok true) :
    k = str name := by
  cases k with
  | str s => simpa [found, matchWith, identical, equalWith, settled] using h
  | _ => simp [found, matchWith, identical, equalWith, settled, number?] at h

theorem otherEntries_setEntry (hname : name ∈ names) (value : Value) {σ : Store}
    {entries written : List (Value × Value)} (h : setEntry σ name value entries = .ok written) :
    otherEntries names written = otherEntries names entries := by
  induction entries generalizing written with
  | nil =>
      cases h
      simp [otherEntries, hname]
  | cons entry entries ih =>
      obtain ⟨k, v⟩ := entry
      rw [setEntry] at h
      split at h
      · cases h
      · rename_i hfound
        cases h
        rw [eq_str_of_found hfound]
        simp [otherEntries, hname]
      · cases hrest : setEntry σ name value entries with
        | error fault => simp [hrest, Except.map] at h
        | ok rest =>
            simp only [hrest, Except.map, Except.ok.injEq] at h
            subst h
            have hih := ih hrest
            simp only [otherEntries, List.filter_cons] at hih ⊢
            rw [hih]

theorem setEntry_within {value : Value} (hvalue : value.Within region) {σ : Store}
    {entries written : List (Value × Value)}
    (hentries : ∀ entry ∈ entries, entry.1.Within region ∧ entry.2.Within region)
    (h : setEntry σ name value entries = .ok written) :
    ∀ entry ∈ written, entry.1.Within region ∧ entry.2.Within region := by
  induction entries generalizing written with
  | nil =>
      cases h
      simpa using hvalue
  | cons entry entries ih =>
      obtain ⟨k, v⟩ := entry
      obtain ⟨hentry, hrest⟩ := List.forall_mem_cons.mp hentries
      rw [setEntry] at h
      split at h
      · cases h
      · cases h
        exact List.forall_mem_cons.mpr ⟨⟨hentry.1, hvalue⟩, hrest⟩
      · cases hwritten : setEntry σ name value entries with
        | error fault => simp [hwritten, Except.map] at h
        | ok rest =>
            simp only [hwritten, Except.map, Except.ok.injEq] at h
            subst h
            exact List.forall_mem_cons.mpr ⟨hentry, ih hrest hwritten⟩

theorem otherAttributes_setNamed (hname : name ∈ names) (value : Value)
    (attributes : List (String × Value)) :
    otherAttributes names (setNamed name value attributes) = otherAttributes names attributes := by
  induction attributes with
  | nil => simp [otherAttributes, setNamed, hname]
  | cons a attributes ih =>
      obtain ⟨n, w⟩ := a
      rw [setNamed]
      split
      · rename_i heq
        simp [otherAttributes, heq, hname]
      · simp only [otherAttributes, List.filter_cons] at ih ⊢
        rw [ih]

theorem setNamed_within {value : Value} (hvalue : value.Within region)
    {attributes : List (String × Value)} (hattributes : ∀ a ∈ attributes, a.2.Within region) :
    ∀ a ∈ setNamed name value attributes, a.2.Within region := by
  induction attributes with
  | nil => simpa [setNamed] using hvalue
  | cons a attributes ih =>
      obtain ⟨ha, hrest⟩ := List.forall_mem_cons.mp hattributes
      rw [setNamed]
      split
      · exact List.forall_mem_cons.mpr ⟨hvalue, hrest⟩
      · exact List.forall_mem_cons.mpr ⟨ha, ih hrest⟩

/-- Writing an attribute of a mapping is local. -/
theorem local_setAttribute_mapping {address : Nat} (hreads : Place.mapping address ∈ F.reads)
    (hname : F.mayWrite (.mapping address) name) {value : Value} (hvalue : value.Within F.reads) :
    Eval.Local F ((mapping address).setAttribute name value) fun _ => True := by
  have hrun (σ : Store) : (mapping address).setAttribute name value σ
      = match setEntry σ name value (σ.entries address) with
        | .ok entries => .ok () (σ.setEntries address entries)
        | .error fault => .error fault σ := by
    show (Eval.ofExcept (setEntry σ name value (σ.entries address)) >>= _) σ = _
    cases setEntry σ name value (σ.entries address) <;> rfl
  have hsame {σ σ' : Store} (hσ : F.Sees σ σ') : setEntry σ' name value (σ'.entries address)
      = setEntry σ name value (σ.entries address) := by
    rw [hσ.entries_eq address hreads]
    exact setEntry_agree hσ name value (keys_within hσ.closed hreads)
  constructor
  · intro σ σ' hσ a τ hok
    rw [hrun] at hok
    cases hwritten : setEntry σ name value (σ.entries address) with
    | error fault => simp [hwritten] at hok
    | ok entries =>
        simp only [hwritten] at hok
        cases hok
        have hothers := otherEntries_setEntry (List.mem_singleton_self name) value hwritten
        refine ⟨trivial, F.setEntries σ hreads hname hothers,
          σ'.setEntries address entries, ?_, hσ.setEntries ?_, ?_⟩
        · rw [hrun, hsame hσ, hwritten]
        · exact setEntry_within hvalue (fun entry => hσ.closed.entry hreads) hwritten
        · exact F.setEntries σ' hreads hname (by rw [hothers, hσ.entries_eq address hreads])
  · intro σ σ' hσ fault τ herror
    rw [hrun] at herror
    cases hwritten : setEntry σ name value (σ.entries address) with
    | error fault =>
        simp only [hwritten] at herror
        cases herror
        exact ⟨F.refl σ, σ', by rw [hrun, hsame hσ, hwritten], hσ, F.refl σ'⟩
    | ok entries => simp [hwritten] at herror

/-- Writing an attribute of an object is local. -/
theorem local_setAttribute_object {address : Nat} (hreads : Place.object address ∈ F.reads)
    (hname : F.mayWrite (.object address) name) {value : Value} (hvalue : value.Within F.reads) :
    Eval.Local F ((object address).setAttribute name value) fun _ => True := by
  have hrun (σ : Store) : (object address).setAttribute name value σ
      = if (σ.object address).isFrozen then
          .error (.access (.frozen name)) σ
        else .ok () (σ.setAttributes address
          (setNamed name value (σ.object address).attributes)) := by
    show (if (σ.object address).isFrozen then
      (throw (.access (.frozen name)) : Eval Unit) else _) σ = _
    split <;> rfl
  constructor
  · intro σ σ' hσ a τ hok
    rw [hrun] at hok
    split at hok
    · cases hok
    · rename_i hfree
      cases hok
      have hothers := otherAttributes_setNamed (List.mem_singleton_self name) value
        (σ.object address).attributes
      have hsame := hσ.object_eq address hreads
      rw [Bool.not_eq_true] at hfree
      refine ⟨trivial, F.setAttributes σ hreads hname hfree hothers, _, ?_,
        hσ.setAttributes hreads ?_, ?_⟩
      · rw [hrun, hsame, hfree]
        rfl
      · exact setNamed_within hvalue fun a ha => hσ.closed.attribute hreads ha
      · exact F.setAttributes σ' hreads hname (by rw [hsame, hfree]) (by rw [hothers, hsame])
  · intro σ σ' hσ fault τ herror
    rw [hrun] at herror
    split at herror
    · rename_i hfrozen
      cases herror
      refine ⟨F.refl σ, σ', ?_, hσ, F.refl σ'⟩
      rw [hrun, hσ.object_eq address hreads, if_pos hfrozen]
    · cases herror

/-- Writing an attribute is local where it may be written. -/
theorem local_setAttribute {v : Value} (hv : v.Within F.reads)
    (hname : ∀ p, v.place? = some p → F.mayWrite p name) {value : Value}
    (hvalue : value.Within F.reads) : Eval.Local F (v.setAttribute name value) fun _ => True := by
  cases v with
  | mapping address =>
      exact local_setAttribute_mapping (within_mapping.mp hv) (hname _ rfl) hvalue
  | object address => exact local_setAttribute_object (within_object.mp hv) (hname _ rfl) hvalue
  | null | selector _ | setter _ | target _ _ => exact Eval.local_get_throw fun _ _ _ => rfl
  | row _ type _ =>
      simp only [setAttribute]
      split
      · exact Eval.local_get_throw fun _ _ _ => rfl
      · exact Eval.local_get_throw fun _ _ _ => rfl
  | _ => exact Eval.local_get_throw fun _ _ hσ => by rw [typeName_agree hσ hv]

/-- Looking at the store before a computation that does not is nothing. -/
theorem get_bind_const {α : Type} (action : Eval α) :
    ((get : Eval Store) >>= fun _ => action) = action := rfl

/-- A path of one name is an attribute. -/
theorem writePath_single (v : Value) (name : String) (value : Value) :
    v.writePath [name] value = v.setAttribute name value := by
  have hempty (σ : Store) : v.readPath σ [] = .ok v := rfl
  simp only [writePath, List.dropLast_singleton, hempty, List.getLast?_singleton,
    List.length_singleton, gt_iff_lt, Nat.lt_irrefl, decide_false, Bool.and_false, if_false,
    reduceCtorEq]
  exact get_bind_const (v.setAttribute name value)

/-- The place of a value within a region belongs to it. -/
theorem Within.place {v : Value} (hv : v.Within region) {p : Place} (hp : v.place? = some p) :
    p ∈ region := by
  cases v with
  | mapping address =>
      cases hp
      exact within_mapping.mp hv
  | object address =>
      cases hp
      exact within_object.mp hv
  | _ => cases hp

/-- Writing at the end of a path is local where the last attribute may be written everywhere. -/
theorem local_writePath {v : Value} (hv : v.Within F.reads) {path : List String}
    (hpath : ∀ name ∈ path.getLast?, ∀ p ∈ F.reads, F.mayWrite p name) {value : Value}
    (hvalue : value.Within F.reads) : Eval.Local F (v.writePath path value) fun _ => True := by
  unfold writePath
  rw [← bind_assoc]
  refine (local_readPath hv path.dropLast).bind fun parent hparent => ?_
  split
  · exact StateFrame.local_throw _
  · rename_i name hlast
    split
    · exact StateFrame.local_throw _
    · exact local_setAttribute hparent (fun p hp => hpath name hlast p (hparent.place hp)) hvalue

end Value

/-! ## Writing through setters -/

section

open Value Eval StateFrame

variable {F : Scope}

/-- The items of a sequence within a region are within it. -/
theorem Value.sequence?_within {region : Region} {v : Value} (hv : v.Within region)
    {items : List Value} (h : v.sequence? = some items) : ∀ w ∈ items, w.Within region := by
  cases v with
  | list _ vs =>
      cases h
      exact within_list.mp hv
  | tuple vs =>
      cases h
      exact within_tuple.mp hv
  | row _ _ vs =>
      cases h
      exact within_row.mp hv
  | _ => cases h

mutual

/-- Writing through a setter is local. -/
theorem Setter.local_assign : ∀ {s : Setter} {record value : Value}, s.Within F.reads →
    record.Within F.reads → value.Within F.reads → Local F (s.assign record value) fun _ => True
  | .path _ names, record, value, hs, hrecord, hvalue => by
      rw [Setter.assign]
      exact local_writePath hrecord
        (fun name hname => F.setters_may name (Setter.within_path.mp hs name hname)) hvalue
  | .composite parts, record, value, hs, hrecord, hvalue => by
      rw [Setter.assign]
      split
      · rename_i items hitems
        split
        · exact Setter.local_assignEach (Setter.within_composite.mp hs) hrecord
            (sequence?_within hvalue hitems)
        · exact local_get_throw fun _ _ hσ => by rw [shown_agree hσ hvalue]
      · exact local_get_throw fun _ _ hσ => by rw [shown_agree hσ hvalue]

/-- Writing values one after the other is local. -/
theorem Setter.local_assignEach : ∀ {parts : List Setter} {record : Value} {values : List Value},
    (∀ s ∈ parts, s.Within F.reads) → record.Within F.reads →
      (∀ v ∈ values, v.Within F.reads) →
      Local F (Setter.assignEach parts record values) fun _ => True
  | part :: parts, record, value :: values, hparts, hrecord, hvalues => by
      obtain ⟨hpart, hrest⟩ := List.forall_mem_cons.mp hparts
      obtain ⟨hvalue, hmore⟩ := List.forall_mem_cons.mp hvalues
      rw [Setter.assignEach]
      exact (Setter.local_assign hpart hrecord hvalue).bind fun _ _ =>
        Setter.local_assignEach hrest hrecord hmore
  | [], _, _, _, _, _ | _ :: _, _, [], _, _, _ => by
      simp only [Setter.assignEach]
      exact local_pure trivial

end

end

/-! ## Reading and calling -/

namespace Eval

variable {α β : Type}

/-- What follows a computed answer matters for that answer only. -/
theorem ofExcept_bind_congr {answer : Except Fault α} {next next' : α → Eval β}
    (h : ∀ a, answer = .ok a → next a = next' a) :
    (ofExcept answer >>= next) = (ofExcept answer >>= next') := by
  cases answer with
  | error fault => rfl
  | ok a => exact h a rfl

end Eval

section

open Value Eval StateFrame

variable {F : Scope}

theorem within_oneArgument {region : Region} {callee : String} {own : Nat} {args : List Value}
    {record : Value} (h : oneArgument callee own args = .ok record)
    (hargs : ∀ a ∈ args, a.Within region) : record.Within region := by
  unfold oneArgument at h
  split at h
  · cases h
    simpa using hargs
  · cases h
  · cases h

theorem within_twoArguments {region : Region} {callee first second : String} {own : Nat}
    {args : List Value} {pair : Value × Value}
    (h : twoArguments callee first second own args = .ok pair)
    (hargs : ∀ a ∈ args, a.Within region) : pair.1.Within region ∧ pair.2.Within region := by
  unfold twoArguments at h
  split at h
  · cases h
    simpa using hargs
  · cases h
  · cases h
  · cases h

mutual

/-- Reading through a selector is local. -/
theorem Selector.local_read : ∀ {s : Selector} {record : Value}, s.Within F.reads →
    record.Within F.reads → Local F (s.read record) (Value.Within F.reads)
  | .path _ names, record, _, hrecord => by
      rw [Selector.read]
      exact local_readPath hrecord names
  | .composite parts, record, hs, hrecord => by
      rw [Selector.read]
      exact (Selector.local_readAll (Selector.within_composite.mp hs) hrecord).bind
        fun values hvalues => local_pure (within_tuple.mpr hvalues)
  | .computed _ callee, record, hs, hrecord => by
      rw [Selector.read]
      exact Value.local_call (Selector.within_computed.mp hs) (by simpa using hrecord)
  | .display inner, record, hs, hrecord => by
      rw [Selector.read]
      refine (Selector.local_read (Selector.within_display.mp hs) hrecord).bind fun v hv => ?_
      exact local_store_bind (fun σ σ' hσ => by rw [label_agree hσ hv]) fun σ _ =>
        local_pure (within_str _)
  | .key inner, record, hs, hrecord => by
      rw [Selector.read]
      refine (Selector.local_read (Selector.within_key.mp hs) hrecord).bind fun v hv => ?_
      exact local_reads (fun σ σ' hσ => keyForm_agree hσ hv) fun σ form hclosed =>
        keyForm_within hclosed hv

/-- Reading through several selectors is local. -/
theorem Selector.local_readAll : ∀ {parts : List Selector} {record : Value},
    (∀ s ∈ parts, s.Within F.reads) → record.Within F.reads →
      Local F (Selector.readAll parts record) fun vs => ∀ v ∈ vs, v.Within F.reads
  | [], _, _, _ => by
      rw [Selector.readAll]
      exact local_pure (by simp)
  | part :: parts, record, hparts, hrecord => by
      obtain ⟨hpart, hrest⟩ := List.forall_mem_cons.mp hparts
      rw [Selector.readAll]
      exact (Selector.local_read hpart hrecord).bind fun v hv =>
        (Selector.local_readAll hrest hrecord).bind fun vs hvs =>
          local_pure (List.forall_mem_cons.mpr ⟨hv, hvs⟩)

/-- Calling a value is local. -/
theorem Value.local_call : ∀ {v : Value} {args : List Value}, v.Within F.reads →
    (∀ a ∈ args, a.Within F.reads) → Local F (v.call args) (Value.Within F.reads)
  | .function _ body, args, hv, hargs => by
      rw [Value.call]
      exact Function.local_call (within_function.mp hv) hargs
  | .selector s, args, hv, hargs => by
      rw [Value.call]
      exact (local_ofExcept fun _ h => within_oneArgument h hargs).bind fun record hrecord =>
        Selector.local_read (within_selector.mp hv) hrecord
  | .setter s, args, hv, hargs => by
      rw [Value.call]
      refine (local_ofExcept fun _ h => within_twoArguments h hargs).bind fun pair hpair => ?_
      exact (Setter.local_assign (within_setter.mp hv) hpair.1 hpair.2).bind fun _ _ =>
        local_pure within_null
  | .null, _, hv, _ | .bool _, _, hv, _ | .int _, _, hv, _ | .float _, _, hv, _ | .nan _, _, hv, _
  | .str _, _, hv, _ | .list _ _, _, hv, _ | .tuple _, _, hv, _ | .row _ _ _, _, hv, _
  | .set _ _, _, hv, _ | .mapping _, _, hv, _ | .object _, _, hv, _ | .target _ _, _, hv, _ => by
      rw [Value.call]
      · exact local_get_throw fun _ _ hσ => by rw [typeName_agree hσ hv]
      all_goals simp

/-- Calling a function is local. -/
theorem Function.local_call : ∀ {f : Function} {args : List Value}, f.Within F.reads →
    (∀ a ∈ args, a.Within F.reads) → Local F (f.call args) (Value.Within F.reads)
  | .field name, args, _, hargs => by
      rw [Function.call]
      exact (local_ofExcept fun _ h => within_oneArgument h hargs).bind fun record hrecord =>
        local_subscript hrecord (within_str name)
  | .failing message, _, _, _ => by
      rw [Function.call]
      exact local_throw _
  | .constant value, _, hf, _ => by
      rw [Function.call]
      exact local_pure (Function.within_constant.mp hf)
  | .arguments, args, _, hargs => by
      rw [Function.call]
      exact local_newList hargs
  | .always, args, _, _ | .never, args, _, _ => by
      rw [Function.call]
      exact (local_answer _).bind fun _ _ => local_pure (within_bool _)
  | .sameKey key, args, hf, hargs => by
      have hkey := Function.within_sameKey.mp hf
      rw [Function.call]
      refine (local_ofExcept fun _ h => within_twoArguments h hargs).bind fun pair hpair => ?_
      refine (Selector.local_read hkey hpair.1).bind fun left hleft => ?_
      refine (Selector.local_read hkey hpair.2).bind fun right hright => ?_
      refine local_store_bind (fun σ σ' hσ => by rw [equal_agree hσ hleft hright]) fun σ _ => ?_
      exact (local_answer _).bind fun _ _ => local_pure (within_bool _)
  | .comparing names operator, args, _, hargs => by
      rw [Function.call]
      refine (local_ofExcept fun _ h => within_twoArguments h hargs).bind fun pair hpair => ?_
      refine local_store_bind (fun σ σ' hσ => ?_) fun σ _ => ?_
      · obtain ⟨hleft, hleft'⟩ := readPath_agree hσ names hpair.1
        obtain ⟨hright, hright'⟩ := readPath_agree hσ names hpair.2
        rw [hleft, hright]
        refine ofExcept_bind_congr fun left h => ofExcept_bind_congr fun right h' => ?_
        rw [compareText_agree hσ (hleft' left h) operator (hright' right h')]
      · exact (local_answer _).bind fun _ _ => (local_answer _).bind fun _ _ =>
          (local_answer _).bind fun _ _ => local_pure (within_bool _)
  | .failingRelation message, args, _, _ => by
      rw [Function.call]
      exact (local_answer _).bind fun _ _ => local_throw _

end

/-- Asking a relation is local. -/
theorem local_related {relation record item : Value} (hrelation : relation.Within F.reads)
    (hrecord : record.Within F.reads) (hitem : item.Within F.reads) :
    Local F (related relation record item) fun _ => True :=
  (Value.local_call hrelation (by simp [hrecord, hitem])).bind fun answer hanswer =>
    local_store_bind (fun σ σ' hσ => by rw [truthy_agree hσ hanswer]) fun _ _ =>
      local_pure trivial

end

end Rubric
