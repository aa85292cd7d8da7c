import Rubric.Proofs.Value.DataForm

/-!
# Values built from leaves

Values that are built from scalars have a form.  It shows whether a value can be looked up, and the digest
of one that can goes by its form alone: values found in each other's place are both looked up or both
searched for, and have one digest.

* `BuiltFrom` : which values are built from leaves, in a store;
* `BuiltFrom.exists_form` : those built from scalars have a form;
* `HasForm.plain` : what has a form can be looked up where the form is plain;
* `digestWith_of_plain` : the digest of a value that can is that of its form.
-/

namespace Rubric

open Rubric.Number

namespace Value

/-! ## Forms of what can be looked up -/

mutual

/-- The plain form of a form, where it has one: lists and mappings have none. -/
def DataForm.plain? : DataForm → Option PlainForm
  | .scalar form => some form
  | .tuple items => (DataForm.plains? items).map .tuple
  | .list _ => none
  | .mapping _ => none

/-- The plain forms of several forms. -/
def DataForm.plains? : List DataForm → Option (List PlainForm)
  | [] => some []
  | form :: forms => do return (← form.plain?) :: (← DataForm.plains? forms)

end

section

variable {mappings : Nat → Option DataForm} (objects : Nat → Option String)

mutual

/-- What has a form can be looked up where the form is plain. -/
theorem plain_of_dataForm (h : ∀ address form, mappings address = some form → form.plain? = none) :
    ∀ (v : Value) {form : DataForm}, dataFormWith mappings v = some form →
      v.plainForm? = form.plain? ∧ (unhashableWith objects v = none ↔ form.plain?.isSome)
  | .tuple items, _, hv => by
      obtain ⟨forms, hforms, rfl⟩ := Option.map_eq_some_iff.mp hv
      obtain ⟨hplain, hhashable⟩ := plains_of_dataForms h items hforms
      exact ⟨by rw [plainForm?, hplain, DataForm.plain?],
        by rw [unhashableWith, hhashable, DataForm.plain?, Option.isSome_map]⟩
  | .list _ items, _, hv => by
      obtain ⟨forms, -, rfl⟩ := Option.map_eq_some_iff.mp hv
      exact ⟨rfl, iff_of_false nofun nofun⟩
  | .mapping address, form, hv => by
      have hplain : form.plain? = none := h address form hv
      exact ⟨hplain.symm, iff_of_false nofun (by simp [hplain])⟩
  | .null, _, hv | .bool _, _, hv | .int _, _, hv | .float _, _, hv | .nan _, _, hv | .str _, _, hv => by
      cases hv
      exact ⟨rfl, iff_of_true rfl rfl⟩
  | .row _ _ _, _, hv | .set _ _, _, hv | .object _, _, hv | .function _ _, _, hv
  | .selector _, _, hv | .setter _, _, hv | .target _ _, _, hv => by cases hv

/-- So do several values. -/
theorem plains_of_dataForms (h : ∀ address form, mappings address = some form → form.plain? = none) :
    ∀ (vs : List Value) {forms : List DataForm}, dataFormsWith mappings vs = some forms →
      plainForms? vs = DataForm.plains? forms ∧
        (anyUnhashableWith objects vs = none ↔ (DataForm.plains? forms).isSome)
  | [], _, hvs => by
      cases hvs
      exact ⟨rfl, iff_of_true rfl rfl⟩
  | v :: vs, _, hvs => by
      obtain ⟨form, forms, hform, hforms, rfl⟩ :=
        List.forall₂_cons_left_iff.mp (dataFormsWith_eq_some.mp hvs)
      obtain ⟨hplain, hhashable⟩ := plain_of_dataForm h v hform
      obtain ⟨hplains, hhashables⟩ := plains_of_dataForms h vs (dataFormsWith_eq_some.mpr hforms)
      refine ⟨by rw [plainForms?, DataForm.plains?, hplain, hplains], ?_⟩
      have hboth : (DataForm.plains? (form :: forms)).isSome ↔
          form.plain?.isSome ∧ (DataForm.plains? forms).isSome := by
        rw [DataForm.plains?]
        cases form.plain? <;> cases DataForm.plains? forms <;> simp
      rw [hboth, ← hhashable, ← hhashables, anyUnhashableWith]
      cases unhashableWith objects v <;> simp

end

/-- What has a form can be looked up where the form is plain. -/
theorem HasForm.plain {σ : Store} {v : Value} {form : DataForm} (h : v.HasForm σ form) :
    v.plainForm? = form.plain? ∧ (v.unhashable? σ = none ↔ form.plain?.isSome) := by
  obtain ⟨fuel, hform⟩ := h
  refine plain_of_dataForm _ (fun address form haddress => ?_) v hform
  obtain ⟨held, rfl⟩ := (byForms_placesEqual σ fuel).held haddress
  rfl

end

/-! ## Values built from leaves -/

/-- Nothing, a truth value, a number or a text, but not what is no number. -/
def IsOrdinary : Value → Prop
  | null | bool _ | int _ | float _ | str _ => True
  | _ => False

/-- What is ordinary is a scalar. -/
theorem IsOrdinary.isScalar {v : Value} (h : v.IsOrdinary) : v.IsScalar := by
  cases v <;> first | exact trivial | cases h

/-- Whether a value is built from leaves by tuples, lists and mappings of the store, to any depth.  The
keys of a mapping are labels that can be looked up, no two of them found in each other's place. -/
inductive BuiltFrom (σ : Store) (leaf label : Value → Prop) : Value → Prop
  | leaf {v : Value} (h : leaf v) : BuiltFrom σ leaf label v
  | tuple {items : List Value} (h : ∀ v ∈ items, BuiltFrom σ leaf label v) :
      BuiltFrom σ leaf label (.tuple items)
  | list {tag : Tag} {items : List Value} (h : ∀ v ∈ items, BuiltFrom σ leaf label v) :
      BuiltFrom σ leaf label (.list tag items)
  | mapping {address : Nat} (hplace : address < σ.mappings.size)
      (hlabels : ∀ e ∈ σ.entries address, label e.1 ∧ e.1.unhashable? σ = none)
      (hkeys : ∀ e ∈ σ.entries address, BuiltFrom σ leaf label e.1)
      (hvalues : ∀ e ∈ σ.entries address, BuiltFrom σ leaf label e.2)
      (hapart : (σ.entries address).Pairwise fun e e' => e.1.found σ e'.1 = .ok false) :
      BuiltFrom σ leaf label (.mapping address)

section

variable {σ : Store} {leaf leaf' label label' : Value → Prop} {v : Value}

/-- What is built from leaves is built from more of them. -/
theorem BuiltFrom.mono (hleaf : ∀ v, leaf v → leaf' v) (hlabel : ∀ v, label v → label' v)
    (h : v.BuiltFrom σ leaf label) : v.BuiltFrom σ leaf' label' := by
  induction h with
  | leaf h => exact .leaf (hleaf _ h)
  | tuple _ ih => exact .tuple ih
  | list _ ih => exact .list ih
  | mapping hplace hlabels _ _ hapart ihkeys ihvalues =>
      exact .mapping hplace (fun e he => (hlabels e he).imp_left (hlabel _)) ihkeys ihvalues hapart

/-- A mapping from different texts to values that are built from leaves is built from them. -/
theorem BuiltFrom.of_texts {address : Nat} (hplace : address < σ.mappings.size)
    (fields : List (String × Value))
    (hentries : σ.entries address = fields.map fun field => (.str field.1, field.2))
    (htexts : ∀ s, leaf (.str s) ∧ label (.str s)) (hdifferent : (fields.map Prod.fst).Nodup)
    (hvalues : ∀ field ∈ fields, field.2.BuiltFrom σ leaf label) :
    (Value.mapping address).BuiltFrom σ leaf label := by
  refine .mapping hplace ?_ ?_ ?_ ?_ <;> rw [hentries]
  · exact List.forall_mem_map.mpr fun field _ => ⟨(htexts field.1).2, rfl⟩
  · exact List.forall_mem_map.mpr fun field _ => .leaf (htexts field.1).1
  · exact List.forall_mem_map.mpr hvalues
  · refine List.pairwise_map.mpr ((List.pairwise_map.mp hdifferent).imp fun {field field'} hne => ?_)
    simp [found, matchWith, identical, equalWith, settled, hne]

/-- Where each element is related to something, so is the list. -/
theorem exists_forall₂ {α β : Type} {R : α → β → Prop} {as : List α} (h : ∀ a ∈ as, ∃ b, R a b) :
    ∃ bs, List.Forall₂ R as bs := by
  induction as with
  | nil => exact ⟨[], .nil⟩
  | cons a as ih =>
      obtain ⟨⟨b, hb⟩, hrest⟩ := List.forall_mem_cons.mp h
      obtain ⟨bs, hbs⟩ := ih hrest
      exact ⟨b :: bs, .cons hb hbs⟩

/-- Where lists are related, each element of the second is related to one of the first. -/
theorem exists_of_forall₂ {α β : Type} {R : α → β → Prop} {as : List α} {bs : List β}
    (h : List.Forall₂ R as bs) : ∀ b ∈ bs, ∃ a ∈ as, R a b := by
  induction h with
  | nil => exact fun _ hb => absurd hb List.not_mem_nil
  | cons hab _ ih =>
      refine List.forall_mem_cons.mpr ⟨⟨_, List.mem_cons_self, hab⟩, fun b hb => ?_⟩
      obtain ⟨a, ha, hR⟩ := ih b hb
      exact ⟨a, .tail _ ha, hR⟩

/-- The keys of entries with forms have the plain forms among them. -/
theorem map_plainForm? {form? : Value → Option DataForm} {entries : List (Value × Value)}
    {forms : List (PlainForm × DataForm)} (h : entryForms? form? entries = some forms) :
    entries.map (fun e => e.1.plainForm?) = (forms.map Prod.fst).map some := by
  have hforms := entryForms?_eq_some.mp h
  clear h
  induction hforms with
  | nil => rfl
  | cons he _ ih => rw [List.map_cons, List.map_cons, List.map_cons, he.1, ih]

/-- A mapping has a form where its keys and values have. -/
theorem exists_form_of_mapping {address : Nat} (hplace : address < σ.mappings.size)
    (hentries : ∀ e ∈ σ.entries address,
      (∃ p, e.1.plainForm? = some p) ∧ ∃ form, e.2.HasForm σ form)
    (hapart : (σ.entries address).Pairwise fun e e' => e.1.found σ e'.1 = .ok false) :
    ∃ form, (Value.mapping address).HasForm σ form := by
  have hforms : ∀ e ∈ σ.entries address, ∃ form : PlainForm × DataForm,
      e.1.plainForm? = some form.1 ∧
        dataFormWith (mappingDataForm σ (σ.nesting + 1)) e.2 = some form.2 := by
    intro e he
    obtain ⟨⟨p, hp⟩, form, hform⟩ := hentries e he
    exact ⟨(p, form), hp, hform.of_nesting⟩
  obtain ⟨forms, hforms⟩ := exists_forall₂ hforms
  have hentries' := entryForms?_eq_some.mpr hforms
  have hdifferent : ((σ.entries address).map fun e => e.1.plainForm?).Nodup := by
    refine List.pairwise_map.mpr (hapart.imp_of_mem fun {e e'} he he' hfound heq => ?_)
    obtain ⟨⟨p, hp⟩, -⟩ := hentries e he
    obtain ⟨⟨p', hp'⟩, -⟩ := hentries e' he'
    obtain ⟨answer, hanswer, hiff⟩ := matchWith_of_plain σ.samePlace e.1 e'.1 p p' hp hp'
    rw [found, hanswer, settled, Except.ok.injEq] at hfound
    rw [hp, hp', Option.some.injEq] at heq
    simp [hiff.mpr heq] at hfound
  rw [map_plainForm? hentries'] at hdifferent
  exact ⟨.mapping (heldIn forms), σ.nesting + 2,
    mappingDataForm_succ.mpr ⟨hplace, forms, hentries', hdifferent.of_map _, rfl⟩⟩

/-- What is built from scalars has a form. -/
theorem BuiltFrom.exists_form (hleaf : ∀ v, leaf v → v.IsScalar) (h : v.BuiltFrom σ leaf label) :
    ∃ form, v.HasForm σ form := by
  induction h with
  | @leaf v h =>
      have hscalar := hleaf v h
      cases v <;> first | exact ⟨_, 0, rfl⟩ | cases hscalar
  | @tuple items _ ih =>
      obtain ⟨forms, hforms⟩ := exists_forall₂ fun v hv => (ih v hv).imp fun _ h => h.of_nesting
      exact ⟨.tuple forms, σ.nesting + 1,
        Option.map_eq_some_iff.mpr ⟨forms, dataFormsWith_eq_some.mpr hforms, rfl⟩⟩
  | @list _ items _ ih =>
      obtain ⟨forms, hforms⟩ := exists_forall₂ fun v hv => (ih v hv).imp fun _ h => h.of_nesting
      exact ⟨.list forms, σ.nesting + 1,
        Option.map_eq_some_iff.mpr ⟨forms, dataFormsWith_eq_some.mpr hforms, rfl⟩⟩
  | mapping hplace hlabels _ _ hapart ihkeys ihvalues =>
      refine exists_form_of_mapping hplace (fun e he => ⟨?_, ihvalues e he⟩) hapart
      obtain ⟨form, hform⟩ := ihkeys e he
      obtain ⟨hplain, hhashable⟩ := hform.plain
      exact Option.isSome_iff_exists.mp (hplain ▸ hhashable.mp (hlabels e he).2)

/-- What is built from scalars is so in a grown store. -/
theorem BuiltFrom.grown {τ : Store} (hleaf : ∀ v, leaf v → v.IsScalar) (hgrown : σ.GrownTo τ)
    (h : v.BuiltFrom σ leaf label) : v.BuiltFrom τ leaf label := by
  induction h with
  | leaf h => exact .leaf h
  | tuple _ ih => exact .tuple ih
  | list _ ih => exact .list ih
  | @mapping address hplace hlabels hkeys _ hapart ihkeys ihvalues =>
      have hentries := hgrown.entries_eq address hplace
      refine .mapping (Nat.lt_of_lt_of_le hplace hgrown.size_le) ?_ ?_ ?_ ?_ <;> rw [hentries]
      · intro e he
        obtain ⟨form, hform⟩ := (hkeys e he).exists_form hleaf
        obtain ⟨hlabel, hhashable⟩ := hlabels e he
        exact ⟨hlabel, (hform.grown hgrown).plain.2.mpr (hform.plain.2.mp hhashable)⟩
      · exact ihkeys
      · exact ihvalues
      · refine hapart.imp_of_mem fun {e e'} he he' hfound => ?_
        obtain ⟨form, hform⟩ := (hkeys e he).exists_form hleaf
        obtain ⟨form', hform'⟩ := (hkeys e' he').exists_form hleaf
        rw [← hform.found_grown hform' hgrown, hfound]

/-- What is built from ordinary leaves is something else than "no number". -/
theorem BuiltFrom.ne_nan (h : v.BuiltFrom σ IsOrdinary label) (tag : Tag) : v ≠ .nan tag := by
  rintro rfl
  cases h with
  | leaf h => exact h

/-- What is not "no number" equals what it is found in the place of. -/
theorem equal_eq_found {a : Value} (ha : ∀ tag, a ≠ .nan tag) (b : Value) :
    a.equal σ b = a.found σ b := by
  rw [equal, found, matchWith]
  split
  · rename_i hidentical
    -- one address holds what is equal to itself, and so does one function
    cases a with
    | nan tag => exact absurd rfl (ha tag)
    | mapping _ | object _ | function _ _ => cases b <;> simp_all [identical, equalWith]
    | _ => cases b <;> cases hidentical
  · rfl

end

/-! ## Digests -/

/-- The digest of a magnitude in units. -/
def measureDigest : Bool ⊕ Int → Nat
  | .inl _ => 314159
  | .inr n =>
    if n.natAbs % Binary64.unitsPerOne = 0 then n.natAbs / Binary64.unitsPerOne else n.natAbs

/-- The digest of a number is that of its magnitude. -/
theorem NumberView.digest_eq {n : NumberView} {m : Bool ⊕ Int} (h : n.measure? = some m) :
    n.digest = measureDigest m := by
  cases n with
  | int n =>
      cases h
      rw [Binary64.measureInt, measureDigest, Int.natAbs_mul, Int.natAbs_natCast, Nat.mul_mod_left,
        if_pos rfl, Nat.mul_div_cancel _ Binary64.unitsPerOne_pos, NumberView.digest]
  | float x =>
      cases h
      cases x with
      | finite negative units =>
          have habs : (Binary64.signedUnits negative units).natAbs = units := by
            cases negative <;> simp [Binary64.signedUnits]
          rw [Binary64.measure, measureDigest, habs, NumberView.digest]
      | infinite negative => rfl
  | nan => cases h

mutual

/-- The digest of a plain form. -/
def PlainForm.digest : PlainForm → Nat
  | .null => 1
  | .number m => measureDigest m
  | .nan tag => tagDigest tag
  | .str s => textDigest s
  | .tuple items => PlainForm.itemsDigest 3 items

/-- The digest of plain forms in a row. -/
def PlainForm.itemsDigest (start : Nat) : List PlainForm → Nat
  | [] => start
  | form :: forms => PlainForm.itemsDigest (mixDigest start form.digest) forms

end

section

variable (objects : Nat → Nat)

mutual

/-- The digest of a plain value is that of its form. -/
theorem digestWith_of_plain : ∀ (v : Value) {form : PlainForm}, v.plainForm? = some form →
    digestWith objects v = form.digest
  | .bool b, _, h => by
      cases h
      exact NumberView.digest_eq (n := .int (if b then 1 else 0)) rfl
  | .int n, _, h => by
      cases h
      exact NumberView.digest_eq (n := .int n) rfl
  | .float x, _, h => by
      cases h
      exact NumberView.digest_eq (n := .float x) rfl
  | .tuple items, _, h => by
      obtain ⟨forms, hforms, rfl⟩ := Option.map_eq_some_iff.mp h
      exact itemsDigestWith_of_plain 3 items hforms
  | .null, _, h | .nan _, _, h | .str _, _, h => by
      cases h
      rfl
  | .list _ _, _, h | .row _ _ _, _, h | .set _ _, _, h | .mapping _, _, h | .object _, _, h
  | .function _ _, _, h | .selector _, _, h | .setter _, _, h | .target _ _, _, h => by cases h

/-- So is that of plain values in a row. -/
theorem itemsDigestWith_of_plain (start : Nat) : ∀ (vs : List Value) {forms : List PlainForm},
    plainForms? vs = some forms → itemsDigestWith objects start vs = PlainForm.itemsDigest start forms
  | [], _, h => by
      cases h
      rfl
  | v :: vs, _, h => by
      obtain ⟨form, hform, forms, hforms, rfl⟩ := plainForms?_cons h
      rw [itemsDigestWith, PlainForm.itemsDigest, digestWith_of_plain v hform,
        itemsDigestWith_of_plain _ vs hforms]

end

end

end Value

end Rubric
