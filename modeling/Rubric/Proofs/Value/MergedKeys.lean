import Rubric.Proofs.Distinct
import Rubric.Proofs.Value.KeyForm

/-!
# Values of one key

The key form turns arrays and objects into tuples alike, so an empty array and an empty object have one key,
and so have an object and the array of its fields as pairs.  JSON values differ nowhere else than in this:
two of them that have one key are equal, unless at some place one of them holds an array and the other an
object.

* `IsJson` : JSON values of a store;
* `Clash` : values of which one holds an array where the other holds an object;
* `IsJson.found_iff_not_clash` : values of one key are equal where they do not clash;
* `compileKey_merges_clashes` : so only clashing records are merged into one item wrongly.
-/

namespace Rubric

namespace Value

/-! ## JSON values -/

/-- Whether a value is null, a truth value, a number, a text, an array of JSON values, or an object that
holds JSON values under different names. -/
inductive IsJson (σ : Store) : Value → Prop
  | scalar {v : Value} (h : v.IsScalar) : IsJson σ v
  | array {tag : Tag} {items : List Value} (h : ∀ v ∈ items, IsJson σ v) : IsJson σ (.list tag items)
  | object {address : Nat} (hplace : address < σ.mappings.size) (fields : List (String × Value))
      (hentries : σ.entries address = fields.map fun field => (.str field.1, field.2))
      (hdifferent : (fields.map Prod.fst).Nodup) (hvalues : ∀ field ∈ fields, IsJson σ field.2) :
      IsJson σ (.mapping address)

/-- Whether at some place, found by the same positions and names in both, one value holds an array and the
other an object. -/
inductive Clash (σ : Store) : Value → Value → Prop
  | array_object {tag : Tag} {items : List Value} {address : Nat} :
      Clash σ (.list tag items) (.mapping address)
  | object_array {tag : Tag} {items : List Value} {address : Nat} :
      Clash σ (.mapping address) (.list tag items)
  | item {tag tag' : Tag} {xs ys : List Value} {x y : Value} (hitems : (x, y) ∈ xs.zip ys)
      (h : Clash σ x y) : Clash σ (.list tag xs) (.list tag' ys)
  | field {address address' : Nat} {name : String} {x y : Value}
      (hx : (.str name, x) ∈ σ.entries address) (hy : (.str name, y) ∈ σ.entries address')
      (h : Clash σ x y) : Clash σ (.mapping address) (.mapping address')

section

variable {σ τ : Store} {v : Value} {form : DataForm} {tag : Tag} {items : List Value} {address : Nat}

/-- JSON values are built from scalars, with texts as keys. -/
theorem IsJson.builtFrom (h : v.IsJson σ) : v.BuiltFrom σ IsScalar IsText := by
  induction h with
  | scalar h => exact .leaf h
  | array _ ih => exact .list ih
  | object hplace fields hentries hdifferent _ ih =>
      exact .of_texts hplace fields hentries (fun s => ⟨trivial, s, rfl⟩) hdifferent ih

/-- So they have a form. -/
theorem IsJson.exists_form (h : v.IsJson σ) : ∃ form, v.HasForm σ form :=
  h.builtFrom.exists_form fun _ => id

/-- JSON values of a store are JSON values of the grown store. -/
theorem IsJson.grown (h : v.IsJson σ) (hgrown : σ.GrownTo τ) : v.IsJson τ := by
  induction h with
  | scalar h => exact .scalar h
  | array _ ih => exact .array ih
  | object hplace fields hentries hdifferent _ ih =>
      exact .object (Nat.lt_of_lt_of_le hplace hgrown.size_le) fields
        ((hgrown.entries_eq _ hplace).trans hentries) hdifferent ih

/-- The entries of an object are JSON values under names. -/
theorem IsJson.entry (h : (Value.mapping address).IsJson σ) {e : Value × Value}
    (he : e ∈ σ.entries address) : (∃ name, e.1 = .str name) ∧ e.2.IsJson σ := by
  cases h with
  | scalar h => cases h
  | object hplace fields hentries _ hvalues =>
      rw [hentries] at he
      obtain ⟨field, hfield, rfl⟩ := List.mem_map.mp he
      exact ⟨⟨field.1, rfl⟩, hvalues field hfield⟩

end

/-! ## What forms come from -/

section

variable {σ : Store} {v : Value} {form : DataForm} {tag : Tag} {items : List Value} {address : Nat}

/-- The form of a scalar is its plain form. -/
theorem HasForm.scalar (h : v.HasForm σ form) (hv : v.IsScalar) :
    ∃ p, v.plainForm? = some p ∧ form = .scalar p := by
  obtain ⟨fuel, hform⟩ := h
  cases dataView_of_form hform with
  | scalar _ hp => exact ⟨_, hp, rfl⟩
  | tuple _ | list _ | mapping _ => cases hv

/-- The form of a list is that of its items. -/
theorem HasForm.list (h : (Value.list tag items).HasForm σ form) :
    ∃ forms, form = .list forms ∧ List.Forall₂ (HasForm σ) items forms := by
  obtain ⟨fuel, hform⟩ := h
  obtain ⟨forms, hforms, rfl⟩ := Option.map_eq_some_iff.mp hform
  exact ⟨forms, rfl, (dataFormsWith_eq_some.mp hforms).imp fun _ _ h => ⟨fuel, h⟩⟩

/-- The form of a mapping lists those of its sorted entries. -/
theorem HasForm.mapping (h : (Value.mapping address).HasForm σ form) :
    ∃ held listed, form = .mapping held ∧ Lists held listed ∧
      List.Forall₂ (fun e g => e.2.1.plainForm? = some g.1 ∧ e.2.2.HasForm σ g.2)
        (sortedEntries σ address) listed := by
  obtain ⟨fuel, hform⟩ := h
  cases fuel with
  | zero => cases hform
  | succ fuel =>
      obtain ⟨held, rfl⟩ := (byForms_placesEqual σ (fuel + 1)).held hform
      obtain ⟨listed, hlists, hentries⟩ := exists_listed hform
      exact ⟨held, listed, rfl, hlists, hentries.imp fun _ _ h => ⟨h.2.1, fuel, h.2.2⟩⟩

/-- The sorted entries of a mapping are its entries. -/
theorem mem_sortedEntries {e : Value × Value} :
    (∃ s, (s, e) ∈ sortedEntries σ address) ↔ e ∈ σ.entries address := by
  have hperm := List.mergeSort_perm ((σ.entries address).map fun e => (e.1.shown σ, e.1, e.2))
    fun e f => decide (e.1 ≤ f.1)
  simp only [sortedEntries, hperm.mem_iff, List.mem_map, Prod.mk.injEq]
  constructor
  · rintro ⟨_, e', he', -, rfl⟩
    exact he'
  · exact fun he => ⟨_, e, he, rfl, rfl⟩

/-- What an entry of a mapping holds has the form that the mapping holds under its key. -/
theorem HasForm.entry {held : PlainForm → Option DataForm}
    (h : (Value.mapping address).HasForm σ (.mapping held)) {name : String} {x : Value}
    (hx : (.str name, x) ∈ σ.entries address) : ∃ g, held (.str name) = some g ∧ x.HasForm σ g := by
  obtain ⟨held', listed, heq, hlists, hentries⟩ := h.mapping
  cases heq
  obtain ⟨s, hs⟩ := mem_sortedEntries.mpr hx
  obtain ⟨g, hg, hname, hform⟩ := exists_of_forall₂ hentries.flip _ hs
  obtain ⟨key, g⟩ := g
  cases hname
  exact ⟨g, (hlists.mem_iff _).mp hg, hform⟩

/-- Where two lists are related to one, members at one position are related to one thing. -/
theorem exists_common {α β γ : Type} {R : α → γ → Prop} {S : β → γ → Prop} {as : List α} {bs : List β}
    {cs : List γ} (h : List.Forall₂ R as cs) (h' : List.Forall₂ S bs cs) {a : α} {b : β}
    (hmem : (a, b) ∈ as.zip bs) : ∃ c, R a c ∧ S b c := by
  induction h generalizing bs with
  | nil => cases hmem
  | cons hR _ ih =>
      obtain ⟨b', bs, hS, hrest, rfl⟩ := List.forall₂_cons_right_iff.mp h'
      rcases List.mem_cons.mp hmem with heq | hmem
      · cases heq
        exact ⟨_, hR, hS⟩
      · exact ih hrest hmem

/-- Values that clash have different forms. -/
theorem Clash.form_ne {a b : Value} (h : Clash σ a b) {f g : DataForm} (ha : a.HasForm σ f)
    (hb : b.HasForm σ g) : f ≠ g := by
  induction h generalizing f g with
  | array_object =>
      obtain ⟨forms, rfl, -⟩ := ha.list
      obtain ⟨held, -, rfl, -⟩ := hb.mapping
      intro heq
      cases heq
  | object_array =>
      obtain ⟨held, -, rfl, -⟩ := ha.mapping
      obtain ⟨forms, rfl, -⟩ := hb.list
      intro heq
      cases heq
  | item hitems _ ih =>
      rintro rfl
      obtain ⟨forms, rfl, hforms⟩ := ha.list
      obtain ⟨forms', heq, hforms'⟩ := hb.list
      cases heq
      obtain ⟨g, hx, hy⟩ := exists_common hforms hforms' hitems
      exact ih hx hy rfl
  | field hx hy _ ih =>
      rintro rfl
      obtain ⟨held, -, rfl, -⟩ := ha.mapping
      obtain ⟨g, hg, hform⟩ := ha.entry hx
      obtain ⟨g', hg', hform'⟩ := hb.entry hy
      exact ih hform hform' (Option.some.inj (hg.symm.trans hg'))

end

/-! ## What keys come from -/

/-- Whether the key form of a value has a plain form. -/
def HasKey (σ : Store) (v : Value) (p : PlainForm) : Prop :=
  ∃ fuel k, keyFormWith (mappingKeyForm σ fuel) v = some k ∧ k.plainForm? = some p

section

variable {σ : Store} {v : Value} {p : PlainForm} {tag : Tag} {items : List Value} {address : Nat}

/-- The key of a scalar is its plain form. -/
theorem HasKey.scalar (h : v.HasKey σ p) (hv : v.IsScalar) : v.plainForm? = some p := by
  obtain ⟨fuel, k, hk, hp⟩ := h
  rw [keyFormWith_scalar _ hv, Option.some.injEq] at hk
  exact hk ▸ hp

/-- The keys of several values. -/
theorem hasKey_of_keyFormsWith {fuel : Nat} {ks : List Value} {ps : List PlainForm}
    (hks : keyFormsWith (mappingKeyForm σ fuel) items = some ks) (hps : plainForms? ks = some ps) :
    List.Forall₂ (HasKey σ) items ps := by
  induction items generalizing ks ps with
  | nil =>
      cases hks
      cases hps
      exact .nil
  | cons v items ih =>
      rw [keyFormsWith_cons] at hks
      simp only [Option.bind_eq_bind, Option.bind_eq_some_iff, Option.pure_def, Option.some.injEq] at hks
      obtain ⟨k, hk, ks, hrest, rfl⟩ := hks
      obtain ⟨p, hp, ps, hmore, rfl⟩ := plainForms?_cons hps
      exact .cons ⟨fuel, k, hk, hp⟩ (ih hrest hmore)

/-- The key of a list is the tuple of those of its items. -/
theorem HasKey.list (h : (Value.list tag items).HasKey σ p) :
    ∃ ps, p = .tuple ps ∧ List.Forall₂ (HasKey σ) items ps := by
  obtain ⟨fuel, k, hk, hp⟩ := h
  obtain ⟨ks, hks, rfl⟩ := Option.map_eq_some_iff.mp hk
  obtain ⟨ps, hps, rfl⟩ := Option.map_eq_some_iff.mp hp
  exact ⟨ps, rfl, hasKey_of_keyFormsWith hks hps⟩

/-- The key of a sorted entry is the pair of its own key and that of its value. -/
def EntryHasKey (σ : Store) (e : String × Value × Value) (p : PlainForm) : Prop :=
  ∃ name q, e.2.1.plainForm? = some name ∧ e.2.2.HasKey σ q ∧ p = .tuple [name, q]

/-- Entries of one key have one name, and values of one key. -/
theorem EntryHasKey.common {e e' : String × Value × Value} (h : EntryHasKey σ e p)
    (h' : EntryHasKey σ e' p) : ∃ name q, e.2.1.plainForm? = some name ∧ e'.2.1.plainForm? = some name ∧
      e.2.2.HasKey σ q ∧ e'.2.2.HasKey σ q := by
  obtain ⟨name, q, hname, hq, rfl⟩ := h
  obtain ⟨name', q', hname', hq', heq⟩ := h'
  cases heq
  exact ⟨name, q, hname, hname', hq, hq'⟩

/-- The keys of several sorted entries. -/
theorem entryHasKey_of_mapM {fuel : Nat} {entries : List (String × Value × Value)} {pairs : List Value}
    {ps : List PlainForm} (hpairs : entries.mapM (keyPair (mappingKeyForm σ fuel)) = some pairs)
    (hps : plainForms? pairs = some ps) : List.Forall₂ (EntryHasKey σ) entries ps := by
  induction entries generalizing pairs ps with
  | nil =>
      cases hpairs
      cases hps
      exact .nil
  | cons e entries ih =>
      rw [List.mapM_cons] at hpairs
      simp only [Option.bind_eq_bind, Option.bind_eq_some_iff, Option.pure_def,
        Option.some.injEq] at hpairs
      obtain ⟨pair, hpair, pairs, hrest, rfl⟩ := hpairs
      obtain ⟨k, hk, rfl⟩ := Option.map_eq_some_iff.mp hpair
      obtain ⟨p, hp, ps, hmore, rfl⟩ := plainForms?_cons hps
      refine .cons ?_ (ih hrest hmore)
      obtain ⟨parts, hparts, rfl⟩ := Option.map_eq_some_iff.mp hp
      obtain ⟨name, hname, _, hvalue, rfl⟩ := plainForms?_cons hparts
      obtain ⟨q, hq, _, hnil, rfl⟩ := plainForms?_cons hvalue
      cases hnil
      exact ⟨name, q, hname, ⟨fuel, k, hk, hq⟩, rfl⟩

/-- The key of a mapping is the tuple of those of its sorted entries. -/
theorem HasKey.mapping (h : (Value.mapping address).HasKey σ p) :
    ∃ ps, p = .tuple ps ∧ List.Forall₂ (EntryHasKey σ) (sortedEntries σ address) ps := by
  obtain ⟨fuel, k, hk, hp⟩ := h
  cases fuel with
  | zero => cases hk
  | succ fuel =>
      rw [keyFormWith, mappingKeyForm_succ] at hk
      obtain ⟨pairs, hpairs, rfl⟩ := Option.map_eq_some_iff.mp hk
      obtain ⟨ps, hps, rfl⟩ := Option.map_eq_some_iff.mp hp
      exact ⟨ps, rfl, entryHasKey_of_mapM hpairs hps⟩

/-- The key of a scalar is no tuple. -/
theorem HasKey.ne_tuple (h : v.HasKey σ p) (hv : v.IsScalar) (ps : List PlainForm) : p ≠ .tuple ps := by
  rintro rfl
  have hplain := h.scalar hv
  cases v with
  | null | bool _ | int _ | float _ | nan _ | str _ => cases hplain
  | _ => cases hv

/-- The key form of a value, where it has a plain form. -/
theorem hasKey_of_keyForm {k : Value} (hk : v.keyForm σ = .ok k) (hp : k.plainForm? = some p) :
    v.HasKey σ p := by
  rw [Value.keyForm] at hk
  cases hform : keyFormWith (mappingKeyForm σ (σ.nesting + 1)) v with
  | none =>
      rw [hform] at hk
      cases hk
  | some k' =>
      rw [hform] at hk
      obtain rfl : k' = k := Except.ok.inj hk
      exact ⟨_, k', hform, hp⟩

end

/-! ## Values of one key -/

section

variable {σ τ : Store} {a b : Value} {p : PlainForm} {f g : DataForm}

/-- Lists whose members have the same keys have the same forms, where members at one position have. -/
theorem eq_of_forall₂ {α φ π : Type} {R : α → φ → Prop} {K : α → π → Prop} {as bs : List α}
    {fs gs : List φ} {ps : List π} (hR : List.Forall₂ R as fs) (hR' : List.Forall₂ R bs gs)
    (hK : List.Forall₂ K as ps) (hK' : List.Forall₂ K bs ps)
    (h : ∀ a b f g p, (a, b) ∈ as.zip bs → R a f → R b g → K a p → K b p → f = g) : fs = gs := by
  induction hK generalizing bs fs gs with
  | nil =>
      cases hK'
      cases hR
      cases hR'
      rfl
  | cons hKa _ ih =>
      cases hK' with
      | cons hKb hKs' =>
          cases hR with
          | cons hRa hRs =>
              cases hR' with
              | cons hRb hRs' =>
                  rw [h _ _ _ _ _ List.mem_cons_self hRa hRb hKa hKb,
                    ih hRs hRs' hKs' fun a b f g p hmem => h a b f g p (.tail _ hmem)]

/-- Mappings that list the same hold the same. -/
theorem Lists.held_eq {held held' : PlainForm → Option DataForm} {listed : List (PlainForm × DataForm)}
    (h : Lists held listed) (h' : Lists held' listed) : held = held' := by
  funext key
  refine Option.ext fun form => ?_
  rw [← h.mem_iff (key, form), ← h'.mem_iff (key, form)]

/-- JSON values that have one key and do not clash have one form. -/
theorem IsJson.form_eq (ha : a.IsJson σ) : ∀ {b : Value} {p : PlainForm} {f g : DataForm}, b.IsJson σ →
    a.HasForm σ f → b.HasForm σ g → a.HasKey σ p → b.HasKey σ p → ¬ Clash σ a b → f = g := by
  -- the second value has the kind of the first: a tuple is no key of a scalar, and the others would clash
  induction ha with
  | @scalar v hv =>
      intro b p f g hb hf hg hka hkb _
      cases hb with
      | scalar hw =>
          obtain ⟨q, hq, rfl⟩ := hf.scalar hv
          obtain ⟨q', hq', rfl⟩ := hg.scalar hw
          rw [hka.scalar hv, Option.some.injEq] at hq
          rw [hkb.scalar hw, Option.some.injEq] at hq'
          rw [← hq, ← hq']
      | array _ =>
          obtain ⟨ps, hp, -⟩ := hkb.list
          exact absurd hp (hka.ne_tuple hv ps)
      | object _ _ _ _ _ =>
          obtain ⟨ps, hp, -⟩ := hkb.mapping
          exact absurd hp (hka.ne_tuple hv ps)
  | @array tag items _ ih =>
      intro b p f g hb hf hg hka hkb hclash
      obtain ⟨ps, rfl, hps⟩ := hka.list
      cases hb with
      | scalar hw => exact absurd rfl (hkb.ne_tuple hw ps)
      | object _ _ _ _ _ => exact absurd .array_object hclash
      | @array _ others hothers =>
          obtain ⟨forms, rfl, hforms⟩ := hf.list
          obtain ⟨forms', rfl, hforms'⟩ := hg.list
          obtain ⟨ps', heq, hps'⟩ := hkb.list
          cases heq
          rw [eq_of_forall₂ hforms hforms' hps hps' fun x y f g p hmem hf hg hkx hky => ?_]
          obtain ⟨hx, hy⟩ := List.of_mem_zip hmem
          exact ih x hx (hothers y hy) hf hg hkx hky fun h => hclash (.item hmem h)
  | @object address hplace fields hentries hdifferent hvalues ih =>
      intro b p f g hb hf hg hka hkb hclash
      obtain ⟨ps, rfl, hps⟩ := hka.mapping
      cases hb with
      | scalar hw => exact absurd rfl (hkb.ne_tuple hw ps)
      | array _ => exact absurd .object_array hclash
      | @object address' hplace' fields' hentries' hdifferent' hvalues' =>
          have hb : (Value.mapping address').IsJson σ :=
            .object hplace' fields' hentries' hdifferent' hvalues'
          obtain ⟨held, listed, rfl, hlists, hforms⟩ := hf.mapping
          obtain ⟨held', listed', rfl, hlists', hforms'⟩ := hg.mapping
          obtain ⟨ps', heq, hps'⟩ := hkb.mapping
          cases heq
          have hlisted : listed = listed' := by
            refine eq_of_forall₂ hforms hforms' hps hps' fun e e' f g p hmem hf hg hke hke' => ?_
            obtain ⟨he, he'⟩ := List.of_mem_zip hmem
            obtain ⟨s, k, v⟩ := e
            obtain ⟨s', k', w⟩ := e'
            have he := mem_sortedEntries.mp ⟨s, he⟩
            have he' := mem_sortedEntries.mp ⟨s', he'⟩
            obtain ⟨name, q, hname, hname', hq, hq'⟩ := hke.common hke'
            -- both entries have one name, and under it the values do not clash
            have hlisted := he
            rw [hentries] at hlisted
            obtain ⟨field, hfield, heq⟩ := List.mem_map.mp hlisted
            cases heq
            cases hname
            obtain rfl := eq_str_of_plain hname'
            have hvalue := ih field hfield (hb.entry he').2 hf.2 hg.2 hq hq' fun h => hclash (.field he he' h)
            exact Prod.ext (Option.some.inj (hf.1.symm.trans hg.1)) hvalue
          rw [hlists.held_eq (hlisted ▸ hlists')]

/-- JSON values of one key are found in each other's place exactly where they do not clash. -/
theorem IsJson.found_iff_not_clash (ha : a.IsJson σ) (hb : b.IsJson σ) (hka : a.HasKey σ p)
    (hkb : b.HasKey σ p) : a.found σ b = .ok true ↔ ¬ Clash σ a b := by
  obtain ⟨f, hf⟩ := ha.exists_form
  obtain ⟨g, hg⟩ := hb.exists_form
  obtain ⟨answer, hanswer, hiff⟩ := hf.found hg
  rw [hanswer, Except.ok.injEq, hiff]
  constructor
  · rintro rfl hclash
    exact hclash.form_ne hf hg rfl
  · exact ha.form_eq hb hf hg hka hkb

/-- A JSON value has a key, and the same one in a grown store. -/
theorem IsJson.keyForm (ha : a.IsJson σ) (hgrown : σ.GrownTo τ) :
    ∃ k p, a.keyForm σ = .ok k ∧ k.plainForm? = some p ∧ a.HasKey τ p := by
  obtain ⟨form, hform⟩ := ha.exists_form
  obtain ⟨k, k', p, hk, hk', hp, hp'⟩ := HasForm.keyForm (ha.builtFrom.textKeyed (fun _ => id) hform) hform
    (hform.grown hgrown)
  exact ⟨k, p, hk, hp, hasKey_of_keyForm hk' hp'⟩

/-- JSON values whose keys are equal are equal exactly where they do not clash, also where the second is
read later. -/
theorem IsJson.equal_iff_not_clash {k k' : Value} (ha : a.IsJson σ) (hgrown : σ.GrownTo τ)
    (hb : b.IsJson τ) (hk : a.keyForm σ = .ok k) (hk' : b.keyForm τ = .ok k')
    (hequal : k.equal τ k' = .ok true) : a.equal τ b = .ok true ↔ ¬ Clash τ a b := by
  obtain ⟨k₁, p, hk₁, hp, hka⟩ := ha.keyForm hgrown
  obtain rfl : k = k₁ := Except.ok.inj (hk.symm.trans hk₁)
  obtain ⟨k₂, p', hk₂, hp', hkb⟩ := hb.keyForm (.refl τ)
  obtain rfl : k' = k₂ := Except.ok.inj (hk'.symm.trans hk₂)
  obtain ⟨answer, hanswer, hiff⟩ := matchWith_of_plain τ.samePlace k k' p p' hp hp'
  have hfound : k.found τ k' = .ok true := found_of_equal hequal
  rw [found, hanswer, settled, Except.ok.injEq] at hfound
  obtain rfl := hiff.mp hfound
  have hnumber : ∀ tag, a ≠ .nan tag := by
    rintro tag rfl
    cases hk
    rw [nan_equal] at hequal
    cases hequal
  rw [equal_eq_found hnumber]
  exact (ha.grown hgrown).found_iff_not_clash hb hka hkb

end

/-! ## Records of one item -/

section

variable {σ τ : Store} {label : Value → Prop} {inner : Selector} {records : List Value}

mutual

/-- What has a plain form is built from scalars. -/
theorem builtFrom_of_plain : ∀ (v : Value) {p : PlainForm}, v.plainForm? = some p →
    v.BuiltFrom σ IsScalar label
  | .tuple items, _, h => by
      obtain ⟨ps, hps, -⟩ := Option.map_eq_some_iff.mp h
      exact .tuple (builtFrom_of_plains items hps)
  | .null, _, _ | .bool _, _, _ | .int _, _, _ | .float _, _, _ | .nan _, _, _ | .str _, _, _ =>
      .leaf trivial
  | .list _ _, _, h | .row _ _ _, _, h | .set _ _, _, h | .mapping _, _, h | .object _, _, h
  | .function _ _, _, h | .selector _, _, h | .setter _, _, h | .target _ _, _, h => by cases h

/-- So are several such values. -/
theorem builtFrom_of_plains : ∀ (vs : List Value) {ps : List PlainForm}, plainForms? vs = some ps →
    ∀ v ∈ vs, v.BuiltFrom σ IsScalar label
  | [], _, _ => List.forall_mem_nil _
  | v :: vs, _, h => by
      obtain ⟨p, hp, ps, hps, -⟩ := plainForms?_cons h
      exact List.forall_mem_cons.mpr ⟨builtFrom_of_plain v hp, builtFrom_of_plains vs hps⟩

end

/-- A key is read by reading the value. -/
theorem read_key {record a k : Value} (ha : inner.read record σ = .ok a τ) (hk : a.keyForm τ = .ok k) :
    (Selector.key inner).read record σ = .ok k τ := by
  rw [Selector.read, bind_of_ok ha, bind_of_ok (get_ok τ), hk]
  rfl

/-- Records of which JSON values are read have keys, those of the values. -/
theorem exists_keys : ∀ {σ : Store}, KeyedAs σ inner.read records (fun _ υ a => a.IsJson υ) →
    ∃ values keys υ, records.mapM inner.read σ = .ok values υ ∧
      records.mapM (Selector.key inner).read σ = .ok keys υ ∧ σ.GrownTo υ ∧
      List.Forall₂ (fun a k => a.IsJson υ ∧ ∃ p, a.HasKey υ p ∧ k.plainForm? = some p) values keys := by
  induction records with
  | nil => exact fun _ => ⟨[], [], _, rfl, rfl, .refl _, .nil⟩
  | cons r records ih =>
      intro σ hjson
      obtain ⟨a, τ, hread, hτ, ha⟩ := hjson r List.mem_cons_self σ (.refl σ)
      obtain ⟨values, keys, υ, hvalues, hkeys, hυ, hforall⟩ := ih (hjson.later (fun _ => .tail r) hτ)
      obtain ⟨k, p, hk, hp, hka⟩ := ha.keyForm hυ
      refine ⟨a :: values, k :: keys, υ, ?_, ?_, hτ.trans hυ, .cons ⟨ha.grown hυ, p, hka, hp⟩ hforall⟩
      · rw [List.mapM_cons, bind_of_ok hread, bind_of_ok hvalues]
        rfl
      · rw [List.mapM_cons, bind_of_ok (read_key hread hk), bind_of_ok hkeys]
        rfl

/-- The records kept are those whose key is new, and the values of records of one key are found in each
other's place exactly where they do not clash. -/
theorem keepsNew_of_json (hjson : KeyedAs σ inner.read records fun _ υ a => a.IsJson υ) :
    ∃ (values keys : Fin records.length → Value) (kept : List (Fin records.length)) (υ : Store),
      records.mapM inner.read σ = .ok ((List.finRange _).map values) υ ∧
        records.mapM (Selector.key inner).read σ = .ok ((List.finRange _).map keys) υ ∧
        distinctItems (Selector.key inner).read records σ = .ok (kept.map records.get) υ ∧
        KeepsNew υ keys kept ∧
        ∀ i j, (keys i).found υ (keys j) = .ok true →
          ((values i).found υ (values j) = .ok true ↔ ¬ Clash υ (values i) (values j)) := by
  have hforms : KeyedAs σ (Selector.key inner).read records
      fun _ υ k => ∃ form, True ∧ k.HasForm υ form := by
    intro r hr τ hτ
    obtain ⟨a, υ, hread, hυ, ha⟩ := hjson r hr τ hτ
    obtain ⟨k, p, hk, hp, -⟩ := ha.keyForm (.refl υ)
    have hbuilt : k.BuiltFrom υ IsScalar IsText := builtFrom_of_plain k hp
    exact ⟨k, υ, read_key hread hk, hυ, by simpa using hbuilt.exists_form fun _ => id⟩
  obtain ⟨values, keys, υ, hvalues, hkeys, -, hforall⟩ := exists_keys hjson
  obtain ⟨keys', forms, υ', hkeys', -, hforms', hrecords, hkept⟩ :=
    distinctFrom_of_forms (SeenKeys.standFor_empty σ) hforms
  rw [hkeys] at hkeys'
  cases hkeys'
  obtain ⟨form, rfl⟩ := exists_map_finRange hrecords.length_eq.symm
  obtain ⟨key, rfl⟩ := exists_map_finRange (hforms'.length_eq.trans hrecords.length_eq.symm)
  obtain ⟨value, rfl⟩ := exists_map_finRange
    (hforall.length_eq.trans (hforms'.length_eq.trans hrecords.length_eq.symm))
  have hform : ∀ i, (key i).HasForm υ (form i) := by
    simpa [List.forall₂_map_left_iff, List.forall₂_map_right_iff, List.forall₂_same] using hforms'
  have hkey : ∀ i, (value i).IsJson υ ∧ ∃ p, (value i).HasKey υ p ∧ (key i).plainForm? = some p := by
    simpa [List.forall₂_map_left_iff, List.forall₂_map_right_iff, List.forall₂_same] using hforall
  refine ⟨value, key, _, υ, hvalues, hkeys, ?_, keepsNew_firstPositions hform, fun i j hfound => ?_⟩
  · rw [distinctItems, hkept, firstPositions, ← firsts_map, List.map_get_finRange]
  · obtain ⟨hi, p, hpi, hkeyi⟩ := hkey i
    obtain ⟨hj, q, hqj, hkeyj⟩ := hkey j
    obtain ⟨answer, hanswer, hiff⟩ := matchWith_of_plain υ.samePlace (key i) (key j) p q hkeyi hkeyj
    rw [found, hanswer, settled, Except.ok.injEq] at hfound
    obtain rfl := hiff.mp hfound
    exact hi.found_iff_not_clash hj hpi hqj

/-- The key of an expression is the same for two JSON values only where they are equal, or where at some
place one of them holds an array and the other an object.  So, too, for the values of records that are made
one item as their keys are the same. -/
theorem compileKey_merges_clashes {r : Resolver} {ρ : Store} {expression : Value}
    (hinner : r.compile ρ expression = .ok inner) :
    ∃ key, r.compileKey ρ expression = .ok key ∧
      (∀ record ρ' a σ other ρ'' b τ, inner.read record ρ' = .ok a σ → a.IsJson σ →
        inner.read other ρ'' = .ok b τ → b.IsJson τ → σ.GrownTo τ →
          ∃ k k', key.read record ρ' = .ok k σ ∧ key.read other ρ'' = .ok k' τ ∧
            (k.equal τ k' = .ok true → (a.equal τ b = .ok true ↔ ¬ Clash τ a b))) ∧
      ∀ records σ, KeyedAs σ inner.read records (fun _ υ a => a.IsJson υ) →
        ∃ (values keys : Fin records.length → Value) (kept : List (Fin records.length)) (υ : Store),
          records.mapM inner.read σ = .ok ((List.finRange _).map values) υ ∧
            records.mapM key.read σ = .ok ((List.finRange _).map keys) υ ∧
            distinctItems key.read records σ = .ok (kept.map records.get) υ ∧ KeepsNew υ keys kept ∧
            ∀ i j, (keys i).found υ (keys j) = .ok true →
              ((values i).found υ (values j) = .ok true ↔ ¬ Clash υ (values i) (values j)) := by
  refine ⟨.key inner, by rw [Resolver.compileKey, hinner]; rfl, ?_, fun records σ => keepsNew_of_json⟩
  intro record ρ' a σ other ρ'' b τ hread ha hread' hb hgrown
  obtain ⟨k, -, hk, -, -⟩ := ha.keyForm hgrown
  obtain ⟨k', -, hk', -, -⟩ := hb.keyForm (.refl τ)
  exact ⟨k, k', read_key hread hk, read_key hread' hk', ha.equal_iff_not_clash hgrown hb hk hk'⟩

/-- Records of an object, of an equal one with its fields in another order, and of an array. -/
def keyedStore : Store :=
  ⟨#[[(.str "k", .mapping 1)], [(.str "a", .int 1), (.str "b", .null)],
    [(.str "k", .mapping 3)], [(.str "b", .null), (.str "a", .bool true)],
    [(.str "k", .list ⟨0, none, 0⟩ [])], [(.str "k", .mapping 6)], []], #[], 0, ⟨0, none, 1⟩⟩

/-- What the records hold is a JSON value. -/
theorem isJson_keyed : (Value.mapping 1).IsJson keyedStore ∧ (Value.mapping 3).IsJson keyedStore ∧
    (Value.list ⟨0, none, 0⟩ []).IsJson keyedStore ∧ (Value.mapping 6).IsJson keyedStore := by
  have hscalars (fields : List (String × Value)) (h : ∀ field ∈ fields, field.2.IsScalar) :
      ∀ field ∈ fields, field.2.IsJson keyedStore := fun field hfield => .scalar (h field hfield)
  refine ⟨.object (by decide) [("a", .int 1), ("b", .null)] rfl (by decide) (hscalars _ ?_),
    .object (by decide) [("b", .null), ("a", .bool true)] rfl (by decide) (hscalars _ ?_),
    .array (List.forall_mem_nil _), .object (by decide) [] rfl (by decide) (List.forall_mem_nil _)⟩
  · exact List.forall_mem_cons.mpr ⟨trivial, List.forall_mem_singleton.mpr trivial⟩
  · exact List.forall_mem_cons.mpr ⟨trivial, List.forall_mem_singleton.mpr trivial⟩

/-- The key of the field of such records. -/
theorem compile_keyed : shapelessResolver.compile keyedStore (.selector (.path "k" ["k"]))
    = .ok (.path "k" ["k"]) := by
  rw [Resolver.compile]

/-- Two records that hold equal objects are one item. -/
theorem compileKey_merges_clashes_keyed : ∃ key,
    shapelessResolver.compileKey keyedStore (.selector (.path "k" ["k"])) = .ok key ∧
      (∃ k k', key.read (.mapping 0) keyedStore = .ok k keyedStore ∧
        key.read (.mapping 2) keyedStore = .ok k' keyedStore ∧
        (k.equal keyedStore k' = .ok true → ((Value.mapping 1).equal keyedStore (.mapping 3) = .ok true ↔
          ¬ Clash keyedStore (.mapping 1) (.mapping 3)))) ∧
      ∃ (values keys : Fin 2 → Value) (kept : List (Fin 2)) (υ : Store),
        [Value.mapping 0, .mapping 2].mapM (Selector.path "k" ["k"]).read keyedStore
            = .ok ((List.finRange 2).map values) υ ∧
          distinctItems key.read [Value.mapping 0, .mapping 2] keyedStore
            = .ok (kept.map [Value.mapping 0, .mapping 2].get) υ ∧ KeepsNew υ keys kept := by
  obtain ⟨hfirst, hsecond, -, -⟩ := isJson_keyed
  obtain ⟨key, hkey, hpair, hgroups⟩ := compileKey_merges_clashes compile_keyed
  have hread : KeyedAs keyedStore (Selector.path "k" ["k"]).read [Value.mapping 0, .mapping 2]
      fun _ υ a => a.IsJson υ := by
    intro r hr τ hτ
    have hfield {address : Nat} {a : Value} (hplace : address < 7)
        (ha : (Value.mapping address).readAttribute keyedStore "k" = .ok a) :
        (Selector.path "k" ["k"]).read (.mapping address) τ = .ok a τ := by
      have hwithin : (Value.mapping address).Within keyedStore.all := within_mapping.mpr hplace
      have hpath : (Value.mapping address).readPath τ ["k"] = .ok a := by
        show ((Value.mapping address).readAttribute τ "k").bind _ = _
        rw [hτ.readAttribute_eq hwithin, ha]
        rfl
      rw [Selector.read, bind_of_ok (get_ok τ), hpath]
      rfl
    rcases List.mem_pair.mp hr with rfl | rfl
    · exact ⟨_, τ, hfield (by decide) rfl, .refl τ, hfirst.grown hτ⟩
    · exact ⟨_, τ, hfield (by decide) rfl, .refl τ, hsecond.grown hτ⟩
  obtain ⟨values, keys, kept, υ, hvalues, -, hkept, hnew, -⟩ := hgroups _ _ hread
  exact ⟨key, hkey, hpair _ _ _ _ _ _ _ _ rfl hfirst rfl hsecond (.refl _), values, keys, kept, υ, hvalues,
    hkept, hnew⟩

/-- An empty array and an empty object have one key, and they are not equal. -/
theorem compileKey_not_injective : ¬ ∀ (r : Resolver) (ρ σ : Store) (expression : Value)
    (inner key : Selector) (record other a b k k' : Value), r.compile ρ expression = .ok inner →
      r.compileKey ρ expression = .ok key → inner.read record σ = .ok a σ → a.IsJson σ →
        inner.read other σ = .ok b σ → b.IsJson σ → key.read record σ = .ok k σ →
          key.read other σ = .ok k' σ → k.equal σ k' = .ok true → a.equal σ b = .ok true := by
  intro hall
  obtain ⟨-, -, harray, hobject⟩ := isJson_keyed
  have hkey : shapelessResolver.compileKey keyedStore (.selector (.path "k" ["k"]))
      = .ok (.key (.path "k" ["k"])) := by
    rw [Resolver.compileKey, compile_keyed]
    rfl
  have hempty : (Value.mapping 6).keyForm keyedStore = .ok (.tuple []) := by
    have hsorted : sortedEntries keyedStore 6 = [] := List.mergeSort_nil
    rw [Value.keyForm, keyFormWith, mappingKeyForm_succ, hsorted]
    rfl
  have hread : (Selector.key (.path "k" ["k"])).read (.mapping 5) keyedStore = .ok (.tuple []) keyedStore :=
    read_key rfl hempty
  have hequal := hall shapelessResolver keyedStore keyedStore (.selector (.path "k" ["k"]))
    (.path "k" ["k"]) (.key (.path "k" ["k"])) (.mapping 4) (.mapping 5) (.list ⟨0, none, 0⟩ [])
    (.mapping 6) (.tuple []) (.tuple []) compile_keyed hkey rfl harray rfl hobject rfl hread rfl
  cases hequal

end

end Value

end Rubric
