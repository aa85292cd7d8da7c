import Rubric.Proofs.KeyOrder
import Rubric.Proofs.Text.Quoted
import Rubric.Proofs.Value.Data
import Rubric.Record.Resolver

/-!
# Key forms of data

The key form of data can be looked up, and equal data have key forms that are equal and share a digest.
It lists the entries of a mapping in the order of their shown keys.  Different texts are shown
differently, so equal mappings with texts as keys list their entries in one order, whatever order they
hold them in.

* `DataForm.TextKeyed` : data in which mappings have texts as keys;
* `SameKeyForm` : answers that are key forms of one plain form;
* `Lists.unique` : what a mapping with texts as keys holds is listed in one way;
* `sameKeyForm_of_data` : data of one form have such;
* `compileKey_respects_equality` : so do the values that a selector reads.
-/

namespace Rubric

open Rubric.Text

namespace Value

/-! ## Mappings with texts as keys -/

/-- Whether a value is a text. -/
def IsText (v : Value) : Prop := ∃ s, v = .str s

/-- Whether the keys of mappings are texts, at any depth. -/
inductive DataForm.TextKeyed : DataForm → Prop
  | scalar (form : PlainForm) : TextKeyed (.scalar form)
  | tuple {items : List DataForm} (h : ∀ form ∈ items, TextKeyed form) : TextKeyed (.tuple items)
  | list {items : List DataForm} (h : ∀ form ∈ items, TextKeyed form) : TextKeyed (.list items)
  | mapping {held : PlainForm → Option DataForm}
      (htexts : ∀ key form, held key = some form → ∃ s, key = .str s)
      (hforms : ∀ key form, held key = some form → TextKeyed form) : TextKeyed (.mapping held)

/-- What has the plain form of a text is the text. -/
theorem eq_str_of_plain {v : Value} {s : String} (h : v.plainForm? = some (.str s)) : v = .str s := by
  cases v with
  | str t =>
      cases h
      rfl
  | tuple items =>
      obtain ⟨forms, -, hforms⟩ := Option.map_eq_some_iff.mp h
      cases hforms
  | _ => cases h

section

variable {σ : Store}

/-- In values whose mappings have texts as keys, they have so by their forms. -/
theorem BuiltFrom.textKeyed {leaf : Value → Prop} (hleaf : ∀ v, leaf v → v.IsScalar) {v : Value}
    (h : v.BuiltFrom σ leaf IsText) :
    ∀ {form : DataForm}, v.HasForm σ form → form.TextKeyed := by
  have hitems {items : List Value} {forms : List DataForm} {fuel : Nat}
      (hforms : dataFormsWith (mappingDataForm σ fuel) items = some forms)
      (ih : ∀ v ∈ items, ∀ {form : DataForm}, v.HasForm σ form → form.TextKeyed) :
      ∀ form ∈ forms, form.TextKeyed := by
    intro form hmem
    obtain ⟨v, hv, hform⟩ := exists_of_forall₂ (dataFormsWith_eq_some.mp hforms) form hmem
    exact ih v hv ⟨fuel, hform⟩
  induction h with
  | @leaf v h =>
      rintro form ⟨fuel, hform⟩
      -- a scalar has a form without parts
      cases dataView_of_form hform with
      | scalar _ _ => exact .scalar _
      | tuple _ | list _ | mapping _ => exact absurd (hleaf _ h) (by simp [IsScalar])
  | tuple _ ih =>
      rintro form ⟨fuel, hform⟩
      obtain ⟨forms, hforms, rfl⟩ := Option.map_eq_some_iff.mp hform
      exact .tuple (hitems hforms ih)
  | list _ ih =>
      rintro form ⟨fuel, hform⟩
      obtain ⟨forms, hforms, rfl⟩ := Option.map_eq_some_iff.mp hform
      exact .list (hitems hforms ih)
  | @mapping address hplace hlabels _ _ hapart ihkeys ihvalues =>
      rintro form ⟨fuel, hform⟩
      cases fuel with
      | zero => cases hform
      | succ fuel =>
          obtain ⟨-, forms, hforms, hnodup, rfl⟩ := mappingDataForm_succ.mp hform
          -- what the form holds under a key comes from an entry of the mapping
          have hentry : ∀ key form, heldIn forms key = some form →
              ∃ e ∈ σ.entries address, e.1.plainForm? = some key ∧ e.2.HasForm σ form := by
            intro key form hheld
            obtain ⟨e, he, hkey, hvalue⟩ := exists_of_forall₂ (entryForms?_eq_some.mp hforms) _
              ((heldIn_eq_some hnodup).mp hheld)
            exact ⟨e, he, hkey, fuel, hvalue⟩
          refine .mapping (fun key form hheld => ?_) (fun key form hheld => ?_)
          · obtain ⟨e, he, hkey, -⟩ := hentry key form hheld
            obtain ⟨s, hs⟩ := (hlabels e he).1
            rw [hs] at hkey
            exact ⟨s, (Option.some.inj hkey).symm⟩
          · obtain ⟨e, he, -, hvalue⟩ := hentry key form hheld
            exact ihvalues e he hvalue

end

/-! ## Answers that are key forms -/

/-- Whether two answers are values of one plain form. -/
def SameKeyForm (found found' : Option Value) : Prop :=
  ∃ k k' form, found = some k ∧ found' = some k' ∧ k.plainForm? = some form ∧ k'.plainForm? = some form

/-- Whether two answers are lists of values of the same plain forms. -/
def SameKeyForms (found found' : Option (List Value)) : Prop :=
  ∃ ks ks' forms, found = some ks ∧ found' = some ks' ∧ plainForms? ks = some forms ∧
    plainForms? ks' = some forms

/-- Empty lists are alike. -/
theorem sameKeyForms_nil : SameKeyForms (some []) (some []) := ⟨[], [], [], rfl, rfl, rfl, rfl⟩

/-- Lists are alike where their first values are and the others. -/
theorem SameKeyForm.cons {found found' : Option Value} {rest rest' : Option (List Value)}
    (h : SameKeyForm found found') (hrest : SameKeyForms rest rest') :
    SameKeyForms (do return (← found) :: (← rest)) (do return (← found') :: (← rest')) := by
  obtain ⟨k, k', form, rfl, rfl, hk, hk'⟩ := h
  obtain ⟨ks, ks', forms, rfl, rfl, hks, hks'⟩ := hrest
  exact ⟨k :: ks, k' :: ks', form :: forms, rfl, rfl, by simp [plainForms?, hk, hks],
    by simp [plainForms?, hk', hks']⟩

/-- Tuples are alike where their items are. -/
theorem SameKeyForms.tuple {found found' : Option (List Value)} (h : SameKeyForms found found') :
    SameKeyForm (found.map Value.tuple) (found'.map Value.tuple) := by
  obtain ⟨ks, ks', forms, rfl, rfl, hks, hks'⟩ := h
  exact ⟨_, _, .tuple forms, rfl, rfl, by rw [plainForm?, hks]; rfl, by rw [plainForm?, hks']; rfl⟩

/-- The key forms of several values are found one by one. -/
theorem keyFormsWith_cons (mappings : Nat → Option Value) (v : Value) (vs : List Value) :
    keyFormsWith mappings (v :: vs)
      = do return (← keyFormWith mappings v) :: (← keyFormsWith mappings vs) := by
  rw [keyFormsWith]
  cases keyFormWith mappings v <;> cases keyFormsWith mappings vs <;> rfl

/-! ## How mappings are listed -/

section

variable {held : PlainForm → Option DataForm} {listed listed' : List (PlainForm × DataForm)}

/-- Whether entries are those of a mapping, in the order of their shown texts. -/
structure Lists (held : PlainForm → Option DataForm) (listed : List (PlainForm × DataForm)) : Prop where
  nodup : listed.Nodup
  mem_iff : ∀ e, e ∈ listed ↔ held e.1 = some e.2
  ordered : listed.Pairwise fun e f => ∀ s t, e.1 = .str s → f.1 = .str t → quoted s ≤ quoted t

/-- Where all keys are texts, there is one such order, for different texts are shown differently. -/
theorem Lists.unique (htexts : ∀ key form, held key = some form → ∃ s, key = .str s)
    (h : Lists held listed) (h' : Lists held listed') : listed = listed' := by
  have hperm : listed.Perm listed' :=
    (List.perm_ext_iff_of_nodup h.nodup h'.nodup).mpr fun e => (h.mem_iff e).trans (h'.mem_iff e).symm
  refine hperm.eq_of_pairwise (fun e f he hf hef hfe => ?_) h.ordered h'.ordered
  have he := (h.mem_iff e).mp he
  have hf := (h'.mem_iff f).mp hf
  obtain ⟨s, hs⟩ := htexts _ _ he
  obtain ⟨t, ht⟩ := htexts _ _ hf
  have hsame : s = t := quoted_injective (String.le_antisymm (hef s t hs ht) (hfe t s ht hs))
  have hkeys : e.1 = f.1 := by rw [hs, ht, hsame]
  rw [hkeys, hf] at he
  exact Prod.ext hkeys (Option.some.inj he.symm)

end

/-- Where lists are related, what holds of each two elements of the one carries over to the other. -/
theorem pairwise_of_forall₂ {α β : Type} {R : α → β → Prop} {P : α → α → Prop} {Q : β → β → Prop}
    {as : List α} {bs : List β} (h : List.Forall₂ R as bs) (has : as.Pairwise P)
    (himp : ∀ {a a' b b'}, R a b → R a' b' → P a a' → Q b b') : bs.Pairwise Q := by
  induction h with
  | nil => exact .nil
  | cons hab hrest ih =>
      obtain ⟨ha, has⟩ := List.pairwise_cons.mp has
      refine List.pairwise_cons.mpr ⟨fun b hb => ?_, ih has⟩
      obtain ⟨a, hmem, hR⟩ := exists_of_forall₂ hrest b hb
      exact himp hab hR (ha a hmem)

section

variable {σ τ : Store} {fuel fuel' address : Nat}

/-- The entries of a mapping with their shown keys, in the order of these. -/
def sortedEntries (σ : Store) (address : Nat) : List (String × Value × Value) :=
  ((σ.entries address).map fun e => (e.1.shown σ, e.1, e.2)).mergeSort fun e f => decide (e.1 ≤ f.1)

/-- An entry as a pair of its key and the key form of its value. -/
def keyPair (mappings : Nat → Option Value) (e : String × Value × Value) : Option Value :=
  (keyFormWith mappings e.2.2).map fun form => .tuple [e.2.1, form]

/-- The key form of a mapping lists its entries as pairs. -/
theorem mappingKeyForm_succ : mappingKeyForm σ (fuel + 1) address
    = ((sortedEntries σ address).mapM (keyPair (mappingKeyForm σ fuel))).map .tuple := by
  have hpair : keyPair (mappingKeyForm σ fuel) = fun e =>
      (do return .tuple [e.2.1, ← keyFormWith (mappingKeyForm σ fuel) e.2.2] : Option Value) := by
    funext e
    rw [keyPair, Option.map_eq_bind]
    rfl
  rw [hpair, Option.map_eq_bind]
  rfl

/-- Whether a sorted entry has the forms of a key and of what is held under it. -/
def EntryHasForm (σ : Store) (fuel : Nat) (e : String × Value × Value) (form : PlainForm × DataForm) :
    Prop :=
  e.1 = e.2.1.shown σ ∧ e.2.1.plainForm? = some form.1 ∧
    dataFormWith (mappingDataForm σ fuel) e.2.2 = some form.2

/-- The sorted entries of a mapping list what it holds. -/
theorem exists_listed {held : PlainForm → Option DataForm}
    (h : mappingDataForm σ (fuel + 1) address = some (.mapping held)) :
    ∃ listed, Lists held listed ∧
      List.Forall₂ (EntryHasForm σ fuel) (sortedEntries σ address) listed := by
  obtain ⟨-, forms, hforms, hnodup, heq⟩ := mappingDataForm_succ.mp h
  obtain rfl : held = heldIn forms := by simpa using heq
  have hentries : List.Forall₂ (EntryHasForm σ fuel)
      ((σ.entries address).map fun e => (e.1.shown σ, e.1, e.2)) forms :=
    List.forall₂_map_left_iff.mpr ((entryForms?_eq_some.mp hforms).imp fun _ _ he => ⟨rfl, he⟩)
  obtain ⟨listed, hlisted, hperm⟩ := List.perm_comp_forall₂ (List.mergeSort_perm _ _) hentries
  refine ⟨listed, ⟨hperm.nodup_iff.mpr (hnodup.of_map _), fun e => ?_, ?_⟩, hlisted⟩
  · rw [hperm.mem_iff, heldIn_eq_some hnodup]
  · have hsorted : (sortedEntries σ address).Pairwise fun e f => decide (e.1 ≤ f.1) = true := by
      refine List.pairwise_mergeSort (fun a b c hab hbc => ?_) (fun a b => ?_) _
      · simp only [decide_eq_true_eq] at hab hbc ⊢
        exact String.le_trans hab hbc
      · simpa using String.le_total a.1 b.1
    refine pairwise_of_forall₂ hlisted hsorted fun {e f g g'} he hf hle s t hs ht => ?_
    have htext {e : String × Value × Value} {g : PlainForm × DataForm} (he : EntryHasForm σ fuel e g)
        {s : String} (hs : g.1 = .str s) : e.1 = quoted s := by
      rw [he.1, eq_str_of_plain (he.2.1.trans (congrArg some hs))]
      rfl
    rw [← htext he hs, ← htext hf ht]
    exact of_decide_eq_true hle

/-- Entries listed alike give pairs that are alike. -/
theorem sameKeyForms_of_listed {entries entries' : List (String × Value × Value)}
    {listed : List (PlainForm × DataForm)} (h : List.Forall₂ (EntryHasForm σ fuel) entries listed)
    (h' : List.Forall₂ (EntryHasForm τ fuel') entries' listed)
    (hvalues : ∀ e ∈ listed, ∀ v w, dataFormWith (mappingDataForm σ fuel) v = some e.2 →
      dataFormWith (mappingDataForm τ fuel') w = some e.2 →
        SameKeyForm (keyFormWith (mappingKeyForm σ fuel) v) (keyFormWith (mappingKeyForm τ fuel') w)) :
    SameKeyForms (entries.mapM (keyPair (mappingKeyForm σ fuel)))
      (entries'.mapM (keyPair (mappingKeyForm τ fuel'))) := by
  induction h generalizing entries' with
  | nil =>
      cases h'
      exact sameKeyForms_nil
  | @cons e form entries listed he _ ih =>
      obtain ⟨e', entries', he', hrest', rfl⟩ := List.forall₂_cons_right_iff.mp h'
      obtain ⟨hform, hvalues⟩ := List.forall_mem_cons.mp hvalues
      obtain ⟨k, k', p, hk, hk', hp, hp'⟩ := hform _ _ he.2.2 he'.2.2
      have hpair : SameKeyForm (keyPair (mappingKeyForm σ fuel) e)
          (keyPair (mappingKeyForm τ fuel') e') :=
        ⟨.tuple [e.2.1, k], .tuple [e'.2.1, k'], .tuple [form.1, p], by rw [keyPair, hk]; rfl,
          by rw [keyPair, hk']; rfl, by simp [plainForm?, plainForms?, he.2.1, hp],
          by simp [plainForm?, plainForms?, he'.2.1, hp']⟩
      rw [List.mapM_cons, List.mapM_cons]
      exact hpair.cons (ih hrest' hvalues)

/-! ## Key forms of data -/

/-- Sequences of data of the same forms have key forms that are alike, where the items have. -/
theorem sameKeyForms_of_data {forms : List DataForm}
    (h : ∀ form ∈ forms, ∀ v w, dataFormWith (mappingDataForm σ fuel) v = some form →
      dataFormWith (mappingDataForm τ fuel') w = some form →
        SameKeyForm (keyFormWith (mappingKeyForm σ fuel) v) (keyFormWith (mappingKeyForm τ fuel') w))
    {vs ws : List Value} (hvs : dataFormsWith (mappingDataForm σ fuel) vs = some forms)
    (hws : dataFormsWith (mappingDataForm τ fuel') ws = some forms) :
    SameKeyForms (keyFormsWith (mappingKeyForm σ fuel) vs)
      (keyFormsWith (mappingKeyForm τ fuel') ws) := by
  replace hvs := dataFormsWith_eq_some.mp hvs
  replace hws := dataFormsWith_eq_some.mp hws
  induction hvs generalizing ws with
  | nil =>
      cases hws
      exact sameKeyForms_nil
  | @cons v form vs forms hv _ ih =>
      obtain ⟨w, ws, hw, hrest, rfl⟩ := List.forall₂_cons_right_iff.mp hws
      obtain ⟨hform, hforms⟩ := List.forall_mem_cons.mp h
      rw [keyFormsWith_cons, keyFormsWith_cons]
      exact (hform v w hv hw).cons (ih hforms hrest)

/-- A scalar is its own key form. -/
theorem keyFormWith_scalar (mappings : Nat → Option Value) {v : Value} (h : v.IsScalar) :
    keyFormWith mappings v = some v := by
  cases v <;> first | rfl | cases h

/-- Data of one form have key forms of one plain form. -/
theorem sameKeyForm_of_data {form : DataForm} (h : form.TextKeyed) :
    ∀ {fuel fuel' : Nat} (v w : Value), dataFormWith (mappingDataForm σ fuel) v = some form →
      dataFormWith (mappingDataForm τ fuel') w = some form →
        SameKeyForm (keyFormWith (mappingKeyForm σ fuel) v) (keyFormWith (mappingKeyForm τ fuel') w) := by
  have hheld {ρ : Store} {fuel address : Nat} {form : DataForm}
      (hform : mappingDataForm ρ fuel address = some form) : ∃ held, form = .mapping held :=
    (byForms_placesEqual ρ fuel).held hform
  induction h with
  | scalar p =>
      intro fuel fuel' v w hv hw
      cases dataView_of_form hv with
      | mapping hv => exact absurd (hheld hv) (by simp)
      | scalar hv hp =>
          cases dataView_of_form hw with
          | mapping hw => exact absurd (hheld hw) (by simp)
          | scalar hw hq =>
              rw [keyFormWith_scalar _ hv, keyFormWith_scalar _ hw]
              exact ⟨v, w, p, rfl, rfl, hp, hq⟩
  | tuple _ ih =>
      intro fuel fuel' v w hv hw
      cases dataView_of_form hv with
      | mapping hv => exact absurd (hheld hv) (by simp)
      | tuple hvs =>
          cases dataView_of_form hw with
          | mapping hw => exact absurd (hheld hw) (by simp)
          | tuple hws =>
              exact (sameKeyForms_of_data (fun form hform v w => ih form hform v w) hvs hws).tuple
  | list _ ih =>
      intro fuel fuel' v w hv hw
      cases dataView_of_form hv with
      | mapping hv => exact absurd (hheld hv) (by simp)
      | list hvs =>
          cases dataView_of_form hw with
          | mapping hw => exact absurd (hheld hw) (by simp)
          | list hws =>
              exact (sameKeyForms_of_data (fun form hform v w => ih form hform v w) hvs hws).tuple
  | mapping htexts _ ih =>
      intro fuel fuel' v w hv hw
      cases dataView_of_form hv with
      | mapping hv =>
          cases dataView_of_form hw with
          | mapping hw =>
              cases fuel with
              | zero => cases hv
              | succ fuel =>
                  cases fuel' with
                  | zero => cases hw
                  | succ fuel' =>
                      -- both list their entries in the one order there is
                      obtain ⟨listed, hlists, hentries⟩ := exists_listed hv
                      obtain ⟨listed', hlists', hentries'⟩ := exists_listed hw
                      obtain rfl := hlists.unique htexts hlists'
                      rw [keyFormWith, keyFormWith, mappingKeyForm_succ, mappingKeyForm_succ]
                      refine (sameKeyForms_of_listed hentries hentries' fun e he v w => ?_).tuple
                      exact ih e.1 e.2 ((hlists.mem_iff e).mp he) v w

end

/-! ## Keys are looked up by equality -/

mutual

/-- Plain values can be looked up. -/
theorem unhashableWith_of_plain (objects : Nat → Option String) :
    ∀ (v : Value) {form : PlainForm}, v.plainForm? = some form → unhashableWith objects v = none
  | .tuple items, _, h => by
      obtain ⟨forms, hforms, -⟩ := Option.map_eq_some_iff.mp h
      exact anyUnhashableWith_of_plain objects items hforms
  | .null, _, _ | .bool _, _, _ | .int _, _, _ | .float _, _, _ | .nan _, _, _ | .str _, _, _ => rfl
  | .list _ _, _, h | .row _ _ _, _, h | .set _ _, _, h | .mapping _, _, h | .object _, _, h
  | .function _ _, _, h | .selector _, _, h | .setter _, _, h | .target _ _, _, h => by cases h

/-- So can plain values in a row. -/
theorem anyUnhashableWith_of_plain (objects : Nat → Option String) :
    ∀ (vs : List Value) {forms : List PlainForm},
      plainForms? vs = some forms → anyUnhashableWith objects vs = none
  | [], _, _ => rfl
  | v :: vs, _, h => by
      obtain ⟨form, hform, forms, hforms, -⟩ := plainForms?_cons h
      rw [anyUnhashableWith, unhashableWith_of_plain objects v hform,
        anyUnhashableWith_of_plain objects vs hforms]

end

section

variable {σ τ : Store}

/-- The key form of a value is "no number" only where the value is. -/
theorem ne_nan_of_keyForm {v k : Value} (hv : ∀ tag, v ≠ .nan tag) (h : v.keyForm σ = .ok k) (tag : Tag) :
    k ≠ .nan tag := by
  rintro rfl
  have hform : keyFormWith (mappingKeyForm σ (σ.nesting + 1)) v = some (.nan tag) := by
    rw [Value.keyForm] at h
    cases hform : keyFormWith (mappingKeyForm σ (σ.nesting + 1)) v with
    | none =>
        rw [hform] at h
        cases h
    | some k =>
        rw [hform] at h
        exact congrArg some (Except.ok.inj h)
  cases v with
  | list _ _ | tuple _ | row _ _ _ =>
      obtain ⟨ks, -, hks⟩ := Option.map_eq_some_iff.mp hform
      cases hks
  | mapping address =>
      rw [keyFormWith, mappingKeyForm_succ] at hform
      obtain ⟨pairs, -, hpairs⟩ := Option.map_eq_some_iff.mp hform
      cases hpairs
  | nan other => exact hv other rfl
  | _ => cases hform

/-- What is no number equals nothing. -/
theorem nan_equal (tag : Tag) (b : Value) : (Value.nan tag).equal σ b = .ok false := by
  cases b <;> simp [equal, equalWith, number?, NumberView.nan_equal, settled]

/-- Data of one form have key forms of one plain form. -/
theorem HasForm.keyForm {v w : Value} {form : DataForm} (h : form.TextKeyed) (hv : v.HasForm σ form)
    (hw : w.HasForm τ form) : ∃ k k' p, v.keyForm σ = .ok k ∧ w.keyForm τ = .ok k' ∧
      k.plainForm? = some p ∧ k'.plainForm? = some p := by
  obtain ⟨k, k', p, hk, hk', hp, hp'⟩ := sameKeyForm_of_data h v w hv.of_nesting hw.of_nesting
  exact ⟨k, k', p, by rw [Value.keyForm, hk, settled], by rw [Value.keyForm, hk', settled], hp, hp'⟩

/-- The key of data can be looked up, and equal data have equal keys of one digest: whatever order
mappings hold their entries in, however deep, and whatever kinds equal numbers are of. -/
theorem compileKey_respects_equality {r : Resolver} {ρ : Store} {expression : Value} {inner : Selector}
    (hinner : r.compile ρ expression = .ok inner) {record : Value} {ρ' : Store} {a : Value}
    (ha : inner.read record ρ' = .ok a σ) (hbuilt : a.BuiltFrom σ IsScalar IsText) :
    ∃ key k, r.compileKey ρ expression = .ok key ∧ key.read record ρ' = .ok k σ ∧
      k.unhashable? σ = none ∧ ∀ other ρ'' b τ, inner.read other ρ'' = .ok b τ → σ.GrownTo τ →
        b.BuiltFrom τ IsScalar IsText → a.equal τ b = .ok true →
          ∃ k', key.read other ρ'' = .ok k' τ ∧ k.equal τ k' = .ok true ∧ k.digest τ = k'.digest τ := by
  obtain ⟨form, hform⟩ := hbuilt.exists_form fun _ => id
  have htexts := hbuilt.textKeyed (fun _ => id) hform
  obtain ⟨k, -, p, hk, -, hp, -⟩ := HasForm.keyForm htexts hform hform
  have hread {record : Value} {ρ' σ : Store} {a k : Value} (ha : inner.read record ρ' = .ok a σ)
      (hk : a.keyForm σ = .ok k) : (Selector.key inner).read record ρ' = .ok k σ := by
    rw [Selector.read, bind_of_ok ha, bind_of_ok (get_ok σ), hk]
    rfl
  refine ⟨.key inner, k, by rw [Resolver.compileKey, hinner]; rfl, hread ha hk,
    unhashableWith_of_plain _ k hp, fun other ρ'' b τ hb hgrown hbuilt' hequal => ?_⟩
  obtain ⟨form', hform'⟩ := hbuilt'.exists_form fun _ => id
  obtain ⟨answer, hanswer, hiff⟩ := (hform.grown hgrown).found hform'
  rw [found_of_equal hequal, Except.ok.injEq] at hanswer
  obtain rfl := hiff.mp hanswer.symm
  obtain ⟨k₁, k', p', hk₁, hk', hp₁, hp'⟩ := HasForm.keyForm htexts hform hform'
  obtain rfl : k = k₁ := Except.ok.inj (hk.symm.trans hk₁)
  -- a key that is no number would not equal itself, but what it is the key of would not either
  have hnumber : ∀ tag, a ≠ .nan tag := by
    rintro tag rfl
    rw [nan_equal] at hequal
    cases hequal
  obtain ⟨answer, hanswer, hiff⟩ := matchWith_of_plain τ.samePlace k k' _ _ hp₁ hp'
  refine ⟨k', hread hb hk', ?_, ?_⟩
  · rw [equal_eq_found (ne_nan_of_keyForm hnumber hk), found, hanswer, hiff.mpr rfl, settled]
  · rw [digest, digest, digestWith_of_plain _ k hp₁, digestWith_of_plain _ k' hp']

/-- Two records that hold equal mappings, with the entries in another order. -/
def nestedStore : Store :=
  ⟨#[[(.str "k", .mapping 1)], [(.str "a", .int 1), (.str "b", .list ⟨0, none, 0⟩ [.null])],
    [(.str "b", .list ⟨0, none, 1⟩ [.null]), (.str "a", .bool true)], [(.str "k", .mapping 2)]], #[], 0,
    ⟨0, none, 2⟩⟩

/-- The resolver of a shape without attributes. -/
def shapelessResolver : Resolver := ⟨⟨"dict", []⟩, []⟩

/-- The keys of the two records are equal and share a digest. -/
theorem compileKey_respects_equality_nested : ∃ key k,
    shapelessResolver.compileKey nestedStore (.selector (.path "k" ["k"])) = .ok key ∧
      key.read (.mapping 0) nestedStore = .ok k nestedStore ∧ k.unhashable? nestedStore = none ∧
      ∃ k', key.read (.mapping 3) nestedStore = .ok k' nestedStore ∧
        k.equal nestedStore k' = .ok true ∧ k.digest nestedStore = k'.digest nestedStore := by
  have hleaf {v : Value} (h : v.IsScalar) : v.BuiltFrom nestedStore IsScalar IsText :=
    .leaf h
  have hlist (tag : Tag) : (Value.list tag [.null]).BuiltFrom nestedStore IsScalar IsText :=
    .list (List.forall_mem_singleton.mpr (hleaf trivial))
  have hfirst : (Value.mapping 1).BuiltFrom nestedStore IsScalar IsText :=
    .of_texts (by decide) [("a", .int 1), ("b", .list ⟨0, none, 0⟩ [.null])] rfl
      (fun s => ⟨trivial, s, rfl⟩) (by decide)
      (List.forall_mem_cons.mpr ⟨hleaf trivial, List.forall_mem_singleton.mpr (hlist _)⟩)
  have hsecond : (Value.mapping 2).BuiltFrom nestedStore IsScalar IsText :=
    .of_texts (by decide) [("b", .list ⟨0, none, 1⟩ [.null]), ("a", .bool true)] rfl
      (fun s => ⟨trivial, s, rfl⟩) (by decide)
      (List.forall_mem_cons.mpr ⟨hlist _, List.forall_mem_singleton.mpr (hleaf trivial)⟩)
  have hinner : shapelessResolver.compile nestedStore (.selector (.path "k" ["k"]))
      = .ok (.path "k" ["k"]) := by
    rw [Resolver.compile]
  have hone : (Selector.path "k" ["k"]).read (.mapping 0) nestedStore
      = .ok (.mapping 1) nestedStore := rfl
  have htwo : (Selector.path "k" ["k"]).read (.mapping 3) nestedStore
      = .ok (.mapping 2) nestedStore := rfl
  obtain ⟨key, k, hkey, hread, hhashable, hsame⟩ := compileKey_respects_equality hinner hone hfirst
  exact ⟨key, k, hkey, hread, hhashable,
    hsame (.mapping 3) nestedStore (.mapping 2) nestedStore htwo (.refl _) hsecond (by decide +kernel)⟩

end

end Value

end Rubric
