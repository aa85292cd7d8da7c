import Rubric.Proofs.Value.Agreement

/-!
# Looking into values in stores that agree

Keys and digests, attributes and paths, the items of collections and filled templates are the same in
two stores that agree on a closed region, for values within the region; and what is looked up is within
the region again.
-/

namespace Rubric

open Value (Place)

variable {σ σ' : Store} {region : Region}

/-! ## Hashable values -/

mutual

/-- Values can be looked up alike over two answers for objects that are the same in the region. -/
theorem Value.unhashableWith_congr {objects objects' : Nat → Option String}
    (hobjects : ∀ address, Place.object address ∈ region → objects' address = objects address) :
    ∀ v : Value, v.Within region → unhashableWith objects' v = unhashableWith objects v
  | .tuple items, hv => by
      simp only [unhashableWith, anyUnhashableWith_congr hobjects items (within_tuple.mp hv)]
  | .row _ _ items, hv => by
      simp only [unhashableWith, anyUnhashableWith_congr hobjects items (within_row.mp hv)]
  | .object address, hv => hobjects address (within_object.mp hv)
  | .list _ _, _ | .mapping _, _ | .set _ _, _ | .null, _ | .bool _, _ | .int _, _ | .float _, _
  | .nan _, _ | .str _, _ | .function _ _, _ | .selector _, _ | .setter _, _ | .target _ _, _ => rfl

/-- So can several values. -/
theorem Value.anyUnhashableWith_congr {objects objects' : Nat → Option String}
    (hobjects : ∀ address, Place.object address ∈ region → objects' address = objects address) :
    ∀ vs : List Value, (∀ v ∈ vs, v.Within region) →
      anyUnhashableWith objects' vs = anyUnhashableWith objects vs
  | [], _ => rfl
  | v :: vs, hvs => by
      obtain ⟨hv, hvs⟩ := List.forall_mem_cons.mp hvs
      simp only [anyUnhashableWith, unhashableWith_congr hobjects v hv,
        anyUnhashableWith_congr hobjects vs hvs]

end

namespace Value

/-- Objects of the region can be looked up alike. -/
theorem unhashableObject_agree (h : σ.Agree region σ') (fuel : Nat) :
    ∀ address, Place.object address ∈ region →
      unhashableObject σ' fuel address = unhashableObject σ fuel address := by
  induction fuel with
  | zero => intro address _; rfl
  | succ fuel ih =>
      intro address haddress
      simp only [unhashableObject, h.object_eq address haddress,
        anyUnhashableWith_congr ih _ (h.closed.fieldValues haddress)]

/-- A value can be looked up in both or in none. -/
theorem unhashable?_agree (h : σ.Agree region σ') {v : Value} (hv : v.Within region) :
    v.unhashable? σ' = v.unhashable? σ := by
  rw [unhashable?, unhashable?, h.nesting_eq, unhashableWith_congr (unhashableObject_agree h _) v hv]

/-- A value is refused in both or in none. -/
theorem requireHashable_agree (h : σ.Agree region σ') {v : Value} (hv : v.Within region) :
    v.requireHashable σ' = v.requireHashable σ := by
  rw [requireHashable, requireHashable, unhashable?_agree h hv]

/-! ## Membership and comparisons -/

/-- The entries of a mapping of the region have keys within it. -/
theorem keys_within (h : σ.Closed region) {address : Nat}
    (haddress : Place.mapping address ∈ region) :
    ∀ entry ∈ σ.entries address, entry.1.Within region := fun _ hentry => (h.entry haddress hentry).1

/-- A value is a member of a collection in both or in none. -/
theorem memberOf_agree (h : σ.Agree region σ') {a b : Value} (ha : a.Within region)
    (hb : b.Within region) : memberOf σ' a b = memberOf σ a b := by
  cases b with
  | str t => cases a <;> simp only [memberOf, typeName_agree h ha]
  | list _ items => exact foundIn_agree h ha (within_list.mp hb)
  | tuple items => exact foundIn_agree h ha (within_tuple.mp hb)
  | row _ _ items => exact foundIn_agree h ha (within_row.mp hb)
  | set _ items =>
      have hitems := within_set.mp hb
      cases a with
      | set frozen members =>
          have hmembers : (Value.set true members).Within region := within_set.mpr (within_set.mp ha)
          cases frozen with
          | false => exact foundIn_agree h hmembers hitems
          | true => simp only [memberOf, requireHashable_agree h ha, foundIn_agree h ha hitems]
      | _ => simp only [memberOf, requireHashable_agree h ha, foundIn_agree h ha hitems]
  | mapping address =>
      have haddress := within_mapping.mp hb
      simp only [memberOf, requireHashable_agree h ha, h.entries_eq address haddress,
        lookup_agree h ha (keys_within h.closed haddress)]
  | _ => simp only [memberOf, typeName_agree h hb]

/-- An order comparison holds in both or in none. -/
theorem order_agree (h : σ.Agree region σ') (op : OrderOp) {a b : Value} (ha : a.Within region)
    (hb : b.Within region) : order σ' op a b = order σ op a b := orderWith_agree h op a b ha hb

/-- A comparison of scripts holds in both or in none. -/
theorem compareText_agree (h : σ.Agree region σ') {a b : Value} (ha : a.Within region)
    (operator : String) (hb : b.Within region) :
    compareText σ' a operator b = compareText σ a operator b := by
  simp only [compareText, equal_agree h ha hb, memberOf_agree h ha hb, order_agree h _ ha hb]

end Value

/-! ## Key forms -/

mutual

/-- A value has the same key form over two answers for mappings that are the same in the region. -/
theorem Value.keyFormWith_congr {mappings mappings' : Nat → Option Value}
    (hmappings : ∀ address, Place.mapping address ∈ region → mappings' address = mappings address) :
    ∀ v : Value, v.Within region → keyFormWith mappings' v = keyFormWith mappings v
  | .list _ items, hv => by
      simp only [keyFormWith, keyFormsWith_congr hmappings items (within_list.mp hv)]
  | .tuple items, hv => by
      simp only [keyFormWith, keyFormsWith_congr hmappings items (within_tuple.mp hv)]
  | .row _ _ items, hv => by
      simp only [keyFormWith, keyFormsWith_congr hmappings items (within_row.mp hv)]
  | .mapping address, hv => hmappings address (within_mapping.mp hv)
  | .object _, _ | .set _ _, _ | .null, _ | .bool _, _ | .int _, _ | .float _, _ | .nan _, _ | .str _, _
  | .function _ _, _ | .selector _, _ | .setter _, _ | .target _ _, _ => rfl

/-- So have several values. -/
theorem Value.keyFormsWith_congr {mappings mappings' : Nat → Option Value}
    (hmappings : ∀ address, Place.mapping address ∈ region → mappings' address = mappings address) :
    ∀ vs : List Value, (∀ v ∈ vs, v.Within region) →
      keyFormsWith mappings' vs = keyFormsWith mappings vs
  | [], _ => rfl
  | v :: vs, hvs => by
      obtain ⟨hv, hvs⟩ := List.forall_mem_cons.mp hvs
      simp only [keyFormsWith, keyFormWith_congr hmappings v hv, keyFormsWith_congr hmappings vs hvs]

end

mutual

/-- The key form of a value within a region is within it, where those of mappings are. -/
theorem Value.keyFormWith_within {mappings : Nat → Option Value}
    (hmappings : ∀ address form, Place.mapping address ∈ region → mappings address = some form →
      form.Within region) :
    ∀ v form : Value, v.Within region → keyFormWith mappings v = some form → form.Within region
  | .list _ items, form, hv, h => by
      obtain ⟨forms, hforms, rfl⟩ := Option.map_eq_some_iff.mp h
      exact within_tuple.mpr (keyFormsWith_within hmappings items forms (within_list.mp hv) hforms)
  | .tuple items, form, hv, h => by
      obtain ⟨forms, hforms, rfl⟩ := Option.map_eq_some_iff.mp h
      exact within_tuple.mpr (keyFormsWith_within hmappings items forms (within_tuple.mp hv) hforms)
  | .row _ _ items, form, hv, h => by
      obtain ⟨forms, hforms, rfl⟩ := Option.map_eq_some_iff.mp h
      exact within_tuple.mpr (keyFormsWith_within hmappings items forms (within_row.mp hv) hforms)
  | .set _ items, form, hv, h => by
      cases h
      exact within_set.mpr (within_set.mp hv)
  | .mapping address, form, hv, h => hmappings address form (within_mapping.mp hv) h
  | .object _, _, hv, h | .null, _, hv, h | .bool _, _, hv, h | .int _, _, hv, h | .float _, _, hv, h
  | .nan _, _, hv, h | .str _, _, hv, h | .function _ _, _, hv, h | .selector _, _, hv, h
  | .setter _, _, hv, h | .target _ _, _, hv, h => by cases h; exact hv

/-- So are those of several values. -/
theorem Value.keyFormsWith_within {mappings : Nat → Option Value}
    (hmappings : ∀ address form, Place.mapping address ∈ region → mappings address = some form →
      form.Within region) :
    ∀ vs forms : List Value, (∀ v ∈ vs, v.Within region) → keyFormsWith mappings vs = some forms →
      ∀ form ∈ forms, form.Within region
  | [], forms, _, h => by cases h; simp
  | v :: vs, forms, hvs, h => by
      obtain ⟨hv, hvs⟩ := List.forall_mem_cons.mp hvs
      simp only [keyFormsWith] at h
      split at h
      · rename_i form rest hform hrest
        cases h
        exact List.forall_mem_cons.mpr ⟨keyFormWith_within hmappings v form hv hform,
          keyFormsWith_within hmappings vs rest hvs hrest⟩
      · cases h

end

/-- Collecting the answers for the members of a list goes by these only. -/
theorem mapM_option_congr {α β : Type} {f g : α → Option β} {as : List α}
    (h : ∀ a ∈ as, f a = g a) : as.mapM f = as.mapM g := by
  induction as with
  | nil => rfl
  | cons a as ih =>
      obtain ⟨ha, has⟩ := List.forall_mem_cons.mp h
      simp only [List.mapM_cons, ha, ih has]

/-- What holds of every answer for a member of a list holds of those collected. -/
theorem forall_of_mapM_option {α β : Type} {f : α → Option β} {as : List α} {bs : List β}
    {P : β → Prop} (h : ∀ a ∈ as, ∀ b, f a = some b → P b) (hbs : as.mapM f = some bs) :
    ∀ b ∈ bs, P b := by
  induction as generalizing bs with
  | nil =>
      cases hbs
      simp
  | cons a as ih =>
      obtain ⟨ha, has⟩ := List.forall_mem_cons.mp h
      simp only [List.mapM_cons, Option.bind_eq_bind, Option.pure_def, Option.bind_eq_some_iff,
        Option.some.injEq] at hbs
      obtain ⟨b, hb, rest, hrest, rfl⟩ := hbs
      exact List.forall_mem_cons.mpr ⟨ha b hb, ih has hrest⟩

namespace Value

/-- Mappings of the region have the same key form. -/
theorem mappingKeyForm_agree (h : σ.Agree region σ') (fuel : Nat) :
    ∀ address, Place.mapping address ∈ region →
      mappingKeyForm σ' fuel address = mappingKeyForm σ fuel address := by
  induction fuel with
  | zero => intro address _; rfl
  | succ fuel ih =>
      intro address haddress
      have hshown : (σ.entries address).map (fun e => (e.1.shown σ', e.1, e.2))
          = (σ.entries address).map fun e => (e.1.shown σ, e.1, e.2) :=
        List.map_congr_left fun entry hentry => by
          rw [shown_agree h (h.closed.entry haddress hentry).1]
      simp only [mappingKeyForm, h.entries_eq address haddress, hshown]
      congr 1
      refine mapM_option_congr fun e he => ?_
      obtain ⟨entry, hentry, rfl⟩ := List.mem_map.mp (List.mem_mergeSort.mp he)
      simp only [keyFormWith_congr ih _ (h.closed.entry haddress hentry).2]

/-- The key form of a mapping of a closed region is within it. -/
theorem mappingKeyForm_within (h : σ.Closed region) (fuel : Nat) :
    ∀ address form, Place.mapping address ∈ region → mappingKeyForm σ fuel address = some form →
      form.Within region := by
  induction fuel with
  | zero => intro address form _ hform; cases hform
  | succ fuel ih =>
      intro address form haddress hform
      simp only [mappingKeyForm, Option.bind_eq_bind, Option.pure_def, Option.bind_eq_some_iff,
        Option.some.injEq] at hform
      obtain ⟨pairs, hpairs, rfl⟩ := hform
      refine within_tuple.mpr (forall_of_mapM_option (fun e he pair hpair => ?_) hpairs)
      obtain ⟨entry, hentry, rfl⟩ := List.mem_map.mp (List.mem_mergeSort.mp he)
      obtain ⟨hkey, hvalue⟩ := h.entry haddress hentry
      obtain ⟨value, hform, hpair⟩ := Option.bind_eq_some_iff.mp hpair
      cases hpair
      simpa [hkey] using keyFormWith_within ih _ _ hvalue hform

/-- A value has the same key form. -/
theorem keyForm_agree (h : σ.Agree region σ') {v : Value} (hv : v.Within region) :
    v.keyForm σ' = v.keyForm σ := by
  rw [keyForm, keyForm, h.nesting_eq, keyFormWith_congr (mappingKeyForm_agree h _) v hv]

/-- The key form of a value within a closed region is within it. -/
theorem keyForm_within (h : σ.Closed region) {v form : Value} (hv : v.Within region)
    (hform : v.keyForm σ = .ok form) : form.Within region := by
  rw [keyForm] at hform
  cases hfound : keyFormWith (mappingKeyForm σ (σ.nesting + 1)) v with
  | none => simp [hfound, settled] at hform
  | some found =>
      simp only [hfound, settled, Except.ok.injEq] at hform
      exact hform ▸ keyFormWith_within (mappingKeyForm_within h _) v found hv hfound

end Value

/-! ## Digests -/

mutual

/-- A value has the same digest over two answers for objects that are the same in the region. -/
theorem Value.digestWith_congr {objects objects' : Nat → Nat}
    (hobjects : ∀ address, Place.object address ∈ region → objects' address = objects address) :
    ∀ v : Value, v.Within region → digestWith objects' v = digestWith objects v
  | .list _ items, hv => by
      simp only [digestWith, itemsDigestWith_congr hobjects _ items (within_list.mp hv)]
  | .tuple items, hv => by
      simp only [digestWith, itemsDigestWith_congr hobjects _ items (within_tuple.mp hv)]
  | .row _ _ items, hv => by
      simp only [digestWith, itemsDigestWith_congr hobjects _ items (within_row.mp hv)]
  | .set _ items, hv => by
      simp only [digestWith, setDigestWith_congr hobjects items (within_set.mp hv)]
  | .object address, hv => hobjects address (within_object.mp hv)
  | .mapping _, _ | .null, _ | .bool _, _ | .int _, _ | .float _, _ | .nan _, _ | .str _, _
  | .function _ _, _ | .selector _, _ | .setter _, _ | .target _ _, _ => rfl

/-- So have sequences. -/
theorem Value.itemsDigestWith_congr {objects objects' : Nat → Nat}
    (hobjects : ∀ address, Place.object address ∈ region → objects' address = objects address)
    (start : Nat) :
    ∀ vs : List Value, (∀ v ∈ vs, v.Within region) →
      itemsDigestWith objects' start vs = itemsDigestWith objects start vs
  | [], _ => rfl
  | v :: vs, hvs => by
      obtain ⟨hv, hvs⟩ := List.forall_mem_cons.mp hvs
      simp only [itemsDigestWith, digestWith_congr hobjects v hv, itemsDigestWith_congr hobjects _ vs hvs]

/-- So have sets. -/
theorem Value.setDigestWith_congr {objects objects' : Nat → Nat}
    (hobjects : ∀ address, Place.object address ∈ region → objects' address = objects address) :
    ∀ vs : List Value, (∀ v ∈ vs, v.Within region) →
      setDigestWith objects' vs = setDigestWith objects vs
  | [], _ => rfl
  | v :: vs, hvs => by
      obtain ⟨hv, hvs⟩ := List.forall_mem_cons.mp hvs
      simp only [setDigestWith, digestWith_congr hobjects v hv, setDigestWith_congr hobjects vs hvs]

end

namespace Value

/-- Objects of the region have the same digest. -/
theorem objectDigest_agree (h : σ.Agree region σ') (fuel : Nat) :
    ∀ address, Place.object address ∈ region →
      objectDigest σ' fuel address = objectDigest σ fuel address := by
  induction fuel with
  | zero => intro address _; rfl
  | succ fuel ih =>
      intro address haddress
      simp only [objectDigest, h.object_eq address haddress,
        itemsDigestWith_congr ih _ _ (h.closed.fieldValues haddress)]

/-- A value has the same digest. -/
theorem digest_agree (h : σ.Agree region σ') {v : Value} (hv : v.Within region) :
    v.digest σ' = v.digest σ := by
  rw [digest, digest, h.nesting_eq, digestWith_congr (objectDigest_agree h _) v hv]

end Value

/-! ## Attributes -/

namespace Value

/-- What a compiled selector, setter or target shows is within the region. -/
theorem compiledAttribute?_within {v w : Value} {name : String} (hv : v.Within region)
    (h : v.compiledAttribute? name = some w) : w.Within region := by
  cases v with
  | selector s =>
      simp only [compiledAttribute?] at h
      split at h
      · cases h
        simp
      · split at h
        · cases h
          cases s.path? <;> simp
        · split at h
          · split at h
            · cases h
              simpa using hv
            · cases h
          · cases h
  | setter s =>
      simp only [compiledAttribute?] at h
      split at h
      · cases h
        simp
      · split at h
        · cases h
          simp
        · cases h
  | target s assign =>
      obtain ⟨hs, hassign⟩ := within_target.mp hv
      simp only [compiledAttribute?] at h
      split at h
      · cases h
        simp
      · split at h
        · cases h
          exact within_selector.mpr hs
        · split at h
          · cases h
            cases assign with
            | none => exact within_null
            | some a => exact within_setter.mpr (hassign a rfl)
          · cases h
  | _ => cases h

/-- A value has the same attributes. -/
theorem readAttribute_agree (h : σ.Agree region σ') {v : Value} (hv : v.Within region)
    (name : String) : v.readAttribute σ' name = v.readAttribute σ name := by
  cases v with
  | mapping address =>
      have haddress := within_mapping.mp hv
      simp only [readAttribute, h.entries_eq address haddress,
        lookup_agree h (within_str name) (keys_within h.closed haddress)]
  | object address =>
      simp only [readAttribute, typeName_agree h hv, h.object_eq address (within_object.mp hv)]
  | _ => simp only [readAttribute, typeName_agree h hv]

/-- What is found under a name does not depend on the store. -/
theorem lookup_str (σ σ' : Store) (name : String) (entries : List (Value × Value)) :
    lookup σ' (str name) entries = lookup σ (str name) entries := by
  have hmatch : ∀ k, matchWith σ'.samePlace k (str name) = matchWith σ.samePlace k (str name) := by
    intro k
    cases k <;> rfl
  have hsame : lookupWith σ'.samePlace (str name) entries
      = lookupWith σ.samePlace (str name) entries := by
    induction entries with
    | nil => rfl
    | cons entry entries ih => simp only [lookupWith, hmatch, ih]
  rw [lookup, lookup, hsame]

/-- The attributes of a value go by its own contents only. -/
theorem readAttribute_congr {v : Value} {name : String}
    (hentries : ∀ address, v = mapping address → σ'.entries address = σ.entries address)
    (hobject : ∀ address, v = object address → σ'.object address = σ.object address) :
    v.readAttribute σ' name = v.readAttribute σ name := by
  cases v with
  | mapping address => simp only [readAttribute, hentries address rfl, lookup_str σ σ']
  | object address => simp only [readAttribute, typeName, hobject address rfl]
  | selector s => cases s <;> rfl
  | _ => rfl

/-- An attribute of a value is within the region. -/
theorem readAttribute_within (h : σ.Closed region) {v w : Value} (hv : v.Within region)
    {name : String} (hw : v.readAttribute σ name = .ok w) : w.Within region := by
  cases v with
  | null =>
      cases hw
      exact within_null
  | mapping address =>
      simp only [readAttribute] at hw
      cases hfound : lookup σ (str name) (σ.entries address) with
      | error fault => simp [hfound, Except.map] at hw
      | ok found =>
          simp only [hfound, Except.map, Except.ok.injEq] at hw
          subst hw
          cases found with
          | none => exact within_null
          | some found =>
              obtain ⟨k, hk⟩ := mem_of_lookup hfound
              exact (h.entry (within_mapping.mp hv) hk).2
  | object address =>
      simp only [readAttribute] at hw
      split at hw
      · rename_i found hfound
        cases hw
        exact h.attribute (within_object.mp hv) (Store.mem_of_lookup hfound)
      · cases hw
  | row tag type items =>
      simp only [readAttribute] at hw
      split at hw
      · rename_i found hfound
        cases hw
        have hmem : (name, w) ∈ type.fields.zip items := Store.mem_of_lookup hfound
        exact within_row.mp hv w (List.of_mem_zip hmem).2
      · cases hw
  | _ =>
      simp only [readAttribute] at hw
      split at hw
      · rename_i found hfound
        cases hw
        exact compiledAttribute?_within hv hfound
      · cases hw

/-- The value at the end of a path is the same, and within the region. -/
theorem readPath_agree (h : σ.Agree region σ') (path : List String) :
    ∀ {v : Value}, v.Within region → v.readPath σ' path = v.readPath σ path ∧
      ∀ w, v.readPath σ path = .ok w → w.Within region := by
  induction path with
  | nil =>
      intro v hv
      refine ⟨rfl, ?_⟩
      rintro w ⟨rfl⟩
      exact hv
  | cons name path ih =>
      intro v hv
      simp only [readPath, List.foldlM_cons, readAttribute_agree h hv]
      cases hread : v.readAttribute σ name with
      | error fault => exact ⟨rfl, fun w hw => by cases hw⟩
      | ok w => exact ih (readAttribute_within h.closed hv hread)

/-- Entries get a new value under a name alike. -/
theorem setEntry_agree (h : σ.Agree region σ') (name : String) (value : Value)
    {entries : List (Value × Value)} (hentries : ∀ entry ∈ entries, entry.1.Within region) :
    setEntry σ' name value entries = setEntry σ name value entries := by
  induction entries with
  | nil => rfl
  | cons entry entries ih =>
      obtain ⟨hentry, hentries⟩ := List.forall_mem_cons.mp hentries
      simp only [setEntry, found_agree h hentry (within_str name), ih hentries]

/-! ## Collections -/

/-- A collection has the same items. -/
theorem items_agree (h : σ.Agree region σ') {v : Value} (hv : v.Within region) :
    v.items σ' = v.items σ := by
  cases v with
  | mapping address => simp only [items, h.entries_eq address (within_mapping.mp hv)]
  | _ => simp only [items, typeName_agree h hv]

/-- The characters of a string are within every region. -/
theorem characters_within (s : String) :
    ∀ v ∈ s.toList.map fun c => str c.toString, v.Within region := by
  intro v hv
  obtain ⟨c, -, rfl⟩ := List.mem_map.mp hv
  exact within_str _

/-- The items of a collection are within the region. -/
theorem items_within (h : σ.Closed region) {v : Value} (hv : v.Within region) {vs : List Value}
    (hvs : v.items σ = .ok vs) : ∀ w ∈ vs, w.Within region := by
  cases v with
  | str s =>
      cases hvs
      exact characters_within s
  | list _ xs =>
      cases hvs
      exact within_list.mp hv
  | tuple xs =>
      cases hvs
      exact within_tuple.mp hv
  | row _ _ xs =>
      cases hvs
      exact within_row.mp hv
  | set _ xs =>
      cases hvs
      exact within_set.mp hv
  | mapping address =>
      cases hvs
      intro w hw
      obtain ⟨entry, hentry, rfl⟩ := List.mem_map.mp hw
      exact (h.entry (within_mapping.mp hv) hentry).1
  | _ => cases hvs

/-- A collection has the same length. -/
theorem length_agree (h : σ.Agree region σ') {v : Value} (hv : v.Within region) :
    v.length σ' = v.length σ := by
  cases v with
  | mapping address => simp only [length, h.entries_eq address (within_mapping.mp hv)]
  | _ => simp only [length, typeName_agree h hv]

/-- The same item is at a position. -/
theorem itemAt_agree (h : σ.Agree region σ') (sequence : String) (xs : List Value) {key : Value}
    (hkey : key.Within region) : itemAt σ' sequence xs key = itemAt σ sequence xs key := by
  simp only [itemAt, typeName_agree h hkey]

/-- The item at a position is one of the items. -/
theorem mem_of_itemAt {sequence : String} {xs : List Value} {key w : Value}
    (h : itemAt σ sequence xs key = .ok w) : w ∈ xs := by
  simp only [itemAt] at h
  split at h
  · cases h
  · rename_i n _
    split at h
    · cases h
    · generalize (if n < 0 then n + (xs.length : Int) else n) = place at h
      split at h
      · cases h
      · split at h
        · rename_i v hv
          cases h
          exact List.mem_of_getElem? hv
        · cases h

/-- The same is found in a collection. -/
theorem subscript_agree (h : σ.Agree region σ') {container key : Value}
    (hcontainer : container.Within region) (hkey : key.Within region) :
    container.subscript σ' key = container.subscript σ key := by
  cases container with
  | str s | list _ xs | tuple xs | row _ _ xs => exact itemAt_agree h _ _ hkey
  | mapping address =>
      have haddress := within_mapping.mp hcontainer
      simp only [subscript, requireHashable_agree h hkey, h.entries_eq address haddress,
        lookup_agree h hkey (keys_within h.closed haddress), shown_agree h hkey]
  | _ => simp only [subscript, typeName_agree h hcontainer]

/-- What is found in a collection is within the region. -/
theorem subscript_within (h : σ.Closed region) {container key w : Value}
    (hcontainer : container.Within region) (hw : container.subscript σ key = .ok w) :
    w.Within region := by
  cases container with
  | str s => exact characters_within s w (mem_of_itemAt hw)
  | list _ xs => exact within_list.mp hcontainer w (mem_of_itemAt hw)
  | tuple xs => exact within_tuple.mp hcontainer w (mem_of_itemAt hw)
  | row _ _ xs => exact within_row.mp hcontainer w (mem_of_itemAt hw)
  | mapping address =>
      simp only [subscript, bind, Except.bind] at hw
      split at hw
      · cases hw
      · split at hw
        · cases hw
        · rename_i found hfound
          split at hw
          · cases hw
            obtain ⟨k, hk⟩ := mem_of_lookup hfound
            exact (h.entry (within_mapping.mp hcontainer) hk).2
          · cases hw
  | _ => cases hw

/-- The extreme one of some values is the same, and one of them. -/
theorem extreme_agree (h : σ.Agree region σ') (op : OrderOp) (rest : List Value) :
    ∀ {first : Value}, first.Within region → (∀ v ∈ rest, v.Within region) →
      extreme σ' op first rest = extreme σ op first rest ∧
        ∀ w, extreme σ op first rest = .ok w → w.Within region := by
  induction rest with
  | nil =>
      intro first hfirst _
      refine ⟨rfl, ?_⟩
      rintro w ⟨rfl⟩
      exact hfirst
  | cons v rest ih =>
      intro first hfirst hrest
      obtain ⟨hv, hrest⟩ := List.forall_mem_cons.mp hrest
      simp only [extreme, List.foldlM_cons, order_agree h op hv hfirst, bind, Except.bind]
      cases horder : order σ op v first with
      | error fault => exact ⟨rfl, fun w hw => by cases hw⟩
      | ok better => cases better with
        | true => exact ih hv hrest
        | false => exact ih hfirst hrest

/-- A value stands for the same integer. -/
theorem toInteger_agree (h : σ.Agree region σ') {v : Value} (hv : v.Within region) :
    v.toInteger σ' = v.toInteger σ := by
  cases v <;> simp only [toInteger, typeName_agree h hv]

/-- Values that are not found among others are the same, and some of them. -/
theorem without_agree (h : σ.Agree region σ') {removed : List Value}
    (hremoved : ∀ v ∈ removed, v.Within region) {vs : List Value}
    (hvs : ∀ v ∈ vs, v.Within region) :
    without σ' removed vs = without σ removed vs ∧
      ∀ ws, without σ removed vs = .ok ws → ∀ w ∈ ws, w.Within region := by
  induction vs with
  | nil =>
      refine ⟨rfl, ?_⟩
      rintro ws ⟨rfl⟩
      simp
  | cons v vs ih =>
      obtain ⟨hv, hvs⟩ := List.forall_mem_cons.mp hvs
      obtain ⟨heq, hwithin⟩ := ih hvs
      simp only [without, foundIn_agree h hv hremoved, heq, true_and, bind, Except.bind, pure,
        Except.pure]
      intro ws hws
      split at hws
      · cases hws
      · split at hws
        · cases hws
        · rename_i rest hrest
          cases hws
          split
          · exact hwithin rest hrest
          · exact List.forall_mem_cons.mpr ⟨hv, hwithin rest hrest⟩

end Value

end Rubric
