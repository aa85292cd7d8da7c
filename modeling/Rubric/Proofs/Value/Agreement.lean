import Rubric.Proofs.Value.Places
import Rubric.Record.Access
import Rubric.Value.Key

/-!
# Looking at values in stores that agree

Where two stores agree on a closed region, every way of looking at values within the region finds the
same in both, and what it finds is within the region again.
-/

namespace Rubric

open Value (Place)

variable {σ σ' : Store} {region : Region}

/-! ## Types and truth -/

/-- A value has the same type. -/
theorem Value.typeName_agree (h : σ.Agree region σ') {v : Value} (hv : v.Within region) :
    v.typeName σ' = v.typeName σ := by
  cases v with
  | object address => rw [typeName, typeName, h.object_eq address (within_object.mp hv)]
  | selector s => cases s <;> rfl
  | _ => rfl

/-- A value counts as true in both or in none. -/
theorem Value.truthy_agree (h : σ.Agree region σ') {v : Value} (hv : v.Within region) :
    v.truthy σ' = v.truthy σ := by
  cases v with
  | mapping address => rw [truthy, truthy, h.entries_eq address (within_mapping.mp hv)]
  | _ => rfl

/-! ## Shown forms -/

/-- The place of a collection that is being shown, where it has one. -/
def Enclosing.place? : Enclosing → Option Place
  | .list _ => none
  | .mapping address => some (.mapping address)
  | .object address => some (.object address)

mutual

/-- A value is shown the same over two texts of places that are the same in the region. -/
theorem Value.shownWith_congr {places places' : List Enclosing → Enclosing → String}
    (hplaces : ∀ around e p, e.place? = some p → p ∈ region → places' around e = places around e)
    (around : List Enclosing) :
    ∀ v : Value, v.Within region → shownWith places' around v = shownWith places around v
  | .null, _ | .bool _, _ | .int _, _ | .float _, _ | .nan _, _ | .str _, _ => rfl
  | .list tag items, hv => by
      simp only [shownWith, allShownWith_congr hplaces _ items (within_list.mp hv)]
  | .tuple items, hv => by
      simp only [shownWith, allShownWith_congr hplaces _ items (within_tuple.mp hv)]
  | .row _ type items, hv => by
      simp only [shownWith, allShownWith_congr hplaces _ items (within_row.mp hv)]
  | .set frozen items, hv => by
      have hitems := allShownWith_congr hplaces around items (within_set.mp hv)
      cases frozen <;> cases items <;> simp only [shownWith, hitems]
  | .mapping address, hv => hplaces around (.mapping address) _ rfl (within_mapping.mp hv)
  | .object address, hv => hplaces around (.object address) _ rfl (within_object.mp hv)
  | .function _ _, _ | .selector _, _ | .setter _, _ | .target _ _, _ => rfl

/-- So are several values. -/
theorem Value.allShownWith_congr {places places' : List Enclosing → Enclosing → String}
    (hplaces : ∀ around e p, e.place? = some p → p ∈ region → places' around e = places around e)
    (around : List Enclosing) :
    ∀ vs : List Value, (∀ v ∈ vs, v.Within region) →
      allShownWith places' around vs = allShownWith places around vs
  | [], _ => rfl
  | v :: vs, hvs => by
      obtain ⟨hv, hvs⟩ := List.forall_mem_cons.mp hvs
      simp only [allShownWith, shownWith_congr hplaces around v hv,
        allShownWith_congr hplaces around vs hvs]

end

/-- A place of the region is shown the same. -/
theorem Store.shownPlace_agree (h : σ.Agree region σ') (fuel : Nat) :
    ∀ (around : List Enclosing) (e : Enclosing) (p : Place), e.place? = some p → p ∈ region →
      σ'.shownPlace fuel around e = σ.shownPlace fuel around e := by
  induction fuel with
  | zero => intro around e p _ _; rfl
  | succ fuel ih =>
      intro around e p hplace hp
      cases e with
      | list tag => cases hplace
      | mapping address =>
          cases hplace
          simp only [shownPlace, h.entries_eq address hp]
          have hentries : ∀ entry ∈ σ.entries address,
              Value.shownWith (σ'.shownPlace fuel) (.mapping address :: around) entry.1
                  ++ ": " ++ Value.shownWith (σ'.shownPlace fuel) (.mapping address :: around) entry.2
                = Value.shownWith (σ.shownPlace fuel) (.mapping address :: around) entry.1
                  ++ ": " ++ Value.shownWith (σ.shownPlace fuel) (.mapping address :: around) entry.2 := by
            intro entry hentry
            obtain ⟨hkey, hvalue⟩ := h.closed.entry hp hentry
            rw [Value.shownWith_congr ih _ _ hkey, Value.shownWith_congr ih _ _ hvalue]
          rw [List.map_congr_left hentries]
      | object address =>
          cases hplace
          simp only [shownPlace, h.object_eq address hp]
          have hfields : ∀ name ∈ (σ.object address).type.fields,
              name ++ "=" ++ Value.shownWith (σ'.shownPlace fuel) (.object address :: around)
                  (((σ.object address).attributes.lookup name).getD .null)
                = name ++ "=" ++ Value.shownWith (σ.shownPlace fuel) (.object address :: around)
                  (((σ.object address).attributes.lookup name).getD .null) := by
            intro name hname
            have hfield : (((σ.object address).attributes.lookup name).getD .null).Within region :=
              h.closed.fieldValues hp _ (List.mem_map.mpr ⟨name, hname, rfl⟩)
            rw [Value.shownWith_congr ih _ _ hfield]
          rw [List.map_congr_left hfields]

namespace Value

/-- A value is shown the same. -/
theorem shown_agree (h : σ.Agree region σ') {v : Value} (hv : v.Within region) :
    v.shown σ' = v.shown σ := by
  rw [shown, shown, h.nesting_eq]
  exact shownWith_congr (Store.shownPlace_agree h _) [] v hv

/-- A value has the same text. -/
theorem text_agree (h : σ.Agree region σ') {v : Value} (hv : v.Within region) :
    v.text σ' = v.text σ := by
  cases v with
  | str s => rfl
  | _ => exact shown_agree h hv

/-- A value has the same label. -/
theorem label_agree (h : σ.Agree region σ') {v : Value} (hv : v.Within region) :
    v.label σ' = v.label σ := by
  cases v with
  | null => rfl
  | _ => exact text_agree h hv

end Value

/-! ## Equality -/

section

variable {places places' : Place → Place → Option Bool}

/-- A search for an element that passes goes by the elements of the list only. -/
theorem anyTrue_congr {α : Type} {test test' : α → Option Bool} {as : List α}
    (htest : ∀ a ∈ as, test' a = test a) : anyTrue test' as = anyTrue test as := by
  induction as with
  | nil => rfl
  | cons a as ih =>
      obtain ⟨ha, has⟩ := List.forall_mem_cons.mp htest
      simp only [anyTrue, ha, ih has]

/-- A search for an element that does not pass goes by the elements of the list only. -/
theorem allTrue_congr {α : Type} {test test' : α → Option Bool} {as : List α}
    (htest : ∀ a ∈ as, test' a = test a) : allTrue test' as = allTrue test as := by
  induction as with
  | nil => rfl
  | cons a as ih =>
      obtain ⟨ha, has⟩ := List.forall_mem_cons.mp htest
      simp only [allTrue, ha, ih has]

/-- A search is a search through what each element stands for. -/
theorem anyTrue_map {α β : Type} (f : α → β) (test : β → Option Bool) (as : List α) :
    anyTrue test (as.map f) = anyTrue (fun a => test (f a)) as := by
  induction as with
  | nil => rfl
  | cons a as ih => rw [List.map_cons, anyTrue, anyTrue, ih]

/-- So is a search for what does not pass. -/
theorem allTrue_map {α β : Type} (f : α → β) (test : β → Option Bool) (as : List α) :
    allTrue test (as.map f) = allTrue (fun a => test (f a)) as := by
  induction as with
  | nil => rfl
  | cons a as ih => rw [List.map_cons, allTrue, allTrue, ih]

mutual

/-- Values are equal alike over two equalities of places that are the same in the region. -/
theorem Value.equalWith_congr (hplaces : ∀ p ∈ region, ∀ q ∈ region, places' p q = places p q) :
    ∀ a b : Value, a.Within region → b.Within region → equalWith places' a b = equalWith places a b
  | .list _ xs, b, ha, hb => by
      cases b with
      | list _ ys =>
          exact itemsEqualWith_congr hplaces xs ys (within_list.mp ha) (within_list.mp hb)
      | _ => rfl
  | .tuple xs, b, ha, hb => by
      cases b with
      | tuple ys =>
          exact itemsEqualWith_congr hplaces xs ys (within_tuple.mp ha) (within_tuple.mp hb)
      | row _ _ ys =>
          exact itemsEqualWith_congr hplaces xs ys (within_tuple.mp ha) (within_row.mp hb)
      | _ => rfl
  | .row _ _ xs, b, ha, hb => by
      cases b with
      | tuple ys =>
          exact itemsEqualWith_congr hplaces xs ys (within_row.mp ha) (within_tuple.mp hb)
      | row _ _ ys =>
          exact itemsEqualWith_congr hplaces xs ys (within_row.mp ha) (within_row.mp hb)
      | _ => rfl
  | .set _ xs, b, ha, hb => by
      cases b with
      | set _ ys =>
          simp only [equalWith, allFoundWith_congr hplaces xs ys (within_set.mp ha) (within_set.mp hb)]
      | _ => rfl
  | .mapping _, b, ha, hb => by
      cases b with
      | mapping _ =>
          simp only [equalWith, hplaces _ (within_mapping.mp ha) _ (within_mapping.mp hb)]
      | _ => rfl
  | .object _, b, ha, hb => by
      cases b with
      | object _ => simp only [equalWith, hplaces _ (within_object.mp ha) _ (within_object.mp hb)]
      | _ => rfl
  | .null, b, _, _ | .bool _, b, _, _ | .int _, b, _, _ | .float _, b, _, _ | .nan _, b, _, _
  | .str _, b, _, _ | .function _ _, b, _, _ | .selector _, b, _, _ | .setter _, b, _, _
  | .target _ _, b, _, _ => by cases b <;> rfl

/-- So are sequences. -/
theorem Value.itemsEqualWith_congr
    (hplaces : ∀ p ∈ region, ∀ q ∈ region, places' p q = places p q) :
    ∀ xs ys : List Value, (∀ v ∈ xs, v.Within region) → (∀ v ∈ ys, v.Within region) →
      itemsEqualWith places' xs ys = itemsEqualWith places xs ys
  | [], ys, _, _ => by cases ys <;> rfl
  | x :: xs, ys, hxs, hys => by
      cases ys with
      | nil => rfl
      | cons y ys =>
          obtain ⟨hx, hxs⟩ := List.forall_mem_cons.mp hxs
          obtain ⟨hy, hys⟩ := List.forall_mem_cons.mp hys
          simp only [itemsEqualWith, equalWith_congr hplaces x y hx hy,
            itemsEqualWith_congr hplaces xs ys hxs hys]

/-- Values are found in a list alike. -/
theorem Value.allFoundWith_congr
    (hplaces : ∀ p ∈ region, ∀ q ∈ region, places' p q = places p q) :
    ∀ xs ys : List Value, (∀ v ∈ xs, v.Within region) → (∀ v ∈ ys, v.Within region) →
      allFoundWith places' xs ys = allFoundWith places xs ys
  | [], _, _, _ => rfl
  | x :: xs, ys, hxs, hys => by
      obtain ⟨hx, hxs⟩ := List.forall_mem_cons.mp hxs
      have hsearch : anyTrue (fun y => if identical x y then some true else equalWith places' x y) ys
          = anyTrue (fun y => if identical x y then some true else equalWith places x y) ys :=
        anyTrue_congr fun y hy => by rw [equalWith_congr hplaces x y hx (hys y hy)]
      simp only [allFoundWith, hsearch, allFoundWith_congr hplaces xs ys hxs hys]

end

namespace Value

/-- Values are found to be each other alike. -/
theorem matchWith_congr (hplaces : ∀ p ∈ region, ∀ q ∈ region, places' p q = places p q)
    {a b : Value} (ha : a.Within region) (hb : b.Within region) :
    matchWith places' a b = matchWith places a b := by
  rw [matchWith, matchWith, equalWith_congr hplaces a b ha hb]

/-- What is found under a key is the value of an entry. -/
theorem mem_of_lookupWith {key v : Value} {entries : List (Value × Value)}
    (h : lookupWith places key entries = some (some v)) : ∃ k, (k, v) ∈ entries := by
  induction entries with
  | nil => simp [lookupWith] at h
  | cons entry entries ih =>
      obtain ⟨k, w⟩ := entry
      simp only [lookupWith] at h
      split at h
      · cases h
        exact ⟨k, List.mem_cons_self⟩
      · obtain ⟨k', hk'⟩ := ih h
        exact ⟨k', List.mem_cons_of_mem _ hk'⟩
      · cases h

/-- The same is found under a key. -/
theorem lookupWith_congr (hplaces : ∀ p ∈ region, ∀ q ∈ region, places' p q = places p q)
    {key : Value} (hkey : key.Within region) {entries : List (Value × Value)}
    (hentries : ∀ entry ∈ entries, entry.1.Within region) :
    lookupWith places' key entries = lookupWith places key entries := by
  induction entries with
  | nil => rfl
  | cons entry entries ih =>
      obtain ⟨hentry, hentries⟩ := List.forall_mem_cons.mp hentries
      simp only [lookupWith, matchWith_congr hplaces hentry hkey, ih hentries]

end Value

end

namespace Store

/-- Places of the region are equal alike. -/
theorem placesEqual_agree (h : σ.Agree region σ') (fuel : Nat) :
    ∀ p ∈ region, ∀ q ∈ region, σ'.placesEqual fuel p q = σ.placesEqual fuel p q := by
  induction fuel with
  | zero => intro p _ q _; rfl
  | succ fuel ih =>
      intro p hp q hq
      cases p with
      | mapping a =>
          cases q with
          | object b => rfl
          | mapping b =>
              simp only [placesEqual, h.entries_eq a hp, h.entries_eq b hq]
              have hkeys : ∀ entry ∈ σ.entries b, entry.1.Within region :=
                fun entry hentry => (h.closed.entry hq hentry).1
              split
              · rfl
              · refine allTrue_congr fun entry hentry => ?_
                obtain ⟨hkey, hvalue⟩ := h.closed.entry hp hentry
                rw [Value.lookupWith_congr ih hkey hkeys]
                cases hfound : Value.lookupWith (σ.placesEqual fuel) entry.1 (σ.entries b) with
                | none => rfl
                | some found =>
                    cases found with
                    | none => rfl
                    | some v =>
                        obtain ⟨k, hk⟩ := Value.mem_of_lookupWith hfound
                        exact Value.matchWith_congr ih (h.closed.entry hq hk).2 hvalue
      | object a =>
          cases q with
          | mapping b => rfl
          | object b =>
              simp only [placesEqual, h.object_eq a hp, h.object_eq b hq,
                Value.itemsEqualWith_congr ih _ _ (h.closed.fieldValues hp) (h.closed.fieldValues hq)]

/-- Places of the region are equal alike in both stores. -/
theorem samePlace_agree (h : σ.Agree region σ') :
    ∀ p ∈ region, ∀ q ∈ region, σ'.samePlace p q = σ.samePlace p q := by
  rw [samePlace, samePlace, h.nesting_eq]
  exact placesEqual_agree h _

end Store

namespace Value

/-- Values are equal alike. -/
theorem equal_agree (h : σ.Agree region σ') {a b : Value} (ha : a.Within region)
    (hb : b.Within region) : a.equal σ' b = a.equal σ b := by
  rw [equal, equal, equalWith_congr (Store.samePlace_agree h) a b ha hb]

/-- Values are found to be each other alike. -/
theorem found_agree (h : σ.Agree region σ') {a b : Value} (ha : a.Within region)
    (hb : b.Within region) : a.found σ' b = a.found σ b := by
  rw [found, found, matchWith_congr (Store.samePlace_agree h) ha hb]

/-- A value is found in a list in both or in none. -/
theorem foundIn_agree (h : σ.Agree region σ') {a : Value} (ha : a.Within region) {items : List Value}
    (hitems : ∀ v ∈ items, v.Within region) : a.foundIn σ' items = a.foundIn σ items := by
  rw [foundIn, foundIn, anyTrue_congr fun item hitem =>
    matchWith_congr (Store.samePlace_agree h) (hitems item hitem) ha]

/-- The same is found under a key. -/
theorem lookup_agree (h : σ.Agree region σ') {key : Value} (hkey : key.Within region)
    {entries : List (Value × Value)} (hentries : ∀ entry ∈ entries, entry.1.Within region) :
    lookup σ' key entries = lookup σ key entries := by
  rw [lookup, lookup, lookupWith_congr (Store.samePlace_agree h) hkey hentries]

/-- What is found under a key is the value of an entry. -/
theorem mem_of_lookup {key v : Value} {entries : List (Value × Value)}
    (h : lookup σ key entries = .ok (some v)) : ∃ k, (k, v) ∈ entries := by
  rw [lookup] at h
  cases hfound : lookupWith σ.samePlace key entries with
  | none => simp [hfound, settled] at h
  | some found =>
      simp only [hfound, settled, Except.ok.injEq] at h
      exact mem_of_lookupWith (h ▸ hfound)

end Value

/-! ## Order and membership -/

mutual

/-- Values are ordered alike. -/
theorem Value.orderWith_agree (h : σ.Agree region σ') (op : OrderOp) :
    ∀ a b : Value, a.Within region → b.Within region → orderWith σ' op a b = orderWith σ op a b
  | .list _ xs, b, ha, hb => by
      have hb' := typeName_agree h hb
      cases b with
      | list _ ys =>
          exact itemsOrderWith_agree h op xs ys (within_list.mp ha) (within_list.mp hb)
      | _ => simp only [orderWith, typeName_agree h ha, hb']
  | .tuple xs, b, ha, hb => by
      have hb' := typeName_agree h hb
      cases b with
      | tuple ys =>
          exact itemsOrderWith_agree h op xs ys (within_tuple.mp ha) (within_tuple.mp hb)
      | row _ _ ys =>
          exact itemsOrderWith_agree h op xs ys (within_tuple.mp ha) (within_row.mp hb)
      | _ => simp only [orderWith, typeName_agree h ha, hb']
  | .row _ _ xs, b, ha, hb => by
      have hb' := typeName_agree h hb
      cases b with
      | tuple ys =>
          exact itemsOrderWith_agree h op xs ys (within_row.mp ha) (within_tuple.mp hb)
      | row _ _ ys =>
          exact itemsOrderWith_agree h op xs ys (within_row.mp ha) (within_row.mp hb)
      | _ => simp only [orderWith, typeName_agree h ha, hb']
  | .set _ xs, b, ha, hb => by
      have hb' := typeName_agree h hb
      cases b with
      | set _ ys =>
          have hxs := within_set.mp ha
          have hys := within_set.mp hb
          simp only [orderWith, allFoundWith_congr (Store.samePlace_agree h) xs ys hxs hys,
            allFoundWith_congr (Store.samePlace_agree h) ys xs hys hxs]
      | _ => simp only [orderWith, typeName_agree h ha, hb']
  | .str s, b, ha, hb => by
      have hb' := typeName_agree h hb
      cases b <;> simp only [orderWith, typeName_agree h ha, hb']
  -- the others are ordered without a look at the store, but for their types in faults
  | .null, b, ha, hb | .bool _, b, ha, hb | .int _, b, ha, hb | .float _, b, ha, hb | .nan _, b, ha, hb
  | .mapping _, b, ha, hb | .object _, b, ha, hb | .function _ _, b, ha, hb | .selector _, b, ha, hb
  | .setter _, b, ha, hb | .target _ _, b, ha, hb => by
      simp only [orderWith, typeName_agree h ha, typeName_agree h hb]

/-- So are sequences. -/
theorem Value.itemsOrderWith_agree (h : σ.Agree region σ') (op : OrderOp) :
    ∀ xs ys : List Value, (∀ v ∈ xs, v.Within region) → (∀ v ∈ ys, v.Within region) →
      itemsOrderWith σ' op xs ys = itemsOrderWith σ op xs ys
  | [], _, _, _ => by rw [itemsOrderWith, itemsOrderWith] <;> simp
  | x :: xs, [], _, _ => by rw [itemsOrderWith, itemsOrderWith] <;> simp
  | x :: xs, y :: ys, hxs, hys => by
      obtain ⟨hx, hxs⟩ := List.forall_mem_cons.mp hxs
      obtain ⟨hy, hys⟩ := List.forall_mem_cons.mp hys
      simp only [itemsOrderWith, matchWith_congr (Store.samePlace_agree h) hx hy,
        orderWith_agree h op x y hx hy, itemsOrderWith_agree h op xs ys hxs hys]

end

end Rubric
