import Rubric.Proofs.Value.Agreement
import Rubric.Proofs.Value.Renaming

/-!
# Looking at values with renamed tags

Where different tags stay different, every way of looking at values finds the same in values with renamed
tags, and the values that it finds have their tags renamed.

* `Store.shownPlace_retag`, `Value.shownWith_retag` : shown forms;
* `Value.equalWith_retag`, `Value.orderWith_retag` : equality and order.
-/

namespace Rubric

open Value (Place retagEntries retagNamed)

variable {ρ : Tag → Tag} {σ : Store} {next : Tag}

/-! ## Stores -/

namespace Store

@[simp] theorem entries_retag (address : Nat) :
    (σ.retag ρ next).entries address = retagEntries ρ (σ.entries address) := by
  simp only [entries, retag, Array.getD_eq_getD_getElem?, Array.getElem?_map]
  cases σ.mappings[address]? <;> rfl

@[simp] theorem object_retag (address : Nat) :
    (σ.retag ρ next).object address = (σ.object address).retag ρ := by
  simp only [object, retag, Array.getD_eq_getD_getElem?, Array.getElem?_map]
  cases σ.objects[address]? <;> rfl

@[simp] theorem nesting_retag : (σ.retag ρ next).nesting = σ.nesting := by
  simp only [nesting, retag, Array.size_map]

end Store

@[simp] theorem Object.type_retag (o : Object) : (o.retag ρ).type = o.type := rfl

@[simp] theorem Object.attributes_retag (o : Object) :
    (o.retag ρ).attributes = retagNamed ρ o.attributes := rfl

namespace Value

/-- What is found under a name. -/
@[simp] theorem lookup_retagNamed (name : String) (named : List (String × Value)) :
    (retagNamed ρ named).lookup name = (named.lookup name).map (retag ρ) := by
  induction named with
  | nil => rfl
  | cons entry named ih =>
      rw [retagNamed, List.map_cons, ← retagNamed, List.lookup_cons, List.lookup_cons, ih]
      split <;> rfl

/-- What is found, or null. -/
theorem getD_map_retag (found : Option Value) :
    (found.map (retag ρ)).getD .null = (found.getD .null).retag ρ := by cases found <;> rfl

/-- The fields of an object. -/
@[simp] theorem fieldValues_retag (o : Object) :
    Store.fieldValues (o.retag ρ) = (Store.fieldValues o).map (retag ρ) := by
  simp only [Store.fieldValues, List.map_map, Object.type_retag, Object.attributes_retag, lookup_retagNamed,
    getD_map_retag]
  rfl

/-! ## Types and truth -/

@[simp] theorem typeName_retag (v : Value) : (v.retag ρ).typeName (σ.retag ρ next) = v.typeName σ := by
  cases v with
  | object address => simp only [retag, typeName, Store.object_retag, Object.type_retag]
  | selector s => cases s <;> rfl
  | _ => rfl

@[simp] theorem truthy_retag (v : Value) : (v.retag ρ).truthy (σ.retag ρ next) = v.truthy σ := by
  cases v with
  | mapping address => simp [retag, truthy, retagEntries]
  | list _ items | tuple items | row _ _ items | set _ items => simp [retag, truthy]
  | _ => rfl

@[simp] theorem isNull_retag (v : Value) : (v.retag ρ).isNull = v.isNull := by cases v <;> rfl

@[simp] theorem asInt?_retag (v : Value) : (v.retag ρ).asInt? = v.asInt? := by cases v <;> rfl

@[simp] theorem number?_retag (v : Value) : (v.retag ρ).number? = v.number? := by cases v <;> rfl

@[simp] theorem isCallable_retag (v : Value) : (v.retag ρ).isCallable = v.isCallable := by
  cases v <;> rfl

@[simp] theorem sequence?_retag (v : Value) :
    (v.retag ρ).sequence? = v.sequence?.map (List.map (retag ρ)) := by
  cases v <;> simp [retag, sequence?]

end Value

/-! ## Selectors -/

mutual

@[simp] theorem Selector.expression_retag : ∀ s : Selector, (s.retag ρ).expression = s.expression
  | .path _ _ => rfl
  | .composite parts => by
      rw [Selector.retag, Selector.expression, Selector.expression, Selector.expressions_retag parts]
  | .computed _ _ => rfl
  | .display inner => Selector.expression_retag inner
  | .key inner => Selector.expression_retag inner

theorem Selector.expressions_retag : ∀ ss : List Selector,
    Selector.expression.expressions (Selector.retagAll ρ ss) = Selector.expression.expressions ss
  | [] => rfl
  | s :: ss => by
      rw [Selector.retagAll, Selector.expression.expressions, Selector.expression.expressions,
        Selector.expression_retag s, Selector.expressions_retag ss]

end

@[simp] theorem Selector.path?_retag : ∀ s : Selector, (s.retag ρ).path? = s.path?
  | .path _ _ | .composite _ | .computed _ _ => rfl
  | .display inner => Selector.path?_retag inner
  | .key inner => Selector.path?_retag inner

mutual

@[simp] theorem Selector.shown_retag : ∀ s : Selector, (s.retag ρ).shown = s.shown
  | .path _ _ | .computed _ _ => rfl
  | .composite parts => by
      have hexpression := Selector.expression_retag (ρ := ρ) (.composite parts)
      rw [Selector.retag] at hexpression ⊢
      unfold Selector.shown
      rw [hexpression, Selector.shownAll_retag parts]
  | .display inner => by
      have hexpression := Selector.expression_retag (ρ := ρ) (.display inner)
      have hpath := Selector.path?_retag (ρ := ρ) (.display inner)
      rw [Selector.retag] at hexpression hpath ⊢
      unfold Selector.shown
      rw [hexpression, hpath]
  | .key inner => by
      have hexpression := Selector.expression_retag (ρ := ρ) (.key inner)
      have hpath := Selector.path?_retag (ρ := ρ) (.key inner)
      rw [Selector.retag] at hexpression hpath ⊢
      unfold Selector.shown
      rw [hexpression, hpath]

theorem Selector.shownAll_retag : ∀ ss : List Selector,
    Selector.shownAll (Selector.retagAll ρ ss) = Selector.shownAll ss
  | [] => rfl
  | s :: ss => by
      rw [Selector.retagAll, Selector.shownAll, Selector.shownAll, Selector.shown_retag s,
        Selector.shownAll_retag ss]

end

mutual

@[simp] theorem Selector.same_retag : ∀ s t : Selector, (s.retag ρ).same (t.retag ρ) = s.same t
  | .composite ps, t => by
      cases t with
      | composite qs => exact Selector.sameAll_retag ps qs
      | _ => rfl
  | .path _ _, t | .computed _ _, t | .display _, t | .key _, t => by
      cases t <;> simp only [Selector.retag, Selector.same, Selector.expression, Selector.path?,
        Selector.expression_retag, Selector.path?_retag]

theorem Selector.sameAll_retag : ∀ ss ts : List Selector,
    Selector.sameAll (Selector.retagAll ρ ss) (Selector.retagAll ρ ts) = Selector.sameAll ss ts
  | [], ts => by cases ts <;> rfl
  | s :: ss, ts => by
      cases ts with
      | nil => rfl
      | cons t ts =>
          rw [Selector.retagAll, Selector.retagAll, Selector.sameAll, Selector.sameAll, Selector.same_retag s t,
            Selector.sameAll_retag ss ts]

end

/-! ## Shown forms -/

/-- A collection that is being shown, with its tag renamed. -/
def Enclosing.retag (ρ : Tag → Tag) : Enclosing → Enclosing
  | .list tag => .list (ρ tag)
  | .mapping address => .mapping address
  | .object address => .object address

/-- A collection is inside itself whatever its tag. -/
theorem contains_map_retag (hρ : Function.Injective ρ) (around : List Enclosing) (e : Enclosing) :
    (around.map (Enclosing.retag ρ)).contains (e.retag ρ) = around.contains e := by
  have hinjective : Function.Injective (Enclosing.retag ρ) := by
    intro e e' h
    cases e <;> cases e' <;> simp_all [Enclosing.retag, hρ.eq_iff]
  rw [Bool.eq_iff_iff, List.contains_iff_mem, List.contains_iff_mem, List.mem_map]
  exact ⟨fun ⟨_, hmem, heq⟩ => hinjective heq ▸ hmem, fun hmem => ⟨e, hmem, rfl⟩⟩

mutual

/-- A value is shown the same over the same texts of places. -/
theorem Value.shownWith_retag (hρ : Function.Injective ρ)
    {places places' : List Enclosing → Enclosing → String}
    (hplaces : ∀ around e, places' (around.map (.retag ρ)) (e.retag ρ) = places around e)
    (around : List Enclosing) : ∀ v : Value,
    shownWith places' (around.map (.retag ρ)) (v.retag ρ) = shownWith places around v
  | .null | .bool _ | .int _ | .float _ | .nan _ | .str _ | .function _ _ | .setter _ => rfl
  | .list tag items => by
      have hcontains := contains_map_retag hρ around (.list tag)
      have hitems := allShownWith_retag hρ hplaces (.list tag :: around) items
      rw [List.map_cons] at hitems
      rw [Value.retag, shownWith, shownWith, ← hitems, ← hcontains]
      rfl
  | .tuple items => by rw [Value.retag, shownWith, shownWith, allShownWith_retag hρ hplaces around items]
  | .row _ type items => by rw [Value.retag, shownWith, shownWith, allShownWith_retag hρ hplaces around items]
  | .set frozen items => by
      have hitems := allShownWith_retag hρ hplaces around items
      cases items with
      | nil => cases frozen <;> rfl
      | cons v vs =>
          rw [Value.retagAll] at hitems
          rw [Value.retag, Value.retagAll]
          cases frozen <;> simp only [shownWith, hitems]
  | .mapping address => hplaces around (.mapping address)
  | .object address => hplaces around (.object address)
  | .selector s => Selector.shown_retag s
  | .target s assign => by
      show shownTarget (s.retag ρ) assign = shownTarget s assign
      unfold shownTarget
      rw [Selector.shown_retag]

/-- So are several values. -/
theorem Value.allShownWith_retag (hρ : Function.Injective ρ)
    {places places' : List Enclosing → Enclosing → String}
    (hplaces : ∀ around e, places' (around.map (.retag ρ)) (e.retag ρ) = places around e)
    (around : List Enclosing) : ∀ vs : List Value,
    allShownWith places' (around.map (.retag ρ)) (Value.retagAll ρ vs) = allShownWith places around vs
  | [] => rfl
  | v :: vs => by
      rw [Value.retagAll, allShownWith, allShownWith, shownWith_retag hρ hplaces around v,
        allShownWith_retag hρ hplaces around vs]

end

/-- A place is shown the same. -/
theorem Store.shownPlace_retag (hρ : Function.Injective ρ) (fuel : Nat) :
    ∀ (around : List Enclosing) (e : Enclosing),
    (σ.retag ρ next).shownPlace fuel (around.map (.retag ρ)) (e.retag ρ) = σ.shownPlace fuel around e := by
  induction fuel with
  | zero => intro around e; rfl
  | succ fuel ih =>
      intro around e
      have hinside (v : Value) := Value.shownWith_retag hρ ih (e :: around) v
      have hcontains := contains_map_retag hρ around e
      rw [List.map_cons] at hinside
      cases e with
      | list tag => rfl
      | mapping address =>
          simp only [Enclosing.retag] at hinside hcontains
          simp only [Enclosing.retag, shownPlace, hcontains, entries_retag, retagEntries, List.map_map,
            Function.comp_def, hinside]
      | object address =>
          simp only [Enclosing.retag] at hinside hcontains
          simp only [Enclosing.retag, shownPlace, hcontains, object_retag, Object.type_retag,
            Object.attributes_retag, Value.lookup_retagNamed, Value.getD_map_retag, hinside]

namespace Value

@[simp] theorem shown_retag (hρ : Function.Injective ρ) (v : Value) :
    (v.retag ρ).shown (σ.retag ρ next) = v.shown σ := by
  rw [shown, shown, Store.nesting_retag]
  exact shownWith_retag hρ (Store.shownPlace_retag hρ _) [] v

@[simp] theorem text_retag (hρ : Function.Injective ρ) (v : Value) :
    (v.retag ρ).text (σ.retag ρ next) = v.text σ := by
  have hshown : (v.retag ρ).shown (σ.retag ρ next) = v.shown σ := shown_retag hρ v
  cases v with
  | str s => rfl
  | _ => exact hshown

@[simp] theorem label_retag (hρ : Function.Injective ρ) (v : Value) :
    (v.retag ρ).label (σ.retag ρ next) = v.label σ := by
  have htext : (v.retag ρ).text (σ.retag ρ next) = v.text σ := text_retag hρ v
  cases v with
  | null => rfl
  | _ => exact htext

end Value

/-! ## Equality -/

@[simp] theorem Value.identical_retag (hρ : Function.Injective ρ) (a b : Value) :
    identical (a.retag ρ) (b.retag ρ) = identical a b := by
  cases a <;> cases b <;> simp only [Value.retag, identical]
  · exact beq_eq_beq.mpr hρ.eq_iff
  · exact beq_eq_beq.mpr hρ.eq_iff

mutual

theorem Value.equalWith_retag (hρ : Function.Injective ρ) (places : Place → Place → Option Bool) :
    ∀ a b : Value, equalWith places (a.retag ρ) (b.retag ρ) = equalWith places a b
  | .list _ xs, b => by
      cases b with
      | list _ ys => exact itemsEqualWith_retag hρ places xs ys
      | _ => rfl
  | .tuple xs, b | .row _ _ xs, b => by
      cases b with
      | tuple ys => exact itemsEqualWith_retag hρ places xs ys
      | row _ _ ys => exact itemsEqualWith_retag hρ places xs ys
      | _ => rfl
  | .set _ xs, b => by
      cases b with
      | set _ ys =>
          have hfound := allFoundWith_retag hρ places xs ys
          simp only [Value.retag, Value.retagAll_eq_map, equalWith, List.length_map] at hfound ⊢
          rw [hfound]
      | _ => rfl
  | .mapping _, b => by cases b <;> rfl
  | .object _, b => by cases b <;> rfl
  | .function s _, b => by
      cases b with
      | function t _ => exact congrArg some (beq_eq_beq.mpr hρ.eq_iff)
      | _ => rfl
  | .selector s, b => by
      cases b with
      | selector t => exact congrArg some (Selector.same_retag s t)
      | _ => rfl
  | .target s assign, b => by
      cases b with
      | target t assign' => simp only [Value.retag, equalWith, Selector.same_retag]
      | _ => rfl
  | .null, b | .bool _, b | .int _, b | .float _, b | .nan _, b | .str _, b
  | .setter _, b => by cases b <;> rfl

theorem Value.itemsEqualWith_retag (hρ : Function.Injective ρ) (places : Place → Place → Option Bool) :
    ∀ xs ys : List Value,
    itemsEqualWith places (Value.retagAll ρ xs) (Value.retagAll ρ ys) = itemsEqualWith places xs ys
  | [], ys => by cases ys <;> rfl
  | x :: xs, ys => by
      cases ys with
      | nil => rfl
      | cons y ys =>
          have hlength (vs : List Value) : (Value.retagAll ρ vs).length = vs.length := by
            rw [Value.retagAll_eq_map, List.length_map]
          rw [Value.retagAll, Value.retagAll, itemsEqualWith, itemsEqualWith, identical_retag hρ,
            equalWith_retag hρ places x y, itemsEqualWith_retag hρ places xs ys, hlength, hlength]

theorem Value.allFoundWith_retag (hρ : Function.Injective ρ) (places : Place → Place → Option Bool) :
    ∀ xs ys : List Value,
    allFoundWith places (Value.retagAll ρ xs) (Value.retagAll ρ ys) = allFoundWith places xs ys
  | [], _ => rfl
  | x :: xs, ys => by
      have hsearch : anyTrue (fun y => if identical (x.retag ρ) y then some true
            else equalWith places (x.retag ρ) y) (Value.retagAll ρ ys)
          = anyTrue (fun y => if identical x y then some true else equalWith places x y) ys := by
        rw [Value.retagAll_eq_map, anyTrue_map]
        refine anyTrue_congr fun y _ => ?_
        rw [identical_retag hρ, equalWith_retag hρ places x y]
      rw [Value.retagAll, allFoundWith, allFoundWith, hsearch, allFoundWith_retag hρ places xs ys]

end

namespace Value

@[simp] theorem matchWith_retag (hρ : Function.Injective ρ) (places : Place → Place → Option Bool)
    (a b : Value) :
    matchWith places (a.retag ρ) (b.retag ρ) = matchWith places a b := by
  rw [matchWith, matchWith, identical_retag hρ, equalWith_retag hρ]

/-- What is found under a key. -/
theorem lookupWith_retag (hρ : Function.Injective ρ) (places : Place → Place → Option Bool)
    (key : Value) (entries : List (Value × Value)) :
    lookupWith places (key.retag ρ) (retagEntries ρ entries)
      = (lookupWith places key entries).map (Option.map (retag ρ)) := by
  induction entries with
  | nil => rfl
  | cons entry entries ih =>
      rw [retagEntries, List.map_cons, ← retagEntries, lookupWith, lookupWith, matchWith_retag hρ, ih]
      split <;> rfl

end Value

namespace Store

/-- Equality of places. -/
theorem placesEqual_retag (hρ : Function.Injective ρ) (fuel : Nat) :
    (σ.retag ρ next).placesEqual fuel = σ.placesEqual fuel := by
  induction fuel with
  | zero => rfl
  | succ fuel ih =>
      funext p q
      cases p with
      | mapping a =>
          cases q with
          | object b => rfl
          | mapping b =>
              have hlength (address : Nat) :
                  (retagEntries ρ (σ.entries address)).length = (σ.entries address).length := List.length_map _
              simp only [placesEqual, entries_retag, hlength, ih]
              split
              · rfl
              · refine (allTrue_map _ _ _).trans (allTrue_congr fun entry _ => ?_)
                rw [Value.lookupWith_retag hρ]
                rcases Value.lookupWith (σ.placesEqual fuel) entry.1 (σ.entries b) with _ | _ | v
                · rfl
                · rfl
                · exact Value.matchWith_retag hρ _ _ _
      | object a =>
          cases q with
          | mapping b => rfl
          | object b =>
              have hfields := Value.itemsEqualWith_retag hρ (σ.placesEqual fuel)
                (fieldValues (σ.object a)) (fieldValues (σ.object b))
              simp only [Value.retagAll_eq_map] at hfields
              simp only [placesEqual, object_retag, Object.type_retag, Value.fieldValues_retag, ih, hfields]

@[simp] theorem samePlace_retag (hρ : Function.Injective ρ) : (σ.retag ρ next).samePlace = σ.samePlace := by
  rw [samePlace, samePlace, nesting_retag, placesEqual_retag hρ]

end Store

namespace Value

@[simp] theorem equal_retag (hρ : Function.Injective ρ) (a b : Value) :
    (a.retag ρ).equal (σ.retag ρ next) (b.retag ρ) = a.equal σ b := by
  rw [equal, equal, Store.samePlace_retag hρ, equalWith_retag hρ]

@[simp] theorem found_retag (hρ : Function.Injective ρ) (a b : Value) :
    (a.retag ρ).found (σ.retag ρ next) (b.retag ρ) = a.found σ b := by
  rw [found, found, Store.samePlace_retag hρ, matchWith_retag hρ]

@[simp] theorem foundIn_retag (hρ : Function.Injective ρ) (a : Value) (items : List Value) :
    (a.retag ρ).foundIn (σ.retag ρ next) (items.map (retag ρ)) = a.foundIn σ items := by
  simp only [foundIn, Store.samePlace_retag hρ, anyTrue_map, matchWith_retag hρ]

/-- What is found under a key. -/
theorem lookup_retag (hρ : Function.Injective ρ) (key : Value) (entries : List (Value × Value)) :
    lookup (σ.retag ρ next) (key.retag ρ) (retagEntries ρ entries)
      = (lookup σ key entries).map (Option.map (retag ρ)) := by
  rw [lookup, lookup, Store.samePlace_retag hρ, lookupWith_retag hρ]
  cases lookupWith σ.samePlace key entries <;> rfl

end Value

/-! ## Order and membership -/

mutual

theorem Value.orderWith_retag (hρ : Function.Injective ρ) (op : OrderOp) (a b : Value) :
    orderWith (σ.retag ρ next) op (a.retag ρ) (b.retag ρ) = orderWith σ op a b := by
  have ha : (a.retag ρ).typeName (σ.retag ρ next) = a.typeName σ := typeName_retag a
  have hb : (b.retag ρ).typeName (σ.retag ρ next) = b.typeName σ := typeName_retag b
  cases a with
  | list _ xs =>
      cases b with
      | list _ ys => exact itemsOrderWith_retag hρ op xs ys
      | _ => simp only [Value.retag] at ha hb; simp only [Value.retag, orderWith, number?, ha, hb]
  | tuple xs | row _ _ xs =>
      cases b with
      | tuple ys => exact itemsOrderWith_retag hρ op xs ys
      | row _ _ ys => exact itemsOrderWith_retag hρ op xs ys
      | _ => simp only [Value.retag] at ha hb; simp only [Value.retag, orderWith, number?, ha, hb]
  | set _ xs =>
      cases b with
      | set _ ys =>
          have hlength (vs : List Value) : (Value.retagAll ρ vs).length = vs.length := by
            rw [Value.retagAll_eq_map, List.length_map]
          simp only [Value.retag, orderWith, Store.samePlace_retag hρ, hlength,
            allFoundWith_retag hρ _ xs ys, allFoundWith_retag hρ _ ys xs]
      | _ => simp only [Value.retag] at ha hb; simp only [Value.retag, orderWith, number?, ha, hb]
  | str s =>
      cases b with
      | str t => rfl
      | _ => simp only [Value.retag] at ha hb; simp only [Value.retag, orderWith, number?, ha, hb]
  | _ =>
      simp only [Value.retag] at ha
      simp only [Value.retag, orderWith, number?_retag, ha, hb] <;> rfl

theorem Value.itemsOrderWith_retag (hρ : Function.Injective ρ) (op : OrderOp) : ∀ xs ys : List Value,
    itemsOrderWith (σ.retag ρ next) op (Value.retagAll ρ xs) (Value.retagAll ρ ys) = itemsOrderWith σ op xs ys
  | [], ys => by
      rw [Value.retagAll_eq_map, Value.retagAll_eq_map, itemsOrderWith, itemsOrderWith] <;> simp
  | x :: xs, [] => by
      rw [Value.retagAll_eq_map, Value.retagAll_eq_map, itemsOrderWith, itemsOrderWith] <;> simp
  | x :: xs, y :: ys => by
      simp only [Value.retagAll, itemsOrderWith, Store.samePlace_retag hρ, matchWith_retag hρ,
        orderWith_retag hρ op x y, itemsOrderWith_retag hρ op xs ys]

end

mutual

/-- What keeps a value from being looked up. -/
theorem Value.unhashableWith_retag (objects : Nat → Option String) :
    ∀ v : Value, unhashableWith objects (v.retag ρ) = unhashableWith objects v
  | .tuple items => anyUnhashableWith_retag objects items
  | .row _ _ items => anyUnhashableWith_retag objects items
  | .list _ _ | .set _ _ | .mapping _ | .object _ | .null | .bool _ | .int _ | .float _ | .nan _ | .str _
  | .function _ _ | .selector _ | .setter _ | .target _ _ => rfl

theorem Value.anyUnhashableWith_retag (objects : Nat → Option String) :
    ∀ vs : List Value, anyUnhashableWith objects (Value.retagAll ρ vs) = anyUnhashableWith objects vs
  | [] => rfl
  | v :: vs => by
      simp only [Value.retagAll, anyUnhashableWith, unhashableWith_retag objects v,
        anyUnhashableWith_retag objects vs]

end

namespace Value

/-- What keeps an object from being looked up. -/
theorem unhashableObject_retag (fuel : Nat) :
    unhashableObject (σ.retag ρ next) fuel = unhashableObject σ fuel := by
  induction fuel with
  | zero => rfl
  | succ fuel ih =>
      funext address
      have hfields := anyUnhashableWith_retag (ρ := ρ) (unhashableObject σ fuel)
        (Store.fieldValues (σ.object address))
      rw [retagAll_eq_map] at hfields
      simp only [unhashableObject, Store.object_retag, Object.type_retag, fieldValues_retag, ih, hfields]

@[simp] theorem requireHashable_retag (v : Value) :
    (v.retag ρ).requireHashable (σ.retag ρ next) = v.requireHashable σ := by
  rw [requireHashable, requireHashable, unhashable?, unhashable?, Store.nesting_retag,
    unhashableObject_retag, unhashableWith_retag]

@[simp] theorem memberOf_retag (hρ : Function.Injective ρ) (a b : Value) :
    (a.retag ρ).memberOf (σ.retag ρ next) (b.retag ρ) = a.memberOf σ b := by
  have hname : (a.retag ρ).typeName (σ.retag ρ next) = a.typeName σ := typeName_retag a
  have hhash : (a.retag ρ).requireHashable (σ.retag ρ next) = a.requireHashable σ := requireHashable_retag a
  have hfound (items : List Value) :
      (a.retag ρ).foundIn (σ.retag ρ next) (items.map (retag ρ)) = a.foundIn σ items := foundIn_retag hρ a items
  have hother : (b.retag ρ).typeName (σ.retag ρ next) = b.typeName σ := typeName_retag b
  cases b with
  | str t => cases a <;> simp only [retag] at hname <;> simp only [retag, memberOf, hname]
  | list _ items | tuple items | row _ _ items => simp only [retag, memberOf, retagAll_eq_map, hfound]
  | set _ items =>
      have hother : memberOf (σ.retag ρ next) (a.retag ρ) (.set true (items.map (retag ρ)))
          = memberOf σ a (.set true items) := by
        cases a with
        | set frozen members =>
            have hset : ((set true members).retag ρ).foundIn (σ.retag ρ next) (items.map (retag ρ))
                = (set true members).foundIn σ items := foundIn_retag hρ _ items
            simp only [retag, retagAll_eq_map] at hset hhash hfound
            cases frozen with
            | true => simp only [retag, retagAll_eq_map, memberOf, hhash, hfound]
            | false => simp only [retag, retagAll_eq_map, memberOf, hset]
        | _ =>
            simp only [retag] at hhash hfound
            simp only [retag, memberOf, hhash, hfound]
      rw [retag, retagAll_eq_map]
      exact hother
  | mapping address =>
      simp only [retag, memberOf, hhash, Store.entries_retag, lookup_retag hρ]
      cases lookup σ a (σ.entries address) with
      | error fault => rfl
      | ok found => cases found <;> rfl
  | _ =>
      simp only [retag] at hother
      simp only [retag, memberOf, hother]

@[simp] theorem compareText_retag (hρ : Function.Injective ρ) (a : Value) (operator : String) (b : Value) :
    (a.retag ρ).compareText (σ.retag ρ next) operator (b.retag ρ) = a.compareText σ operator b := by
  simp only [compareText, equal_retag hρ, memberOf_retag hρ, order, orderWith_retag hρ, isNull_retag]

end Value

/-! ## Collections -/

namespace Value

/-- The items of a collection. -/
theorem items_retag (v : Value) :
    (v.retag ρ).items (σ.retag ρ next) = (v.items σ).map (List.map (retag ρ)) := by
  have hname : (v.retag ρ).typeName (σ.retag ρ next) = v.typeName σ := typeName_retag v
  cases v with
  | str s => simp [retag, items, Except.map, Function.comp_def]
  | list _ xs | tuple xs | row _ _ xs
  | set _ xs => simp only [retag, items, retagAll_eq_map, Except.map]
  | mapping address =>
      simp only [retag, items, Store.entries_retag, retagEntries, List.map_map, Function.comp_def, Except.map]
  | _ =>
      simp only [retag] at hname
      simp only [retag, items, hname, Except.map]

@[simp] theorem length_retag (v : Value) : (v.retag ρ).length (σ.retag ρ next) = v.length σ := by
  have hname : (v.retag ρ).typeName (σ.retag ρ next) = v.typeName σ := typeName_retag v
  cases v <;> simp only [retag] at hname <;>
    simp only [retag, length, retagAll_eq_map, Store.entries_retag, retagEntries, List.length_map, hname]

/-- The item at a position. -/
theorem itemAt_retag (sequence : String) (xs : List Value) (key : Value) :
    itemAt (σ.retag ρ next) sequence (xs.map (retag ρ)) (key.retag ρ)
      = (itemAt σ sequence xs key).map (retag ρ) := by
  simp only [itemAt, asInt?_retag, typeName_retag, List.length_map, List.getElem?_map]
  cases key.asInt? with
  | none => rfl
  | some n =>
      dsimp only
      generalize (if n < 0 then n + (xs.length : Int) else n) = place
      split
      · rfl
      · split
        · rfl
        · cases xs[place.toNat]? <;> rfl

/-- The item of a collection at a position or under a key. -/
theorem subscript_retag (hρ : Function.Injective ρ) (container key : Value) :
    (container.retag ρ).subscript (σ.retag ρ next) (key.retag ρ)
      = (container.subscript σ key).map (retag ρ) := by
  have hname : (container.retag ρ).typeName (σ.retag ρ next) = container.typeName σ := typeName_retag container
  cases container with
  | str s =>
      have hchars : s.toList.map (fun c => str c.toString)
          = (s.toList.map fun c => str c.toString).map (retag ρ) := by
        rw [List.map_map]
        rfl
      rw [retag, subscript, subscript, ← itemAt_retag, ← hchars]
  | list _ xs | tuple xs | row _ _ xs => simp only [retag, subscript, retagAll_eq_map, itemAt_retag]
  | mapping address =>
      simp only [retag, subscript, requireHashable_retag, Store.entries_retag, lookup_retag hρ,
        shown_retag hρ, bind, Except.bind]
      cases key.requireHashable σ with
      | error fault => rfl
      | ok u =>
          cases lookup σ key (σ.entries address) with
          | error fault => rfl
          | ok found => cases found <;> rfl
  | _ =>
      simp only [retag] at hname
      simp only [retag, subscript, hname, Except.map]

/-- The least or greatest of several values. -/
theorem extreme_retag (hρ : Function.Injective ρ) (op : OrderOp) (first : Value) (rest : List Value) :
    extreme (σ.retag ρ next) op (first.retag ρ) (rest.map (retag ρ))
      = (extreme σ op first rest).map (retag ρ) := by
  induction rest generalizing first with
  | nil => rfl
  | cons v rest ih =>
      simp only [extreme, List.map_cons, List.foldlM_cons, order, orderWith_retag hρ, bind, Except.bind] at ih ⊢
      cases orderWith σ op v first with
      | error fault => rfl
      | ok below => cases below <;> exact ih _

/-- The items of a list that are not found in another. -/
theorem without_retag (hρ : Function.Injective ρ) (removed items : List Value) :
    without (σ.retag ρ next) (removed.map (retag ρ)) (items.map (retag ρ))
      = (without σ removed items).map (List.map (retag ρ)) := by
  induction items with
  | nil => rfl
  | cons v vs ih =>
      simp only [List.map_cons, without, foundIn_retag hρ, ih, bind, Except.bind]
      cases v.foundIn σ removed with
      | error fault => rfl
      | ok drop =>
          cases without σ removed vs with
          | error fault => rfl
          | ok rest => cases drop <;> rfl

/-- A value as an integer. -/
@[simp] theorem toInteger_retag (v : Value) : (v.retag ρ).toInteger (σ.retag ρ next) = v.toInteger σ := by
  have hname : (v.retag ρ).typeName (σ.retag ρ next) = v.typeName σ := typeName_retag v
  cases v <;> simp only [retag] at hname <;> simp only [retag, toInteger, number?, hname]

/-! ## Attributes -/

/-- The attributes that compiled selectors, setters and targets show. -/
theorem compiledAttribute?_retag (v : Value) (name : String) :
    (v.retag ρ).compiledAttribute? name = (v.compiledAttribute? name).map (retag ρ) := by
  cases v with
  | selector s =>
      simp only [retag, compiledAttribute?, Selector.expression_retag, Selector.path?_retag]
      split
      · rfl
      · split
        · cases s.path? with
          | none => rfl
          | some path => simp [retag, Function.comp_def]
        · split
          · cases s with
            | composite parts => simp [retag, Selector.retag, Function.comp_def]
            | _ => rfl
          · rfl
  | setter s =>
      simp only [retag, compiledAttribute?]
      split
      · rfl
      · split <;> rfl
  | target s assign =>
      simp only [retag, compiledAttribute?, Selector.expression_retag]
      split
      · rfl
      · split
        · rfl
        · split
          · cases assign <;> rfl
          · rfl
  | _ => rfl

/-- One attribute of a value. -/
theorem readAttribute_retag (hρ : Function.Injective ρ) (v : Value) (name : String) :
    (v.retag ρ).readAttribute (σ.retag ρ next) name = (v.readAttribute σ name).map (retag ρ) := by
  have hname : (v.retag ρ).typeName (σ.retag ρ next) = v.typeName σ := typeName_retag v
  have hcompiled := compiledAttribute?_retag (ρ := ρ) v name
  cases v with
  | null => rfl
  | mapping address =>
      have hlookup : lookup (σ.retag ρ next) (str name) (retagEntries ρ (σ.entries address))
          = (lookup σ (str name) (σ.entries address)).map (Option.map (retag ρ)) := lookup_retag hρ (str name) _
      simp only [retag, readAttribute, Store.entries_retag, hlookup]
      cases lookup σ (str name) (σ.entries address) with
      | error fault => rfl
      | ok found => exact congrArg Except.ok (getD_map_retag found)
  | object address =>
      simp only [retag] at hname
      simp only [retag, readAttribute, Store.object_retag, Object.attributes_retag, lookup_retagNamed, hname]
      cases (σ.object address).attributes.lookup name <;> rfl
  | row _ type items =>
      have hzip : type.fields.zip (items.map (retag ρ)) = retagNamed ρ (type.fields.zip items) :=
        List.zip_map_right
      simp only [retag, retagAll_eq_map] at hname
      simp only [retag, readAttribute, retagAll_eq_map, hzip, lookup_retagNamed, hname]
      cases (type.fields.zip items).lookup name <;> rfl
  | selector s =>
      simp only [retag] at hname hcompiled
      simp only [retag, readAttribute, hcompiled, hname]
      cases (selector s).compiledAttribute? name <;> rfl
  | setter s =>
      rw [retag] at hcompiled
      simp only [retag, readAttribute]
      cases hfound : (setter s).compiledAttribute? name with
      | none => rfl
      | some w =>
          rw [hfound] at hcompiled
          exact congrArg Except.ok (Option.some.inj hcompiled)
  | target s assign =>
      simp only [retag] at hname hcompiled
      simp only [retag, readAttribute, hcompiled, hname]
      cases (target s assign).compiledAttribute? name <;> rfl
  | _ =>
      simp only [retag] at hname
      simp only [retag, readAttribute, compiledAttribute?, hname, Except.map]

/-- The value at the end of a path. -/
theorem readPath_retag (hρ : Function.Injective ρ) (v : Value) (path : List String) :
    (v.retag ρ).readPath (σ.retag ρ next) path = (v.readPath σ path).map (retag ρ) := by
  induction path generalizing v with
  | nil => rfl
  | cons name path ih =>
      simp only [readPath, List.foldlM_cons, readAttribute_retag hρ, bind, Except.bind] at ih ⊢
      cases v.readAttribute σ name with
      | error fault => rfl
      | ok w => exact ih w

/-- Entries with a new value under a name. -/
theorem setEntry_retag (hρ : Function.Injective ρ) (name : String) (value : Value)
    (entries : List (Value × Value)) :
    setEntry (σ.retag ρ next) name (value.retag ρ) (retagEntries ρ entries)
      = (setEntry σ name value entries).map (retagEntries ρ) := by
  induction entries with
  | nil => rfl
  | cons entry entries ih =>
      have hfound : found (σ.retag ρ next) (entry.1.retag ρ) (str name) = found σ entry.1 (str name) :=
        found_retag hρ entry.1 (str name)
      rw [retagEntries, List.map_cons, ← retagEntries, setEntry, setEntry, hfound, ih]
      cases found σ entry.1 (str name) with
      | error fault => rfl
      | ok same =>
          cases same with
          | true => rfl
          | false => cases setEntry σ name value entries <;> rfl

/-- Named values with a new one. -/
theorem setNamed_retag (name : String) (value : Value) (named : List (String × Value)) :
    setNamed name (value.retag ρ) (retagNamed ρ named) = retagNamed ρ (setNamed name value named) := by
  induction named with
  | nil => rfl
  | cons entry named ih =>
      rw [retagNamed, List.map_cons, ← retagNamed, setNamed, setNamed, ih]
      split <;> rfl

/-! ## Key forms -/

mutual

/-- The key form of a value. -/
theorem keyFormWith_retag {mappings mappings' : Nat → Option Value}
    (hmappings : ∀ address, mappings' address = (mappings address).map (retag ρ)) :
    ∀ v : Value, keyFormWith mappings' (v.retag ρ) = (keyFormWith mappings v).map (retag ρ)
  | .list _ xs | .tuple xs | .row _ _ xs => by
      rw [retag, keyFormWith, keyFormWith, keyFormsWith_retag hmappings xs]
      cases keyFormsWith mappings xs with
      | none => rfl
      | some ks => exact congrArg (some ∘ tuple) (retagAll_eq_map ks).symm
  | .set _ _ => rfl
  | .mapping address => hmappings address
  | .null | .bool _ | .int _ | .float _ | .nan _ | .str _ | .object _ | .function _ _ | .selector _
  | .setter _ | .target _ _ => rfl

theorem keyFormsWith_retag {mappings mappings' : Nat → Option Value}
    (hmappings : ∀ address, mappings' address = (mappings address).map (retag ρ)) :
    ∀ vs : List Value, keyFormsWith mappings' (retagAll ρ vs)
      = (keyFormsWith mappings vs).map (List.map (retag ρ))
  | [] => rfl
  | v :: vs => by
      simp only [retagAll, keyFormsWith, keyFormWith_retag hmappings v, keyFormsWith_retag hmappings vs]
      cases keyFormWith mappings v with
      | none => rfl
      | some k => cases keyFormsWith mappings vs <;> rfl

end

/-- Going through a list that comes from another. -/
theorem mapM_map_retag {α α' : Type} {f : α → Option Value} {f' : α' → Option Value} {g : α → α'}
    (hf : ∀ a, f' (g a) = (f a).map (retag ρ)) (as : List α) :
    (as.map g).mapM f' = (as.mapM f).map (List.map (retag ρ)) := by
  induction as with
  | nil => rfl
  | cons a as ih =>
      simp only [List.map_cons, List.mapM_cons, hf, ih]
      cases f a with
      | none => rfl
      | some b => cases as.mapM f <;> rfl

/-- The key form of a mapping. -/
theorem mappingKeyForm_retag (hρ : Function.Injective ρ) (fuel : Nat) : ∀ address : Nat,
    mappingKeyForm (σ.retag ρ next) fuel address = (mappingKeyForm σ fuel address).map (retag ρ) := by
  induction fuel with
  | zero => intro address; rfl
  | succ fuel ih =>
      intro address
      let retagShown (e : String × Value × Value) : String × Value × Value :=
        (e.1, e.2.1.retag ρ, e.2.2.retag ρ)
      have hentries : (retagEntries ρ (σ.entries address)).map
            (fun e => (e.1.shown (σ.retag ρ next), e.1, e.2))
          = ((σ.entries address).map fun e => (e.1.shown σ, e.1, e.2)).map retagShown := by
        rw [retagEntries, List.map_map, List.map_map]
        refine List.map_congr_left fun e _ => ?_
        simp only [Function.comp, retagShown, shown_retag hρ]
      have hpair (e : String × Value × Value) :
          (keyFormWith (mappingKeyForm (σ.retag ρ next) fuel) (retagShown e).2.2).bind
              (fun form => some (tuple [(retagShown e).2.1, form]))
            = ((keyFormWith (mappingKeyForm σ fuel) e.2.2).bind
              fun form => some (tuple [e.2.1, form])).map (retag ρ) := by
        rw [keyFormWith_retag ih]
        cases keyFormWith (mappingKeyForm σ fuel) e.2.2 <;> rfl
      have hsorted (es : List (String × Value × Value)) :
          (es.map retagShown).mergeSort (fun e f => decide (e.1 ≤ f.1))
            = (es.mergeSort fun e f => decide (e.1 ≤ f.1)).map retagShown := by
        symm
        apply List.map_mergeSort
        intro e _ f _
        rfl
      have htuple (pairs? : Option (List Value)) :
          ((pairs?.map (List.map (retag ρ))).bind fun pairs => some (tuple pairs))
            = (pairs?.bind fun pairs => some (tuple pairs)).map (retag ρ) := by
        cases pairs? with
        | none => rfl
        | some pairs => simp only [Option.map_some, Option.bind_some, retag, retagAll_eq_map]
      simp only [mappingKeyForm, Store.entries_retag, hentries, hsorted, bind, pure]
      rw [mapM_map_retag hpair]
      exact htuple _

/-- The key form of a value. -/
theorem keyForm_retag (hρ : Function.Injective ρ) (v : Value) :
    (v.retag ρ).keyForm (σ.retag ρ next) = (v.keyForm σ).map (retag ρ) := by
  rw [keyForm, keyForm, Store.nesting_retag, keyFormWith_retag (mappingKeyForm_retag hρ _)]
  cases keyFormWith (mappingKeyForm σ (σ.nesting + 1)) v <;> rfl

end Value

end Rubric
