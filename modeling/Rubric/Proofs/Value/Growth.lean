import Mathlib.Data.Finset.Card
import Rubric.Proofs.Sequencing
import Rubric.Proofs.Value.Reads
import Rubric.Record.Call

/-!
# Stores that have grown

A run makes new mappings and tags before it looks at its records, and writes nothing.  A store that
has grown in this way is read as before: the key forms of values, which are found by descending into
mappings, are not refused more often or less, though there are more mappings to descend into.

* `Store.GrownTo` : stores with more mappings, but the same contents of those there were;
* `formed_stable` : how deep a store is descended into does not matter once it exceeds the mappings;
* `Selector.runAlike_read` : reading through a selector in grown stores.
-/

namespace Rubric

open Value (Place)

/-! ## Growth -/

/-- Whether a store has the objects and mappings of another, as they were, and more mappings at
most. -/
structure Store.GrownTo (σ τ : Store) : Prop where
  objects_eq : τ.objects = σ.objects
  size_le : σ.mappings.size ≤ τ.mappings.size
  entries_eq : ∀ address < σ.mappings.size, τ.entries address = σ.entries address

namespace Store.GrownTo

variable {σ τ υ : Store}

/-- A store has grown to itself. -/
theorem refl (σ : Store) : σ.GrownTo σ := ⟨rfl, Nat.le_refl _, fun _ _ => rfl⟩

/-- Growth goes on. -/
theorem trans (h : σ.GrownTo τ) (h' : τ.GrownTo υ) : σ.GrownTo υ where
  objects_eq := h'.objects_eq.trans h.objects_eq
  size_le := Nat.le_trans h.size_le h'.size_le
  entries_eq address haddress := by
    rw [h'.entries_eq address (Nat.lt_of_lt_of_le haddress h.size_le), h.entries_eq address haddress]

/-- Other tags are no change of contents. -/
theorem tags (h : σ.GrownTo τ) (runs : Nat) (tag : Tag) :
    σ.GrownTo { τ with runs := runs, nextTag := tag } :=
  ⟨h.objects_eq, h.size_le, h.entries_eq⟩

/-- A new mapping leaves the others. -/
theorem addMapping (h : σ.GrownTo τ) (entries : List (Value × Value)) :
    σ.GrownTo (τ.addMapping entries).2 := by
  refine h.trans ⟨rfl, ?_, fun address haddress => ?_⟩
  · simp [Store.addMapping]
  · have hbefore : address ≠ τ.mappings.size := Nat.ne_of_lt haddress
    simp [Store.addMapping, Store.entries, Array.getElem?_push, hbefore]

/-- The objects are the same. -/
theorem object_eq (h : σ.GrownTo τ) (address : Nat) : τ.object address = σ.object address := by
  rw [Store.object, Store.object, h.objects_eq]

/-- What the store mentioned, it still mentions, and nothing else at the places that it had. -/
theorem closed (h : σ.GrownTo τ) (hclosed : σ.Closed σ.all) : τ.Closed σ.all := by
  intro p hp v hv
  refine hclosed p hp v ?_
  cases p with
  | mapping address =>
      rw [Store.contents, ← h.entries_eq address hp]
      exact hv
  | object address =>
      rw [Store.contents, ← h.object_eq address]
      exact hv

/-- Attributes are read as before. -/
theorem readAttribute_eq (h : σ.GrownTo τ) {v : Value} (hv : v.Within σ.all) (name : String) :
    v.readAttribute τ name = v.readAttribute σ name := by
  refine Value.readAttribute_congr (fun address heq => ?_) fun address _ => h.object_eq address
  subst heq
  exact h.entries_eq address (Value.within_mapping.mp hv)

/-- Paths are read as before. -/
theorem readPath_eq (h : σ.GrownTo τ) (hclosed : σ.Closed σ.all) (path : List String) :
    ∀ {v : Value}, v.Within σ.all → v.readPath τ path = v.readPath σ path := by
  induction path with
  | nil => exact fun _ => rfl
  | cons name path ih =>
      intro v hv
      simp only [Value.readPath, List.foldlM_cons, h.readAttribute_eq hv]
      cases hread : v.readAttribute σ name with
      | error fault => rfl
      | ok w => exact ih (Value.readAttribute_within hclosed hv hread)

/-- Values have the types they had. -/
theorem typeName_eq (h : σ.GrownTo τ) (v : Value) : v.typeName τ = v.typeName σ := by
  cases v with
  | object address => rw [Value.typeName, Value.typeName, h.object_eq]
  | selector s => cases s <;> rfl
  | _ => rfl

/-- Fields are read by subscript as before. -/
theorem subscript_str_eq (h : σ.GrownTo τ) {v : Value} (hv : v.Within σ.all) (name : String) :
    v.subscript τ (.str name) = v.subscript σ (.str name) := by
  cases v with
  | mapping address =>
      have hentries := h.entries_eq address (Value.within_mapping.mp hv)
      simp only [Value.subscript, hentries, Value.lookup_str σ τ]
      rfl
  | object address => simp only [Value.subscript, h.typeName_eq]
  | selector s => cases s <;> rfl
  | _ => rfl

end Store.GrownTo

/-! ## Values that rest on mappings -/

namespace Value

mutual

/-- Whether the mappings that a value holds, outside of sets and objects, have a property. -/
def RestsOn (good : Nat → Prop) : Value → Prop
  | list _ items => AllRestOn good items
  | tuple items => AllRestOn good items
  | row _ _ items => AllRestOn good items
  | mapping address => good address
  | _ => True

/-- Whether those of several values have. -/
def AllRestOn (good : Nat → Prop) : List Value → Prop
  | [] => True
  | v :: vs => RestsOn good v ∧ AllRestOn good vs

end

/-- Whether two values rest on the same mappings. -/
def Alike (v w : Value) : Prop := ∀ good, v.RestsOn good ↔ w.RestsOn good

variable {good good' : Nat → Prop}

/-- Several values rest on mappings where each does. -/
theorem allRestOn_iff {vs : List Value} : AllRestOn good vs ↔ ∀ v ∈ vs, v.RestsOn good := by
  induction vs with
  | nil => simp [AllRestOn]
  | cons v vs ih => simp only [AllRestOn, ih, List.forall_mem_cons]

mutual

/-- What a value rests on shows only where its mappings differ in the property. -/
theorem restsOn_congr {region : Region}
    (h : ∀ address, Place.mapping address ∈ region → (good address ↔ good' address)) :
    ∀ v : Value, v.Within region → (v.RestsOn good ↔ v.RestsOn good')
  | .list _ items, hv => allRestOn_congr h items (within_list.mp hv)
  | .tuple items, hv => allRestOn_congr h items (within_tuple.mp hv)
  | .row _ _ items, hv => allRestOn_congr h items (within_row.mp hv)
  | .mapping address, hv => h address (within_mapping.mp hv)
  | .set _ _, _ | .object _, _ | .null, _ | .bool _, _ | .int _, _ | .float _, _ | .nan _, _
  | .str _, _ | .function _ _, _ | .selector _, _ | .setter _, _ | .target _ _, _ => Iff.rfl

/-- So it is for several values. -/
theorem allRestOn_congr {region : Region}
    (h : ∀ address, Place.mapping address ∈ region → (good address ↔ good' address)) :
    ∀ vs : List Value, (∀ v ∈ vs, v.Within region) → (AllRestOn good vs ↔ AllRestOn good' vs)
  | [], _ => Iff.rfl
  | v :: vs, hvs => by
      obtain ⟨hv, hvs⟩ := List.forall_mem_cons.mp hvs
      exact and_congr (restsOn_congr h v hv) (allRestOn_congr h vs hvs)

end

mutual

/-- What rests on mappings with a property rests on mappings with a weaker one. -/
theorem RestsOn.mono (h : ∀ address, good address → good' address) :
    ∀ {v : Value}, v.RestsOn good → v.RestsOn good'
  | .list _ _, hv | .tuple _, hv | .row _ _ _, hv => AllRestOn.mono h hv
  | .mapping address, hv => h address hv
  | .set _ _, _ | .object _, _ | .null, _ | .bool _, _ | .int _, _ | .float _, _ | .nan _, _
  | .str _, _ | .function _ _, _ | .selector _, _ | .setter _, _ | .target _ _, _ => trivial

/-- So do several values. -/
theorem AllRestOn.mono (h : ∀ address, good address → good' address) :
    ∀ {vs : List Value}, AllRestOn good vs → AllRestOn good' vs
  | [], _ => trivial
  | _ :: _, hvs => ⟨RestsOn.mono h hvs.1, AllRestOn.mono h hvs.2⟩

end

mutual

/-- All mappings have a property that is always met. -/
theorem restsOn_true : ∀ v : Value, v.RestsOn fun _ => True
  | .list _ items | .tuple items | .row _ _ items => allRestOn_true items
  | .mapping _ | .set _ _ | .object _ | .null | .bool _ | .int _ | .float _ | .nan _ | .str _
  | .function _ _ | .selector _ | .setter _ | .target _ _ => trivial

/-- So have those of several values. -/
theorem allRestOn_true : ∀ vs : List Value, AllRestOn (fun _ => True) vs
  | [] => trivial
  | v :: vs => ⟨restsOn_true v, allRestOn_true vs⟩

end

/-! ## Key forms -/

mutual

/-- A value has a key form that rests on good mappings where its own mappings have such. -/
theorem exists_keyFormWith {mappings : Nat → Option Value} :
    ∀ v : Value, (∃ form, keyFormWith mappings v = some form ∧ form.RestsOn good) ↔
      v.RestsOn fun address => ∃ form, mappings address = some form ∧ form.RestsOn good
  | .list _ items | .tuple items | .row _ _ items => by
      simp only [keyFormWith, Option.map_eq_some_iff, RestsOn, ← exists_keyFormsWith items]
      constructor
      · rintro ⟨_, ⟨forms, hforms, rfl⟩, hgood⟩
        exact ⟨forms, hforms, hgood⟩
      · rintro ⟨forms, hforms, hgood⟩
        exact ⟨_, ⟨forms, hforms, rfl⟩, hgood⟩
  | .mapping _ => Iff.rfl
  | .set _ _ | .object _ | .null | .bool _ | .int _ | .float _ | .nan _ | .str _
  | .function _ _ | .selector _ | .setter _ | .target _ _ => by
      simp [keyFormWith, RestsOn]

/-- So have several values. -/
theorem exists_keyFormsWith {mappings : Nat → Option Value} :
    ∀ vs : List Value, (∃ forms, keyFormsWith mappings vs = some forms ∧ AllRestOn good forms) ↔
      AllRestOn (fun address => ∃ form, mappings address = some form ∧ form.RestsOn good) vs
  | [] => by simp [keyFormsWith, AllRestOn]
  | v :: vs => by
      rw [AllRestOn, ← exists_keyFormWith v, ← exists_keyFormsWith vs]
      simp only [keyFormsWith]
      constructor
      · rintro ⟨forms, hforms, hgood⟩
        split at hforms
        · rename_i form rest hform hrest
          cases hforms
          exact ⟨⟨form, hform, hgood.1⟩, rest, hrest, hgood.2⟩
        · cases hforms
      · rintro ⟨⟨form, hform, hgood⟩, rest, hrest, hgoods⟩
        exact ⟨form :: rest, by rw [hform, hrest], hgood, hgoods⟩

end

/-- Whether a mapping has a key form, found in so many steps, that rests on good mappings. -/
def Formed (σ : Store) (good : Nat → Prop) (fuel address : Nat) : Prop :=
  ∃ form, mappingKeyForm σ fuel address = some form ∧ form.RestsOn good

/-- Collecting answers succeeds where every member has one. -/
theorem exists_mapM_option {α β : Type} {f : α → Option β} {P : β → Prop} {as : List α} :
    (∃ bs, as.mapM f = some bs ∧ ∀ b ∈ bs, P b) ↔ ∀ a ∈ as, ∃ b, f a = some b ∧ P b := by
  induction as with
  | nil => simp
  | cons a as ih =>
      rw [List.forall_mem_cons, ← ih]
      simp only [List.mapM_cons, Option.bind_eq_bind, Option.pure_def, Option.bind_eq_some_iff,
        Option.some.injEq]
      constructor
      · rintro ⟨_, ⟨b, hb, bs, hbs, rfl⟩, hall⟩
        exact ⟨⟨b, hb, hall b List.mem_cons_self⟩, bs, hbs, fun c hc => hall c (.tail _ hc)⟩
      · rintro ⟨⟨b, hb, hP⟩, bs, hbs, hall⟩
        exact ⟨b :: bs, ⟨b, hb, bs, hbs, rfl⟩, List.forall_mem_cons.mpr ⟨hP, hall⟩⟩

/-- No key form is found in no steps. -/
theorem not_formed_zero (σ : Store) (address : Nat) : ¬ Formed σ good 0 address := by
  rintro ⟨form, hform, -⟩
  cases hform

/-- A key form is found in one more step where those in the entries are found before. -/
theorem formed_succ {σ : Store} {fuel address : Nat} :
    Formed σ good (fuel + 1) address ↔ ∀ entry ∈ σ.entries address,
      entry.1.RestsOn good ∧ entry.2.RestsOn (Formed σ good fuel) := by
  -- the entries are sorted by their shown keys first, which is no matter for all of them
  have hsorted : ∀ P : Value × Value → Prop,
      (∀ e ∈ ((σ.entries address).map fun e => (e.1.shown σ, e.1, e.2)).mergeSort
        fun e f => decide (e.1 ≤ f.1), P e.2) ↔ ∀ entry ∈ σ.entries address, P entry := by
    intro P
    constructor
    · intro h entry hentry
      exact h (entry.1.shown σ, entry.1, entry.2)
        (List.mem_mergeSort.mpr (List.mem_map.mpr ⟨entry, hentry, rfl⟩))
    · intro h e he
      obtain ⟨entry, hentry, rfl⟩ := List.mem_map.mp (List.mem_mergeSort.mp he)
      exact h entry hentry
  have hpair : ∀ entry : Value × Value,
      (∃ pair, (keyFormWith (mappingKeyForm σ fuel) entry.2).bind
          (fun form => some (tuple [entry.1, form])) = some pair ∧ pair.RestsOn good) ↔
        entry.1.RestsOn good ∧ entry.2.RestsOn (Formed σ good fuel) := by
    intro entry
    have hvalue : entry.2.RestsOn (Formed σ good fuel) ↔
        ∃ form, keyFormWith (mappingKeyForm σ fuel) entry.2 = some form ∧ form.RestsOn good :=
      (exists_keyFormWith entry.2).symm
    rw [hvalue]
    simp only [Option.bind_eq_some_iff, Option.some.injEq]
    constructor
    · rintro ⟨_, ⟨form, hform, rfl⟩, hkey, hgood, -⟩
      exact ⟨hkey, form, hform, hgood⟩
    · rintro ⟨hkey, form, hform, hgood⟩
      exact ⟨_, ⟨form, hform, rfl⟩, hkey, hgood, trivial⟩
  rw [← hsorted fun entry => entry.1.RestsOn good ∧ entry.2.RestsOn (Formed σ good fuel)]
  simp only [← hpair]
  rw [← exists_mapM_option]
  simp only [Formed, mappingKeyForm, Option.bind_eq_bind, Option.bind_eq_some_iff, Option.pure_def,
    Option.some.injEq]
  constructor
  · rintro ⟨_, ⟨pairs, hpairs, rfl⟩, hgood⟩
    exact ⟨pairs, hpairs, allRestOn_iff.mp hgood⟩
  · rintro ⟨pairs, hpairs, hgood⟩
    exact ⟨_, ⟨pairs, hpairs, rfl⟩, allRestOn_iff.mpr hgood⟩

/-- A key form is found in every larger number of steps. -/
theorem Formed.succ {σ : Store} (fuel : Nat) :
    ∀ {address : Nat}, Formed σ good fuel address → Formed σ good (fuel + 1) address := by
  induction fuel with
  | zero => exact fun h => absurd h (not_formed_zero σ _)
  | succ fuel ih =>
      intro address h
      rw [formed_succ] at h ⊢
      intro entry hentry
      obtain ⟨hkey, hvalue⟩ := h entry hentry
      exact ⟨hkey, hvalue.mono fun _ => ih⟩

end Value

/-- Where growing sets of numbers hold all but the first few, and once one is the next they all are,
they are the same after as many steps as there are few. -/
theorem stable_of_chain {P : Nat → Nat → Prop} {size : Nat} (hmono : ∀ n a, P n a → P (n + 1) a)
    (hout : ∀ n a, size ≤ a → P (n + 1) a)
    (hstep : ∀ n, (∀ a, P n a ↔ P (n + 1) a) → ∀ a, P (n + 1) a ↔ P (n + 2) a) {m : Nat}
    (hm : size + 1 ≤ m) (a : Nat) : P m a ↔ P (size + 1) a := by
  classical
  -- otherwise every step adds one of the few
  have hstable : ∃ n, n ≤ size + 1 ∧ ∀ a, P n a ↔ P (n + 1) a := by
    by_contra hnone
    push Not at hnone
    let held (n : Nat) : Finset Nat := (Finset.range size).filter (P n)
    have hgrows : ∀ n, n ≤ size + 1 → n ≤ (held (n + 1)).card := by
      intro n
      induction n with
      | zero => exact fun _ => Nat.zero_le _
      | succ n ih =>
          intro hn
          have hbefore : n ≤ (held (n + 1)).card := ih (by omega)
          obtain ⟨a, hdiffers⟩ := hnone (n + 1) hn
          have hadded : ¬ P (n + 1) a ∧ P (n + 2) a := by
            rcases hdiffers with ⟨hold, hnew⟩ | h
            · exact absurd (hmono _ _ hold) hnew
            · exact h
          have hfew : a < size := by
            by_contra hlarge
            exact hadded.1 (hout n a (by omega))
          have hmore : held (n + 1) ⊂ held (n + 2) := by
            refine Finset.ssubset_iff_subset_ne.mpr ⟨fun b hb => ?_, fun heq => ?_⟩
            · obtain ⟨hb, hP⟩ := Finset.mem_filter.mp hb
              exact Finset.mem_filter.mpr ⟨hb, hmono _ _ hP⟩
            · have ha : a ∈ held (n + 2) :=
                Finset.mem_filter.mpr ⟨Finset.mem_range.mpr hfew, hadded.2⟩
              rw [← heq] at ha
              exact hadded.1 (Finset.mem_filter.mp ha).2
          have hcard := Finset.card_lt_card hmore
          show n + 1 ≤ (held (n + 2)).card
          omega
    have hall := hgrows (size + 1) (Nat.le_refl _)
    have hbound : (held (size + 1 + 1)).card ≤ size := by
      have hle := Finset.card_filter_le (Finset.range size) (P (size + 1 + 1))
      rwa [Finset.card_range] at hle
    omega
  obtain ⟨n, hn, hsame⟩ := hstable
  have hfrom : ∀ k a, P (n + k) a ↔ P (n + k + 1) a := by
    intro k
    induction k with
    | zero => exact hsame
    | succ k ih => exact hstep (n + k) ih
  have hconst : ∀ k a, P (n + k) a ↔ P n a := by
    intro k a
    induction k with
    | zero => exact Iff.rfl
    | succ k ih => exact (hfrom k a).symm.trans ih
  have hm' := hconst (m - n) a
  have hsize := hconst (size + 1 - n) a
  rw [show n + (m - n) = m by omega] at hm'
  rw [show n + (size + 1 - n) = size + 1 by omega] at hsize
  exact hm'.trans hsize.symm

namespace Value

variable {good : Nat → Prop}

/-- Which mappings have key forms does not depend on the number of steps once this exceeds the number
of mappings: those that have none hold themselves. -/
theorem formed_stable (σ : Store) {fuel : Nat} (h : σ.mappings.size + 1 ≤ fuel) (address : Nat) :
    Formed σ good fuel address ↔ Formed σ good (σ.mappings.size + 1) address := by
  refine stable_of_chain (P := Formed σ good) (fun n a => Formed.succ n) ?_ ?_ h address
  · intro n a ha
    have hempty : σ.entries a = [] := by simp [Store.entries, ha]
    rw [formed_succ, hempty]
    simp
  · intro n hsame a
    have heq : Formed σ good n = Formed σ good (n + 1) := funext fun a => propext (hsame a)
    rw [formed_succ, formed_succ, heq]

variable {σ τ : Store}

/-- The mappings of a store have key forms in a grown store where they had them, found in as many
steps. -/
theorem formed_grown (h : σ.GrownTo τ) (hclosed : σ.Closed σ.all) (fuel : Nat) :
    ∀ address < σ.mappings.size, (Formed τ good fuel address ↔ Formed σ good fuel address) := by
  induction fuel with
  | zero => exact fun address _ => iff_of_false (not_formed_zero τ _) (not_formed_zero σ _)
  | succ fuel ih =>
      intro address haddress
      rw [formed_succ, formed_succ, h.entries_eq address haddress]
      refine forall₂_congr fun entry hentry => and_congr_right fun _ => ?_
      exact restsOn_congr (fun a ha => ih a ha) entry.2
        (hclosed.entry (show Place.mapping address ∈ σ.all from haddress) hentry).2

/-- A value has a key form that rests on good mappings where its mappings have such. -/
theorem exists_keyForm {v : Value} :
    (∃ form, v.keyForm σ = .ok form ∧ form.RestsOn good) ↔
      v.RestsOn (Formed σ good (σ.nesting + 1)) := by
  have hform : (∃ form, keyFormWith (mappingKeyForm σ (σ.nesting + 1)) v = some form ∧
      form.RestsOn good) ↔ _ := exists_keyFormWith v
  rw [show Formed σ good (σ.nesting + 1) = fun address => ∃ form,
    mappingKeyForm σ (σ.nesting + 1) address = some form ∧ form.RestsOn good from rfl, ← hform]
  simp only [keyForm]
  cases keyFormWith (mappingKeyForm σ (σ.nesting + 1)) v <;> simp [settled]

/-- Where a value has no key form, it is nested in itself. -/
theorem keyForm_error {v : Value} {fault : Fault} (h : v.keyForm σ = .error fault) :
    fault = .tooDeep := by
  simp only [keyForm] at h
  cases hform : keyFormWith (mappingKeyForm σ (σ.nesting + 1)) v with
  | none =>
      rw [hform] at h
      cases h
      rfl
  | some form =>
      rw [hform] at h
      cases h

/-- Alike values of a store have key forms that rest on good mappings in the store and in what it has
grown to, or in neither. -/
theorem exists_keyForm_grown (h : σ.GrownTo τ) (hclosed : σ.Closed σ.all) {v w : Value}
    (hv : v.Within σ.all) (hvw : v.Alike w) :
    (∃ form, v.keyForm σ = .ok form ∧ form.RestsOn good) ↔
      ∃ form, w.keyForm τ = .ok form ∧ form.RestsOn good := by
  rw [exists_keyForm, exists_keyForm, ← hvw]
  refine restsOn_congr (fun address haddress => ?_) v hv
  have haddress : address < σ.mappings.size := haddress
  have hold : σ.mappings.size + 1 ≤ σ.nesting + 1 := by
    unfold Store.nesting
    omega
  have hnew : σ.mappings.size + 1 ≤ τ.nesting + 1 := by
    have hsize := h.size_le
    unfold Store.nesting
    omega
  rw [formed_grown h hclosed _ address haddress, formed_stable σ hold, formed_stable σ hnew]

end Value

/-! ## Reading in grown stores -/

/-- Whether two computations, in all stores that a store has grown to, leave stores that it has grown
to, and have answers that are alike or the same fault. -/
def Eval.RunAlike {α : Type} (σ : Store) (R : α → α → Prop) (first second : Eval α) : Prop :=
  ∀ τ υ, σ.GrownTo τ → σ.GrownTo υ → match first τ, second υ with
    | .ok a τ', .ok b υ' => R a b ∧ σ.GrownTo τ' ∧ σ.GrownTo υ'
    | .error fault τ', .error fault' υ' => fault = fault' ∧ σ.GrownTo τ' ∧ σ.GrownTo υ'
    | _, _ => False

namespace Eval.RunAlike

variable {α β : Type} {σ : Store} {R : α → α → Prop} {S : β → β → Prop}

/-- Answering what is alike. -/
theorem of_pure {a b : α} (h : R a b) : RunAlike σ R (pure a) (pure b) :=
  fun _ _ hτ hυ => ⟨h, hτ, hυ⟩

/-- Failing with the same fault. -/
theorem of_throw (fault : Fault) : RunAlike σ R (throw fault) (throw fault) :=
  fun _ _ hτ hυ => ⟨rfl, hτ, hυ⟩

/-- Computations in a row run alike where each does. -/
theorem bind {first second : Eval α} {next next' : α → Eval β} (h : RunAlike σ R first second)
    (hnext : ∀ a b, R a b → RunAlike σ S (next a) (next' b)) :
    RunAlike σ S (first >>= next) (second >>= next') := by
  intro τ υ hτ hυ
  have hfirst := h τ υ hτ hυ
  cases hone : first τ with
  | ok a τ' =>
      cases htwo : second υ with
      | ok b υ' =>
          simp only [hone, htwo] at hfirst
          obtain ⟨hR, hτ', hυ'⟩ := hfirst
          rw [bind_of_ok hone, bind_of_ok htwo]
          exact hnext a b hR τ' υ' hτ' hυ'
      | error fault υ' => simp [hone, htwo] at hfirst
  | error fault τ' =>
      cases htwo : second υ with
      | ok b υ' => simp [hone, htwo] at hfirst
      | error fault' υ' =>
          simp only [hone, htwo] at hfirst
          rw [bind_of_error hone, bind_of_error htwo]
          exact hfirst

/-- Computed answers that are alike, or the same fault. -/
theorem of_answers {answer answer' : Store → Except Fault α}
    (h : ∀ τ υ, σ.GrownTo τ → σ.GrownTo υ → match answer τ, answer' υ with
      | .ok a, .ok b => R a b
      | .error fault, .error fault' => fault = fault'
      | _, _ => False) :
    RunAlike σ R (get >>= fun τ => Eval.ofExcept (answer τ))
      (get >>= fun τ => Eval.ofExcept (answer' τ)) := by
  intro τ υ hτ hυ
  have hanswers := h τ υ hτ hυ
  rw [bind_of_ok (get_ok τ), bind_of_ok (get_ok υ)]
  cases hone : answer τ with
  | ok a =>
      cases htwo : answer' υ with
      | ok b =>
          simp only [hone, htwo] at hanswers
          exact ⟨hanswers, hτ, hυ⟩
      | error fault => simp [hone, htwo] at hanswers
  | error fault =>
      cases htwo : answer' υ with
      | ok b => simp [hone, htwo] at hanswers
      | error fault' =>
          simp only [hone, htwo] at hanswers
          exact ⟨hanswers, hτ, hυ⟩

end Eval.RunAlike

/-- Whether two values of a store rest on the same mappings. -/
def Value.AlikeIn (σ : Store) (v w : Value) : Prop :=
  v.Within σ.all ∧ w.Within σ.all ∧ v.Alike w

namespace Value

variable {σ : Store}

/-- A value of a store is like itself. -/
theorem AlikeIn.refl {v : Value} (hv : v.Within σ.all) : AlikeIn σ v v := ⟨hv, hv, fun _ => Iff.rfl⟩

/-- Tuples of values that are alike, one by one, are alike. -/
theorem AlikeIn.tuple {vs ws : List Value} (h : List.Forall₂ (AlikeIn σ) vs ws) :
    AlikeIn σ (.tuple vs) (.tuple ws) := by
  have hparts : (∀ v ∈ vs, v.Within σ.all) ∧ (∀ w ∈ ws, w.Within σ.all) ∧
      ∀ good, AllRestOn good vs ↔ AllRestOn good ws := by
    induction h with
    | nil => simp
    | cons hvw _ ih =>
        obtain ⟨hv, hw, hsame⟩ := hvw
        obtain ⟨hvs, hws, hrest⟩ := ih
        exact ⟨List.forall_mem_cons.mpr ⟨hv, hvs⟩, List.forall_mem_cons.mpr ⟨hw, hws⟩,
          fun good => and_congr (hsame good) (hrest good)⟩
  exact ⟨within_tuple.mpr hparts.1, within_tuple.mpr hparts.2.1, hparts.2.2⟩

/-- What is read of a value of a store is the same in all stores that it has grown to. -/
theorem runAlike_reads {answer : Store → Except Fault Value}
    (hsame : ∀ τ, σ.GrownTo τ → answer τ = answer σ)
    (hwithin : ∀ w, answer σ = .ok w → w.Within σ.all) :
    Eval.RunAlike σ (AlikeIn σ) (get >>= fun τ => Eval.ofExcept (answer τ))
      (get >>= fun τ => Eval.ofExcept (answer τ)) := by
  refine .of_answers fun τ υ hτ hυ => ?_
  rw [hsame τ hτ, hsame υ hυ]
  cases hanswer : answer σ with
  | ok w => exact AlikeIn.refl (hwithin w hanswer)
  | error fault => rfl

/-- Alike values have alike key forms in all stores that a store has grown to. -/
theorem runAlike_keyForm (hclosed : σ.Closed σ.all) {v w : Value} (h : AlikeIn σ v w) :
    Eval.RunAlike σ (AlikeIn σ) (get >>= fun τ => Eval.ofExcept (v.keyForm τ))
      (get >>= fun τ => Eval.ofExcept (w.keyForm τ)) := by
  obtain ⟨hv, hw, hvw⟩ := h
  refine .of_answers fun τ υ hτ hυ => ?_
  have hforms : ∀ good, (∃ form, v.keyForm τ = .ok form ∧ form.RestsOn good) ↔
      ∃ form, w.keyForm υ = .ok form ∧ form.RestsOn good := fun good =>
    (exists_keyForm_grown hτ hclosed hv fun _ => Iff.rfl).symm.trans
      (exists_keyForm_grown hυ hclosed hv hvw)
  cases hone : v.keyForm τ with
  | ok form =>
      cases htwo : w.keyForm υ with
      | ok form' =>
          refine ⟨keyForm_within (hτ.closed hclosed) hv hone,
            keyForm_within (hυ.closed hclosed) hw htwo, fun good => ?_⟩
          simpa [hone, htwo] using hforms good
      | error fault =>
          have hgood := hforms fun _ => True
          simp [hone, htwo, restsOn_true] at hgood
  | error fault =>
      cases htwo : w.keyForm υ with
      | ok form' =>
          have hgood := hforms fun _ => True
          simp [hone, htwo, restsOn_true] at hgood
      | error fault' => exact (keyForm_error hone).trans (keyForm_error htwo).symm

end Value

/-- A function that is called with a record answers what is alike, or fails with the same fault, in all
stores that a store has grown to. -/
theorem Function.runAlike_call {σ : Store} (hclosed : σ.Closed σ.all) {record : Value}
    (hrecord : record.Within σ.all) : ∀ {f : Function}, f.Within σ.all →
      Eval.RunAlike σ (Value.AlikeIn σ) (f.call [record]) (f.call [record])
  | .field name, _ => by
      rw [Function.call]
      show Eval.RunAlike σ (Value.AlikeIn σ)
        (pure record >>= fun record => get >>= fun τ =>
          Eval.ofExcept (record.subscript τ (.str name)))
        (pure record >>= fun record => get >>= fun τ =>
          Eval.ofExcept (record.subscript τ (.str name)))
      rw [pure_bind]
      exact Value.runAlike_reads (fun τ hτ => hτ.subscript_str_eq hrecord name) fun w hw =>
        Value.subscript_within hclosed hrecord hw
  | .failing message, _ => by
      rw [Function.call]
      exact .of_throw _
  | .constant value, hf => by
      rw [Function.call]
      exact .of_pure (.refl (Function.within_constant.mp hf))
  | .arguments, _ => by
      rw [Function.call]
      rintro τ υ hτ hυ
      refine ⟨?_, hτ.tags τ.runs _, hυ.tags υ.runs _⟩
      exact ⟨by simpa using hrecord, by simpa using hrecord, fun _ => Iff.rfl⟩
  | .always, _ | .never, _ | .sameKey key, _ | .comparing names operator, _
  | .failingRelation message, _ => by
      rw [Function.call]
      exact .of_throw _

mutual

/-- A selector reads what is alike, or fails with the same fault, in all stores that a store has grown
to. -/
theorem Selector.runAlike_read {σ : Store} (hclosed : σ.Closed σ.all) {record : Value}
    (hrecord : record.Within σ.all) : ∀ {s : Selector}, s.Within σ.all →
      Eval.RunAlike σ (Value.AlikeIn σ) (s.read record) (s.read record)
  | .path _ names, _ => by
      rw [Selector.read]
      exact Value.runAlike_reads (fun τ hτ => hτ.readPath_eq hclosed names hrecord) fun w hw =>
        (Value.readPath_agree (.refl hclosed) names hrecord).2 w hw
  | .composite parts, hs => by
      rw [Selector.read]
      exact (Selector.runAlike_readAll hclosed hrecord (Selector.within_composite.mp hs)).bind
        fun vs ws h => .of_pure (Value.AlikeIn.tuple h)
  | .computed _ callee, hs => by
      rw [Selector.read]
      exact Value.runAlike_call hclosed hrecord (Selector.within_computed.mp hs)
  | .display inner, hs => by
      rw [Selector.read]
      refine (Selector.runAlike_read hclosed hrecord (Selector.within_display.mp hs)).bind
        fun v w _ => ?_
      intro τ υ hτ hυ
      exact ⟨⟨Value.within_str _, Value.within_str _, fun _ => Iff.rfl⟩, hτ, hυ⟩
  | .key inner, hs => by
      rw [Selector.read]
      exact (Selector.runAlike_read hclosed hrecord (Selector.within_key.mp hs)).bind
        fun v w h => Value.runAlike_keyForm hclosed h

/-- So do several selectors. -/
theorem Selector.runAlike_readAll {σ : Store} (hclosed : σ.Closed σ.all) {record : Value}
    (hrecord : record.Within σ.all) : ∀ {parts : List Selector}, (∀ s ∈ parts, s.Within σ.all) →
      Eval.RunAlike σ (List.Forall₂ (Value.AlikeIn σ)) (Selector.readAll parts record)
        (Selector.readAll parts record)
  | [], _ => by
      rw [Selector.readAll]
      exact .of_pure .nil
  | part :: parts, hparts => by
      obtain ⟨hpart, hrest⟩ := List.forall_mem_cons.mp hparts
      rw [Selector.readAll]
      exact (Selector.runAlike_read hclosed hrecord hpart).bind fun v w hvw =>
        (Selector.runAlike_readAll hclosed hrecord hrest).bind fun vs ws hvs =>
          .of_pure (.cons hvw hvs)

/-- So does a call of a value with a record. -/
theorem Value.runAlike_call {σ : Store} (hclosed : σ.Closed σ.all) {record : Value}
    (hrecord : record.Within σ.all) : ∀ {v : Value}, v.Within σ.all →
      Eval.RunAlike σ (Value.AlikeIn σ) (v.call [record]) (v.call [record])
  | .function _ body, hv => by
      rw [Value.call]
      exact Function.runAlike_call hclosed hrecord (Value.within_function.mp hv)
  | .selector s, hv => by
      rw [Value.call]
      exact Selector.runAlike_read hclosed hrecord (Value.within_selector.mp hv)
  | .setter s, _ => by
      rw [Value.call]
      exact .of_throw _
  | .null, _ | .bool _, _ | .int _, _ | .float _, _ | .nan _, _ | .str _, _ | .list _ _, _
  | .tuple _, _ | .row _ _ _, _ | .set _ _, _ | .mapping _, _ | .object _, _ | .target _ _, _ => by
      rw [Value.call]
      · intro τ υ hτ hυ
        refine ⟨?_, hτ, hυ⟩
        rw [hτ.typeName_eq, hυ.typeName_eq]
      all_goals simp

end

end Rubric
