import Rubric.Proofs.Record.KeyPaths

/-!
# Attributes that are written

An attribute that can be written is a slot: a name at the place of a mapping or an object.  Writing at the
end of a path puts a value into one slot, and what is put into a slot stays until something is put there
again.

* `Value.writePath_ok` : what writing at the end of a path does;
* `Store.readAttribute_put` : what was put into a slot is read;
* `Store.put_put`, `Store.put_comm` : putting twice, and into two slots;
* `Store.putAll_putAll` : filling slots again.
-/

namespace Rubric

open Value (Place)

/-! ## Entries under a key -/

section

variable {κ α : Type} {isKey isKey' : κ → Bool} {key key' : κ} {x y : α} {entries : List (κ × α)}

/-- Entries with a new value in the first that has the key, or at the end where none has. -/
def setFirst (isKey : κ → Bool) (key : κ) (value : α) : List (κ × α) → List (κ × α)
  | [] => [(key, value)]
  | e :: rest =>
    if isKey e.1 then (e.1, value) :: rest else e :: setFirst isKey key value rest

/-- Whether an entry has the key. -/
def HasKey (isKey : κ → Bool) (entries : List (κ × α)) : Prop := ∃ e ∈ entries, isKey e.1

/-- What was set is found. -/
theorem find?_setFirst (isKey : κ → Bool) (hkey : isKey key) :
    ((setFirst isKey key x entries).find? fun e => isKey e.1).map Prod.snd = some x := by
  induction entries with
  | nil => simp [setFirst, hkey]
  | cons e entries ih =>
      rw [setFirst]
      split
      · rename_i he
        simp [he]
      · rename_i he
        simpa [List.find?_cons_of_neg, he] using ih

/-- The key is there then. -/
theorem hasKey_setFirst (hkey : isKey key) : HasKey isKey (setFirst isKey key x entries) := by
  have hfound : ((setFirst isKey key x entries).find? fun e => isKey e.1).map Prod.snd = some x :=
    find?_setFirst isKey hkey
  obtain ⟨e, he, -⟩ := Option.map_eq_some_iff.mp hfound
  have hkey' := List.find?_some he
  exact ⟨e, List.mem_of_find?_eq_some he, hkey'⟩

/-- A key that is there stays. -/
theorem HasKey.setFirst (h : HasKey isKey entries) :
    HasKey isKey (setFirst isKey' key' y entries) := by
  induction entries with
  | nil =>
      obtain ⟨e, he, -⟩ := h
      cases he
  | cons e entries ih =>
      obtain ⟨e', he', hkey⟩ := h
      rw [Rubric.setFirst]
      split
      · rcases List.mem_cons.mp he' with rfl | he'
        · exact ⟨_, List.mem_cons_self, hkey⟩
        · exact ⟨e', .tail _ he', hkey⟩
      · rcases List.mem_cons.mp he' with rfl | he'
        · exact ⟨e', List.mem_cons_self, hkey⟩
        · obtain ⟨e'', he'', hkey'⟩ := ih ⟨e', he', hkey⟩
          exact ⟨e'', .tail _ he'', hkey'⟩

/-- Of two values set under a key the second stays. -/
theorem setFirst_setFirst (hkey : isKey key) :
    setFirst isKey key y (setFirst isKey key x entries) = setFirst isKey key y entries := by
  induction entries with
  | nil => simp [setFirst, hkey]
  | cons e entries ih =>
      by_cases he : isKey e.1
      · simp [setFirst, he]
      · simp [setFirst, he, ih]

/-- Where a key is there, a value is set under it before or after one under another key. -/
theorem setFirst_comm (hapart : ∀ k, isKey k → ¬ isKey' k) (h : HasKey isKey entries) :
    setFirst isKey key x (setFirst isKey' key' y entries)
      = setFirst isKey' key' y (setFirst isKey key x entries) := by
  induction entries with
  | nil =>
      obtain ⟨e, he, -⟩ := h
      cases he
  | cons e entries ih =>
      -- were the key nowhere, the two new entries would stand in the order in which they were set
      by_cases he : isKey e.1
      · have he' := hapart e.1 he
        simp [setFirst, he, he']
      · have hrest : HasKey isKey entries := by
          obtain ⟨e', he', hkey⟩ := h
          rcases List.mem_cons.mp he' with rfl | he'
          · exact absurd hkey he
          · exact ⟨e', he', hkey⟩
        by_cases he' : isKey' e.1
        · simp [setFirst, he, he']
        · simp [setFirst, he, he', ih hrest]

end

/-! ## Names as keys -/

namespace Value

/-- Whether a key is a name. -/
def isNamed (name : String) : Value → Bool
  | str s => s == name
  | _ => false

@[simp] theorem isNamed_str {name s : String} : isNamed name (str s) = (s == name) := rfl

/-- A key that is a name. -/
theorem isNamed_iff {name : String} {k : Value} : k.isNamed name ↔ k = str name := by
  cases k <;> simp [isNamed]

variable {σ : Store} {name : String}

/-- A key is found to be a name where it is the name. -/
theorem found_str (k : Value) : found σ k (str name) = .ok (k.isNamed name) := by
  cases k <;> simp [found, matchWith, identical, equalWith, settled, number?, isNamed]

/-- Setting an entry sets the first of its name. -/
theorem setEntry_eq (value : Value) (entries : List (Value × Value)) :
    setEntry σ name value entries = .ok (setFirst (isNamed name) (str name) value entries) := by
  induction entries with
  | nil => rfl
  | cons e entries ih =>
      obtain ⟨k, v⟩ := e
      rw [setEntry, found_str, setFirst]
      cases k.isNamed name with
      | true => rfl
      | false =>
          rw [ih]
          rfl

/-- So does setting an attribute. -/
theorem setNamed_eq {α : Type} (value : α) (attributes : List (String × α)) :
    setNamed name value attributes = setFirst (· == name) name value attributes := by
  induction attributes with
  | nil => rfl
  | cons a attributes ih => simp only [setNamed, setFirst, beq_iff_eq, ih]

/-- Looking a name up finds the first entry of that name. -/
theorem lookup_eq_find? (entries : List (Value × Value)) :
    lookup σ (str name) entries = .ok ((entries.find? fun e => e.1.isNamed name).map Prod.snd) := by
  have hmatch (k : Value) : matchWith σ.samePlace k (str name) = some (k.isNamed name) := by
    cases k <;> simp [matchWith, identical, equalWith, number?, isNamed]
  have hfound : lookupWith σ.samePlace (str name) entries
      = some ((entries.find? fun e => e.1.isNamed name).map Prod.snd) := by
    induction entries with
    | nil => rfl
    | cons e entries ih =>
        obtain ⟨k, v⟩ := e
        rw [lookupWith, hmatch, List.find?_cons]
        cases k.isNamed name with
        | true => rfl
        | false => exact ih
  rw [lookup, hfound, settled]

end Value

/-- So does looking an attribute up. -/
theorem lookup_eq_find?_beq {α : Type} {name : String} (attributes : List (String × α)) :
    attributes.lookup name = (attributes.find? fun a => a.1 == name).map Prod.snd := by
  induction attributes with
  | nil => rfl
  | cons a attributes ih =>
      rw [List.lookup_cons, List.find?_cons, ih, BEq.comm]
      cases a.1 == name <;> rfl

/-! ## Slots -/

/-- An attribute of the mapping or the object at a place. -/
structure Slot where
  place : Place
  name : String
  deriving DecidableEq

namespace Store

/-- A store with a value put into a slot. -/
def put (σ : Store) (slot : Slot) (value : Value) : Store :=
  match slot.place with
  | .mapping a =>
    σ.setEntries a (setFirst (Value.isNamed slot.name) (.str slot.name) value (σ.entries a))
  | .object a =>
    σ.setAttributes a (setFirst (· == slot.name) slot.name value (σ.object a).attributes)

/-- Whether a slot is in use. -/
def Has (σ : Store) (slot : Slot) : Prop :=
  match slot.place with
  | .mapping a => HasKey (Value.isNamed slot.name) (σ.entries a)
  | .object a => HasKey (· == slot.name) (σ.object a).attributes

/-- Whether the attributes at a place can be written. -/
def isFree (σ : Store) : Place → Bool
  | .mapping _ => true
  | .object a => !(σ.object a).isFrozen

/-! ### What is there after something was put -/

section

variable {σ : Store} {slot slot' : Slot} {x y : Value}

theorem mappings_size_put : (σ.put slot x).mappings.size = σ.mappings.size := by
  rw [put]
  split <;> simp [setEntries, setAttributes]

theorem objects_size_put : (σ.put slot x).objects.size = σ.objects.size := by
  rw [put]
  split <;> simp [setEntries, setAttributes]

/-- Putting makes no places. -/
theorem mem_all_put {p : Place} : p ∈ (σ.put slot x).all ↔ p ∈ σ.all := by
  cases p with
  | mapping a =>
      show a < _ ↔ a < _
      rw [mappings_size_put]
  | object a =>
      show a < _ ↔ a < _
      rw [objects_size_put]

/-- The entries of a mapping are those that it had, but for the slot. -/
theorem entries_put (a : Nat) (hplace : slot.place ∈ σ.all) : (σ.put slot x).entries a
    = if slot.place = .mapping a then setFirst (Value.isNamed slot.name) (.str slot.name) x (σ.entries a)
      else σ.entries a := by
  obtain ⟨p, name⟩ := slot
  cases p with
  | mapping b =>
      have hsize : b < σ.mappings.size := hplace
      simp only [put, entries_setEntries_eq, hsize, and_true, Place.mapping.injEq]
      by_cases hab : a = b
      · simp [hab]
      · simp [hab, Ne.symm hab]
  | object b => simp [put, setAttributes, entries]

/-- So are the attributes of an object, and its type. -/
theorem object_put (a : Nat) (hplace : slot.place ∈ σ.all) : (σ.put slot x).object a
    = if slot.place = .object a then
        { σ.object a with
          attributes := setFirst (· == slot.name) slot.name x (σ.object a).attributes }
      else σ.object a := by
  obtain ⟨p, name⟩ := slot
  cases p with
  | mapping b => simp [put, setEntries, object]
  | object b =>
      have hsize : b < σ.objects.size := hplace
      simp only [put, object_setAttributes_eq, hsize, and_true, Place.object.injEq]
      by_cases hab : a = b
      · simp [hab]
      · simp [hab, Ne.symm hab]

/-- What was put into a slot is read. -/
theorem readAttribute_put {v : Value} (hv : v.place? = some slot.place) (hplace : slot.place ∈ σ.all) :
    v.readAttribute (σ.put slot x) slot.name = .ok x := by
  cases v with
  | mapping a =>
      have hslot : slot.place = .mapping a := (Option.some.inj hv).symm
      rw [Value.readAttribute, Value.lookup_eq_find?, entries_put a hplace, if_pos hslot,
        find?_setFirst _ (by simp)]
      rfl
  | object a =>
      have hslot : slot.place = .object a := (Option.some.inj hv).symm
      have hfound : ((setFirst (· == slot.name) slot.name x (σ.object a).attributes).find?
          fun a => a.1 == slot.name).map Prod.snd = some x :=
        find?_setFirst (· == slot.name) (beq_self_eq_true _)
      simp only [Value.readAttribute, object_put a hplace, if_pos hslot, lookup_eq_find?_beq, hfound]
  | _ => cases hv

/-- A slot is in use once something was put into it. -/
theorem has_put (hplace : slot.place ∈ σ.all) : (σ.put slot x).Has slot := by
  rw [Has]
  split
  · rename_i a hslot
    rw [entries_put a hplace, if_pos hslot]
    exact hasKey_setFirst (by simp)
  · rename_i a hslot
    rw [object_put a hplace, if_pos hslot]
    exact hasKey_setFirst (by simp)

/-- It stays in use. -/
theorem Has.put (h : σ.Has slot) (hplace' : slot'.place ∈ σ.all) : (σ.put slot' y).Has slot := by
  rw [Has] at h ⊢
  split
  · rename_i a hslot
    rw [hslot] at h
    rw [entries_put a hplace']
    split
    · exact h.setFirst
    · exact h
  · rename_i a hslot
    rw [hslot] at h
    rw [object_put a hplace']
    split
    · exact h.setFirst
    · exact h

/-- Of two values put into a slot the second stays. -/
theorem put_put (hplace : slot.place ∈ σ.all) : (σ.put slot x).put slot y = σ.put slot y := by
  have hplace' : slot.place ∈ (σ.put slot x).all := mem_all_put.mpr hplace
  refine eq_of_contents (by simp only [mappings_size_put]) (by simp only [objects_size_put])
    (fun a => ?_) (fun a => ?_) ?_ ?_
  · simp only [entries_put a hplace', entries_put a hplace]
    split
    · rw [setFirst_setFirst (by simp)]
    · rfl
  · simp only [object_put a hplace', object_put a hplace]
    split
    · exact congrArg (fun attributes => Object.mk _ attributes) (setFirst_setFirst (by simp))
    · rfl
  all_goals
    simp only [Store.put]
    split <;> rfl

/-- Into a slot that is in use a value is put before or after one into another slot. -/
theorem put_comm (hplace : slot.place ∈ σ.all) (hplace' : slot'.place ∈ σ.all) (h : σ.Has slot)
    (hne : slot ≠ slot') : (σ.put slot' y).put slot x = (σ.put slot x).put slot' y := by
  have hname : slot.place = slot'.place → slot.name ≠ slot'.name := fun hsame heq =>
    hne (by
      cases slot
      cases slot'
      simp_all)
  -- two puts only meet in one place, and there under different names
  refine eq_of_contents (by simp only [mappings_size_put]) (by simp only [objects_size_put])
    (fun a => ?_) (fun a => ?_) ?_ ?_
  · simp only [entries_put a (mem_all_put.mpr hplace), entries_put a (mem_all_put.mpr hplace'),
      entries_put a hplace, entries_put a hplace']
    split
    · rename_i hslot
      rw [Has, hslot] at h
      split
      · rename_i hslot'
        refine setFirst_comm (fun k hk hk' => ?_) h
        rw [Value.isNamed_iff.mp hk, Value.isNamed_str, beq_iff_eq] at hk'
        exact hname (hslot.trans hslot'.symm) hk'
      · rfl
    · rfl
  · simp only [object_put a (mem_all_put.mpr hplace), object_put a (mem_all_put.mpr hplace'),
      object_put a hplace, object_put a hplace']
    split
    · rename_i hslot
      rw [Has, hslot] at h
      split
      · rename_i hslot'
        refine congrArg (fun attributes => Object.mk _ attributes) (setFirst_comm (fun k hk hk' => ?_) h)
        rw [beq_iff_eq.mp hk, beq_iff_eq] at hk'
        exact hname (hslot.trans hslot'.symm) hk'
      · rfl
    · rfl
  all_goals
    simp only [Store.put]
    split <;> split <;> rfl

end

/-! ### Several slots -/

/-- A store with values put into slots, one after the other. -/
def putAll (σ : Store) (fills : List (Slot × Value)) : Store :=
  fills.foldl (fun τ fill => τ.put fill.1 fill.2) σ

@[simp] theorem putAll_nil (σ : Store) : σ.putAll [] = σ := rfl

@[simp] theorem putAll_cons (σ : Store) (fill : Slot × Value) (fills : List (Slot × Value)) :
    σ.putAll (fill :: fills) = (σ.put fill.1 fill.2).putAll fills := rfl

/-- The names under which slots are at a place. -/
def namesAt (slots : List Slot) (p : Place) : List String :=
  (slots.filter fun slot => slot.place = p).map Slot.name

/-- A name is among them where there is such a slot. -/
theorem mem_namesAt {slots : List Slot} {p : Place} {name : String} :
    name ∈ namesAt slots p ↔ ⟨p, name⟩ ∈ slots := by
  simp only [namesAt, List.mem_map, List.mem_filter, decide_eq_true_eq]
  constructor
  · rintro ⟨slot, ⟨hmem, rfl⟩, rfl⟩
    exact hmem
  · exact fun h => ⟨_, ⟨h, rfl⟩, rfl⟩

section

variable {σ τ : Store} {slot : Slot} {x : Value} {fills fills' : List (Slot × Value)}

/-- Putting a value into a slot that can be written writes the slot. -/
theorem rewrites_put {writes : Place → List String} (hname : slot.name ∈ writes slot.place)
    (hfree : σ.isFree slot.place) : σ.Rewrites writes (σ.put slot x) := by
  obtain ⟨p, name⟩ := slot
  cases p with
  | mapping a =>
      exact rewrites_setEntries (Value.otherEntries_setEntry hname x (Value.setEntry_eq (σ := σ) x _))
  | object a =>
      have hothers := Value.otherAttributes_setNamed hname x (σ.object a).attributes
      rw [Value.setNamed_eq] at hothers
      exact rewrites_setAttributes (by simpa [isFree] using hfree) hothers

/-- What could be written can be written after writes. -/
theorem Rewrites.isFree_eq {writes : Place → List String} (h : σ.Rewrites writes τ) (p : Place) :
    τ.isFree p = σ.isFree p := by
  cases p with
  | mapping a => rfl
  | object a => simp only [isFree, Object.isFrozen, h.type_eq]

/-- Putting values into slots that can be written writes these slots. -/
theorem rewrites_putAll {writes : Place → List String}
    (h : ∀ fill ∈ fills, fill.1.name ∈ writes fill.1.place ∧ σ.isFree fill.1.place) :
    σ.Rewrites writes (σ.putAll fills) := by
  induction fills generalizing σ with
  | nil => exact .refl _ σ
  | cons fill fills ih =>
      obtain ⟨⟨hname, hfree⟩, hrest⟩ := List.forall_mem_cons.mp h
      have hput : σ.Rewrites writes (σ.put fill.1 fill.2) := rewrites_put hname hfree
      exact hput.trans (ih fun fill' hfill' => (hrest fill' hfill').imp_right (hput.isFree_eq _ ▸ ·))

/-- What was put into one of several slots is read. -/
theorem readAttribute_putAll (hfills : (fills.map Prod.fst).Nodup)
    (h : ∀ fill ∈ fills, fill.1.place ∈ σ.all ∧ σ.isFree fill.1.place) (hmem : (slot, x) ∈ fills)
    {v : Value} (hv : v.place? = some slot.place) :
    v.readAttribute (σ.putAll fills) slot.name = .ok x := by
  induction fills generalizing σ with
  | nil => cases hmem
  | cons fill fills ih =>
      obtain ⟨hnew, hfills⟩ := List.nodup_cons.mp hfills
      obtain ⟨⟨hplace, hfree⟩, hrest⟩ := List.forall_mem_cons.mp h
      have hput : σ.Rewrites (namesAt [fill.1]) (σ.put fill.1 fill.2) :=
        rewrites_put (mem_namesAt.mpr List.mem_cons_self) hfree
      have hrest : ∀ fill' ∈ fills, fill'.1.place ∈ (σ.put fill.1 fill.2).all ∧
          (σ.put fill.1 fill.2).isFree fill'.1.place := by
        intro fill' hfill'
        exact (hrest fill' hfill').imp mem_all_put.mpr (hput.isFree_eq _ ▸ ·)
      rcases List.mem_cons.mp hmem with rfl | hmem
      · -- nothing is put into the slot again
        have hothers : (σ.put slot x).Rewrites (namesAt (fills.map Prod.fst))
            ((σ.put slot x).putAll fills) := rewrites_putAll fun fill' hfill' =>
          ⟨mem_namesAt.mpr (List.mem_map_of_mem hfill'), (hrest fill' hfill').2⟩
        rw [putAll_cons, readAttribute_rewritten hothers fun p hp hname => ?_,
          readAttribute_put hv hplace]
        obtain rfl : slot.place = p := Option.some.inj (hv.symm.trans hp)
        exact hnew (mem_namesAt.mp hname)
      · exact ih hfills hrest hmem

/-- Into a slot that is in use a value is put before or after those into others. -/
theorem putAll_put (hplace : slot.place ∈ σ.all) (hplaces : ∀ fill ∈ fills, fill.1.place ∈ σ.all)
    (h : σ.Has slot) (hnew : slot ∉ fills.map Prod.fst) :
    (σ.putAll fills).put slot x = (σ.put slot x).putAll fills := by
  induction fills generalizing σ with
  | nil => rfl
  | cons fill fills ih =>
      obtain ⟨hfill, hplaces⟩ := List.forall_mem_cons.mp hplaces
      rw [List.map_cons, List.mem_cons, not_or] at hnew
      rw [putAll_cons, putAll_cons, ← put_comm hplace hfill h hnew.1]
      exact ih (mem_all_put.mpr hplace) (fun fill' hfill' => mem_all_put.mpr (hplaces fill' hfill'))
        (h.put hfill) hnew.2

/-- Filling slots again is filling them with the later values only. -/
theorem putAll_putAll (hslots : (fills.map Prod.fst) = fills'.map Prod.fst)
    (hdifferent : (fills.map Prod.fst).Nodup) (hplaces : ∀ fill ∈ fills, fill.1.place ∈ σ.all) :
    (σ.putAll fills).putAll fills' = σ.putAll fills' := by
  induction fills generalizing σ fills' with
  | nil =>
      rw [List.map_nil, eq_comm, List.map_eq_nil_iff] at hslots
      rw [hslots, putAll_nil]
  | cons fill fills ih =>
      cases fills' with
      | nil => cases hslots
      | cons fill' fills' =>
          obtain ⟨slot, x⟩ := fill
          obtain ⟨slot', y⟩ := fill'
          obtain ⟨heq, hrest⟩ := List.cons.inj hslots
          obtain rfl : slot = slot' := heq
          obtain ⟨hnew, hdifferent⟩ := List.nodup_cons.mp hdifferent
          obtain ⟨hplace, hplaces⟩ := List.forall_mem_cons.mp hplaces
          have hplaces {y : Value} : ∀ fill ∈ fills, fill.1.place ∈ (σ.put slot y).all :=
            fun fill hfill => mem_all_put.mpr (hplaces fill hfill)
          -- the second value takes the place of the first before the other slots are filled
          rw [putAll_cons, putAll_cons, putAll_put (mem_all_put.mpr hplace) hplaces (has_put hplace) hnew,
            put_put hplace, putAll_cons]
          exact ih hrest hdifferent hplaces

end

end Store

/-! ## Slots at the ends of paths -/

namespace Value

/-- The slot at the end of a path, where there is one. -/
def slot? (σ : Store) (v : Value) (path : List String) : Option Slot := do
  let name ← path.getLast?
  let parent ← (v.readPath σ path.dropLast).toOption
  let place ← parent.place?
  return ⟨place, name⟩

variable {σ τ : Store} {v x : Value} {path : List String} {name : String}

/-- A path with a slot at its end goes on from a mapping or an object. -/
theorem slot?_eq_some {slot : Slot} : v.slot? σ path = some slot ↔ ∃ parent,
    v.readPath σ path.dropLast = .ok parent ∧ parent.place? = some slot.place ∧
      path = path.dropLast ++ [slot.name] := by
  have hpath (name : String) : path.getLast? = some name ↔ path = path.dropLast ++ [name] := by
    rw [List.getLast?_eq_some_iff]
    constructor
    · rintro ⟨before, rfl⟩
      rw [List.dropLast_concat]
    · exact fun h => ⟨_, h⟩
  simp only [slot?, Option.bind_eq_bind, Option.bind_eq_some_iff, Option.pure_def, Option.some.injEq]
  constructor
  · rintro ⟨name, hname, parent, hparent, place, hplace, rfl⟩
    refine ⟨parent, ?_, hplace, (hpath name).mp hname⟩
    cases hread : v.readPath σ path.dropLast with
    | error fault => rw [hread] at hparent; cases hparent
    | ok w => rw [hread] at hparent; cases hparent; rfl
  · rintro ⟨parent, hparent, hplace, hlast⟩
    exact ⟨slot.name, (hpath _).mpr hlast, parent, by rw [hparent]; rfl, slot.place, hplace, rfl⟩

/-- Writing an attribute of a mapping or an object puts the value into a slot, where that can be written. -/
theorem setAttribute_of_place (σ : Store) (name : String) (x : Value) {p : Place}
    (hv : v.place? = some p) : ∃ fault, v.setAttribute name x σ
    = if σ.isFree p then .ok () (σ.put ⟨p, name⟩ x) else .error fault σ := by
  cases v with
  | mapping a =>
      cases hv
      refine ⟨.access .readOnly, ?_⟩
      show (Eval.ofExcept (setEntry σ name x (σ.entries a)) >>= _) σ = _
      rw [setEntry_eq]
      rfl
  | object a =>
      cases hv
      refine ⟨.access (.frozen name), ?_⟩
      show (if (σ.object a).isFrozen then (throw (.access (.frozen name)) : Eval Unit) else _) σ = _
      rw [setNamed_eq, Store.isFree]
      cases (σ.object a).isFrozen <;> rfl
  | _ => cases hv

/-- Other values have no attributes that can be written. -/
theorem setAttribute_of_no_place (hv : v.place? = none) :
    ∃ fault, v.setAttribute name x σ = .error fault σ := by
  cases v with
  | mapping a => cases hv
  | object a => cases hv
  | row _ type _ =>
      by_cases hfield : type.fields.contains name
      · exact ⟨.access .readOnly, by simp only [setAttribute, hfield, if_true]; rfl⟩
      · exact ⟨.access (.noAttribute type.name name), by
          simp only [setAttribute, hfield]
          rfl⟩
  | _ => exact ⟨_, rfl⟩

/-- Writing at the end of a path sets an attribute of what the rest of the path leads to, unless that is
null. -/
theorem writePath_of_parent {parent : Value} (hparent : v.readPath σ path.dropLast = .ok parent)
    (hlast : path.getLast? = some name) : v.writePath path x σ =
      (if parent.isNull && path.length > 1 then
        (throw (.access (.setThroughNone (Text.join "." path) (Text.join "." path.dropLast))) : Eval Unit)
      else parent.setAttribute name x) σ := by
  rw [writePath, bind_of_ok (get_ok σ), hparent, hlast]
  rfl

/-- Without a slot at the end of a path nothing is written. -/
theorem writePath_of_no_slot (hslot : v.slot? σ path = none) :
    ∃ fault, v.writePath path x σ = .error fault σ := by
  cases hread : v.readPath σ path.dropLast with
  | error fault =>
      refine ⟨fault, ?_⟩
      rw [writePath, bind_of_ok (get_ok σ), hread]
      rfl
  | ok parent =>
      cases hlast : path.getLast? with
      | none =>
          refine ⟨.access (.outOfRange "list"), ?_⟩
          rw [writePath, bind_of_ok (get_ok σ), hread, hlast]
          rfl
      | some name =>
          have hplace : parent.place? = none := Option.eq_none_iff_forall_ne_some.mpr (by
            simpa [slot?, hlast, hread, Except.toOption] using hslot)
          rw [writePath_of_parent hread hlast]
          split
          · exact ⟨_, rfl⟩
          · exact setAttribute_of_no_place hplace

/-- With one, the value is put into it where that can be written, and otherwise nothing is written. -/
theorem writePath_of_slot {slot : Slot} (hslot : v.slot? σ path = some slot) : ∃ fault,
    v.writePath path x σ
      = if σ.isFree slot.place then .ok () (σ.put slot x) else .error fault σ := by
  obtain ⟨parent, hparent, hplace, hpath⟩ := slot?_eq_some.mp hslot
  have hlast : path.getLast? = some slot.name := by rw [hpath, List.getLast?_concat]
  have hnull : parent.isNull = false := by
    cases parent <;> first | rfl | cases hplace
  obtain ⟨fault, hset⟩ := setAttribute_of_place σ slot.name x hplace
  refine ⟨fault, ?_⟩
  rw [writePath_of_parent hparent hlast, hnull, Bool.false_and, if_neg Bool.false_ne_true, hset]

/-- Writing at the end of a path succeeds where there is a slot that can be written, and fills it. -/
theorem writePath_ok : v.writePath path x σ = .ok () τ ↔
    ∃ slot, v.slot? σ path = some slot ∧ σ.isFree slot.place ∧ τ = σ.put slot x := by
  cases hat : v.slot? σ path with
  | none =>
      obtain ⟨fault, hrun⟩ := writePath_of_no_slot (x := x) hat
      rw [hrun]
      constructor
      · intro h
        cases h
      · rintro ⟨slot, hslot, -⟩
        cases hslot
  | some slot =>
      obtain ⟨fault, hrun⟩ := writePath_of_slot (x := x) hat
      rw [hrun]
      constructor
      · intro h
        split at h
        · rename_i hfree
          cases h
          exact ⟨slot, rfl, hfree, rfl⟩
        · cases h
      · rintro ⟨slot', hslot, hfree, rfl⟩
        cases hslot
        rw [if_pos hfree]

/-- Where it fails, it writes nothing. -/
theorem writePath_error {fault : Fault} (h : v.writePath path x σ = .error fault τ) : τ = σ := by
  cases hat : v.slot? σ path with
  | none =>
      obtain ⟨fault', hrun⟩ := writePath_of_no_slot (x := x) hat
      rw [hrun] at h
      cases h
      rfl
  | some slot =>
      obtain ⟨fault', hrun⟩ := writePath_of_slot (x := x) hat
      rw [hrun] at h
      split at h
      · cases h
      · cases h
        rfl

end Value

end Rubric
