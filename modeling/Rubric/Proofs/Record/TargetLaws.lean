import Mathlib.Data.List.Forall2
import Mathlib.Data.List.Induction
import Mathlib.Data.List.Nodup
import Rubric.Proofs.Record.Setters
import Rubric.Proofs.Record.Trees

/-!
# What is written through a target

A target of paths none of which goes through another fills one slot for each path.  In a record that is a
tree the slots are different ones, and no other path leads to them.  So what was written is read back, other
paths read what they read before, and of two writes only the second counts.

* `Setter.assignEach_ok` : assigning to several paths fills their slots;
* `Target.lens_laws` : what a target reads back, what it leaves, and writing through it twice.
-/

namespace Rubric

open Value (Place)

/-! ## Paths that stay -/

namespace Value

/-- The slots at the ends of paths. -/
def slots (σ : Store) (v : Value) (paths : List (List String)) : List Slot := paths.filterMap (v.slot? σ)

variable {σ τ : Store} {v : Value} {paths : List (List String)} {path : List String}

/-- The last name of a path is read where the others lead. -/
theorem readPath_concat (σ : Store) (v : Value) (path : List String) (name : String) :
    v.readPath σ (path ++ [name]) = (v.readPath σ path).bind (readAttribute σ · name) := by
  rw [readPath, List.foldlM_append]
  show (v.readPath σ path).bind _ = _
  congr 1
  funext w
  exact bind_pure _

/-- A path of a tree that goes through no path that is written reads what it read before. -/
theorem IsTree.readPath_rewritten (htree : v.IsTree σ)
    (h : σ.Rewrites (Store.namesAt (v.slots σ paths)) τ) (hpath : ∀ p ∈ paths, ¬ p <+: path) :
    v.readPath τ path = v.readPath σ path := by
  induction path using List.reverseRecOn with
  | nil => rfl
  | append_singleton path name ih =>
      have hsame := ih fun p hp hstart => hpath p hp (hstart.trans (List.prefix_append path [name]))
      rw [readPath_concat, readPath_concat, hsame]
      cases hread : v.readPath σ path with
      | error fault => rfl
      | ok w =>
          refine readAttribute_rewritten h fun p hp hname => ?_
          -- a slot there would be at the end of this path
          obtain ⟨p', hmem, hslot⟩ := List.mem_filterMap.mp (Store.mem_namesAt.mp hname)
          obtain ⟨parent, hparent, hplace, hlast⟩ := slot?_eq_some.mp hslot
          rw [← htree.path_unique hread hp hparent hplace] at hlast
          exact hpath p' hmem (hlast ▸ List.prefix_refl _)

/-- What a path leads to stays as it was, where it neither goes through a path that is written nor is gone
through. -/
theorem IsTree.agree_rewritten {w : Value} (htree : v.IsTree σ)
    (h : σ.Rewrites (Store.namesAt (v.slots σ paths)) τ) (htag : τ.nextTag = σ.nextTag)
    (hread : v.readPath σ path = .ok w) (hpath : ∀ p ∈ paths, ¬ path <+: p) :
    σ.Agree (σ.reach [w]) τ := by
  refine h.agree htag (σ.closed_reach [w]) fun p hp => ?_
  refine List.eq_nil_iff_forall_not_mem.mpr fun name hname => ?_
  obtain ⟨p', hmem, hslot⟩ := List.mem_filterMap.mp (Store.mem_namesAt.mp hname)
  obtain ⟨parent, hparent, hplace, -⟩ := slot?_eq_some.mp hslot
  exact hpath p' hmem
    ((htree.prefix_of_reaches hread hp hparent hplace).trans (List.dropLast_prefix p'))

/-- The slots at the ends of the paths stay, where none of them goes through another. -/
theorem IsTree.slot?_rewritten (htree : v.IsTree σ)
    (h : σ.Rewrites (Store.namesAt (v.slots σ paths)) τ) (hmem : path ∈ paths)
    (hapart : ∀ p ∈ paths, ∀ q ∈ paths, p <+: q → p = q) : v.slot? τ path = v.slot? σ path := by
  by_cases hnil : path = []
  · rw [hnil]
    rfl
  · rw [slot?, slot?, htree.readPath_rewritten h fun p hp hstart => ?_]
    obtain rfl := hapart p hp path hmem (hstart.trans (List.dropLast_prefix path))
    have hlength := hstart.length_le
    rw [List.length_dropLast] at hlength
    have hpos := List.length_pos_iff.mpr hnil
    omega

/-- A slot of a tree is at the end of one path. -/
theorem IsTree.slot?_injective {path' : List String} {slot : Slot} (htree : v.IsTree σ)
    (h : v.slot? σ path = some slot) (h' : v.slot? σ path' = some slot) : path = path' := by
  obtain ⟨parent, hparent, hplace, hlast⟩ := slot?_eq_some.mp h
  obtain ⟨parent', hparent', hplace', hlast'⟩ := slot?_eq_some.mp h'
  rw [hlast, hlast', htree.path_unique hparent hplace hparent' hplace']

end Value

/-! ## Assigning to paths -/

/-- Putting takes no tags. -/
theorem Store.nextTag_put {σ : Store} {slot : Slot} {x : Value} : (σ.put slot x).nextTag = σ.nextTag := by
  rw [put]
  split <;> rfl

theorem Store.nextTag_putAll {σ : Store} {fills : List (Slot × Value)} :
    (σ.putAll fills).nextTag = σ.nextTag := by
  induction fills generalizing σ with
  | nil => rfl
  | cons fill fills ih => rw [putAll_cons, ih, nextTag_put]

section

variable {σ τ υ : Store} {record : Value} {fields : List (String × List String)} {values : List Value}
  {paths : List (List String)}

/-- The setters of fields. -/
def settersOf (fields : List (String × List String)) : List Setter := fields.map fun f => .path f.1 f.2

/-- The selectors of fields. -/
def selectorsOf (fields : List (String × List String)) : List Selector :=
  fields.map fun f => .path f.1 f.2

@[simp] theorem settersOf_cons (field : String × List String) (fields : List (String × List String)) :
    settersOf (field :: fields) = .path field.1 field.2 :: settersOf fields := rfl

@[simp] theorem selectorsOf_cons (field : String × List String) (fields : List (String × List String)) :
    selectorsOf (field :: fields) = .path field.1 field.2 :: selectorsOf fields := rfl

/-- Assigning to several paths, also after others of them, fills the slots at their ends. -/
theorem Setter.assignEach_ok (htree : record.IsTree σ)
    (hapart : ∀ p ∈ paths, ∀ q ∈ paths, p <+: q → p = q)
    (h : σ.Rewrites (Store.namesAt (record.slots σ paths)) τ) (hfields : ∀ f ∈ fields, f.2 ∈ paths)
    (hlength : values.length = fields.length) :
    Setter.assignEach (settersOf fields) record values τ = .ok () υ ↔ ∃ fills : List (Slot × Value),
      List.Forall₂ (fun f fill => record.slot? σ f.2 = some fill.1) fields fills ∧
        fills.map Prod.snd = values ∧ (∀ fill ∈ fills, σ.isFree fill.1.place) ∧ υ = τ.putAll fills := by
  induction fields generalizing τ values with
  | nil =>
      obtain rfl := List.length_eq_zero_iff.mp hlength
      constructor
      · intro hok
        cases hok
        exact ⟨[], .nil, rfl, List.forall_mem_nil _, rfl⟩
      · rintro ⟨fills, hslots, -, -, rfl⟩
        cases hslots
        rfl
  | cons field fields ih =>
      obtain ⟨value, values, rfl⟩ := List.exists_cons_of_length_eq_add_one hlength
      obtain ⟨hfield, hfields⟩ := List.forall_mem_cons.mp hfields
      have hrestLength : values.length = fields.length := Nat.succ.inj hlength
      -- the slot is the one that was there before the other assignments
      have hslot := htree.slot?_rewritten h hfield hapart
      have hnext {slot : Slot} (hslot : record.slot? σ field.2 = some slot)
          (hfree : τ.isFree slot.place) :
          σ.Rewrites (Store.namesAt (record.slots σ paths)) (τ.put slot value) :=
        h.trans (Store.rewrites_put
          (Store.mem_namesAt.mpr (List.mem_filterMap.mpr ⟨field.2, hfield, hslot⟩)) hfree)
      rw [settersOf_cons, assignEach, Setter.assign, bind_ok]
      constructor
      · rintro ⟨⟨⟩, τ', hwrite, hrest⟩
        obtain ⟨slot, hat, hfree, rfl⟩ := Value.writePath_ok.mp hwrite
        rw [hslot] at hat
        obtain ⟨fills, hslots, rfl, hallFree, rfl⟩ := (ih (hnext hat hfree) hfields hrestLength).mp hrest
        rw [h.isFree_eq] at hfree
        exact ⟨(slot, value) :: fills, .cons hat hslots, rfl,
          List.forall_mem_cons.mpr ⟨hfree, hallFree⟩, rfl⟩
      · rintro ⟨fills, hslots, hvalues, hfree, rfl⟩
        obtain ⟨⟨slot, x⟩, fills, hat, hrestSlots, rfl⟩ := List.forall₂_cons_left_iff.mp hslots
        obtain ⟨rfl, hrestValues⟩ := List.cons.inj hvalues
        obtain ⟨hslotFree, hallFree⟩ := List.forall_mem_cons.mp hfree
        rw [← h.isFree_eq] at hslotFree
        exact ⟨(), τ.put slot x, Value.writePath_ok.mpr ⟨slot, hslot.trans hat, hslotFree, rfl⟩,
          (ih (hnext hat hslotFree) hfields hrestLength).mpr
            ⟨fills, hrestSlots, hrestValues, hallFree, rfl⟩⟩

/-- Reading several paths reads what each of them leads to. -/
theorem Selector.readAll_ok
    (h : List.Forall₂ (fun f w => record.readPath σ f.2 = .ok w) fields values) :
    Selector.readAll (selectorsOf fields) record σ = .ok values σ := by
  induction h with
  | nil => rfl
  | @cons f w fields values hread _ ih =>
      have hpart : (Selector.path f.1 f.2).read record σ = .ok w σ := by
        rw [Selector.read, bind_of_ok (get_ok σ), hread]
        rfl
      rw [selectorsOf_cons, Selector.readAll, bind_of_ok hpart, bind_of_ok ih]
      rfl

end

/-! ## Targets of paths -/

/-- Whether an expression is one path, or a sequence of paths. -/
inductive Resolver.NamesPaths (r : Resolver) : Value → List (List String) → Prop where
  | one {text : String} {path : List String} (hpath : r.path text = .ok path) :
      r.NamesPaths (.str text) [path]
  | several {expression : Value} {texts : List String} {paths : List (List String)}
      (hitems : expression.sequence? = some (texts.map .str))
      (hpaths : List.Forall₂ (fun text path => r.path text = .ok path) texts paths) :
      r.NamesPaths expression paths

namespace Target

/-- What a target reads that a value was written through: the value, or the tuple of its items where the
target has parts. -/
def readBack (t : Target) (v : Value) : Value :=
  match t.selector with
  | .composite _ => .tuple (v.sequence?.getD [])
  | _ => v

/-- The values that a target assigns to its paths. -/
def assigned? (t : Target) (v : Value) : Option (List Value) :=
  match t.selector with
  | .composite _ => v.sequence?
  | _ => some [v]

/-- Whether a target reads and assigns some fields, one by one or as parts. -/
inductive IsOf : Target → List (String × List String) → Prop where
  | one (field : String × List String) :
      IsOf ⟨.path field.1 field.2, some (.path field.1 field.2)⟩ [field]
  | several (fields : List (String × List String)) :
      IsOf ⟨.composite (selectorsOf fields), some (.composite (settersOf fields))⟩ fields

section

variable {σ τ : Store} {t : Target} {record v : Value} {fields : List (String × List String)}
  {values : List Value}

/-- Writing through a target assigns to its paths. -/
theorem IsOf.write_ok (ht : t.IsOf fields) : t.write record v σ = .ok () τ ↔ ∃ values,
    t.assigned? v = some values ∧ values.length = fields.length ∧
      Setter.assignEach (settersOf fields) record values σ = .ok () τ := by
  cases ht with
  | one field =>
      have hsame : Setter.assignEach (settersOf [field]) record [v]
          = (Setter.path field.1 field.2).assign record v := bind_pure_unit
      constructor
      · intro hok
        exact ⟨[v], rfl, rfl, hsame ▸ hok⟩
      · rintro ⟨values, hvalues, -, hok⟩
        obtain rfl := Option.some.inj hvalues
        rw [hsame] at hok
        exact hok
  | several =>
      show (Setter.composite (settersOf fields)).assign record v σ = .ok () τ ↔ ∃ values,
        v.sequence? = some values ∧ _
      -- a composite setter asks for a sequence, and for as many values as it has paths
      have hwidth : (settersOf fields).length = fields.length := List.length_map _
      rw [Setter.assign, hwidth]
      cases hitems : v.sequence? with
      | none =>
          constructor
          · intro hok
            cases hok
          · rintro ⟨values, hvalues, -⟩
            cases hvalues
      | some items =>
          simp only [Option.some.injEq, exists_eq_left']
          split
          · rename_i hlength
            exact (and_iff_right hlength).symm
          · rename_i hlength
            constructor
            · intro hok
              cases hok
            · intro h
              exact absurd h.1 hlength

/-- A target reads what its paths lead to. -/
theorem IsOf.read_ok (ht : t.IsOf fields) (hv : t.assigned? v = some values)
    (h : List.Forall₂ (fun f w => record.readPath σ f.2 = .ok w) fields values) :
    t.read record σ = .ok (t.readBack v) σ := by
  cases ht with
  | one field =>
      obtain rfl := Option.some.inj hv
      obtain ⟨hread, -⟩ := List.forall₂_cons.mp h
      show (Selector.path field.1 field.2).read record σ = .ok v σ
      rw [Selector.read, bind_of_ok (get_ok σ), hread]
      rfl
  | several =>
      have hitems : v.sequence? = some values := hv
      show (Selector.composite (selectorsOf fields)).read record σ
        = .ok (.tuple (v.sequence?.getD [])) σ
      rw [Selector.read, bind_of_ok (Selector.readAll_ok h), hitems]
      rfl

end

end Target

namespace Resolver

variable {r : Resolver} {ρ : Store} {expression : Value} {paths : List (List String)}

/-- A sequence of paths compiles to the selectors of the paths. -/
theorem compileAll_paths {texts : List String}
    (h : List.Forall₂ (fun text path => r.path text = .ok path) texts paths) :
    r.compileAll ρ (texts.map .str) = .ok (selectorsOf (texts.zip paths)) := by
  induction h with
  | nil => rw [List.map_nil, compileAll]; rfl
  | cons hpath _ ih =>
      rw [List.map_cons, compileAll, compile, hpath, ih]
      rfl

/-- The setters of such selectors. -/
theorem settersOfSelectors_paths (fields : List (String × List String)) :
    settersOfSelectors (selectorsOf fields) = .ok (settersOf fields) := by
  induction fields with
  | nil => rfl
  | cons field fields ih =>
      rw [selectorsOf_cons, settersOfSelectors, ih]
      rfl

/-- Some paths compile to a target of them. -/
theorem compileTarget_paths {texts : List String}
    (hitems : expression.sequence? = some (texts.map .str)) (htexts : texts ≠ [])
    (h : List.Forall₂ (fun text path => r.path text = .ok path) texts paths) :
    r.compileTarget ρ expression = .ok ⟨.composite (selectorsOf (texts.zip paths)),
      some (.composite (settersOf (texts.zip paths)))⟩ := by
  have hsome : (texts.map Value.str).isEmpty = false := by simpa using htexts
  have hcompile : r.compile ρ expression = .ok (.composite (selectorsOf (texts.zip paths))) := by
    rw [compile_sequence hitems, compileParts, hsome, compileAll_paths h]
    rfl
  have hall : isAssignable (.composite (selectorsOf (texts.zip paths))) := by
    simp [isAssignable, selectorsOf, Selector.path?]
  rw [compileTarget, hcompile]
  simp only [hall, if_true, setterOfSelector, settersOfSelectors_paths]
  rfl

/-- A target of paths reads and assigns these paths. -/
theorem NamesPaths.compileTarget {t : Target} (h : r.NamesPaths expression paths)
    (ht : r.compileTarget ρ expression = .ok t) : ∃ fields, fields.map Prod.snd = paths ∧ t.IsOf fields := by
  cases h with
  | @one text path hpath =>
      rw [Resolver.compileTarget, compile, hpath] at ht
      cases ht
      exact ⟨[(text, path)], rfl, .one (text, path)⟩
  | @several _ texts _ hitems hpaths =>
      refine ⟨texts.zip paths, List.map_snd_zip hpaths.length_eq.ge, ?_⟩
      by_cases htexts : texts = []
      · subst htexts
        rw [Resolver.compileTarget, compile_sequence hitems, compileParts] at ht
        cases ht
      · rw [compileTarget_paths hitems htexts hpaths, Except.ok.injEq] at ht
        exact ht ▸ .several _

end Resolver

/-! ## The laws -/

section

variable {σ τ : Store} {record : Value} {fields : List (String × List String)}
  {fills fills' : List (Slot × Value)}

/-- Of paths of which none goes through another, one that goes through one is that one. -/
theorem eq_of_prefix {paths : List (List String)} (h : paths.Pairwise fun p q => ¬ p <+: q ∧ ¬ q <+: p)
    {p q : List String} (hp : p ∈ paths) (hq : q ∈ paths) (hstart : p <+: q) : p = q := by
  induction h with
  | nil => cases hp
  | @cons path paths hapart _ ih =>
      rcases List.mem_cons.mp hp with rfl | hp'
      · rcases List.mem_cons.mp hq with rfl | hq'
        · rfl
        · exact absurd hstart (hapart q hq').1
      · rcases List.mem_cons.mp hq with rfl | hq'
        · exact absurd hstart (hapart p hp').2
        · exact ih hp' hq'

/-- The slots that are filled are those at the ends of the paths. -/
theorem slots_filled (h : List.Forall₂ (fun f fill => record.slot? σ f.2 = some fill.1) fields fills) :
    (fields.map Prod.snd).map (record.slot? σ) = (fills.map Prod.fst).map some := by
  induction h with
  | nil => rfl
  | cons hslot _ ih => simp only [List.map_cons, hslot, ih]

/-- Each of them is at the end of one of the paths. -/
theorem exists_path_filled (h : List.Forall₂ (fun f fill => record.slot? σ f.2 = some fill.1) fields fills)
    {slot : Slot} (hslot : slot ∈ fills.map Prod.fst) :
    ∃ p ∈ fields.map Prod.snd, record.slot? σ p = some slot := by
  have hmem : some slot ∈ (fields.map Prod.snd).map (record.slot? σ) := by
    rw [slots_filled h]
    exact List.mem_map_of_mem hslot
  exact List.mem_map.mp hmem

/-- The slots at the ends of different paths of a tree are different. -/
theorem nodup_filled (htree : record.IsTree σ) (hpaths : (fields.map Prod.snd).Nodup)
    (h : List.Forall₂ (fun f fill => record.slot? σ f.2 = some fill.1) fields fills) :
    (fills.map Prod.fst).Nodup := by
  refine List.Nodup.of_map some ?_
  rw [← slots_filled h]
  refine hpaths.map_on fun p hp q _ hsame => ?_
  have hfilled : record.slot? σ p ∈ (fills.map Prod.fst).map some := by
    rw [← slots_filled h]
    exact List.mem_map_of_mem hp
  obtain ⟨slot, -, hslot⟩ := List.mem_map.mp hfilled
  exact htree.slot?_injective hslot.symm (hsame ▸ hslot.symm)

/-- They are at places of the store. -/
theorem mem_all_filled (htree : record.IsTree σ)
    (h : List.Forall₂ (fun f fill => record.slot? σ f.2 = some fill.1) fields fills) :
    ∀ fill ∈ fills, fill.1.place ∈ σ.all := by
  intro fill hfill
  obtain ⟨p, -, hslot⟩ := exists_path_filled h (List.mem_map_of_mem hfill)
  obtain ⟨parent, hparent, hplace, -⟩ := Value.slot?_eq_some.mp hslot
  exact htree.mem_all hparent hplace

/-- Filling them writes nothing else. -/
theorem rewrites_filled (h : List.Forall₂ (fun f fill => record.slot? σ f.2 = some fill.1) fields fills)
    (hfree : ∀ fill ∈ fills, σ.isFree fill.1.place) :
    σ.Rewrites (Store.namesAt (record.slots σ (fields.map Prod.snd))) (σ.putAll fills) := by
  refine Store.rewrites_putAll fun fill hfill => ⟨Store.mem_namesAt.mpr ?_, hfree fill hfill⟩
  obtain ⟨p, hp, hslot⟩ := exists_path_filled h (List.mem_map_of_mem hfill)
  exact List.mem_filterMap.mpr ⟨p, hp, hslot⟩

/-- The paths then lead to what was filled in. -/
theorem readPath_filled (htree : record.IsTree σ) (hpaths : (fields.map Prod.snd).Nodup)
    (hapart : ∀ p ∈ fields.map Prod.snd, ∀ q ∈ fields.map Prod.snd, p <+: q → p = q)
    (h : List.Forall₂ (fun f fill => record.slot? σ f.2 = some fill.1) fields fills)
    (hfree : ∀ fill ∈ fills, σ.isFree fill.1.place) :
    List.Forall₂ (fun f w => record.readPath (σ.putAll fills) f.2 = .ok w) fields
      (fills.map Prod.snd) := by
  rw [List.forall₂_map_right_iff, List.forall₂_iff_zip]
  refine ⟨h.length_eq, fun {f fill} hmem => ?_⟩
  obtain ⟨hf, hfill⟩ := List.of_mem_zip hmem
  -- the way to a slot stays, and the slot holds the value
  have hslot : record.slot? (σ.putAll fills) f.2 = some fill.1 :=
    (htree.slot?_rewritten (rewrites_filled h hfree) (List.mem_map_of_mem hf) hapart).trans
      (List.forall₂_zip h hmem)
  obtain ⟨parent, hparent, hplace, hlast⟩ := Value.slot?_eq_some.mp hslot
  rw [hlast, Value.readPath_concat, hparent]
  exact Store.readAttribute_putAll (nodup_filled htree hpaths h)
    (fun fill hfill => ⟨mem_all_filled htree h fill hfill, hfree fill hfill⟩) hfill hplace

/-- A target of paths of which none goes through another, in a record that is a tree: it reads what was
written, paths that are apart from its own lead where they led and to what they led to, and of two writes the
second leaves what it would have left alone. -/
theorem Target.lens_laws {r : Resolver} {ρ σ σ₁ : Store} {expression record v : Value}
    {paths : List (List String)} {t : Target} (hpaths : r.NamesPaths expression paths)
    (ht : r.compileTarget ρ expression = .ok t)
    (hapart : paths.Pairwise fun p q => ¬ p <+: q ∧ ¬ q <+: p) (htree : record.IsTree σ)
    (hwrite : t.write record v σ = .ok () σ₁) :
    t.read record σ₁ = .ok (t.readBack v) σ₁ ∧
      (∀ path, (∀ p ∈ paths, ¬ p <+: path ∧ ¬ path <+: p) →
        record.readPath σ₁ path = record.readPath σ path ∧
          ∀ w, record.readPath σ path = .ok w → σ.Agree (σ.reach [w]) σ₁) ∧
      ∀ w σ₂, t.write record w σ₁ = .ok () σ₂ → t.write record w σ = .ok () σ₂ := by
  obtain ⟨fields, rfl, hof⟩ := hpaths.compileTarget ht
  have hsame : ∀ p ∈ fields.map Prod.snd, ∀ q ∈ fields.map Prod.snd, p <+: q → p = q :=
    fun _ hp _ hq => eq_of_prefix hapart hp hq
  have hnodup : (fields.map Prod.snd).Nodup :=
    hapart.imp fun {p q} h (heq : p = q) => h.1 (heq ▸ List.prefix_refl p)
  have hfields : ∀ f ∈ fields, f.2 ∈ fields.map Prod.snd := fun _ hf => List.mem_map_of_mem hf
  have hself : σ.Rewrites (Store.namesAt (record.slots σ (fields.map Prod.snd))) σ := .refl _ σ
  obtain ⟨values, hvalues, hlength, hassign⟩ := hof.write_ok.mp hwrite
  obtain ⟨fills, hslots, rfl, hfree, rfl⟩ :=
    (Setter.assignEach_ok htree hsame hself hfields hlength).mp hassign
  have hrewritten := rewrites_filled hslots hfree
  refine ⟨hof.read_ok hvalues (readPath_filled htree hnodup hsame hslots hfree),
    fun path hpath => ⟨?_, fun w hread => ?_⟩, fun w σ₂ hagain => ?_⟩
  · exact htree.readPath_rewritten hrewritten fun p hp => (hpath p hp).1
  · exact htree.agree_rewritten hrewritten Store.nextTag_putAll hread fun p hp => (hpath p hp).2
  · -- the second write fills the same slots
    obtain ⟨values', hvalues', hlength', hassign'⟩ := hof.write_ok.mp hagain
    obtain ⟨fills', hslots', rfl, hfree', rfl⟩ :=
      (Setter.assignEach_ok htree hsame hrewritten hfields hlength').mp hassign'
    have hslotsSame : fills.map Prod.fst = fills'.map Prod.fst :=
      List.map_injective_iff.mpr (Option.some_injective _)
        ((slots_filled hslots).symm.trans (slots_filled hslots'))
    rw [Store.putAll_putAll hslotsSame (nodup_filled htree hnodup hslots)
      (mem_all_filled htree hslots)]
    exact hof.write_ok.mpr ⟨_, hvalues', hlength',
      (Setter.assignEach_ok htree hsame hself hfields hlength').mpr ⟨fills', hslots', rfl, hfree', rfl⟩⟩

end

/-- Records of people with a name and an address of two parts. -/
def personResolver : Resolver where
  shape := ⟨"Person", [⟨"name", []⟩, ⟨"address", ["city", "zip"]⟩]⟩
  names := [("name", ["name"]), ("address_city", ["address", "city"]), ("address_zip", ["address", "zip"])]

/-- A person, an object, whose address is a mapping. -/
def personStore : Store where
  mappings := #[[(.str "city", .str "Bonn"), (.str "zip", .int 53111)]]
  objects := #[⟨⟨"Person", ["name", "address"], true, false, false⟩,
    [("name", .str "Ann"), ("address", .mapping 0)]⟩]
  runs := 0
  nextTag := ⟨0, none, 0⟩

/-- The city of an address and the name of a person, as they compile. -/
def personTarget : Target where
  selector := .composite (selectorsOf [("address.city", ["address", "city"]), ("name", ["name"])])
  setter := some (.composite (settersOf [("address.city", ["address", "city"]), ("name", ["name"])]))

/-- The city and the name of a person are written and read back; the rest of the address stays. -/
theorem Target.lens_laws_person : ∃ σ₁,
    personResolver.compileTarget personStore (.tuple [.str "address.city", .str "name"])
        = .ok personTarget ∧
      personTarget.write (.object 0) (.tuple [.str "Rome", .str "Eve"]) personStore = .ok () σ₁ ∧
      personTarget.read (.object 0) σ₁ = .ok (.tuple [.str "Rome", .str "Eve"]) σ₁ ∧
      (Value.object 0).readPath σ₁ ["address", "zip"] = .ok (.int 53111) ∧
      ∀ w σ₂, personTarget.write (.object 0) w σ₁ = .ok () σ₂ →
        personTarget.write (.object 0) w personStore = .ok () σ₂ := by
  have hpath : List.Forall₂ (fun text path => personResolver.path text = .ok path)
      ["address.city", "name"] [["address", "city"], ["name"]] :=
    .cons (by decide +kernel) (.cons (by decide +kernel) .nil)
  have hitems : (Value.tuple [.str "address.city", .str "name"]).sequence?
      = some (["address.city", "name"].map .str) := rfl
  have ht : personResolver.compileTarget personStore (.tuple [.str "address.city", .str "name"])
      = .ok personTarget := Resolver.compileTarget_paths hitems (by decide) hpath
  have haddress : personStore.Unfolds [.place (.mapping 0)] [.mapping 0] :=
    @Store.Unfolds.place personStore (.mapping 0) [] [] [] (show 0 < 1 by decide) .nil .nil
  have htree : (Value.object 0).IsTree personStore :=
    ⟨_, .place (show 0 < 1 by decide) haddress .nil, by decide⟩
  obtain ⟨σ₁, hwrite⟩ : ∃ σ₁, personTarget.write (.object 0) (.tuple [.str "Rome", .str "Eve"])
      personStore = .ok () σ₁ := ⟨_, rfl⟩
  obtain ⟨hread, hothers, hsecond⟩ :=
    Target.lens_laws (.several hitems hpath) ht (by decide) htree hwrite
  refine ⟨σ₁, ht, hwrite, hread, ?_, hsecond⟩
  exact (hothers ["address", "zip"] (by decide)).1.trans rfl

end Rubric
