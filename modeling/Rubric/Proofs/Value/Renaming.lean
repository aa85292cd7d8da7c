import Rubric.Value.Basic

/-!
# Renaming tags

Which tags values carry is of no concern to what is done with them, as long as different tags stay
different.  To say so, the tags of values and of all that a store contains are renamed.

* `Value.retag`, `Store.retag` : values and stores with their tags renamed;
* `Value.retag_of_kept`, `Store.retag_of_kept` : renamings that keep the tags of a value or a store keep it;
* `Tag.later` : the renaming that puts the tags to come off.
-/

namespace Rubric

/-! ## Tags to come -/

namespace Tag

/-- The tag that comes some tags after another. -/
def advance (tag : Tag) (k : Nat) : Tag := { tag with serial := tag.serial + k }

/-- Tags after tags. -/
theorem advance_advance (tag : Tag) (i k : Nat) : (tag.advance i).advance k = tag.advance (i + k) := by
  simp only [advance, Nat.add_assoc]

/-- Different places give different tags. -/
theorem advance_inj {tag : Tag} {i k : Nat} : tag.advance i = tag.advance k ↔ i = k := by
  refine ⟨fun h => ?_, congrArg _⟩
  exact Nat.add_left_cancel (congrArg serial h)

/-- Whether a tag is still to come, by the tag that comes next. -/
def ToCome (next tag : Tag) : Prop :=
  tag.run = next.run ∧ tag.item = next.item ∧ next.serial ≤ tag.serial

instance (next tag : Tag) : Decidable (next.ToCome tag) := inferInstanceAs (Decidable (_ ∧ _))

/-- The tags to come are those some tags after the next. -/
theorem toCome_iff {next tag : Tag} : next.ToCome tag ↔ ∃ i, tag = next.advance i := by
  constructor
  · rintro ⟨hrun, hitem, hserial⟩
    refine ⟨tag.serial - next.serial, ?_⟩
    cases tag
    simp only [advance, mk.injEq] at *
    exact ⟨hrun, hitem, by omega⟩
  · rintro ⟨i, rfl⟩
    exact ⟨rfl, rfl, Nat.le_add_right _ _⟩

/-- What is to come later is to come. -/
theorem ToCome.of_advance {next tag : Tag} {k : Nat} (h : (next.advance k).ToCome tag) : next.ToCome tag :=
  ⟨h.1, h.2.1, Nat.le_trans (Nat.le_add_right _ _) h.2.2⟩

/-- A tag that comes earlier is no longer to come. -/
theorem not_toCome_advance (tag : Tag) {i k : Nat} (h : i < k) : ¬(tag.advance k).ToCome (tag.advance i) :=
  fun hcome => Nat.not_le_of_lt (Nat.add_lt_add_left h tag.serial) hcome.2.2

/-- The renaming that puts the tags to come off by some tags. -/
def later (next : Tag) (k : Nat) (tag : Tag) : Tag := if next.ToCome tag then tag.advance k else tag

/-- A tag to come is put off. -/
theorem later_advance (next : Tag) (k i : Nat) : next.later k (next.advance i) = next.advance (k + i) := by
  have hcome : next.ToCome (next.advance i) := toCome_iff.mpr ⟨i, rfl⟩
  rw [later, if_pos hcome, advance_advance, Nat.add_comm]

/-- A tag that was given out is kept. -/
theorem later_of_not {next tag : Tag} (h : ¬next.ToCome tag) (k : Nat) : next.later k tag = tag := if_neg h

/-- Different tags stay different. -/
theorem later_injective (next : Tag) (k : Nat) : Function.Injective (next.later k) := by
  intro s t h
  by_cases hs : next.ToCome s <;> by_cases ht : next.ToCome t
  · obtain ⟨i, rfl⟩ := toCome_iff.mp hs
    obtain ⟨j, rfl⟩ := toCome_iff.mp ht
    rw [later_advance, later_advance, advance_inj] at h
    rw [Nat.add_left_cancel h]
  · obtain ⟨i, rfl⟩ := toCome_iff.mp hs
    rw [later_advance, later_of_not ht] at h
    exact absurd (toCome_iff.mpr ⟨k + i, h.symm⟩) ht
  · obtain ⟨j, rfl⟩ := toCome_iff.mp ht
    rw [later_advance, later_of_not hs] at h
    exact absurd (toCome_iff.mpr ⟨k + j, h⟩) hs
  · rwa [later_of_not hs, later_of_not ht] at h

end Tag

/-! ## Values -/

mutual

/-- A value with its tags renamed. -/
def Value.retag (ρ : Tag → Tag) : Value → Value
  | .null => .null
  | .bool b => .bool b
  | .int n => .int n
  | .float x => .float x
  | .nan tag => .nan (ρ tag)
  | .str s => .str s
  | .list tag items => .list (ρ tag) (Value.retagAll ρ items)
  | .tuple items => .tuple (Value.retagAll ρ items)
  | .row tag type items => .row (ρ tag) type (Value.retagAll ρ items)
  | .set frozen items => .set frozen (Value.retagAll ρ items)
  | .mapping address => .mapping address
  | .object address => .object address
  | .function tag body => .function (ρ tag) (body.retag ρ)
  | .selector s => .selector (s.retag ρ)
  | .setter s => .setter s
  | .target s assign => .target (s.retag ρ) assign

/-- Several values with their tags renamed. -/
def Value.retagAll (ρ : Tag → Tag) : List Value → List Value
  | [] => []
  | v :: vs => v.retag ρ :: Value.retagAll ρ vs

/-- A selector with the tags in it renamed. -/
def Selector.retag (ρ : Tag → Tag) : Selector → Selector
  | .path expression path => .path expression path
  | .composite parts => .composite (Selector.retagAll ρ parts)
  | .computed expression callee => .computed expression (callee.retag ρ)
  | .display inner => .display (inner.retag ρ)
  | .key inner => .key (inner.retag ρ)

/-- Several selectors with the tags in them renamed. -/
def Selector.retagAll (ρ : Tag → Tag) : List Selector → List Selector
  | [] => []
  | s :: ss => s.retag ρ :: Selector.retagAll ρ ss

/-- A function with the tags in it renamed. -/
def Function.retag (ρ : Tag → Tag) : Function → Function
  | .field name => .field name
  | .failing message => .failing message
  | .constant value => .constant (value.retag ρ)
  | .arguments => .arguments
  | .always => .always
  | .never => .never
  | .sameKey key => .sameKey (key.retag ρ)
  | .comparing path operator => .comparing path operator
  | .failingRelation message => .failingRelation message

end

mutual

/-- The tags that a value carries. -/
def Value.tags : Value → List Tag
  | .nan tag => [tag]
  | .list tag items => tag :: Value.allTags items
  | .tuple items => Value.allTags items
  | .row tag _ items => tag :: Value.allTags items
  | .set _ items => Value.allTags items
  | .function tag body => tag :: body.tags
  | .selector s => s.tags
  | .target s _ => s.tags
  | _ => []

/-- The tags that several values carry. -/
def Value.allTags : List Value → List Tag
  | [] => []
  | v :: vs => v.tags ++ Value.allTags vs

/-- The tags in a selector. -/
def Selector.tags : Selector → List Tag
  | .path _ _ => []
  | .composite parts => Selector.allTags parts
  | .computed _ callee => callee.tags
  | .display inner => inner.tags
  | .key inner => inner.tags

/-- The tags in several selectors. -/
def Selector.allTags : List Selector → List Tag
  | [] => []
  | s :: ss => s.tags ++ Selector.allTags ss

/-- The tags in a function. -/
def Function.tags : Function → List Tag
  | .constant value => value.tags
  | .sameKey key => key.tags
  | _ => []

end

section

variable {ρ : Tag → Tag}

@[simp] theorem Value.retagAll_eq_map (vs : List Value) : Value.retagAll ρ vs = vs.map (Value.retag ρ) := by
  induction vs with
  | nil => rfl
  | cons v vs ih => rw [Value.retagAll, ih, List.map_cons]

@[simp] theorem Selector.retagAll_eq_map (ss : List Selector) :
    Selector.retagAll ρ ss = ss.map (Selector.retag ρ) := by
  induction ss with
  | nil => rfl
  | cons s ss ih => rw [Selector.retagAll, ih, List.map_cons]

mutual

/-- A renaming that keeps the tags of a value keeps the value. -/
theorem Value.retag_of_kept : ∀ v : Value, (∀ tag ∈ v.tags, ρ tag = tag) → v.retag ρ = v
  | .null, _ | .bool _, _ | .int _, _ | .float _, _ | .str _, _ | .mapping _, _ | .object _, _
  | .setter _, _ => rfl
  | .nan tag, h => by rw [Value.retag, h tag (List.mem_singleton_self tag)]
  | .list tag items, h => by
      obtain ⟨htag, hitems⟩ := List.forall_mem_cons.mp h
      rw [Value.retag, htag, Value.retagAll_of_kept items hitems]
  | .tuple items, h => by rw [Value.retag, Value.retagAll_of_kept items h]
  | .row tag type items, h => by
      obtain ⟨htag, hitems⟩ := List.forall_mem_cons.mp h
      rw [Value.retag, htag, Value.retagAll_of_kept items hitems]
  | .set frozen items, h => by rw [Value.retag, Value.retagAll_of_kept items h]
  | .function tag body, h => by
      obtain ⟨htag, hbody⟩ := List.forall_mem_cons.mp h
      rw [Value.retag, htag, Function.retag_of_kept body hbody]
  | .selector s, h => by rw [Value.retag, Selector.retag_of_kept s h]
  | .target s assign, h => by rw [Value.retag, Selector.retag_of_kept s h]

/-- So with several values. -/
theorem Value.retagAll_of_kept : ∀ vs : List Value, (∀ tag ∈ Value.allTags vs, ρ tag = tag) →
    Value.retagAll ρ vs = vs
  | [], _ => rfl
  | v :: vs, h => by
      rw [Value.allTags, List.forall_mem_append] at h
      rw [Value.retagAll, Value.retag_of_kept v h.1, Value.retagAll_of_kept vs h.2]

/-- So with selectors. -/
theorem Selector.retag_of_kept : ∀ s : Selector, (∀ tag ∈ s.tags, ρ tag = tag) → s.retag ρ = s
  | .path _ _, _ => rfl
  | .composite parts, h => by rw [Selector.retag, Selector.retagAll_of_kept parts h]
  | .computed expression callee, h => by rw [Selector.retag, Value.retag_of_kept callee h]
  | .display inner, h => by rw [Selector.retag, Selector.retag_of_kept inner h]
  | .key inner, h => by rw [Selector.retag, Selector.retag_of_kept inner h]

/-- So with several selectors. -/
theorem Selector.retagAll_of_kept : ∀ ss : List Selector, (∀ tag ∈ Selector.allTags ss, ρ tag = tag) →
    Selector.retagAll ρ ss = ss
  | [], _ => rfl
  | s :: ss, h => by
      rw [Selector.allTags, List.forall_mem_append] at h
      rw [Selector.retagAll, Selector.retag_of_kept s h.1, Selector.retagAll_of_kept ss h.2]

/-- So with functions. -/
theorem Function.retag_of_kept : ∀ f : Function, (∀ tag ∈ f.tags, ρ tag = tag) → f.retag ρ = f
  | .field _, _ | .failing _, _ | .arguments, _ | .always, _ | .never, _ | .comparing _ _, _
  | .failingRelation _, _ => rfl
  | .constant value, h => by rw [Function.retag, Value.retag_of_kept value h]
  | .sameKey key, h => by rw [Function.retag, Selector.retag_of_kept key h]

end

/-! ## Stores -/

/-- Entries with the tags of their keys and values renamed. -/
def Value.retagEntries (ρ : Tag → Tag) (entries : List (Value × Value)) : List (Value × Value) :=
  entries.map fun entry => (entry.1.retag ρ, entry.2.retag ρ)

/-- Named values with their tags renamed. -/
def Value.retagNamed (ρ : Tag → Tag) (named : List (String × Value)) : List (String × Value) :=
  named.map fun entry => (entry.1, entry.2.retag ρ)

/-- An object with the tags of its attributes renamed. -/
def Object.retag (ρ : Tag → Tag) (o : Object) : Object := ⟨o.type, Value.retagNamed ρ o.attributes⟩

/-- A store with the tags in it renamed, and another tag to come next. -/
def Store.retag (ρ : Tag → Tag) (next : Tag) (σ : Store) : Store where
  mappings := σ.mappings.map (Value.retagEntries ρ)
  objects := σ.objects.map (Object.retag ρ)
  runs := σ.runs
  nextTag := next

/-- The tags that a store contains. -/
def Store.tags (σ : Store) : List Tag :=
  σ.mappings.toList.flatMap (fun entries => entries.flatMap fun entry => entry.1.tags ++ entry.2.tags) ++
    σ.objects.toList.flatMap fun o => o.attributes.flatMap fun entry => entry.2.tags

/-- A list keeps its members where each is kept. -/
theorem map_of_kept {α : Type} {f : α → α} {as : List α} (h : ∀ a ∈ as, f a = a) : as.map f = as :=
  (List.map_congr_left h).trans (List.map_id as)

/-- A renaming that keeps the tags of a store keeps the store. -/
theorem Store.retag_of_kept {σ : Store} (h : ∀ tag ∈ σ.tags, ρ tag = tag) : σ.retag ρ σ.nextTag = σ := by
  rw [Store.tags, List.forall_mem_append, List.forall_mem_flatMap, List.forall_mem_flatMap] at h
  obtain ⟨hmappings, hobjects⟩ := h
  have hentries : ∀ entries ∈ σ.mappings.toList, Value.retagEntries ρ entries = entries := by
    intro entries hmem
    refine map_of_kept fun entry hentry => ?_
    have htags := List.forall_mem_append.mp (List.forall_mem_flatMap.mp (hmappings entries hmem) entry hentry)
    rw [Value.retag_of_kept entry.1 htags.1, Value.retag_of_kept entry.2 htags.2]
  have hattributes : ∀ o ∈ σ.objects.toList, o.retag ρ = o := by
    intro o hmem
    have hnamed : Value.retagNamed ρ o.attributes = o.attributes := map_of_kept fun entry hentry => by
      rw [Value.retag_of_kept entry.2 (List.forall_mem_flatMap.mp (hobjects o hmem) entry hentry)]
    rw [Object.retag, hnamed]
  have hmaps : σ.mappings.map (Value.retagEntries ρ) = σ.mappings := by
    rw [← Array.toList_inj, Array.toList_map]
    exact map_of_kept hentries
  have hobjs : σ.objects.map (Object.retag ρ) = σ.objects := by
    rw [← Array.toList_inj, Array.toList_map]
    exact map_of_kept hattributes
  rw [Store.retag, hmaps, hobjs]

end

end Rubric
