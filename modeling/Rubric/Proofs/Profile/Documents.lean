import Rubric.Document.Basic
import Rubric.Proofs.Sequencing
import Rubric.Proofs.Value.Mapping
import Rubric.Proofs.Value.Template
import Rubric.Value.Ordering

/-!
# Values of documents

What a data file holds are mappings, lists and leaves: null, truth values, numbers, texts and dates.  The
keys of the mappings are leaves.  Leaves can be keys, and any key can be looked up among them.

* `Value.IsLeaf`, `Value.IsNode`, `Store.HoldsDocuments` : values and stores of documents;
* `Value.exists_lookup_of_isLeaf` : a search among leaves has an answer;
* `Document.keeps_toValue` : documents become such values.
-/

namespace Rubric

/-! ## Values of documents -/

namespace Value

/-- Whether a value is null, a truth value, a number or a text. -/
def isAtom : Value → Bool
  | null | bool _ | int _ | float _ | nan _ | str _ => true
  | _ => false

/-- Whether a value stands for a date: it cannot change, holds atoms only, and is compared by them. -/
def IsDate (σ : Store) (v : Value) : Prop :=
  ∃ address, v = .object address ∧ (σ.object address).type.structured = true ∧
    (σ.object address).type.byValue = true ∧ (σ.object address).type.frozen = true ∧
    ∀ x ∈ Store.fieldValues (σ.object address), x.isAtom = true

/-- Whether a value is a leaf of a document. -/
def IsLeaf (σ : Store) (v : Value) : Prop := v.isAtom = true ∨ v.IsDate σ

/-- Whether a value is a list or a mapping. -/
def isCollection : Value → Bool
  | list _ _ | mapping _ => true
  | _ => false

/-- Whether a value is one that a document holds. -/
def IsNode (σ : Store) (v : Value) : Prop := v.IsLeaf σ ∨ v.isCollection = true

variable {σ : Store} {v : Value} {places : Place → Place → Option Bool}

/-- Atoms are compared without a look at the store. -/
theorem exists_equalWith_of_isAtom (h : v.isAtom = true) (w : Value) :
    ∃ b, equalWith places v w = some b := by
  cases v <;> cases w <;> simp_all [isAtom, equalWith, number?]

theorem exists_itemsEqualWith_of_isAtom {vs : List Value} (h : ∀ v ∈ vs, v.isAtom = true) :
    ∀ ws, ∃ b, itemsEqualWith places vs ws = some b := by
  induction vs with
  | nil => intro ws; cases ws <;> exact ⟨_, rfl⟩
  | cons v vs ih =>
      intro ws
      obtain ⟨hv, hvs⟩ := List.forall_mem_cons.mp h
      cases ws with
      | nil => exact ⟨_, rfl⟩
      | cons w ws =>
          rw [itemsEqualWith]
          split
          · exact ⟨_, rfl⟩
          · split
            · exact ih hvs ws
            · obtain ⟨b, hb⟩ : ∃ b, equalWith places v w = some b := exists_equalWith_of_isAtom hv w
              rw [hb]
              cases b with
              | true => exact ih hvs ws
              | false => exact ⟨_, rfl⟩

/-- Whether a leaf is a given key can be told. -/
theorem exists_matchWith_of_isLeaf (h : v.IsLeaf σ) (key : Value) :
    ∃ b, matchWith σ.samePlace v key = some b := by
  rw [matchWith]
  split
  · exact ⟨_, rfl⟩
  obtain hatom | ⟨address, rfl, -, -, -, hfields⟩ := h
  · exact exists_equalWith_of_isAtom hatom key
  · cases key with
    | object address' =>
        rw [equalWith]
        split
        · exact ⟨_, rfl⟩
        · rw [Store.samePlace, Store.placesEqual]
          split
          · exact exists_itemsEqualWith_of_isAtom hfields _
          · exact ⟨_, rfl⟩
    | _ => exact ⟨false, by simp [equalWith, number?]⟩

theorem exists_lookupWith_of_isLeaf {entries : List (Value × Value)} (h : ∀ e ∈ entries, e.1.IsLeaf σ)
    (key : Value) : ∃ found, lookupWith σ.samePlace key entries = some found := by
  induction entries with
  | nil => exact ⟨_, rfl⟩
  | cons e entries ih =>
      obtain ⟨he, hrest⟩ := List.forall_mem_cons.mp h
      obtain ⟨b, hb⟩ := exists_matchWith_of_isLeaf he key
      rw [lookupWith, hb]
      cases b with
      | true => exact ⟨_, rfl⟩
      | false => exact ih hrest

/-- Every key can be looked up among leaves. -/
theorem exists_lookup_of_isLeaf {entries : List (Value × Value)} (h : ∀ e ∈ entries, e.1.IsLeaf σ)
    (key : Value) : ∃ found, lookup σ key entries = .ok found := by
  obtain ⟨found, hfound⟩ := exists_lookupWith_of_isLeaf h key
  exact ⟨found, by rw [lookup, hfound]; rfl⟩

/-- Atoms can be parts of keys. -/
theorem anyUnhashableWith_of_isAtom {objects : Nat → Option String} {vs : List Value}
    (h : ∀ v ∈ vs, v.isAtom = true) : anyUnhashableWith objects vs = none := by
  induction vs with
  | nil => rfl
  | cons v vs ih =>
      obtain ⟨hv, hrest⟩ := List.forall_mem_cons.mp h
      have hnone : unhashableWith objects v = none := by
        cases v <;> simp_all [isAtom, unhashableWith]
      rw [anyUnhashableWith, hnone]
      exact ih hrest

/-- Leaves can be keys. -/
theorem unhashable?_of_isLeaf (h : v.IsLeaf σ) : v.unhashable? σ = none := by
  obtain hatom | ⟨address, rfl, hstructured, hbyValue, hfrozen, hfields⟩ := h
  · cases v <;> simp_all [isAtom, unhashable?, unhashableWith]
  · rw [unhashable?, unhashableWith, unhashableObject]
    simp [hstructured, hbyValue, hfrozen, anyUnhashableWith_of_isAtom hfields]

/-- Lists and mappings cannot. -/
theorem requireHashable_of_isCollection (h : v.isCollection = true) :
    ∃ type, v.requireHashable σ = .error (.type (.unhashable type)) := by
  cases v <;> first | exact ⟨_, rfl⟩ | cases h

end Value

namespace Store

/-- Whether the mappings of a store are those of documents: their keys are leaves. -/
structure HoldsDocuments (σ : Store) : Prop where
  keys : ∀ address, ∀ e ∈ σ.entries address, e.1.IsLeaf σ
  values : ∀ address, ∀ e ∈ σ.entries address, e.2.IsNode σ

theorem holdsDocuments_empty : Store.empty.HoldsDocuments := by
  constructor <;>
    · intro address e he
      cases he

end Store

/-! ## Documents as values -/

namespace Value

variable {σ τ : Store} {P Q : Value → Prop}

/-- What values of documents are depends on the objects only. -/
theorem IsLeaf.of_objects {v : Value} (h : v.IsLeaf σ) (hobjects : τ.objects = σ.objects) :
    v.IsLeaf τ := by
  have hobject : τ.object = σ.object := by
    funext address
    rw [Store.object, Store.object, hobjects]
  obtain hatom | hdate := h
  · exact .inl hatom
  · right
    unfold IsDate
    rw [hobject]
    exact hdate

theorem IsNode.of_objects {v : Value} (h : v.IsNode σ) (hobjects : τ.objects = σ.objects) : v.IsNode τ :=
  h.imp_left fun hleaf => hleaf.of_objects hobjects

/-- Entries with one more consist of keys and values as before and of the new ones. -/
theorem forall_mem_insertEntry {key value : Value} (hkey : P key) (hvalue : Q value)
    {entries : List (Value × Value)} : ∀ {inserted : List (Value × Value)},
      insertEntry σ key value entries = .ok inserted → (∀ e ∈ entries, P e.1 ∧ Q e.2) →
        ∀ e ∈ inserted, P e.1 ∧ Q e.2 := by
  induction entries with
  | nil =>
      intro inserted h _ e he
      rw [insertEntry, Except.ok.injEq] at h
      subst h
      obtain rfl := List.mem_singleton.mp he
      exact ⟨hkey, hvalue⟩
  | cons first entries ih =>
      intro inserted h hentries
      obtain ⟨hfirst, hrest⟩ := List.forall_mem_cons.mp hentries
      rw [insertEntry] at h
      split at h
      · cases h
      · cases h
        exact List.forall_mem_cons.mpr ⟨⟨hfirst.1, hvalue⟩, hrest⟩
      · obtain ⟨rest, hinserted, rfl⟩ := ok_of_map h
        exact List.forall_mem_cons.mpr ⟨hfirst, ih hinserted hrest⟩

theorem forall_mem_insertEntries {parts : List (Value × Value)} (hparts : ∀ e ∈ parts, P e.1 ∧ Q e.2) :
    ∀ {entries inserted : List (Value × Value)}, insertEntries σ entries parts = .ok inserted →
      (∀ e ∈ entries, P e.1 ∧ Q e.2) → ∀ e ∈ inserted, P e.1 ∧ Q e.2 := by
  induction parts with
  | nil =>
      intro entries inserted h hentries
      rw [insertEntries, Except.ok.injEq] at h
      exact h ▸ hentries
  | cons part parts ih =>
      intro entries inserted h hentries
      obtain ⟨hpart, hrest⟩ := List.forall_mem_cons.mp hparts
      simp only [insertEntries, bind, Except.bind] at h
      split at h
      · cases h
      · split at h
        · cases h
        · rename_i more hmore
          exact ih hrest h (forall_mem_insertEntry hpart.1 hpart.2 hmore hentries)

end Value

namespace Document

variable {σ τ : Store}

/-- Making a value leaves a store that holds documents so, and its objects. -/
structure Keeps (σ τ : Store) : Prop where
  holds : σ.HoldsDocuments → τ.HoldsDocuments
  objects : τ.objects = σ.objects

theorem Keeps.refl (σ : Store) : Keeps σ σ := ⟨id, rfl⟩

theorem Keeps.trans {υ : Store} (h : Keeps σ τ) (h' : Keeps τ υ) : Keeps σ υ :=
  ⟨fun hσ => h'.holds (h.holds hσ), h'.objects.trans h.objects⟩

/-- A new mapping of nodes under texts. -/
theorem keeps_addMapping {entries : List (Value × Value)}
    (h : ∀ e ∈ entries, e.1.isAtom = true ∧ e.2.IsNode σ) : Keeps σ (σ.addMapping entries).2 where
  objects := rfl
  holds hσ := by
    have hobjects : (σ.addMapping entries).2.objects = σ.objects := rfl
    constructor
    · intro address e he
      rw [Store.entries_addMapping] at he
      split at he
      · exact .inl (h e he).1
      · exact (hσ.keys address e he).of_objects hobjects
    · intro address e he
      rw [Store.entries_addMapping] at he
      split at he
      · exact (h e he).2.of_objects hobjects
      · exact (hσ.values address e he).of_objects hobjects

mutual

/-- A document becomes a value of documents. -/
theorem keeps_toValue : ∀ (d : Document) {σ τ : Store} {v : Value}, d.toValue σ = .ok v τ →
    Keeps σ τ ∧ v.IsNode τ
  | .null, σ, τ, v, h | .bool _, σ, τ, v, h | .int _, σ, τ, v, h | .float _, σ, τ, v, h | .nan, σ, τ, v, h
  | .str _, σ, τ, v, h => by
      cases h
      exact ⟨.refl _, .inl (.inl rfl)⟩
  | .list items, σ, τ, v, h => by
      rw [toValue] at h
      obtain ⟨vs, t, hvs, hlist⟩ := bind_ok.mp h
      cases hlist
      have ht := (keeps_toValues items hvs).1
      exact ⟨ht.trans ⟨fun ht => ⟨ht.keys, ht.values⟩, rfl⟩, .inr rfl⟩
  | .mapping entries, σ, τ, v, h => by
      rw [toValue] at h
      obtain ⟨parts, t, hparts, hrest⟩ := bind_ok.mp h
      obtain ⟨t', _, hget, hrest⟩ := bind_ok.mp hrest
      cases hget
      obtain ⟨inserted, t', hinserted, hmapping⟩ := bind_ok.mp hrest
      obtain ⟨hkeeps, hnodes⟩ := keeps_toEntries entries hparts
      cases hok : Value.insertEntries t [] parts with
      | error fault =>
          rw [hok] at hinserted
          cases hinserted
      | ok es =>
          rw [hok] at hinserted
          cases hinserted
          cases hmapping
          have hes := Value.forall_mem_insertEntries (P := fun key => key.isAtom = true)
            (Q := fun v => v.IsNode t) hnodes hok (by simp)
          exact ⟨hkeeps.trans (keeps_addMapping hes), .inr rfl⟩

theorem keeps_toValues : ∀ (ds : List Document) {σ τ : Store} {vs : List Value}, toValues ds σ = .ok vs τ →
    Keeps σ τ ∧ ∀ v ∈ vs, v.IsNode τ
  | [], σ, τ, vs, h => by
      cases h
      exact ⟨.refl _, by simp⟩
  | d :: ds, σ, τ, vs, h => by
      rw [toValues] at h
      obtain ⟨v, t, hv, hrest⟩ := bind_ok.mp h
      obtain ⟨rest, t', hds, hpure⟩ := bind_ok.mp hrest
      cases hpure
      obtain ⟨hfirst, hnode⟩ := keeps_toValue d hv
      obtain ⟨hkeeps, hnodes⟩ := keeps_toValues ds hds
      exact ⟨hfirst.trans hkeeps, List.forall_mem_cons.mpr ⟨hnode.of_objects hkeeps.objects, hnodes⟩⟩

theorem keeps_toEntries : ∀ (ds : List (String × Document)) {σ τ : Store} {es : List (Value × Value)},
    toEntries ds σ = .ok es τ → Keeps σ τ ∧ ∀ e ∈ es, e.1.isAtom = true ∧ e.2.IsNode τ
  | [], σ, τ, es, h => by
      cases h
      exact ⟨.refl _, by simp⟩
  | (key, d) :: ds, σ, τ, es, h => by
      rw [toEntries] at h
      obtain ⟨v, t, hv, hrest⟩ := bind_ok.mp h
      obtain ⟨rest, t', hds, hpure⟩ := bind_ok.mp hrest
      cases hpure
      obtain ⟨hfirst, hnode⟩ := keeps_toValue d hv
      obtain ⟨hkeeps, hnodes⟩ := keeps_toEntries ds hds
      exact ⟨hfirst.trans hkeeps,
        List.forall_mem_cons.mpr ⟨⟨rfl, hnode.of_objects hkeeps.objects⟩, hnodes⟩⟩

end

end Document

end Rubric
