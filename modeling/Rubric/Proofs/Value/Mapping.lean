import Rubric.Proofs.Sequencing
import Rubric.Proofs.Value.Reads
import Rubric.Proofs.Value.Template
import Rubric.Value.Mapping

/-!
# Copies of mappings

A copy of a mapping is a new mapping, in a place of its own, with the entries of the mapping; nothing
else changes, and a copy that fails changes nothing.

* `Store.entries_addMapping` : what a new mapping changes;
* `Value.copyMapping_eq` : what a copy is, and what remains where there is none.
-/

namespace Rubric

open Value (Place)

namespace Store

variable {σ σ' : Store} {region : Region}

/-- A new mapping has its entries, and the others keep theirs. -/
theorem entries_addMapping (σ : Store) (entries : List (Value × Value)) (address : Nat) :
    (σ.addMapping entries).2.entries address
      = if address = σ.mappings.size then entries else σ.entries address := by
  simp only [addMapping, Store.entries, Array.getD_eq_getD_getElem?, Array.getElem?_push]
  split <;> rfl

/-- A region stays closed where a mapping is made, if the mapping is outside or its entries are
within. -/
theorem Closed.addMapping (h : σ.Closed region) {entries : List (Value × Value)}
    (hentries : Place.mapping σ.mappings.size ∈ region →
      ∀ entry ∈ entries, entry.1.Within region ∧ entry.2.Within region) :
    (σ.addMapping entries).2.Closed region := by
  intro p hp v hv
  cases p with
  | object address => exact h _ hp v hv
  | mapping address =>
      simp only [contents, entries_addMapping] at hv
      split at hv
      · rename_i haddress
        obtain ⟨entry, hentry, hv⟩ := List.mem_flatMap.mp hv
        obtain ⟨hkey, hvalue⟩ := hentries (haddress ▸ hp) entry hentry
        simp only [List.mem_cons, List.not_mem_nil, or_false] at hv
        rcases hv with rfl | rfl
        · exact hkey
        · exact hvalue
      · exact h _ hp v hv

/-- Stores that agree still do where each gets a mapping outside of the region. -/
theorem Agree.addMapping (h : σ.Agree region σ')
    (hout : Place.mapping σ.mappings.size ∉ region) (entries entries' : List (Value × Value)) :
    (σ.addMapping entries).2.Agree region (σ'.addMapping entries').2 where
  mappings_size := by simp [Store.addMapping, h.mappings_size]
  objects_size := h.objects_size
  entries_eq address haddress := by
    have hother : address ≠ σ.mappings.size := by
      rintro rfl
      exact hout haddress
    rw [entries_addMapping, entries_addMapping, if_neg hother,
      if_neg (by rw [h.mappings_size]; exact hother), h.entries_eq address haddress]
  object_eq := h.object_eq
  nextTag_eq := h.nextTag_eq
  closed := h.closed.addMapping fun hin => absurd hin hout

end Store

/-! ## Copies -/

namespace Value

variable {σ : Store} {region : Region}

/-- Whether a value is a table of descriptions: a mapping, or null. -/
def IsTable : Value → Prop
  | null => True
  | mapping _ => True
  | _ => False

/-- The entries of a table. -/
def tableEntries (σ : Store) : Value → List (Value × Value)
  | mapping address => σ.entries address
  | _ => []

/-- Entries stay within a region where one within it is inserted. -/
theorem insertEntry_within {key value : Value} (hkey : key.Within region)
    (hvalue : value.Within region) {entries : List (Value × Value)} :
    ∀ {inserted : List (Value × Value)}, insertEntry σ key value entries = .ok inserted →
      (∀ entry ∈ entries, entry.1.Within region ∧ entry.2.Within region) →
      ∀ entry ∈ inserted, entry.1.Within region ∧ entry.2.Within region := by
  induction entries with
  | nil =>
      intro inserted h _
      rw [insertEntry, Except.ok.injEq] at h
      simp [← h, hkey, hvalue]
  | cons first entries ih =>
      intro inserted h hentries
      obtain ⟨hfirst, hrest⟩ := List.forall_mem_cons.mp hentries
      rw [insertEntry] at h
      split at h
      · cases h
      · rw [Except.ok.injEq] at h
        rw [← h]
        exact List.forall_mem_cons.mpr ⟨⟨hfirst.1, hvalue⟩, hrest⟩
      · obtain ⟨more, hmore, rfl⟩ := ok_of_map h
        exact List.forall_mem_cons.mpr ⟨hfirst, ih hmore hrest⟩

/-- The entry that an item gives is within a region where the item is. -/
theorem entryOf_within (hclosed : σ.Closed region) {index : Nat} {item : Value}
    (hitem : item.Within region) {entry : Value × Value} (h : entryOf σ index item = .ok entry) :
    entry.1.Within region ∧ entry.2.Within region := by
  unfold entryOf at h
  split at h
  · rename_i k v hparts
    cases h
    simpa using items_within hclosed hitem hparts
  · cases h
  · cases h

/-- The entries that items give are within a region where the items are. -/
theorem entriesOf_within (hclosed : σ.Closed region) {items : List Value} :
    ∀ {index : Nat} {entries made : List (Value × Value)}, (∀ v ∈ items, v.Within region) →
      (∀ entry ∈ entries, entry.1.Within region ∧ entry.2.Within region) →
      entriesOf σ index entries items = .ok made →
      ∀ entry ∈ made, entry.1.Within region ∧ entry.2.Within region := by
  induction items with
  | nil =>
      intro index entries made _ hentries h
      cases h
      exact hentries
  | cons item items ih =>
      intro index entries made hitems hentries h
      obtain ⟨hitem, hrest⟩ := List.forall_mem_cons.mp hitems
      simp only [entriesOf, bind, Except.bind] at h
      split at h
      · cases h
      · rename_i entry hentry
        split at h
        · cases h
        · split at h
          · cases h
          · rename_i inserted hinserted
            have hwithin := entryOf_within hclosed hitem hentry
            exact ih hrest (insertEntry_within hwithin.1 hwithin.2 hinserted hentries) h

/-- The entries that a copy of a value has. -/
def copiedEntries (σ : Store) (v : Value) : Except Fault (List (Value × Value)) :=
  if !v.truthy σ then .ok []
  else
    match v with
    | mapping address => .ok (σ.entries address)
    | v => v.items σ >>= entriesOf σ 0 []

/-- A copy is a new mapping; a value that cannot be copied leaves everything as it is. -/
theorem copyMapping_eq (v : Value) (σ : Store) :
    v.copyMapping σ = match v.copiedEntries σ with
      | .ok entries => .ok (.mapping σ.mappings.size) (σ.addMapping entries).2
      | .error fault => .error fault σ := by
  have hread (answer : Except Fault (List Value)) :
      (Eval.ofExcept answer >>= fun parts =>
        Eval.ofExcept (entriesOf σ 0 [] parts) >>= Eval.newMapping) σ
        = match answer >>= entriesOf σ 0 [] with
          | .ok entries => .ok (.mapping σ.mappings.size) (σ.addMapping entries).2
          | .error fault => .error fault σ := by
    cases answer with
    | error fault => rfl
    | ok parts =>
        show (Eval.ofExcept (entriesOf σ 0 [] parts) >>= Eval.newMapping) σ
          = match entriesOf σ 0 [] parts with
            | .ok entries => .ok (.mapping σ.mappings.size) (σ.addMapping entries).2
            | .error fault => .error fault σ
        cases entriesOf σ 0 [] parts <;> rfl
  unfold copyMapping copiedEntries
  rw [bind_of_ok (get_ok σ)]
  split
  · rfl
  · cases v with
    | mapping address => rfl
    | _ => exact hread _

/-- The entries of a copy are within a region where what is copied is. -/
theorem copiedEntries_within (hclosed : σ.Closed region) {v : Value} (hv : v.Within region)
    {entries : List (Value × Value)} (h : v.copiedEntries σ = .ok entries) :
    ∀ entry ∈ entries, entry.1.Within region ∧ entry.2.Within region := by
  unfold copiedEntries at h
  split at h
  · cases h
    simp
  · split at h
    · cases h
      exact fun entry hentry => hclosed.entry (within_mapping.mp hv) hentry
    · cases hread : v.items σ with
      | error fault =>
          rw [hread] at h
          cases h
      | ok parts =>
          rw [hread] at h
          exact entriesOf_within hclosed (items_within hclosed hv hread) (by simp) h

/-- A table has a copy, with the same entries. -/
theorem copiedEntries_table {v : Value} (hv : v.IsTable) (σ : Store) :
    v.copiedEntries σ = .ok (v.tableEntries σ) := by
  cases v with
  | null => rfl
  | mapping address =>
      unfold copiedEntries
      split
      · rename_i hempty
        have hnone : σ.entries address = [] := by simpa [truthy] using hempty
        rw [tableEntries, hnone]
      · rfl
  | _ => exact hv.elim

end Value

end Rubric
