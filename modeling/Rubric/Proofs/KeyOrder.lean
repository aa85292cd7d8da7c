import Mathlib.Logic.Relation
import Rubric.Proofs.Grouping
import Rubric.Proofs.Sequencing
import Rubric.Proofs.Value.PlainForm

/-!
# Records in another order

A reordering that keeps the order within every class of records is made by swapping neighbours of different
classes.  Where the keys of two neighbours are told apart, swapping them leaves the items as they are, but
for the order of these two where both are items, and the context of every item as it is.

* `KeepsOrder.swaps` : reorderings are made of swaps;
* `Confusable`, `Linked` : which keys are not told apart, directly or through others;
* `linked_iff_of_plain` : among numbers, texts and tuples of such, those that are the same;
* `Picks.swap` : the items after a swap;
* `contextOf_swap` : the contexts after a swap.
-/

namespace Rubric

open Value

/-! ## Reorderings -/

section

variable {α : Type} {same : α → α → Prop} {first second : List α}

open Classical in
/-- Whether a list is a reordering of another that keeps the order of what is the same. -/
structure KeepsOrder (same : α → α → Prop) (first second : List α) : Prop where
  perm : second.Perm first
  order : ∀ a ∈ first, second.filter (fun b => same a b) = first.filter fun b => same a b

/-- The list is such a reordering of the other, too. -/
theorem KeepsOrder.symm (h : KeepsOrder same first second) : KeepsOrder same second first where
  perm := h.perm.symm
  order a ha := (h.order a (h.perm.mem_iff.mp ha)).symm

/-- Whether two lists differ by a swap of neighbours that are not the same. -/
def Neighbours (same : α → α → Prop) (first second : List α) : Prop :=
  ∃ before a b after, ¬ same a b ∧ first = before ++ a :: b :: after ∧
    second = before ++ b :: a :: after

/-- Swaps can be made behind one more element. -/
theorem swaps_cons (a : α) (h : Relation.ReflTransGen (Neighbours same) first second) :
    Relation.ReflTransGen (Neighbours same) (a :: first) (a :: second) := by
  refine h.lift (a :: ·) ?_
  rintro _ _ ⟨before, b, c, after, hne, rfl, rfl⟩
  exact ⟨a :: before, b, c, after, hne, rfl, rfl⟩

/-- An element can be moved behind others by swaps. -/
theorem swaps_move {a : α} {before after : List α} (h : ∀ b ∈ before, ¬ same a b) :
    Relation.ReflTransGen (Neighbours same) (a :: (before ++ after)) (before ++ a :: after) := by
  induction before with
  | nil => exact .refl
  | cons b before ih =>
      have hswap : Neighbours same (a :: b :: (before ++ after)) (b :: a :: (before ++ after)) :=
        ⟨[], a, b, before ++ after, h b List.mem_cons_self, rfl, rfl⟩
      exact .head hswap (swaps_cons b (ih fun c hc => h c (List.mem_cons_of_mem b hc)))

/-- A reordering that keeps the order within classes is made by swapping neighbours of different
classes. -/
theorem KeepsOrder.swaps (hsame : Equivalence same) :
    ∀ {first second : List α}, KeepsOrder same first second →
      Relation.ReflTransGen (Neighbours same) first second := by
  classical
  intro first
  induction first with
  | nil =>
      intro second h
      rw [h.perm.eq_nil]
  | cons a first ih =>
      intro second h
      obtain ⟨before, after, rfl, hnot⟩ :=
        List.eq_append_cons_of_mem (h.perm.mem_iff.mpr List.mem_cons_self)
      -- the first of the class of `a` is `a` in both lists
      have hapart : ∀ b ∈ before, ¬ same a b := by
        have hhead := h.order a List.mem_cons_self
        rw [List.filter_append, List.filter_cons_of_pos (by simpa using hsame.refl a),
          List.filter_cons_of_pos (by simpa using hsame.refl a)] at hhead
        cases hbefore : before.filter fun b => same a b with
        | nil =>
            intro b hb hab
            have := List.filter_eq_nil_iff.mp hbefore b hb
            simp [hab] at this
        | cons c rest =>
            rw [hbefore, List.cons_append] at hhead
            have hmem : c ∈ before :=
              (List.mem_filter.mp (hbefore ▸ List.mem_cons_self)).1
            exact absurd ((List.cons.inj hhead).1 ▸ hmem) hnot
      have hrest : KeepsOrder same first (before ++ after) := by
        refine ⟨(List.perm_middle.symm.trans h.perm).cons_inv, fun b hb => ?_⟩
        have hwhole := h.order b (List.mem_cons_of_mem a hb)
        rw [List.filter_append, List.filter_cons, List.filter_cons] at hwhole
        rw [List.filter_append]
        by_cases hba : same b a
        · have hnone : before.filter (fun c => same b c) = [] := by
            refine List.filter_eq_nil_iff.mpr fun c hc => ?_
            simpa using fun hbc => hapart c hc (hsame.trans (hsame.symm hba) hbc)
          rw [hnone] at hwhole ⊢
          simpa [hba] using hwhole
        · simpa [hba] using hwhole
      exact (swaps_cons a (ih hrest)).trans (swaps_move hapart)

end

/-! ## Keys that are not told apart -/

/-- Equal values are found in each other's place. -/
theorem found_of_equal {σ : Store} {a b : Value} (h : a.equal σ b = .ok true) :
    a.found σ b = .ok true := by
  unfold found matchWith
  split
  · rfl
  · exact h

section

variable {α : Type} (key : α → Eval Value) (σ : Store)

/-- Whether the keys of two records are not told apart: one is found in the other's place, or comparing
them fails. -/
def Confusable (a b : α) : Prop :=
  ∃ k k' τ τ', key a σ = .ok k τ ∧ key b σ = .ok k' τ' ∧
    ¬ (k.found σ k' = .ok false ∧ k'.found σ k = .ok false)

/-- Whether two records are linked by keys that are not told apart, directly or through other records. -/
def Linked (records : List α) : α → α → Prop :=
  Relation.EqvGen fun a b => a ∈ records ∧ b ∈ records ∧ Confusable key σ a b

/-- Being linked is an equivalence. -/
theorem linked_equivalence (records : List α) : Equivalence (Linked key σ records) :=
  Relation.EqvGen.is_equivalence _

variable {key σ}

/-- The order of the records does not matter for it. -/
theorem linked_congr {first second : List α} (h : second.Perm first) :
    Linked key σ second = Linked key σ first := by
  simp only [Linked, h.mem_iff]

/-- The keys of records that are not linked are told apart. -/
theorem told_apart {records : List α} {a b : α} (ha : a ∈ records) (hb : b ∈ records)
    (h : ¬ Linked key σ records a b) {k k' : Value} {τ τ' : Store} (hk : key a σ = .ok k τ)
    (hk' : key b σ = .ok k' τ') : k.found σ k' = .ok false ∧ k'.found σ k = .ok false := by
  by_contra hne
  exact h (.rel a b ⟨ha, hb, k, k', τ, τ', hk, hk', hne⟩)

end

section

variable {α : Type} {key : α → Eval Value} {σ : Store}

/-- The form of the key of a record, where that is plain. -/
def plainKey? (key : α → Eval Value) (σ : Store) (a : α) : Option PlainForm :=
  match key a σ with
  | .ok k _ => k.plainForm?
  | .error _ _ => none

/-- Plain keys are not told apart where they have one form. -/
theorem confusable_iff_of_plain {a b : α}
    (ha : ∀ k τ, key a σ = .ok k τ → ∃ form, k.plainForm? = some form)
    (hb : ∀ k τ, key b σ = .ok k τ → ∃ form, k.plainForm? = some form) :
    Confusable key σ a b ↔ ∃ form, plainKey? key σ a = some form ∧ plainKey? key σ b = some form := by
  have hfound {k k' : Value} {form form' : PlainForm} (hk : k.plainForm? = some form)
      (hk' : k'.plainForm? = some form') : k.found σ k' = .ok false ↔ form ≠ form' := by
    obtain ⟨answer, hanswer, hiff⟩ := matchWith_of_plain σ.samePlace k k' form form' hk hk'
    simp [found, hanswer, settled, ← hiff]
  cases hkey : key a σ with
  | error fault τ => simp [Confusable, plainKey?, hkey]
  | ok k τ =>
      cases hkey' : key b σ with
      | error fault τ' => simp [Confusable, plainKey?, hkey']
      | ok k' τ' =>
          obtain ⟨form, hform⟩ := ha k τ hkey
          obtain ⟨form', hform'⟩ := hb k' τ' hkey'
          have hsame : ¬ (k.found σ k' = .ok false ∧ k'.found σ k = .ok false) ↔ form' = form := by
            rw [hfound hform hform', hfound hform' hform, ne_comm, and_self, not_not]
          simpa [Confusable, plainKey?, hkey, hkey', hform, hform'] using hsame

/-- Where all keys are plain, records are linked by having one key only. -/
theorem linked_iff_of_plain {records : List α}
    (hplain : ∀ r ∈ records, ∀ k τ, key r σ = .ok k τ → ∃ form, k.plainForm? = some form) {a b : α} :
    Linked key σ records a b ↔ a = b ∨ a ∈ records ∧ b ∈ records ∧
      ∃ form, plainKey? key σ a = some form ∧ plainKey? key σ b = some form := by
  constructor
  · intro h
    induction h with
    | rel a b h =>
        obtain ⟨ha, hb, hconfusable⟩ := h
        exact .inr ⟨ha, hb, (confusable_iff_of_plain (hplain a ha) (hplain b hb)).mp hconfusable⟩
    | refl a => exact .inl rfl
    | symm a b _ ih =>
        exact ih.imp Eq.symm fun ⟨ha, hb, form, hform, hform'⟩ => ⟨hb, ha, form, hform', hform⟩
    | trans a b c _ _ ih ih' =>
        obtain rfl | ⟨ha, hb, form, hform, hform'⟩ := ih
        · exact ih'
        obtain rfl | ⟨-, hc, other, hother, hother'⟩ := ih'
        · exact .inr ⟨ha, hb, form, hform, hform'⟩
        · obtain rfl : form = other := Option.some.inj (hform'.symm.trans hother)
          exact .inr ⟨ha, hc, form, hform, hother'⟩
  · rintro (rfl | ⟨ha, hb, hforms⟩)
    · exact .refl _
    · exact .rel _ _ ⟨ha, hb, (confusable_iff_of_plain (hplain a ha) (hplain b hb)).mpr hforms⟩

end

/-! ## Keys met in another order -/

section

variable {α : Type}

/-- Elements that surely do not pass can be left out of a search. -/
theorem anyTrue_filter (test : α → Option Bool) (as : List α) :
    anyTrue test (as.filter fun a => test a != some false) = anyTrue test as := by
  induction as with
  | nil => rfl
  | cons a as ih =>
      cases htest : test a with
      | none => simp [anyTrue, htest]
      | some b => cases b <;> simp [anyTrue, htest, ih]

end

namespace SeenKeys

variable {σ : Store} {k k' : Value} {seen seen' : SeenKeys}

/-- Whether a key is among the keys met. -/
def known (σ : Store) (k : Value) (seen : SeenKeys) : Except Fault Bool :=
  match k.unhashable? σ with
  | none => seen.hasDigested σ k
  | some _ => k.foundIn σ seen.listed

/-- The keys met with one more. -/
def met (σ : Store) (k : Value) (seen : SeenKeys) : SeenKeys :=
  match k.unhashable? σ with
  | none => { seen with digested := (k.digest σ, k) :: seen.digested }
  | some _ => { seen with listed := seen.listed ++ [k] }

/-- A key is added where it is not known. -/
theorem insert?_eq (σ : Store) (k : Value) (seen : SeenKeys) :
    seen.insert? σ k
      = (seen.known σ k).map fun known => if known then none else some (seen.met σ k) := by
  unfold insert? known met
  cases k.unhashable? σ with
  | none => cases seen.hasDigested σ k with
    | error fault => rfl
    | ok b => cases b <;> rfl
  | some _ => cases k.foundIn σ seen.listed with
    | error fault => rfl
    | ok b => cases b <;> rfl

/-- Whether a key may be taken for one that was met. -/
def mayBe (σ : Store) (k other : Value) : Bool := matchWith σ.samePlace other k != some false

/-- Whether the keys met that a key may be taken for are the same, in the same order. -/
structure SameFor (σ : Store) (k : Value) (seen seen' : SeenKeys) : Prop where
  digested : (seen'.digested.filter fun entry => mayBe σ k entry.2)
    = seen.digested.filter fun entry => mayBe σ k entry.2
  listed : seen'.listed.filter (mayBe σ k) = seen.listed.filter (mayBe σ k)

/-- Then it is known or not in both. -/
theorem SameFor.known_eq (h : SameFor σ k seen seen') : seen'.known σ k = seen.known σ k := by
  have hdigested : seen'.hasDigested σ k = seen.hasDigested σ k := by
    have hsame : (seen'.digested.filter fun entry => entry.1 == k.digest σ && mayBe σ k entry.2)
        = seen.digested.filter fun entry => entry.1 == k.digest σ && mayBe σ k entry.2 := by
      rw [← List.filter_filter, h.digested, List.filter_filter]
    have hsearch : ∀ keys : SeenKeys, keys.hasDigested σ k = settled
        (anyTrue (fun entry => matchWith σ.samePlace entry.2 k)
          (keys.digested.filter fun entry => entry.1 == k.digest σ && mayBe σ k entry.2)) := by
      intro keys
      simp only [hasDigested, foundIn, anyTrue_map]
      rw [← anyTrue_filter, List.filter_filter]
      simp only [Bool.and_comm, mayBe]
    rw [hsearch, hsearch, hsame]
  have hlisted : k.foundIn σ seen'.listed = k.foundIn σ seen.listed := by
    unfold foundIn
    rw [← anyTrue_filter, ← anyTrue_filter _ seen.listed]
    exact congrArg (fun keys => settled (anyTrue _ keys)) h.listed
  unfold known
  cases k.unhashable? σ with
  | none => exact hdigested
  | some _ => exact hlisted

/-- One more key met keeps them the same. -/
theorem SameFor.met (h : SameFor σ k seen seen') (k' : Value) :
    SameFor σ k (seen.met σ k') (seen'.met σ k') := by
  unfold SeenKeys.met
  cases k'.unhashable? σ with
  | none => exact ⟨by simp only [List.filter_cons, h.digested], h.listed⟩
  | some _ => exact ⟨h.digested, by simp only [List.filter_append, h.listed]⟩

/-- So does a key that is told apart. -/
theorem sameFor_met (h : mayBe σ k k' = false) : SameFor σ k seen (seen.met σ k') := by
  unfold SeenKeys.met
  cases k'.unhashable? σ with
  | none => exact ⟨by simp only [List.filter_cons, h]; rfl, rfl⟩
  | some _ => exact ⟨rfl, by simp [List.filter_append, h]⟩

/-- Two keys, of which one is told apart, can be met in either order. -/
theorem sameFor_swap {k₁ k₂ : Value} (h : mayBe σ k k₁ = false ∨ mayBe σ k k₂ = false) :
    SameFor σ k ((seen.met σ k₁).met σ k₂) ((seen.met σ k₂).met σ k₁) := by
  unfold SeenKeys.met
  cases k₁.unhashable? σ <;> cases k₂.unhashable? σ <;>
    rcases h with h | h <;> constructor <;> simp [List.filter_cons, List.filter_append, h]

end SeenKeys

/-! ## The items after a swap -/

section

variable {α : Type} {σ : Store} {key : α → Except Fault Value}

/-- Which records are items, where each has a key. -/
inductive Picks (σ : Store) (key : α → Except Fault Value) :
    SeenKeys → List α → List α → Prop
  | nil (seen : SeenKeys) : Picks σ key seen [] []
  | item {seen : SeenKeys} {record : α} {rest items : List α} {k : Value}
      (hkey : key record = .ok k) (hnew : seen.known σ k = .ok false)
      (hrest : Picks σ key (seen.met σ k) rest items) :
      Picks σ key seen (record :: rest) (record :: items)
  | known {seen : SeenKeys} {record : α} {rest items : List α} {k : Value}
      (hkey : key record = .ok k) (hknown : seen.known σ k = .ok true)
      (hrest : Picks σ key seen rest items) :
      Picks σ key seen (record :: rest) items

variable {read : α → Eval Value}

/-- Whether a record is an item, where reading its key leaves the store alone. -/
theorem firstOfKey?_ok {record : α} (hread : read record σ = Eval.ofExcept (key record) σ)
    {seen : SeenKeys} {found : Option SeenKeys} {τ : Store} :
    firstOfKey? read seen record σ = .ok found τ ↔ τ = σ ∧ ∃ k known, key record = .ok k ∧
      seen.known σ k = .ok known ∧ found = if known then none else some (seen.met σ k) := by
  unfold firstOfKey?
  cases hkey : key record with
  | error fault =>
      have hfault : read record σ = .error fault σ := by rw [hread, hkey]; rfl
      rw [bind_of_error hfault]
      simp
  | ok k =>
      have hok : read record σ = .ok k σ := by rw [hread, hkey]; rfl
      rw [bind_of_ok hok, bind_of_ok (get_ok σ), SeenKeys.insert?_eq]
      constructor
      · intro h
        cases hknown : seen.known σ k with
        | error fault =>
            rw [hknown] at h
            cases h
        | ok known =>
            rw [hknown] at h
            cases h
            exact ⟨rfl, k, known, rfl, hknown, rfl⟩
      · rintro ⟨rfl, _, known, ⟨rfl⟩, hknown, rfl⟩
        rw [hknown]
        rfl

/-- The items are found where each record has a key that can be compared with those met. -/
theorem distinctFrom_ok : ∀ {records items : List α} {seen : SeenKeys} {τ : Store},
      (∀ r ∈ records, read r σ = Eval.ofExcept (key r) σ) →
      (distinctFrom read seen records σ = .ok items τ ↔ τ = σ ∧ Picks σ key seen records items) := by
  intro records
  -- on the records: one whose key is new is an item before the items of the rest, any other is passed over
  induction records with
  | nil =>
      intro items seen τ _
      constructor
      · intro h
        cases h
        exact ⟨rfl, .nil seen⟩
      · rintro ⟨rfl, hpicks⟩
        cases hpicks
        rfl
  | cons record rest ih =>
      intro items seen τ hread
      have hfirst := hread record List.mem_cons_self
      have hrest : ∀ r ∈ rest, read r σ = Eval.ofExcept (key r) σ := fun r hr =>
        hread r (List.mem_cons_of_mem record hr)
      rw [distinctFrom, bind_ok]
      constructor
      · rintro ⟨found, t, hfound, hnext⟩
        obtain ⟨rfl, k, known, hkey, hknown, rfl⟩ := (firstOfKey?_ok hfirst).mp hfound
        cases known with
        | true =>
            obtain ⟨rfl, hpicks⟩ := (ih hrest).mp hnext
            exact ⟨rfl, .known hkey hknown hpicks⟩
        | false =>
            obtain ⟨others, u, hothers, hpure⟩ := bind_ok.mp hnext
            obtain ⟨rfl, hpicks⟩ := (ih hrest).mp hothers
            cases hpure
            exact ⟨rfl, .item hkey hknown hpicks⟩
      · rintro ⟨rfl, hpicks⟩
        cases hpicks with
        | item hkey hnew hpicks =>
            refine ⟨_, _, (firstOfKey?_ok hfirst).mpr ⟨rfl, _, _, hkey, hnew, rfl⟩, ?_⟩
            exact bind_ok.mpr ⟨_, _, (ih hrest).mpr ⟨rfl, hpicks⟩, rfl⟩
        | known hkey hknown hpicks =>
            refine ⟨_, _, (firstOfKey?_ok hfirst).mpr ⟨rfl, _, _, hkey, hknown, rfl⟩, ?_⟩
            exact (ih hrest).mpr ⟨rfl, hpicks⟩

/-- The items are the same where the keys met are, for every key to come. -/
theorem Picks.congr {seen : SeenKeys} {records items : List α}
    (h : Picks σ key seen records items) :
    ∀ {seen' : SeenKeys}, (∀ r ∈ records, ∀ k, key r = .ok k → SeenKeys.SameFor σ k seen seen') →
      Picks σ key seen' records items := by
  induction h with
  | nil seen => exact fun _ => .nil _
  | item hkey hnew _ ih =>
      intro seen' hsame
      refine .item hkey ((hsame _ List.mem_cons_self _ hkey).known_eq.trans hnew) (ih ?_)
      exact fun r hr k hk => (hsame r (List.mem_cons_of_mem _ hr) k hk).met _
  | known hkey hknown _ ih =>
      intro seen' hsame
      refine .known hkey ((hsame _ List.mem_cons_self _ hkey).known_eq.trans hknown) (ih ?_)
      exact fun r hr => hsame r (List.mem_cons_of_mem _ hr)

/-- Whether the keys of two records are told apart. -/
def ToldApart (σ : Store) (key : α → Except Fault Value) (a b : α) : Prop :=
  ∀ k k', key a = .ok k → key b = .ok k' →
    SeenKeys.mayBe σ k k' = false ∧ SeenKeys.mayBe σ k' k = false

/-- Two neighbours with keys that are told apart, of which every later key is told apart from one, give the
same items in the other order, but for the order of these two. -/
theorem Picks.swap_head {seen : SeenKeys} {a b : α} {rest items : List α}
    (h : Picks σ key seen (a :: b :: rest) items) (hab : ToldApart σ key a b)
    (hrest : ∀ r ∈ rest, ToldApart σ key r a ∨ ToldApart σ key r b) :
    ∃ items', Picks σ key seen (b :: a :: rest) items' ∧
      (items' = items ∨ ∃ tail, items = a :: b :: tail ∧ items' = b :: a :: tail) := by
  cases h with
  | @item _ _ _ _ k hkey hnew hnext =>
      cases hnext with
      | @item _ _ _ _ k' hkey' hnew' hlater =>
          obtain ⟨hk, hk'⟩ := hab k k' hkey hkey'
          have hnew₁ : seen.known σ k' = .ok false :=
            (SeenKeys.sameFor_met hk').known_eq.symm.trans hnew'
          have hnew₂ : (seen.met σ k').known σ k = .ok false :=
            (SeenKeys.sameFor_met hk).known_eq.trans hnew
          refine ⟨_, .item hkey' hnew₁ (.item hkey hnew₂ (hlater.congr fun r hr k₁ hk₁ => ?_)),
            .inr ⟨_, rfl, rfl⟩⟩
          refine SeenKeys.sameFor_swap ?_
          exact (hrest r hr).imp (fun h => (h k₁ k hk₁ hkey).1) fun h => (h k₁ k' hk₁ hkey').1
      | @known _ _ _ _ k' hkey' hknown hlater =>
          obtain ⟨-, hk'⟩ := hab k k' hkey hkey'
          have hknown' : seen.known σ k' = .ok true :=
            (SeenKeys.sameFor_met hk').known_eq.symm.trans hknown
          exact ⟨_, .known hkey' hknown' (.item hkey hnew hlater), .inl rfl⟩
  | @known _ _ _ _ k hkey hknown hnext =>
      cases hnext with
      | @item _ _ _ _ k' hkey' hnew' hlater =>
          obtain ⟨hk, -⟩ := hab k k' hkey hkey'
          have hknown' : (seen.met σ k').known σ k = .ok true :=
            (SeenKeys.sameFor_met hk).known_eq.trans hknown
          exact ⟨_, .item hkey' hnew' (.known hkey hknown' hlater), .inl rfl⟩
      | known hkey' hknown' hlater =>
          exact ⟨_, .known hkey' hknown' (.known hkey hknown hlater), .inl rfl⟩

/-- So they do after any records. -/
theorem Picks.swap {before rest : List α} {a b : α} (hab : ToldApart σ key a b)
    (hrest : ∀ r ∈ rest, ToldApart σ key r a ∨ ToldApart σ key r b) :
    ∀ {seen : SeenKeys} {items : List α}, Picks σ key seen (before ++ a :: b :: rest) items →
      ∃ items', Picks σ key seen (before ++ b :: a :: rest) items' ∧ (items' = items ∨
        ∃ head tail, items = head ++ a :: b :: tail ∧ items' = head ++ b :: a :: tail) := by
  induction before with
  | nil =>
      intro seen items h
      obtain ⟨items', hpicks, hitems⟩ := h.swap_head hab hrest
      exact ⟨items', hpicks, hitems.imp id fun ⟨tail, h₁, h₂⟩ => ⟨[], tail, h₁, h₂⟩⟩
  | cons r before ih =>
      intro seen items h
      cases h with
      | item hkey hnew hnext =>
          obtain ⟨items', hpicks, hitems⟩ := ih hnext
          refine ⟨r :: items', .item hkey hnew hpicks, hitems.imp (congrArg _) ?_⟩
          rintro ⟨head, tail, rfl, rfl⟩
          exact ⟨r :: head, tail, rfl, rfl⟩
      | known hkey hknown hnext =>
          obtain ⟨items', hpicks, hitems⟩ := ih hnext
          exact ⟨items', .known hkey hknown hpicks, hitems⟩

/-- Items are among the records. -/
theorem Picks.subset {seen : SeenKeys} {records items : List α}
    (h : Picks σ key seen records items) : ∀ r ∈ items, r ∈ records := by
  induction h with
  | nil seen => exact fun r hr => hr
  | item _ _ _ ih =>
      intro r hr
      rcases List.mem_cons.mp hr with rfl | hr
      · exact List.mem_cons_self
      · exact List.mem_cons_of_mem _ (ih r hr)
  | known _ _ _ ih => exact fun r hr => List.mem_cons_of_mem _ (ih r hr)

end

/-! ## The contexts after a swap -/

section

variable {α : Type} {relation : α → α → Eval Bool} {item : α} {σ : Store}

/-- The context of an item is found record by record. -/
theorem contextOf_cons_ok {record : α} {rest context : List α} {υ : Store} :
    contextOf relation item (record :: rest) σ = .ok context υ ↔ ∃ tied τ others,
      relation record item σ = .ok tied τ ∧ contextOf relation item rest τ = .ok others υ ∧
        context = if tied then record :: others else others := by
  rw [contextOf, bind_ok]
  simp only [bind_ok]
  constructor
  · rintro ⟨tied, τ, htied, others, υ', hothers, hpure⟩
    cases hpure
    exact ⟨tied, τ, others, htied, hothers, rfl⟩
  · rintro ⟨tied, τ, others, htied, hothers, rfl⟩
    exact ⟨tied, τ, htied, others, υ, hothers, rfl⟩

/-- Two neighbours of which at most one is tied to an item can be swapped in the search for its
context. -/
theorem contextOf_swap {a b : α} {rest : List α}
    (hone : ¬ (relation a item σ = .ok true σ ∧ relation b item σ = .ok true σ)) {before : List α}
    (hpure : ∀ r ∈ before ++ [a, b], ∀ {tied τ}, relation r item σ = .ok tied τ → τ = σ) :
    ∀ {context : List α} {υ : Store},
      contextOf relation item (before ++ a :: b :: rest) σ = .ok context υ →
      contextOf relation item (before ++ b :: a :: rest) σ = .ok context υ := by
  induction before with
  | nil =>
      intro context υ h
      obtain ⟨tied, τ, others, ha, hothers, rfl⟩ := contextOf_cons_ok.mp h
      obtain rfl := hpure a (by simp) ha
      obtain ⟨tied', τ, others', hb, hrest, rfl⟩ := contextOf_cons_ok.mp hothers
      obtain rfl := hpure b (by simp) hb
      refine contextOf_cons_ok.mpr ⟨tied', _, _, hb, contextOf_cons_ok.mpr
        ⟨tied, _, _, ha, hrest, rfl⟩, ?_⟩
      cases tied <;> cases tied' <;> first | rfl | exact absurd ⟨ha, hb⟩ hone
  | cons r before ih =>
      intro context υ h
      obtain ⟨tied, τ, others, hr, hothers, rfl⟩ := contextOf_cons_ok.mp h
      obtain rfl := hpure r List.mem_cons_self hr
      exact contextOf_cons_ok.mpr ⟨tied, _, others, hr,
        ih (fun r' hr' => hpure r' (List.mem_cons_of_mem r hr')) hothers, rfl⟩

/-- What is in the context of an item is tied to it. -/
theorem tied_of_mem_contextOf {records : List α}
    (hpure : ∀ r ∈ records, ∀ {tied τ}, relation r item σ = .ok tied τ → τ = σ) :
    ∀ {context : List α} {υ : Store}, contextOf relation item records σ = .ok context υ →
      ∀ r ∈ context, r ∈ records ∧ relation r item σ = .ok true σ := by
  induction records with
  | nil =>
      intro context υ h
      cases h
      simp
  | cons record rest ih =>
      intro context υ h r hr
      obtain ⟨tied, τ, others, hrecord, hothers, rfl⟩ := contextOf_cons_ok.mp h
      obtain rfl := hpure record List.mem_cons_self hrecord
      have hrest := ih (fun r' hr' => hpure r' (List.mem_cons_of_mem record hr')) hothers
      cases tied with
      | false =>
          obtain ⟨hmem, htied⟩ := hrest r hr
          exact ⟨List.mem_cons_of_mem record hmem, htied⟩
      | true =>
          rcases List.mem_cons.mp hr with rfl | hr
          · exact ⟨List.mem_cons_self, hrecord⟩
          · obtain ⟨hmem, htied⟩ := hrest r hr
            exact ⟨List.mem_cons_of_mem record hmem, htied⟩

end

end Rubric
