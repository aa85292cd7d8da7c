import Rubric.Proofs.KeyOrder
import Rubric.Proofs.Value.Data
import Rubric.Script.Builtin

/-!
# First records of their keys

The keys that can be looked up are searched for by their digests, and the others one by one.  For keys
that are data both come to one search by form: a key found in the place of another has its form, so it
is kept where that one is and has its digest.  So the records kept are those whose key is new among all
keys before, however these were kept.

* `firsts` : the elements whose form comes first;
* `SeenKeys.StandFor` : which forms the keys met so far have;
* `distinctFrom_of_forms` : the records kept are those whose form comes first;
* `distinctItems_by_linear_search` : so a search of every key among all before it keeps the same, and
  `DISTINCT` does.
-/

namespace Rubric

open Value

/-! ## First occurrences -/

section

variable {α β F : Type}

open Classical in
/-- The elements whose form is not among those met, nor that of an element before. -/
noncomputable def firsts (met : List F) : List F → List α → List α
  | form :: forms, a :: as =>
    if form ∈ met then firsts met forms as else a :: firsts (form :: met) forms as
  | _, _ => []

/-- Which elements come first shows in the forms only. -/
theorem firsts_map (g : α → β) {met : List F} {forms : List F} {as : List α} :
    firsts met forms (as.map g) = (firsts met forms as).map g := by
  induction forms generalizing met as with
  | nil => rfl
  | cons form forms ih =>
      cases as with
      | nil => rfl
      | cons a as =>
          simp only [List.map_cons, firsts]
          split
          · exact ih
          · rw [ih, List.map_cons]

/-- The first elements are some of the elements, in order. -/
theorem firsts_sublist {met : List F} {forms : List F} {as : List α} :
    (firsts met forms as).Sublist as := by
  induction forms generalizing met as with
  | nil => exact List.nil_sublist _
  | cons form forms ih =>
      cases as with
      | nil => exact .slnil
      | cons a as =>
          rw [firsts]
          split
          · exact .cons a ih
          · exact .cons_cons a ih

/-- Where the form of an element is new, an element with its form comes first. -/
theorem exists_first (form : α → F) {as : List α} :
    ∀ {met : List F}, ∀ a ∈ as, form a ∉ met → ∃ b ∈ firsts met (as.map form) as, form b = form a := by
  induction as with
  | nil => exact fun _ ha => absurd ha List.not_mem_nil
  | cons c as ih =>
      intro met a ha hnew
      rw [List.map_cons, firsts]
      by_cases hca : form c = form a
      · rw [if_neg (hca ▸ hnew)]
        exact ⟨c, List.mem_cons_self, hca⟩
      · have ha : a ∈ as := (List.mem_cons.mp ha).resolve_left fun h => hca (h ▸ rfl)
        split
        · exact ih a ha hnew
        · obtain ⟨b, hb, hform⟩ :=
            ih a ha fun h => (List.mem_cons.mp h).elim (fun h => hca h.symm) hnew
          exact ⟨b, .tail c hb, hform⟩

/-- Among positions in order, those come first whose form is new and not that of a position before. -/
theorem mem_firsts {n : Nat} (form : Fin n → F) {as : List (Fin n)} (has : as.Pairwise (· < ·))
    {a : Fin n} :
    ∀ {met : List F}, a ∈ firsts met (as.map form) as ↔
      a ∈ as ∧ form a ∉ met ∧ ∀ b ∈ as, b < a → form b ≠ form a := by
  induction as with
  | nil => simp [firsts]
  | cons c as ih =>
      intro met
      obtain ⟨hc, has⟩ := List.pairwise_cons.mp has
      rw [List.map_cons, firsts]
      split
      -- the form of the first position was met: that position is passed over
      · rename_i hmet
        rw [ih has]
        constructor
        · rintro ⟨ha, hnew, hbefore⟩
          refine ⟨.tail _ ha, hnew, List.forall_mem_cons.mpr ⟨fun _ heq => ?_, hbefore⟩⟩
          exact hnew (heq ▸ hmet)
        · rintro ⟨ha, hnew, hbefore⟩
          rcases List.mem_cons.mp ha with rfl | ha
          · exact absurd hmet hnew
          · exact ⟨ha, hnew, (List.forall_mem_cons.mp hbefore).2⟩
      · rename_i hmet
        rw [List.mem_cons, ih has]
        constructor
        · rintro (rfl | ⟨ha, hnew, hbefore⟩)
          · refine ⟨List.mem_cons_self, hmet, List.forall_mem_cons.mpr ⟨fun h => ?_, fun b hb h => ?_⟩⟩
            · exact absurd h (Fin.lt_irrefl a)
            · exact absurd (Fin.lt_trans h (hc b hb)) (Fin.lt_irrefl b)
          · obtain ⟨hfirst, hnew⟩ := not_or.mp (mt List.mem_cons.mpr hnew)
            exact ⟨.tail _ ha, hnew, List.forall_mem_cons.mpr ⟨fun _ => Ne.symm hfirst, hbefore⟩⟩
        · rintro ⟨ha, hnew, hbefore⟩
          rcases List.mem_cons.mp ha with rfl | ha
          · exact .inl rfl
          · obtain ⟨hfirst, hbefore⟩ := List.forall_mem_cons.mp hbefore
            exact .inr ⟨ha, fun h => (List.mem_cons.mp h).elim (Ne.symm (hfirst (hc a ha))) hnew, hbefore⟩

end

/-! ### Positions -/

section

variable {n : Nat} {F : Type} {form : Fin n → F} {i : Fin n}

/-- The positions whose form comes first. -/
noncomputable def firstPositions (form : Fin n → F) : List (Fin n) :=
  firsts [] ((List.finRange n).map form) (List.finRange n)

/-- They are those whose form no position before has. -/
theorem mem_firstPositions : i ∈ firstPositions form ↔ ∀ j < i, form j ≠ form i := by
  simp [firstPositions, mem_firsts form (List.pairwise_lt_finRange n)]

/-- They are in order. -/
theorem ascending_firstPositions (form : Fin n → F) : (firstPositions form).Pairwise (· < ·) :=
  (List.pairwise_lt_finRange n).sublist firsts_sublist

/-- Every position has the form of one of them. -/
theorem exists_firstPosition (form : Fin n → F) (i : Fin n) :
    ∃ j ∈ firstPositions form, form j = form i :=
  exists_first form i (List.mem_finRange i) List.not_mem_nil

/-- A list is that of what is at its positions. -/
theorem exists_map_finRange {β : Type} {as : List β} (h : as.length = n) :
    ∃ f : Fin n → β, as = (List.finRange n).map f := by
  subst h
  exact ⟨as.get, (List.map_get_finRange as).symm⟩

end

/-! ## Keys met so far -/

namespace SeenKeys

/-- Whether the keys met are those of some forms: the digested ones those of plain forms, with their
digests, and the listed ones those of the others. -/
structure StandFor (σ : Store) (seen : SeenKeys) (met : List DataForm) : Prop where
  digested : ∀ entry ∈ seen.digested, ∃ form ∈ met, entry.2.HasForm σ form ∧ form.plain?.isSome ∧
    entry.1 = entry.2.digest σ
  listed : ∀ k ∈ seen.listed, ∃ form ∈ met, k.HasForm σ form
  plain_mem : ∀ form ∈ met, form.plain?.isSome → ∃ entry ∈ seen.digested, entry.2.HasForm σ form
  other_mem : ∀ form ∈ met, ¬ form.plain?.isSome → ∃ k ∈ seen.listed, k.HasForm σ form

variable {σ τ : Store} {seen : SeenKeys} {forms : List DataForm}

/-- No keys stand for no forms. -/
theorem standFor_empty (σ : Store) : empty.StandFor σ [] :=
  ⟨nofun, nofun, nofun, nofun⟩

/-- Keys with a plain form have one digest, in whatever store. -/
theorem digest_of_form {k k' : Value} {form : DataForm} (h : k.HasForm σ form) (h' : k'.HasForm τ form)
    (hplain : form.plain?.isSome) : k.digest σ = k'.digest τ := by
  obtain ⟨p, hp⟩ := Option.isSome_iff_exists.mp hplain
  rw [digest, digest, digestWith_of_plain _ k (h.plain.1.trans hp),
    digestWith_of_plain _ k' (h'.plain.1.trans hp)]

/-- The keys stand for the same forms in a grown store. -/
theorem StandFor.grown (h : seen.StandFor σ forms) (hgrown : σ.GrownTo τ) : seen.StandFor τ forms where
  digested entry hentry := by
    obtain ⟨form, hmem, hform, hplain, hdigest⟩ := h.digested entry hentry
    exact ⟨form, hmem, hform.grown hgrown, hplain,
      hdigest.trans (digest_of_form hform (hform.grown hgrown) hplain)⟩
  listed k hk := (h.listed k hk).imp fun _ => And.imp_right fun hform => hform.grown hgrown
  plain_mem form hmem hplain :=
    (h.plain_mem form hmem hplain).imp fun _ => And.imp_right fun hform => hform.grown hgrown
  other_mem form hmem hother :=
    (h.other_mem form hmem hother).imp fun _ => And.imp_right fun hform => hform.grown hgrown

/-- A key is known exactly where its form was met. -/
theorem StandFor.known (h : seen.StandFor σ forms) {k : Value} {form : DataForm}
    (hk : k.HasForm σ form) :
    ∃ known, seen.known σ k = .ok known ∧ (known = true ↔ form ∈ forms) := by
  have hplain := hk.plain.2
  unfold SeenKeys.known
  cases hhashable : k.unhashable? σ with
  | none =>
      have hplain := hplain.mp hhashable
      -- of the keys with the digest of this one, those that it is compared with
      have hcandidates : ∀ v ∈ (seen.digested.filter fun entry => entry.1 == k.digest σ).map Prod.snd,
          ∃ form' ∈ forms, v.HasForm σ form' := by
        intro v hv
        obtain ⟨entry, hentry, rfl⟩ := List.mem_map.mp hv
        obtain ⟨form', hmem, hform', -⟩ := h.digested entry (List.mem_of_mem_filter hentry)
        exact ⟨form', hmem, hform'⟩
      obtain ⟨known, hknown, hiff⟩ := hk.foundIn fun v hv => (hcandidates v hv).imp fun _ => And.right
      refine ⟨known, hknown, hiff.trans ⟨?_, fun hmem => ?_⟩⟩
      · rintro ⟨v, hv, hform⟩
        obtain ⟨form', hmem, hform'⟩ := hcandidates v hv
        exact hform.unique hform' ▸ hmem
      · obtain ⟨entry, hentry, hform⟩ := h.plain_mem form hmem hplain
        obtain ⟨form', -, -, -, hdigest⟩ := h.digested entry hentry
        refine ⟨entry.2, List.mem_map_of_mem (List.mem_filter.mpr ⟨hentry, ?_⟩), hform⟩
        rw [hdigest, digest_of_form hform hk hplain]
        exact beq_self_eq_true _
  | some type =>
      have hother : ¬ form.plain?.isSome := fun hsome => by
        rw [hplain.mpr hsome] at hhashable
        cases hhashable
      obtain ⟨known, hknown, hiff⟩ := hk.foundIn fun v hv => (h.listed v hv).imp fun _ => And.right
      refine ⟨known, hknown, hiff.trans ⟨?_, fun hmem => h.other_mem form hmem hother⟩⟩
      rintro ⟨v, hv, hform⟩
      obtain ⟨form', hmem, hform'⟩ := h.listed v hv
      exact hform.unique hform' ▸ hmem

/-- One more key stands for one more form. -/
theorem StandFor.met (h : seen.StandFor σ forms) {k : Value} {form : DataForm} (hk : k.HasForm σ form) :
    (seen.met σ k).StandFor σ (form :: forms) := by
  have hplain := hk.plain.2
  unfold SeenKeys.met
  cases hhashable : k.unhashable? σ with
  | none =>
      have hplain := hplain.mp hhashable
      refine ⟨List.forall_mem_cons.mpr ⟨⟨form, .head _, hk, hplain, rfl⟩, fun entry hentry => ?_⟩,
        fun v hv => ?_, List.forall_mem_cons.mpr ⟨fun _ => ⟨_, .head _, hk⟩, fun form' hmem hform' => ?_⟩,
        List.forall_mem_cons.mpr ⟨fun hother => absurd hplain hother, h.other_mem⟩⟩
      · exact (h.digested entry hentry).imp fun _ => And.imp_left (.tail _)
      · exact (h.listed v hv).imp fun _ => And.imp_left (.tail _)
      · exact (h.plain_mem form' hmem hform').imp fun _ => And.imp_left (.tail _)
  | some type =>
      have hother : ¬ form.plain?.isSome := fun hsome => by
        rw [hplain.mpr hsome] at hhashable
        cases hhashable
      refine ⟨fun entry hentry => ?_, List.forall_mem_append.mpr ⟨fun v hv => ?_, ?_⟩,
        List.forall_mem_cons.mpr ⟨fun hsome => absurd hsome hother, h.plain_mem⟩,
        List.forall_mem_cons.mpr ⟨fun _ => ⟨k, by simp, hk⟩, fun form' hmem hform' => ?_⟩⟩
      · exact (h.digested entry hentry).imp fun _ => And.imp_left (.tail _)
      · exact (h.listed v hv).imp fun _ => And.imp_left (.tail _)
      · simpa using .inl hk
      · obtain ⟨v, hv, hform⟩ := h.other_mem form' hmem hform'
        exact ⟨v, List.mem_append_left _ hv, hform⟩

end SeenKeys

/-! ## Records and their keys -/

section

variable {α : Type} {key : α → Eval Value} {σ τ : Store}

/-- Whether every record has a key with a property, also once the store has grown; finding the key makes
the store grow at most. -/
def KeyedAs (σ : Store) (key : α → Eval Value) (records : List α) (P : α → Store → Value → Prop) : Prop :=
  ∀ r ∈ records, ∀ τ, σ.GrownTo τ → ∃ k υ, key r τ = .ok k υ ∧ τ.GrownTo υ ∧ P r υ k

/-- The keys of a grown store have every weaker property. -/
theorem KeyedAs.imp {records : List α} {P Q : α → Store → Value → Prop} (h : KeyedAs σ key records P)
    (himp : ∀ r ∈ records, ∀ υ k, P r υ k → Q r υ k) : KeyedAs σ key records Q := by
  intro r hr τ hτ
  obtain ⟨k, υ, hkey, hυ, hk⟩ := h r hr τ hτ
  exact ⟨k, υ, hkey, hυ, himp r hr υ k hk⟩

/-- So has every part of the records, once the store has grown. -/
theorem KeyedAs.later {records part : List α} {P : α → Store → Value → Prop}
    (h : KeyedAs σ key records P) (hpart : ∀ r ∈ part, r ∈ records) (hgrown : σ.GrownTo τ) :
    KeyedAs τ key part P :=
  fun r hr υ hυ => h r (hpart r hr) υ (hgrown.trans hυ)

/-- A record is the first of its key exactly where the form of the key was not met. -/
theorem firstOfKey?_of_form {seen : SeenKeys} {met : List DataForm} (hseen : seen.StandFor σ met)
    {r : α} {k : Value} {form : DataForm} (hkey : key r σ = .ok k τ) (hgrown : σ.GrownTo τ)
    (hform : k.HasForm τ form) :
    ∃ found, firstOfKey? key seen r σ = .ok found τ ∧ (form ∈ met → found = none) ∧
      (form ∉ met → ∃ seen', found = some seen' ∧ seen'.StandFor τ (form :: met)) := by
  have hseen := hseen.grown hgrown
  obtain ⟨known, hknown, hiff⟩ := hseen.known hform
  have hfirst : firstOfKey? key seen r σ
      = .ok (if known then none else some (seen.met τ k)) τ := by
    rw [firstOfKey?, bind_of_ok hkey, bind_of_ok (get_ok τ), SeenKeys.insert?_eq, hknown]
    rfl
  refine ⟨_, hfirst, fun hmem => if_pos (hiff.mpr hmem), fun hnew => ?_⟩
  exact ⟨_, if_neg fun h => hnew (hiff.mp h), hseen.met hform⟩

/-- The records kept are those whose form comes first. -/
theorem distinctFrom_of_forms {Q : α → DataForm → Prop} {records : List α} :
    ∀ {σ : Store} {seen : SeenKeys} {met : List DataForm}, seen.StandFor σ met →
      KeyedAs σ key records (fun r υ k => ∃ form, Q r form ∧ k.HasForm υ form) →
      ∃ keys forms υ, records.mapM key σ = .ok keys υ ∧ σ.GrownTo υ ∧
        List.Forall₂ (HasForm υ) keys forms ∧ List.Forall₂ Q records forms ∧
        distinctFrom key seen records σ = .ok (firsts met forms records) υ := by
  -- the keys met so far stand for the forms met so far, also once the store has grown
  induction records with
  | nil => exact fun _ _ => ⟨[], [], _, rfl, .refl _, .nil, .nil, rfl⟩
  | cons r records ih =>
      intro σ seen met hseen hkeys
      obtain ⟨k, τ, hkey, hτ, form, hQ, hform⟩ := hkeys r List.mem_cons_self σ (.refl σ)
      obtain ⟨found, hfirst, hmet, hnew⟩ := firstOfKey?_of_form hseen hkey hτ hform
      have hrest := hkeys.later (fun _ => .tail r) hτ
      have hmapM {keys : List Value} {υ : Store} (h : records.mapM key τ = .ok keys υ) :
          (r :: records).mapM key σ = .ok (k :: keys) υ := by
        rw [List.mapM_cons, bind_of_ok hkey, bind_of_ok h]
        rfl
      by_cases hmem : form ∈ met
      · obtain ⟨keys, forms, υ, hall, hυ, hforms, hQs, hkept⟩ := ih (hseen.grown hτ) hrest
        refine ⟨k :: keys, form :: forms, υ, hmapM hall, hτ.trans hυ, .cons (hform.grown hυ) hforms,
          .cons hQ hQs, ?_⟩
        rw [distinctFrom, bind_of_ok hfirst, hmet hmem, firsts, if_pos hmem]
        exact hkept
      · obtain ⟨seen', rfl, hseen'⟩ := hnew hmem
        obtain ⟨keys, forms, υ, hall, hυ, hforms, hQs, hkept⟩ := ih hseen' hrest
        refine ⟨k :: keys, form :: forms, υ, hmapM hall, hτ.trans hυ, .cons (hform.grown hυ) hforms,
          .cons hQ hQs, ?_⟩
        rw [distinctFrom, bind_of_ok hfirst, firsts, if_neg hmem]
        show (distinctFrom key seen' records >>= _) τ = _
        rw [bind_of_ok hkept]
        rfl

end

/-! ## Values that are searched for in a list -/

section

variable {σ : Store}

/-- The values kept are those whose form comes first. -/
theorem distinctValues_of_forms {values : List Value} :
    ∀ {forms met : List DataForm} {kept : List Value}, List.Forall₂ (HasForm σ) values forms →
      (∀ v ∈ kept, ∃ form ∈ met, v.HasForm σ form) →
      (∀ form ∈ met, ∃ v ∈ kept, v.HasForm σ form) →
      Script.distinctValues σ kept values = .ok (kept ++ firsts met forms values) := by
  induction values with
  | nil =>
      intro forms met kept hforms _ _
      cases hforms
      simp [Script.distinctValues, firsts]
  | cons v values ih =>
      intro forms met kept hforms hkept hmet
      obtain ⟨form, forms, hform, hrest, rfl⟩ := List.forall₂_cons_left_iff.mp hforms
      obtain ⟨known, hknown, hiff⟩ := hform.foundIn fun w hw => (hkept w hw).imp fun _ => And.right
      -- a value is known where its form is, since the values kept stand for the forms met
      have hmem : known = true ↔ form ∈ met := by
        refine hiff.trans ⟨?_, hmet form⟩
        rintro ⟨w, hw, hsame⟩
        obtain ⟨form', hmem, hform'⟩ := hkept w hw
        exact hsame.unique hform' ▸ hmem
      rw [Script.distinctValues, hknown, firsts]
      cases known with
      | true =>
          rw [if_pos (hmem.mp rfl)]
          exact ih hrest hkept hmet
      | false =>
          rw [if_neg (by simp [← hmem])]
          have hkept : ∀ w ∈ kept ++ [v], ∃ g ∈ form :: met, w.HasForm σ g := by
            refine List.forall_mem_append.mpr ⟨fun w hw => ?_, by simpa using .inl hform⟩
            exact (hkept w hw).imp fun _ => And.imp_left (.tail _)
          have hmet : ∀ g ∈ form :: met, ∃ w ∈ kept ++ [v], w.HasForm σ g := by
            refine List.forall_mem_cons.mpr ⟨⟨v, by simp, hform⟩, fun g hg => ?_⟩
            exact (hmet g hg).imp fun _ => And.imp_left (List.mem_append_left _)
          exact (ih hrest hkept hmet).trans (by rw [List.append_assoc, List.singleton_append])

end

/-! ## New keys -/

section

variable {σ : Store} {n : Nat}

/-- Whether the positions kept are those whose key is neither identical nor equal to the key of any
position before, in order. -/
structure KeepsNew (σ : Store) (keys : Fin n → Value) (kept : List (Fin n)) : Prop where
  ascending : kept.Pairwise (· < ·)
  mem_iff : ∀ i, i ∈ kept ↔
    ∀ j < i, identical (keys j) (keys i) = false ∧ (keys j).equal σ (keys i) = .ok false

/-- What is not found in the place of another value is neither identical nor equal to it. -/
theorem found_eq_false_iff {a b : Value} :
    a.found σ b = .ok false ↔ identical a b = false ∧ a.equal σ b = .ok false := by
  rw [found, matchWith, equal]
  cases identical a b <;> simp [settled]

/-- The positions whose form comes first are those of the new keys. -/
theorem keepsNew_firstPositions {keys : Fin n → Value} {form : Fin n → DataForm}
    (h : ∀ i, (keys i).HasForm σ (form i)) : KeepsNew σ keys (firstPositions form) where
  ascending := ascending_firstPositions form
  mem_iff i := by
    have hnew (j : Fin n) : form j ≠ form i ↔
        identical (keys j) (keys i) = false ∧ (keys j).equal σ (keys i) = .ok false := by
      obtain ⟨answer, hanswer, hiff⟩ := (h j).found (h i)
      rw [← found_eq_false_iff, hanswer, Except.ok.injEq, ne_eq, ← hiff, Bool.not_eq_true]
    simp only [mem_firstPositions, hnew]

end

section

variable {α : Type} {key : α → Eval Value} {records : List α} {σ : Store}

open Script

/-- Finding the first records of all keys, for which keys that can be looked up are looked up by their
digests and the others are searched for one by one, comes to a search of each key among all before it: it
keeps the records whose key is neither identical nor equal to an earlier one.  Among the values themselves
it keeps what `DISTINCT` does. -/
theorem distinctItems_by_linear_search
    (hkeys : KeyedAs σ key records fun _ υ k => k.BuiltFrom υ IsScalar fun _ => True)
    {collection : Value} {values : List Value} (hitems : itemsOrNone collection σ = .ok values σ)
    (hvalues : ∀ v ∈ values, v.BuiltFrom σ IsScalar fun _ => True) (env : Environment) :
    (∃ (keys : Fin records.length → Value) (kept : List (Fin records.length)) (υ : Store),
      records.mapM key σ = .ok ((List.finRange _).map keys) υ ∧ KeepsNew υ keys kept ∧
        distinctItems key records σ = .ok (kept.map records.get) υ) ∧
      ∃ kept, distinctItems pure values σ = .ok kept σ ∧
        Builtin.distinct.call env [collection] σ = Eval.newList kept σ := by
  refine ⟨?_, ?_⟩
  · have hforms : KeyedAs σ key records fun _ υ k => ∃ form, True ∧ k.HasForm υ form :=
      hkeys.imp fun _ _ _ _ hk => by simpa using hk.exists_form fun _ => id
    obtain ⟨keys, forms, υ, hall, -, hkeys, hrecords, hkept⟩ :=
      distinctFrom_of_forms (SeenKeys.standFor_empty σ) hforms
    -- keys and forms are taken as functions of the positions
    obtain ⟨form, rfl⟩ := exists_map_finRange hrecords.length_eq.symm
    obtain ⟨k, rfl⟩ := exists_map_finRange (hkeys.length_eq.trans hrecords.length_eq.symm)
    have hform : ∀ i, (k i).HasForm υ (form i) := by
      simpa [List.forall₂_map_left_iff, List.forall₂_map_right_iff, List.forall₂_same] using hkeys
    refine ⟨k, _, υ, hall, keepsNew_firstPositions hform, ?_⟩
    rw [distinctItems, hkept, firstPositions, ← firsts_map, List.map_get_finRange]
  -- both ways of keeping values keep the first of every form
  · obtain ⟨forms, hforms⟩ := exists_forall₂ fun v hv => (hvalues v hv).exists_form fun _ => id
    have hdistinct : Builtin.distinct.call env [collection] σ
        = Eval.newList (firsts [] forms values) σ := by
      show (itemsOrNone collection >>= _) σ = _
      rw [bind_of_ok hitems, bind_of_ok (get_ok σ)]
      have hkept : distinctValues σ [] values = .ok (firsts [] forms values) :=
        distinctValues_of_forms hforms (by simp) (by simp)
      rw [hkept]
      rfl
    refine ⟨_, ?_, hdistinct⟩
    have hpure : KeyedAs σ pure values fun v υ k => ∃ form, v.HasForm σ form ∧ k.HasForm υ form := by
      intro v hv τ hτ
      obtain ⟨form, hform⟩ := (hvalues v hv).exists_form fun _ => id
      exact ⟨v, τ, rfl, .refl τ, form, hform, hform.grown hτ⟩
    obtain ⟨keys, forms', υ, hall, -, -, hforms', hkept⟩ :=
      distinctFrom_of_forms (SeenKeys.standFor_empty σ) hpure
    obtain rfl : forms' = forms :=
      List.right_unique_forall₂' (fun _ _ _ h h' => h.unique h') hforms' hforms
    rw [List.mapM_pure] at hall
    cases hall
    rw [distinctItems, hkept]

/-- Two mappings with the same entries, in another order. -/
def mirroredStore : Store :=
  ⟨#[[(.str "a", .int 1), (.str "b", .null)], [(.str "b", .null), (.str "a", .bool true)]], #[], 0,
    ⟨0, none, 1⟩⟩

/-- Keys that can be looked up and keys that cannot. -/
def mixedKeys : List Value :=
  [.int 1, .list ⟨0, none, 0⟩ [.int 1], .bool true, .mapping 0, .tuple [.list ⟨0, none, 0⟩ [.int 1]],
    .mapping 1]

/-- They are built from ordinary values. -/
theorem builtFrom_mixed : ∀ v ∈ mixedKeys, v.BuiltFrom mirroredStore IsOrdinary fun _ => True := by
  have hleaf {v : Value} (h : v.IsOrdinary) : v.BuiltFrom mirroredStore IsOrdinary fun _ => True :=
    .leaf h
  have hlist : (Value.list ⟨0, none, 0⟩ [.int 1]).BuiltFrom mirroredStore IsOrdinary fun _ => True :=
    .list (List.forall_mem_singleton.mpr (hleaf trivial))
  have hfirst : (Value.mapping 0).BuiltFrom mirroredStore IsOrdinary fun _ => True :=
    .of_texts (by decide) [("a", .int 1), ("b", .null)] rfl (fun _ => ⟨trivial, trivial⟩) (by decide)
      (List.forall_mem_cons.mpr ⟨hleaf trivial, List.forall_mem_singleton.mpr (hleaf trivial)⟩)
  have hsecond : (Value.mapping 1).BuiltFrom mirroredStore IsOrdinary fun _ => True :=
    .of_texts (by decide) [("b", .null), ("a", .bool true)] rfl (fun _ => ⟨trivial, trivial⟩) (by decide)
      (List.forall_mem_cons.mpr ⟨hleaf trivial, List.forall_mem_singleton.mpr (hleaf trivial)⟩)
  simp only [mixedKeys, List.forall_mem_cons]
  exact ⟨hleaf trivial, hlist, hleaf trivial, hfirst, .tuple (List.forall_mem_singleton.mpr hlist),
    hsecond, nofun⟩

/-- The same keys after one that is no number, which is identical to itself. -/
def mixedKeysAfterNan : List Value := .nan ⟨0, none, 0⟩ :: .nan ⟨0, none, 0⟩ :: mixedKeys

/-- Of these, the first two are one key, and so are `1` and `True` and the two mappings. -/
theorem distinctItems_by_linear_search_mixed : ∃ keys kept υ,
    mixedKeysAfterNan.mapM (pure : Value → Eval Value) mirroredStore
        = .ok ((List.finRange mixedKeysAfterNan.length).map keys) υ ∧
      KeepsNew υ keys kept ∧
        distinctItems pure mixedKeysAfterNan mirroredStore
          = .ok (kept.map mixedKeysAfterNan.get) υ := by
  have hbuilt : ∀ v ∈ mixedKeysAfterNan, v.BuiltFrom mirroredStore IsScalar fun _ => True := by
    refine List.forall_mem_cons.mpr ⟨.leaf trivial, List.forall_mem_cons.mpr ⟨.leaf trivial, ?_⟩⟩
    exact fun v hv => (builtFrom_mixed v hv).mono (fun _ => IsOrdinary.isScalar) fun _ => id
  have hkeys : KeyedAs mirroredStore pure mixedKeysAfterNan
      fun _ υ k => k.BuiltFrom υ IsScalar fun _ => True :=
    fun v hv τ hτ => ⟨v, τ, rfl, .refl τ, (hbuilt v hv).grown (fun _ => id) hτ⟩
  have hitems : itemsOrNone (.tuple mixedKeysAfterNan) mirroredStore
      = .ok mixedKeysAfterNan mirroredStore := rfl
  exact (distinctItems_by_linear_search hkeys hitems hbuilt ⟨.empty, .null, .null⟩).1

end

end Rubric
