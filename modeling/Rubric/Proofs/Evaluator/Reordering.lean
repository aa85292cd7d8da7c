import Rubric.Proofs.Classification
import Rubric.Proofs.Evaluator.Independence

/-!
# Items in another order

Isolated records are swapped one pair of neighbours after the other.  Where the two are not linked by their
keys, the items are found, visited and reported on as before, but for the order of the two.  So a
reordering that keeps the order of linked records leaves the same contents of values and the same records
under every label.

* `exists_report_of_perm` : reports that can be made whatever the order of the labels;
* `Carried`, `carried_swap` : what carrying out a plan comes to, before and after a swap;
* `carryOut_reordered` : plans that are carried out over reordered records.
-/

namespace Rubric

open Rubric.Script
open Value (Place)
open Value

/-! ## Reports that can be made -/

/-- Whether a computation succeeds in every store where it does in one. -/
def Eval.SucceedsAlike {α : Type} (action : Eval α) : Prop :=
  ∀ σ τ : Store, (∃ a σ', action σ = .ok a σ') → ∃ a τ', action τ = .ok a τ'

namespace Eval.SucceedsAlike

variable {α β : Type}

theorem of_throw (fault : Fault) : SucceedsAlike (throw fault : Eval α) := by
  rintro σ τ ⟨a, σ', h⟩
  cases h

theorem ofFloat (x : Option Number.Binary64) : SucceedsAlike (Eval.ofFloat x) := by
  intro σ τ _
  cases x <;> exact ⟨_, _, rfl⟩

/-- What follows an answer that is the same everywhere. -/
theorem answer_bind {answer : Except Fault α} {next : α → Eval β}
    (h : ∀ a, answer = .ok a → SucceedsAlike (next a)) :
    SucceedsAlike (Eval.ofExcept answer >>= next) := by
  cases answer with
  | error fault => exact of_throw fault
  | ok a => exact h a rfl

/-- Looking at a store that does not matter. -/
theorem get_bind {action : Eval β} (h : SucceedsAlike action) :
    SucceedsAlike (get >>= fun _ => action) := h

/-- A new tag that does not matter. -/
theorem fresh_bind {action : Eval β} (h : SucceedsAlike action) :
    SucceedsAlike (Eval.freshTag >>= fun _ => action) :=
  fun _ _ hok => h _ _ hok

end Eval.SucceedsAlike

open Eval (SucceedsAlike)

/-- Operations on doubles succeed alike. -/
theorem succeedsAlike_onDoubles (op : Number.Binary64 → Number.Binary64 → Option Number.Binary64)
    (a b : NumberView) : SucceedsAlike (onDoubles op a b) := by
  refine .answer_bind fun x _ => .answer_bind fun y _ => ?_
  split <;> exact .ofFloat _

/-- A count can be divided by a double everywhere where it can be. -/
theorem succeedsAlike_div (n : Int) (x : Number.Binary64) :
    SucceedsAlike ((Value.int n).div (.float x)) := by
  unfold div
  split
  · exact .of_throw _
  · exact succeedsAlike_onDoubles _ _ _

/-- A count is divided by what is no number as doubles are. -/
theorem int_div_nan (n : Int) (tag : Tag) :
    (Value.int n).div (.nan tag) = onDoubles Number.Binary64.div? (.int n) .nan := by
  have hnan : (Value.nan tag).equalsZero = false := rfl
  rw [div, hnan]
  rfl

/-- The share of a count in a total is found everywhere where it is. -/
theorem succeedsAlike_percentage (count total : Nat) :
    SucceedsAlike (percentage (.int count) (.int total)) := by
  have hscaled : (Value.int count).mul (.int 100) = pure (.int (count * 100)) := rfl
  have hdecimal (σ : Store) : (Value.int total).toDecimal σ = (NumberView.int total).toDouble := rfl
  unfold percentage
  split
  · exact .of_throw _
  · rw [hscaled, pure_bind]
    simp only [hdecimal]
    refine .get_bind (.answer_bind fun x _ => ?_)
    cases x with
    | none =>
        simp only [int_div_nan]
        exact .fresh_bind (succeedsAlike_onDoubles _ _ _)
    | some x =>
        show SucceedsAlike (shareOf (.int (count * 100)) x)
        unfold shareOf
        split
        · exact .answer_bind fun _ _ => .of_throw _
        · rename_i hnone
          cases hnone
        · exact succeedsAlike_div _ _

/-- The shares of some counts are found where that of each is. -/
theorem shares_ok {total : Nat} {counts : List (String × Nat)} :
    ∀ {σ : Store}, (∃ stats τ, shares (.int total) counts σ = .ok stats τ) ↔
      ∀ entry ∈ counts, (Value.int total).equalsZero = true ∨
        ∃ v τ, percentage (.int entry.2) (.int total) σ = .ok v τ := by
  induction counts with
  | nil => exact fun {σ} => ⟨fun _ _ h => by simp at h, fun _ => ⟨[], σ, rfl⟩⟩
  | cons entry counts ih =>
      obtain ⟨label, count⟩ := entry
      intro σ
      rw [List.forall_mem_cons]
      -- the other shares are found from any store
      have hrest (τ : Store) : (∃ stats υ, shares (.int total) counts τ = .ok stats υ) ↔
          ∃ stats υ, shares (.int total) counts σ = .ok stats υ := by
        rw [ih, ih]
        refine forall₂_congr fun entry _ => or_congr Iff.rfl ⟨?_, ?_⟩
        · exact succeedsAlike_percentage entry.2 total τ σ
        · exact succeedsAlike_percentage entry.2 total σ τ
      rw [← ih, shares]
      split
      · rename_i hzero
        constructor
        · rintro ⟨stats, τ, h⟩
          obtain ⟨_, _, hnone, h⟩ := bind_ok.mp h
          cases hnone
          obtain ⟨others, υ, hothers, -⟩ := bind_ok.mp h
          exact ⟨.inl hzero, others, υ, hothers⟩
        · rintro ⟨-, others, υ, hothers⟩
          exact ⟨_, υ, (bind_of_ok hothers).trans rfl⟩
      · rename_i hzero
        constructor
        · rintro ⟨stats, τ, h⟩
          obtain ⟨v, υ, hv, h⟩ := bind_ok.mp h
          obtain ⟨_, _, hsome, h⟩ := bind_ok.mp h
          cases hsome
          obtain ⟨others, υ', hothers, -⟩ := bind_ok.mp h
          exact ⟨.inr ⟨v, υ, hv⟩, (hrest υ).mp ⟨others, υ', hothers⟩⟩
        · rintro ⟨hfirst, hothers⟩
          obtain ⟨v, υ, hv⟩ := hfirst.resolve_left hzero
          obtain ⟨others, υ', hothers⟩ := (hrest υ).mpr hothers
          exact ⟨_, υ', (bind_of_ok hv).trans ((bind_of_ok hothers).trans rfl)⟩

/-- Reporting writes nothing. -/
theorem quiet_report {α : Type} (c : Classification α) (total : Nat) (places : Int) :
    (c.report (.int total) places).IsQuiet := by
  have hpercentage (count : Nat) : (percentage (.int count) (.int total)).IsQuiet := by
    unfold percentage
    split
    · exact leaves_throw _
    · refine (quiet_mul _ _).bind fun scaled => leaves_get_bind fun σ => (quiet_ofExcept _).bind fun x => ?_
      cases x with
      | none => exact quiet_freshTag.bind fun tag => quiet_div _ _
      | some x =>
          show (shareOf scaled x).IsQuiet
          unfold shareOf
          split
          · exact (quiet_ofExcept _).bind fun _ => leaves_throw _
          · exact quiet_get_throw _
          · exact quiet_div _ _
  have hshares (counts : List (String × Nat)) : (shares (.int total) counts).IsQuiet := by
    induction counts with
    | nil => exact leaves_pure _
    | cons entry counts ih =>
        obtain ⟨label, count⟩ := entry
        rw [shares]
        split
        · exact ih.bind fun _ => leaves_pure _
        · exact (hpercentage count).bind fun _ => ih.bind fun _ => leaves_pure _
  exact (hshares _).bind fun _ => quiet_reads _

/-- A report can be made where it can be made on the same counts in another order. -/
theorem exists_report_of_perm {α : Type} {c c' : Classification α} (h : c'.counts.Perm c.counts)
    {total : Nat} {places : Int} (hplaces : 0 ≤ places) {σ : Store}
    (hreport : ∃ report τ, c.report (.int total) places σ = .ok report τ) :
    ∃ report τ, c'.report (.int total) places σ = .ok report τ := by
  obtain ⟨report, τ, hreport⟩ := hreport
  obtain ⟨stats, υ, hstats, -⟩ := bind_ok.mp hreport
  have hshares := shares_ok.mp ⟨stats, υ, hstats⟩
  obtain ⟨stats', υ', hstats'⟩ := shares_ok.mpr fun entry hentry =>
    hshares entry (h.mem_iff.mp hentry)
  obtain ⟨text, htext⟩ := Evaluator.reportText_ok hplaces υ' (.int total) stats'
  refine ⟨text, υ', bind_ok.mpr ⟨stats', υ', hstats', ?_⟩⟩
  rw [bind_of_ok (get_ok _), htext]
  rfl

namespace Evaluator

section

variable {e : Evaluator} {fields : List String} {shared : Region} {p : Plan} {b : Binder}
  {records first second : List Record} {σ τ υ : Store} {a c r : Record}

/-- What a computation answers in a store. -/
def answerIn {α : Type} (action : Eval α) (σ : Store) : Except Fault α :=
  match action σ with
  | .ok a _ => .ok a
  | .error fault _ => .error fault

/-- Whether a plan is carried out over some records: their items, the visits to these with what they
leave, and the report. -/
structure Carried (p : Plan) (b : Binder) (records : List Record) (full : Bool) (σ : Store)
    (items : List Record) (tallies : List (String × Record)) (υ : Store) : Prop where
  items_eq : distinctFrom p.keyOf .empty records σ = .ok items σ
  visits_eq : items.mapM (visitAmong p b records) σ = .ok tallies υ
  reports : ∃ report τ, (Classification.collect tallies).report (.int items.length)
    (reportPlaces full) υ = .ok report τ

/-- Whether two sessions have the same contents of values, and the same records under every label. -/
structure SameResults (s t : Session) : Prop where
  store : s.store.SameContents t.store
  labels : ∀ label, (t.classification.bucket label).Perm (s.classification.bucket label)

namespace Isolated

/-- Reading the key of a record leaves the store alone. -/
theorem keyOf_eq (h : Isolated fields shared p b records σ) (hr : r ∈ records) :
    p.keyOf r σ = Eval.ofExcept (answerIn (p.keyOf r) σ) σ := by
  obtain ⟨answer, hanswer, -⟩ := h.key_alike h.visited hr
  unfold answerIn
  rw [hanswer]
  cases answer <;> rfl

/-- Records that are not linked have keys that are told apart. -/
theorem toldApart (h : Isolated fields shared p b records σ) (ha : a ∈ records) (hc : c ∈ records)
    (hlinks : ¬ p.Links σ records a c) : ToldApart σ (fun r => answerIn (p.keyOf r) σ) a c := by
  have hread {r : Record} {k : Value} (hr : r ∈ records) (hk : answerIn (p.keyOf r) σ = .ok k) :
      p.keyOf r σ = .ok k σ := by
    rw [h.keyOf_eq hr, hk]
    rfl
  have hmayBe {k k' : Value} (hfound : k'.found σ k = .ok false) : SeenKeys.mayBe σ k k' = false := by
    unfold found at hfound
    unfold SeenKeys.mayBe
    cases hmatch : matchWith σ.samePlace k' k with
    | none =>
        rw [hmatch] at hfound
        cases hfound
    | some answer =>
        rw [hmatch] at hfound
        cases hfound
        rfl
  intro k k' hk hk'
  obtain ⟨hfirst, hsecond⟩ := told_apart ha hc hlinks (hread ha hk) (hread hc hk')
  exact ⟨hmayBe hsecond, hmayBe hfirst⟩

/-- Visits lead to the same stores in any order of the records. -/
theorem visited_perm (hperm : second.Perm first) (hτ : Visited fields shared p first σ τ) :
    Visited fields shared p second σ τ where
  rewritten := by
    have hwrites : fieldWrites fields second = fieldWrites fields first := by
      funext place
      simp only [fieldWrites, hperm.mem_iff]
    exact hwrites ▸ hτ.rewritten
  closed r hr := by
    have hregion : regionOf shared p σ second r = regionOf shared p σ first r := by
      simp only [regionOf, hperm.mem_iff, Plan.Links, linked_congr hperm]
    exact hregion ▸ hτ.closed r (hperm.mem_iff.mp hr)

/-- The items after a swap of neighbours that are not linked. -/
theorem items_swap (h : Isolated fields shared p b first σ) {before after : List Record}
    (hfirst : first = before ++ a :: c :: after) (hlinks : ¬ p.Links σ first a c)
    {items : List Record} (hitems : distinctFrom p.keyOf .empty first σ = .ok items σ) :
    (∀ r ∈ items, r ∈ first) ∧
      ∃ items', distinctFrom p.keyOf .empty (before ++ c :: a :: after) σ = .ok items' σ ∧
        (items' = items ∨ ∃ head tail, items = head ++ a :: c :: tail ∧
          items' = head ++ c :: a :: tail) := by
  subst hfirst
  have hperm : (before ++ c :: a :: after).Perm (before ++ a :: c :: after) :=
    .append_left before (.swap a c after)
  have ha : a ∈ before ++ a :: c :: after := by simp
  have hc : c ∈ before ++ a :: c :: after := by simp
  obtain ⟨-, hpicks⟩ := (distinctFrom_ok fun r hr => h.keyOf_eq hr).mp hitems
  refine ⟨hpicks.subset, ?_⟩
  have hafter : ∀ r ∈ after, ToldApart σ (fun r => answerIn (p.keyOf r) σ) r a ∨
      ToldApart σ (fun r => answerIn (p.keyOf r) σ) r c := by
    intro r hr
    have hr' : r ∈ before ++ a :: c :: after := by simp [hr]
    by_cases hra : p.Links σ (before ++ a :: c :: after) r a
    · exact .inr (h.toldApart hr' hc fun hrc => hlinks (.trans _ _ _ (.symm _ _ hra) hrc))
    · exact .inl (h.toldApart hr' ha hra)
  obtain ⟨items', hpicks', hsame⟩ := Picks.swap (h.toldApart ha hc hlinks) hafter hpicks
  exact ⟨items', (distinctFrom_ok fun r hr => h.keyOf_eq (hperm.mem_iff.mp hr)).mpr ⟨rfl, hpicks'⟩,
    hsame⟩

/-- The context of an item after such a swap. -/
theorem context_swap (h : Isolated fields shared p b first σ) {before after : List Record}
    (hfirst : first = before ++ a :: c :: after) (hlinks : ¬ p.Links σ first a c) (hr : r ∈ first)
    {members : List Record} (hcontext : contextOf p.relates r first σ = .ok members σ) :
    contextOf p.relates r (before ++ c :: a :: after) σ = .ok members σ := by
  subst hfirst
  refine contextOf_swap ?_ (fun r' hr' _ _ hok => h.relates_pure h.visited ?_ hr hok) hcontext
  · rintro ⟨ha, hc⟩
    have ha' := h.links_of_relates (by simp) hr ha
    have hc' := h.links_of_relates (by simp) hr hc
    exact hlinks (.trans _ _ _ (.symm _ _ ha') hc')
  · simp only [List.mem_append, List.mem_cons, List.not_mem_nil, or_false] at hr' ⊢
    tauto

/-- Visits among the reordered records are the same. -/
theorem visits_reordered (h : Isolated fields shared p b first σ) (hperm : second.Perm first)
    (hcontext : ∀ r ∈ first, ∀ members, contextOf p.relates r first σ = .ok members σ →
      contextOf p.relates r second σ = .ok members σ) {items : List Record} :
    ∀ {τ : Store} {tallies : List (String × Record)}, Visited fields shared p first σ τ →
      (∀ r ∈ items, r ∈ first) → items.mapM (visitAmong p b first) τ = .ok tallies υ →
      items.mapM (visitAmong p b second) τ = .ok tallies υ := by
  induction items with
  | nil => exact fun _ _ hok => hok
  | cons item items ih =>
      intro τ tallies hτ hitems hok
      obtain ⟨hitem, hrest⟩ := List.forall_mem_cons.mp hitems
      obtain ⟨t, τ', others, hvisit, hothers, rfl⟩ := mapM_cons_ok.mp hok
      obtain ⟨members, hmembers⟩ := h.exists_context hτ hitem hvisit
      have hvisit' : visitAmong p b second item τ = .ok t τ' := by
        rw [(h.perm hperm).visitAmong_eq (visited_perm hperm hτ) (hperm.mem_iff.mpr hitem)
          (hcontext item hitem members hmembers), ← h.visitAmong_eq hτ hitem hmembers]
        exact hvisit
      exact mapM_cons_ok.mpr ⟨t, τ', others, hvisit',
        ih (h.visited_after hτ hitem hvisit) hrest hothers, rfl⟩

/-- A plan that is carried out over records is so over the records with two neighbours swapped that are
not linked: it leaves the same, and the items have the same labels. -/
theorem carried_swap (h : Isolated fields shared p b first σ)
    (hswap : Neighbours (p.Links σ first) first second) {full : Bool} {items : List Record}
    {tallies : List (String × Record)} (hcarried : Carried p b first full σ items tallies υ) :
    ∃ items' tallies', Carried p b second full σ items' tallies' υ ∧ tallies'.Perm tallies := by
  obtain ⟨before, a, c, after, hlinks, hfirst, rfl⟩ := hswap
  have hperm : (before ++ c :: a :: after).Perm first :=
    hfirst ▸ .append_left before (.swap a c after)
  obtain ⟨hmem, items', hitems', hsame⟩ := h.items_swap hfirst hlinks hcarried.items_eq
  have hcontext : ∀ r ∈ first, ∀ members, contextOf p.relates r first σ = .ok members σ →
      contextOf p.relates r (before ++ c :: a :: after) σ = .ok members σ :=
    fun r hr _ hmembers => h.context_swap hfirst hlinks hr hmembers
  have hlength : items'.length = items.length := by
    rcases hsame with rfl | ⟨head, tail, rfl, rfl⟩ <;> simp
  -- the items are visited in the same order, or two that are not linked in the other one
  obtain ⟨tallies', hvisits', htallies⟩ : ∃ tallies',
      items'.mapM (visitAmong p b first) σ = .ok tallies' υ ∧ tallies'.Perm tallies := by
    rcases hsame with rfl | ⟨head, tail, rfl, rfl⟩
    · exact ⟨tallies, hcarried.visits_eq, .refl _⟩
    · exact h.visits_swap hmem hlinks hcarried.visits_eq
  have hmem' : ∀ r ∈ items', r ∈ first := by
    rcases hsame with rfl | ⟨head, tail, rfl, rfl⟩
    · exact hmem
    · intro r hr
      refine hmem r ?_
      simp only [List.mem_append, List.mem_cons] at hr ⊢
      tauto
  refine ⟨items', tallies', ⟨hitems', h.visits_reordered hperm hcontext h.visited hmem' hvisits', ?_⟩,
    htallies⟩
  rw [hlength]
  exact exists_report_of_perm (Classification.counts_perm htallies) (by cases full <;> decide)
    hcarried.reports

/-- Swaps of neighbours that are not linked leave a reordering. -/
theorem perm_of_neighbours {same : Record → Record → Prop} (h : Neighbours same first second) :
    second.Perm first := by
  obtain ⟨before, a, c, after, -, rfl, rfl⟩ := h
  exact .append_left before (.swap a c after)

/-- So does a reordering that keeps the order of the records that are linked. -/
theorem carried_reordered (h : Isolated fields shared p b first σ)
    (hkeeps : KeepsOrder (p.Links σ first) first second) {full : Bool} {items : List Record}
    {tallies : List (String × Record)} (hcarried : Carried p b first full σ items tallies υ) :
    ∃ items' tallies', Carried p b second full σ items' tallies' υ ∧ tallies'.Perm tallies := by
  suffices hswaps : ∀ reached, Relation.ReflTransGen (Neighbours (p.Links σ first)) first reached →
      reached.Perm first ∧ ∃ items' tallies', Carried p b reached full σ items' tallies' υ ∧
        tallies'.Perm tallies from
    (hswaps second (hkeeps.swaps (linked_equivalence _ _ _))).2
  intro reached hreached
  induction hreached with
  | refl => exact ⟨.refl _, items, tallies, hcarried, .refl _⟩
  | @tail reached next _ hswap ih =>
      obtain ⟨hperm, items', tallies', hcarried', htallies⟩ := ih
      have hlinks : p.Links σ reached = p.Links σ first := linked_congr hperm
      obtain ⟨items'', tallies'', hcarried'', htallies'⟩ :=
        (h.perm hperm).carried_swap (hlinks ▸ hswap) hcarried'
      exact ⟨(perm_of_neighbours hswap).trans hperm, items'', tallies'', hcarried'',
        htallies'.trans htallies⟩

/-- Carrying out a plan is finding the items, visiting them and reporting on them. -/
theorem carried_of_carryOut (hbefore : e.before = Hook.none) (hafter : e.after = Hook.none)
    {s t : Session} (h : Isolated fields shared p b records s.store)
    (hs : s.binder.SameBut itemNames b) (hempty : s.classification = .empty) {full : Bool}
    {answer : String × Nat} (hok : e.carryOut records full p s = .ok answer t) :
    ∃ items tallies υ, Carried p b records full s.store items tallies υ ∧
      υ.SameContents t.store ∧ t.classification = .collect tallies := by
  obtain ⟨items, tallies, υ, hitems, hvisits, htallies, hreport, -⟩ :=
    visits_of_carryOut hbefore hafter h.keysStand h.visited hs hok
  have hcollect : t.classification = .collect tallies := by
    rw [htallies, hempty]
    rfl
  rw [hcollect] at hreport
  have hquiet := quiet_report (Classification.collect tallies) items.length (reportPlaces full) υ
  rw [hreport] at hquiet
  exact ⟨items, tallies, υ, ⟨hitems, hvisits, _, _, hreport⟩, hquiet, hcollect⟩

/-- A plan that can be carried out over records can be over the reordered records: it leaves the same
contents of values, and the same records under every label. -/
theorem carryOut_reordered (hbefore : e.before = Hook.none) (hafter : e.after = Hook.none)
    {s t : Session} (h : Isolated fields shared p b first s.store)
    (hs : s.binder.SameBut itemNames b) (hempty : s.classification = .empty)
    (hkeeps : KeepsOrder (p.Links s.store first) first second) {full : Bool} {answer : String × Nat}
    (hok : e.carryOut first full p s = .ok answer t) :
    ∃ answer' t', e.carryOut second full p s = .ok answer' t' ∧ SameResults t t' := by
  obtain ⟨items, tallies, υ, hcarried, hstore, hcollect⟩ :=
    h.carried_of_carryOut hbefore hafter hs hempty hok
  obtain ⟨items', tallies', hcarried', htallies⟩ := h.carried_reordered hkeeps hcarried
  have h' : Isolated fields shared p b second s.store := h.perm hkeeps.perm
  have hreport : ∃ report τ, (tallies'.foldl (fun c t => c.add t.1 t.2) s.classification).report
      (.int items'.length) (reportPlaces full) υ = .ok report τ := by
    rw [hempty]
    exact hcarried'.reports
  obtain ⟨answer', t', hok'⟩ := carryOut_of_visits hbefore hafter h'.keysStand h'.visited hs
    h.plain.contains hcarried'.items_eq hcarried'.visits_eq hreport
  obtain ⟨found, tallies'', υ', hcarried'', hstore', hcollect'⟩ :=
    h'.carried_of_carryOut hbefore hafter hs hempty hok'
  -- the items and the visits to them are the ones that were found
  obtain rfl : items' = found := by
    have hsame := hcarried'.items_eq.symm.trans hcarried''.items_eq
    cases hsame
    rfl
  obtain ⟨rfl, rfl⟩ : tallies' = tallies'' ∧ υ = υ' := by
    have hsame := hcarried'.visits_eq.symm.trans hcarried''.visits_eq
    cases hsame
    exact ⟨rfl, rfl⟩
  refine ⟨answer', t', hok', ?_, fun label => ?_⟩
  · exact ⟨hstore'.mappings_eq.trans hstore.mappings_eq.symm,
      hstore'.objects_eq.trans hstore.objects_eq.symm, hstore'.runs_eq.trans hstore.runs_eq.symm⟩
  · rw [hcollect, hcollect']
    exact Classification.bucket_perm htallies label

end Isolated
end
end Evaluator
end Rubric
