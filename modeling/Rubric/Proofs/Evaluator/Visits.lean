import Rubric.Proofs.Evaluator.Bindings
import Rubric.Proofs.Evaluator.Variants
import Rubric.Proofs.KeyOrder
import Rubric.Proofs.Record.KeyPaths

/-!
# Visits to items

Without hooks, processing an item is a computation on values: the item and its context are bound, the script
runs, and the item gets the label of its result.  Processing records is one such visit for every item among
them, where the visits leave the keys as they are.

* `visit` : what is done for an item;
* `visit_of_processItem`, `processItem_of_visit` : processing an item is a visit;
* `visits_of_processFrom`, `processFrom_of_visits` : processing records is a visit for every item.
-/

namespace Rubric

open Rubric.Script

namespace Evaluator

/-- What is done for an item with a context, where no hooks are called. -/
def visit (p : Plan) (b : Binder) (context : Eval (List Record)) (item : Record) :
    Eval (String × Record) := do
  let outer ← Eval.openItem item.position
  let members ← context
  let list ← Eval.newList (members.map Record.value)
  let σ ← get
  p.job (Environment.make σ ((b.rebind "$ctxI" item.value none).rebind "$ctxC" list none)
    p.classes p.subclasses)
  let result ← p.result.read item.value
  let label := result.label (← get)
  Eval.resumeTags outer
  return (label, item)

/-- The names that are bound for an item. -/
def itemNames : List String := ["$ctxI", "$ctxC"]

section

variable {e : Evaluator} {p : Plan} {b : Binder} {records : List Record}

/-- Once the item and its context are bound, the bindings are the same. -/
theorem bindings_of_item {b' : Binder} (h : b'.SameBut itemNames b) (item list : Value) :
    (b'.rebind "$ctxI" item none).rebind "$ctxC" list none
      = (b.rebind "$ctxI" item none).rebind "$ctxC" list none :=
  ((h.rebind item).rebind list).eq_of_nil

/-- Binding the item and its context changes the names of an item only. -/
theorem sameBut_of_item (b : Binder) (item list : Value) :
    ((b.rebind "$ctxI" item none).rebind "$ctxC" list none).SameBut itemNames b :=
  ((Binder.SameBut.refl itemNames b).rebind_left (by simp [itemNames]) item).rebind_left
    (by simp [itemNames]) list

/-- Whether a session has the bindings and the classification of another. -/
structure SameTables (s s' : Session) : Prop where
  binder_eq : s'.binder = s.binder
  classification_eq : s'.classification = s.classification

/-- What a computation on values that succeeds changes. -/
theorem store_of_ofEval {α : Type} {action : Eval α} {s s' : Session} {a : α}
    (h : Action.ofEval action s = .ok a s') :
    action s.store = .ok a s'.store ∧ SameTables s s' := by
  obtain ⟨σ, hσ, rfl⟩ := Action.ofEval_ok h
  exact ⟨hσ, rfl, rfl⟩

/-- Noting a step changes neither. -/
theorem store_of_note {step : Step} {item : Record} {context : List Record} {s s' : Session}
    {u : Unit} (h : note step item context s = .ok u s') : s'.store = s.store ∧ SameTables s s' := by
  obtain ⟨_, -, -, -, rfl⟩ := note_ok h
  exact ⟨rfl, rfl, rfl⟩

/-- What binding a name changes. -/
theorem tables_of_bind {name : String} {value : Value} {s s' : Session} {u : Unit}
    (h : Action.bind name value s = .ok u s') :
    s'.store = s.store ∧ s'.binder = s.binder.rebind name value none ∧
      s'.classification = s.classification := by
  obtain ⟨-, rfl⟩ := Action.eq_of_bind h
  exact ⟨rfl, rfl, rfl⟩

/-- What putting an item under its label changes. -/
theorem tables_of_classify {target : Target} {item : Record} {s s' : Session} {u : Unit}
    (h : classify target item s = .ok u s') :
    ∃ v, target.read item.value s.store = .ok v s'.store ∧ s'.binder = s.binder ∧
      s'.classification = s.classification.add (v.label s'.store) item := by
  obtain ⟨v, t, hread, hadd⟩ := bind_ok.mp h
  obtain ⟨σ, hvalue, rfl⟩ := Action.ofEval_ok hread
  cases hadd
  exact ⟨v, hvalue, rfl, rfl⟩

/-- Processing an item is visiting it. -/
theorem visit_of_processItem (hbefore : e.before = Hook.none) (hafter : e.after = Hook.none)
    {item : Record} {s s' : Session} {u : Unit} (hs : s.binder.SameBut itemNames b)
    (h : processItem e p records item s = .ok u s') :
    ∃ label, visit p b (contextOf p.relates item records) item s.store
        = .ok (label, item) s'.store ∧
      s'.classification = s.classification.add label item ∧ s'.binder.SameBut itemNames b := by
  obtain ⟨outer, s₁, hopen, h⟩ := bind_ok.mp h
  obtain ⟨_, s₂, h, hresume⟩ := bind_ok.mp h
  obtain ⟨context, s₃, hcontext, h⟩ := bind_ok.mp h
  obtain ⟨_, s₄, hnote₁, h⟩ := bind_ok.mp h
  obtain ⟨_, s₅, hhook, h⟩ := bind_ok.mp h
  obtain ⟨_, s₆, hitem, h⟩ := bind_ok.mp h
  obtain ⟨list, s₇, hlist, h⟩ := bind_ok.mp h
  obtain ⟨_, s₈, hcollection, h⟩ := bind_ok.mp h
  obtain ⟨_, s₉, hnote₂, h⟩ := bind_ok.mp h
  obtain ⟨_, t₁, hjob, h⟩ := bind_ok.mp h
  obtain ⟨_, t₂, hnote₃, h⟩ := bind_ok.mp h
  obtain ⟨_, t₃, hclassify, h⟩ := bind_ok.mp h
  obtain ⟨_, t₄, hnote₄, hhook'⟩ := bind_ok.mp h
  rw [hbefore] at hhook
  rw [hafter] at hhook'
  cases hhook
  cases hhook'
  -- every step changes the values, the bindings or the classification
  obtain ⟨hopen, b₁, c₁⟩ := store_of_ofEval hopen
  obtain ⟨hcontext, b₃, c₃⟩ := store_of_ofEval hcontext
  obtain ⟨σ₄, b₄, c₄⟩ := store_of_note hnote₁
  obtain ⟨σ₆, b₆, c₆⟩ := tables_of_bind hitem
  obtain ⟨hlist, b₇, c₇⟩ := store_of_ofEval hlist
  obtain ⟨σ₈, b₈, c₈⟩ := tables_of_bind hcollection
  obtain ⟨σ₉, b₉, c₉⟩ := store_of_note hnote₂
  obtain ⟨hjob, d₁, f₁⟩ := store_of_ofEval hjob
  obtain ⟨τ₂, d₂, f₂⟩ := store_of_note hnote₃
  obtain ⟨v, hread, d₃, f₃⟩ := tables_of_classify hclassify
  obtain ⟨τ₄, d₄, f₄⟩ := store_of_note hnote₄
  obtain ⟨hresume, d₅, f₅⟩ := store_of_ofEval hresume
  have hbinder : s₉.binder
      = (b.rebind "$ctxI" item.value none).rebind "$ctxC" list none := by
    rw [b₉, b₈, b₇, b₆, b₄, b₃, b₁, bindings_of_item hs]
  rw [σ₆, σ₄] at hlist
  rw [hbinder, σ₉, σ₈] at hjob
  rw [τ₂] at hread
  rw [τ₄] at hresume
  refine ⟨v.label t₃.store, ?_, ?_, ?_⟩
  · unfold visit
    rw [bind_of_ok hopen, bind_of_ok hcontext, bind_of_ok hlist, bind_of_ok (get_ok _),
      bind_of_ok hjob, bind_of_ok hread, bind_of_ok (get_ok _), bind_of_ok hresume]
    rfl
  · rw [f₅, f₄, f₃, f₂, f₁, c₉, c₈, c₇, c₆, c₄, c₃, c₁]
  · rw [d₅, d₄, d₃, d₂, d₁, hbinder]
    exact sameBut_of_item b item.value list

/-- A computation on values that succeeds does so in a session. -/
theorem exists_ofEval {α : Type} {action : Eval α} {s : Session} {a : α} {σ : Store}
    (h : action s.store = .ok a σ) :
    ∃ s', Action.ofEval action s = .ok a s' ∧ s'.store = σ ∧ SameTables s s' :=
  ⟨_, Action.ofEval_of_ok h, rfl, rfl, rfl⟩

/-- A step can be noted. -/
theorem exists_note (step : Step) (item : Record) (context : List Record) (s : Session) :
    ∃ s', note step item context s = .ok () s' ∧ s'.store = s.store ∧ SameTables s s' :=
  ⟨_, rfl, rfl, rfl, rfl⟩

/-- A name that is known can be bound. -/
theorem exists_bind (name : String) {s : Session} (h : s.binder.contains name) (value : Value) :
    ∃ s', Action.bind name value s = .ok () s' ∧ s'.store = s.store ∧
      s'.binder = s.binder.rebind name value none :=
  ⟨_, bind_of_contains (s := s) h value, rfl, rfl⟩

/-- Visiting an item is processing it. -/
theorem processItem_of_visit (hbefore : e.before = Hook.none) (hafter : e.after = Hook.none)
    {item : Record} {s : Session} (hs : s.binder.SameBut itemNames b)
    (hnames : ∀ name ∈ itemNames, b.contains name) {t : String × Record} {τ : Store}
    (h : visit p b (contextOf p.relates item records) item s.store = .ok t τ) :
    ∃ s', processItem e p records item s = .ok () s' := by
  obtain ⟨outer, σ₁, hopen, h⟩ := bind_ok.mp h
  obtain ⟨context, σ₂, hcontext, h⟩ := bind_ok.mp h
  obtain ⟨list, σ₃, hlist, h⟩ := bind_ok.mp h
  obtain ⟨_, _, hget, h⟩ := bind_ok.mp h
  cases hget
  obtain ⟨_, σ₄, hjob, h⟩ := bind_ok.mp h
  obtain ⟨value, σ₅, hread, -⟩ := bind_ok.mp h
  -- the same steps once more, in sessions: notes and bindings in between leave the store alone
  have hcontains (name : String) (hname : name ∈ itemNames) : s.binder.contains name :=
    hs.contains_eq name ▸ hnames name hname
  obtain ⟨s₁, hopen', rfl, b₁, -⟩ := exists_ofEval hopen
  obtain ⟨s₃, hcontext', rfl, b₃, -⟩ := exists_ofEval hcontext
  obtain ⟨s₄, hnote₁, σ₄', b₄, -⟩ := exists_note .before item context s₃
  obtain ⟨s₆, hitem, σ₆, b₆⟩ := exists_bind "$ctxI" (s := s₄)
    (by rw [b₄, b₃, b₁]; exact hcontains _ (by simp [itemNames])) item.value
  obtain ⟨s₇, hlist', rfl, b₇, -⟩ := exists_ofEval (s := s₆) (by rw [σ₆, σ₄']; exact hlist)
  obtain ⟨s₈, hcollection, σ₈, b₈⟩ := exists_bind "$ctxC" (s := s₇)
    (by rw [b₇, b₆, b₄, b₃, b₁, Binder.contains_rebind]; exact hcontains _ (by simp [itemNames])) list
  obtain ⟨s₉, hnote₂, σ₉, b₉, -⟩ := exists_note .execute item context s₈
  have hbinder : s₉.binder
      = (b.rebind "$ctxI" item.value none).rebind "$ctxC" list none := by
    rw [b₉, b₈, b₇, b₆, b₄, b₃, b₁, bindings_of_item hs]
  have hjob₉ : p.job (Environment.make s₉.store s₉.binder p.classes p.subclasses) s₉.store
      = .ok () σ₄ := by
    rw [hbinder, σ₉, σ₈]
    exact hjob
  obtain ⟨t₁, hjob', rfl, -, -⟩ := exists_ofEval hjob₉
  have hexecute : execute p.job p.classes p.subclasses s₉ = .ok () t₁ := hjob'
  have hhook : Hook.none item context s₄ = .ok () s₄ := rfl
  obtain ⟨t₂, hnote₃, τ₂, -, -⟩ := exists_note .classify item context t₁
  obtain ⟨t₃, hread', -, -, -⟩ := exists_ofEval (s := t₂) (by rw [τ₂]; exact hread)
  have hclassify : ∃ t₄, classify p.result item t₂ = .ok () t₄ :=
    ⟨_, (bind_of_ok hread').trans rfl⟩
  obtain ⟨t₄, hclassify⟩ := hclassify
  obtain ⟨t₅, hnote₄, -⟩ := exists_note .after item context t₄
  refine ⟨_, bind_ok.mpr ⟨outer, s₁, hopen', bind_ok.mpr ⟨(), t₅, ?_, rfl⟩⟩⟩
  unfold handleItem
  rw [bind_of_ok hcontext', bind_of_ok hnote₁, hbefore, bind_of_ok hhook, bind_of_ok hitem,
    bind_of_ok hlist', bind_of_ok hcollection, bind_of_ok hnote₂, bind_of_ok hexecute, bind_of_ok hnote₃,
    bind_of_ok hclassify, bind_of_ok hnote₄, hafter]
  rfl

end

/-! ## Visits to many items -/

/-- The visit to an item among records. -/
def visitAmong (p : Plan) (b : Binder) (records : List Record) (item : Record) :
    Eval (String × Record) :=
  visit p b (contextOf p.relates item records) item

/-- Whether records are found to be items as in a store, in every store that visits to them lead to. -/
structure KeysStand (p : Plan) (b : Binder) (records : List Record) (σ : Store) (region : Region)
    (I : Store → Prop) : Prop where
  keys : ∀ {τ}, I τ → ∀ r ∈ records, ∀ {seen : SeenKeys}, seen.Within region →
    Eval.AnswersAlike σ τ (firstOfKey? p.keyOf seen r) fun found => ∀ seen' ∈ found, seen'.Within region
  visits : ∀ {τ t υ}, I τ → ∀ i ∈ records, visitAmong p b records i τ = .ok t υ → I υ

section

variable {e : Evaluator} {p : Plan} {b : Binder} {records : List Record} {σ : Store}
  {region : Region} {I : Store → Prop}

/-- Processing records one after the other is visiting the items among them. -/
theorem visits_of_turns (hbefore : e.before = Hook.none) (hafter : e.after = Hook.none)
    (hkeys : KeysStand p b records σ region I) {seen : SeenKeys} {s s' : Session}
    {rest items : List Record} (h : Turns e p records seen s rest items s') :
    I s.store → seen.Within region → (∀ r ∈ rest, r ∈ records) → s.binder.SameBut itemNames b →
      ∃ tallies, distinctFrom p.keyOf seen rest σ = .ok items σ ∧
        items.mapM (visitAmong p b records) s.store = .ok tallies s'.store ∧
        s'.classification = tallies.foldl (fun c t => c.add t.1 t.2) s.classification ∧
        s'.binder.SameBut itemNames b := by
  induction h with
  | done seen s => exact fun _ _ _ hs => ⟨[], rfl, rfl, rfl, hs⟩
  | @item seen seen' s t s' σ₁ record rest items u hkey hitem _ ih =>
      intro hI hseen hrest hs
      obtain ⟨hrecord, hrest⟩ := List.forall_mem_cons.mp hrest
      obtain ⟨hseen', rfl, hfound⟩ := (hkeys.keys hI record hrecord hseen).symm.ok hkey
      obtain ⟨label, hvisit, hlabel, ht⟩ := visit_of_processItem hbefore hafter hs hitem
      obtain ⟨tallies, hothers, hvisits, htallies, hs'⟩ :=
        ih (hkeys.visits hI record hrecord hvisit) (hseen' seen' rfl) hrest ht
      refine ⟨(label, record) :: tallies, ?_, mapM_cons_ok.mpr ⟨_, _, _, hvisit, hvisits, rfl⟩, ?_,
        hs'⟩
      · rw [distinctFrom, bind_of_ok hfound]
        exact bind_of_ok hothers
      · rw [htallies, hlabel, List.foldl_cons]
  | @known seen s s' σ₁ record rest items hkey _ ih =>
      intro hI hseen hrest hs
      obtain ⟨hrecord, hrest⟩ := List.forall_mem_cons.mp hrest
      obtain ⟨-, rfl, hfound⟩ := (hkeys.keys hI record hrecord hseen).symm.ok hkey
      obtain ⟨tallies, hothers, hvisits⟩ := ih hI hseen hrest hs
      refine ⟨tallies, ?_, hvisits⟩
      rw [distinctFrom, bind_of_ok hfound]
      exact hothers

/-- Visiting the items among records is processing the records. -/
theorem processFrom_of_visits (hbefore : e.before = Hook.none) (hafter : e.after = Hook.none)
    (hkeys : KeysStand p b records σ region I) (hnames : ∀ name ∈ itemNames, b.contains name)
    {rest : List Record} :
    ∀ {seen : SeenKeys} {s : Session} {items : List Record} {tallies : List (String × Record)}
      {σ' τ : Store} (count : Nat), I s.store → seen.Within region → (∀ r ∈ rest, r ∈ records) →
      s.binder.SameBut itemNames b → distinctFrom p.keyOf seen rest σ = .ok items σ' →
      items.mapM (visitAmong p b records) s.store = .ok tallies τ →
      ∃ n s', processFrom e p records seen count rest s = .ok n s' := by
  induction rest with
  | nil => exact fun count _ _ _ _ _ _ => ⟨count, _, rfl⟩
  | cons record rest ih =>
      intro seen s items tallies σ' τ count hI hseen hrest hs hitems hvisits
      obtain ⟨hrecord, hrest⟩ := List.forall_mem_cons.mp hrest
      obtain ⟨found, σ₁, hfound, hnext⟩ := bind_ok.mp hitems
      obtain ⟨hseen', rfl, hfound'⟩ := (hkeys.keys hI record hrecord hseen).ok hfound
      have hturn : Action.ofEval (firstOfKey? p.keyOf seen record) s = .ok found s := by
        rw [Action.ofEval, hfound']
      rw [processFrom, bind_of_ok hturn]
      cases found with
      | none => exact ih count hI hseen hrest hs hnext hvisits
      | some seen' =>
          obtain ⟨others, σ₂, hothers, hpure⟩ := bind_ok.mp hnext
          cases hpure
          obtain ⟨t, υ, tallies', hvisit, hvisits', rfl⟩ := mapM_cons_ok.mp hvisits
          obtain ⟨s₁, hitem⟩ := processItem_of_visit hbefore hafter hs hnames hvisit
          obtain ⟨label, hvisit', -, hs₁⟩ := visit_of_processItem hbefore hafter hs hitem
          obtain ⟨-, rfl⟩ : (label, record) = t ∧ s₁.store = υ := by
            have hsame := hvisit'.symm.trans hvisit
            cases hsame
            exact ⟨rfl, rfl⟩
          have hI₁ := hkeys.visits hI record hrecord hvisit
          show ∃ n s', (processItem e p records record >>= fun _ => _) s = _
          rw [bind_of_ok hitem]
          exact ih (count + 1) hI₁ (hseen' seen' rfl) hrest hs₁ hothers hvisits'

/-- The items among records are found as in the store. -/
theorem answersAlike_distinctFrom (hkeys : KeysStand p b records σ region I) {τ : Store} (hI : I τ)
    {rest : List Record} (hrest : ∀ r ∈ rest, r ∈ records) :
    ∀ {seen : SeenKeys}, seen.Within region →
      Eval.AnswersAlike σ τ (distinctFrom p.keyOf seen rest) fun _ => True := by
  induction rest with
  | nil => exact fun _ => .of_pure trivial
  | cons record rest ih =>
      intro seen hseen
      obtain ⟨hrecord, hrest⟩ := List.forall_mem_cons.mp hrest
      refine (hkeys.keys hI record hrecord hseen).bind fun found hfound => ?_
      cases found with
      | none => exact ih hrest hseen
      | some seen' => exact (ih hrest (hfound seen' rfl)).bind fun _ _ => .of_pure trivial

/-- What a run does with its plan is visiting the items and reporting on their labels. -/
theorem visits_of_carryOut (hbefore : e.before = Hook.none) (hafter : e.after = Hook.none) {s s' : Session}
    (hkeys : KeysStand p b records s.store region I) (hI : I s.store) (hs : s.binder.SameBut itemNames b)
    {full : Bool} {answer : String × Nat} (h : e.carryOut records full p s = .ok answer s') :
    ∃ items tallies υ, distinctFrom p.keyOf .empty records s.store = .ok items s.store ∧
      items.mapM (visitAmong p b records) s.store = .ok tallies υ ∧
      s'.classification = tallies.foldl (fun c t => c.add t.1 t.2) s.classification ∧
      s'.classification.report (.int items.length) (reportPlaces full) υ = .ok answer.1 s'.store ∧
      answer.2 = items.length := by
  obtain ⟨total, s₁, hcount, h⟩ := bind_ok.mp h
  obtain ⟨processed, s₂, hprocess, h⟩ := bind_ok.mp h
  obtain ⟨_, _, hget, h⟩ := bind_ok.mp h
  cases hget
  obtain ⟨report, s₃, hreport, h⟩ := bind_ok.mp h
  obtain ⟨_, s₄, hmodify, hpure⟩ := bind_ok.mp h
  cases hmodify
  cases hpure
  obtain ⟨σ₁, hlength, rfl⟩ := Action.ofEval_ok hcount
  obtain ⟨counted, σ₂, hcounted, hlength⟩ := bind_ok.mp hlength
  cases hlength
  obtain ⟨-, rfl, -⟩ := (answersAlike_distinctFrom hkeys hI (fun _ hr => hr)
    SeenKeys.within_empty).ok hcounted
  obtain ⟨items, hturns, rfl⟩ := turns_of_processFrom hprocess
  obtain ⟨tallies, hitems, hvisits, htallies, -⟩ := visits_of_turns hbefore hafter hkeys hturns hI
    SeenKeys.within_empty (fun _ hr => hr) hs
  obtain ⟨hreport, -, hclassification⟩ := store_of_ofEval hreport
  have hsame : counted = items := by
    have := hcounted.symm.trans hitems
    cases this
    rfl
  subst hsame
  refine ⟨counted, tallies, s₂.store, hitems, hvisits, ?_, ?_, by simp⟩
  · exact hclassification.trans htallies
  · rw [show ({ s₃ with description := report } : Session).classification = s₂.classification from
      hclassification]
    exact hreport

/-- Where the visits and the report succeed, so does the run. -/
theorem carryOut_of_visits (hbefore : e.before = Hook.none) (hafter : e.after = Hook.none) {s : Session}
    (hkeys : KeysStand p b records s.store region I) (hI : I s.store) (hs : s.binder.SameBut itemNames b)
    (hnames : ∀ name ∈ itemNames, b.contains name) {full : Bool} {items : List Record}
    {tallies : List (String × Record)} {υ : Store}
    (hitems : distinctFrom p.keyOf .empty records s.store = .ok items s.store)
    (hvisits : items.mapM (visitAmong p b records) s.store = .ok tallies υ)
    (hreport : ∃ report τ, (tallies.foldl (fun c t => c.add t.1 t.2) s.classification).report
      (.int items.length) (reportPlaces full) υ = .ok report τ) :
    ∃ answer s', e.carryOut records full p s = .ok answer s' := by
  obtain ⟨n, s', hprocess⟩ := processFrom_of_visits hbefore hafter hkeys hnames 0 hI
    SeenKeys.within_empty (fun _ hr => hr) hs hitems hvisits
  obtain ⟨items', hturns, -⟩ := turns_of_processFrom hprocess
  obtain ⟨tallies', hitems', hvisits', htallies, -⟩ := visits_of_turns hbefore hafter hkeys hturns hI
    SeenKeys.within_empty (fun _ hr => hr) hs
  have hsame : items = items' := by
    have := hitems.symm.trans hitems'
    cases this
    rfl
  subst hsame
  have hsame : tallies = tallies' ∧ s'.store = υ := by
    have := hvisits.symm.trans hvisits'
    cases this
    exact ⟨rfl, rfl⟩
  obtain ⟨rfl, rfl⟩ := hsame
  obtain ⟨report, τ, hreport⟩ := hreport
  have hcount : Action.ofEval (countDistinct p.keyOf records) s = .ok items.length s := by
    rw [Action.ofEval, show countDistinct p.keyOf records s.store = .ok items.length s.store from
      (bind_of_ok hitems).trans rfl]
  have hreported : Action.ofEval (s'.classification.report (.int items.length) (reportPlaces full)) s'
      = .ok report { s' with store := τ } := by
    rw [Action.ofEval, htallies, hreport]
  refine ⟨(report, n), { s' with store := τ, description := report }, ?_⟩
  rw [carryOut, bind_of_ok hcount, bind_of_ok hprocess, bind_of_ok (get_ok s'), bind_of_ok hreported]
  rfl

end

end Evaluator

end Rubric
