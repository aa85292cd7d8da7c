import Rubric.Evaluator
import Rubric.Proofs.Classification
import Rubric.Proofs.Sequencing

/-!
# Processing items

What processing one item, and then one item after the other, leaves in the classification and in the
journal of a session, provided that the hooks leave both alone.

* `processItem_ok` : an item is noted four times and put under the label its result has at that time;
* `processFrom_ok` : the items are those records whose key is new when their turn comes, and each is
  put under its label.
-/

namespace Rubric

open Rubric.Script

/-! ## Actions -/

namespace Action

variable {α β : Type}

/-- A computation on values that succeeds. -/
theorem ofEval_ok {action : Eval α} {s s' : Session} {a : α} (h : ofEval action s = .ok a s') :
    ∃ σ, action s.store = .ok a σ ∧ s' = { s with store := σ } := by
  unfold ofEval at h
  cases haction : action s.store with
  | ok a' σ =>
      rw [haction] at h
      simp only [EStateM.Result.ok.injEq] at h
      obtain ⟨rfl, rfl⟩ := h
      exact ⟨σ, rfl, rfl⟩
  | error fault σ =>
      rw [haction] at h
      simp at h

/-- A computation on values succeeds in a session where it succeeds in its store. -/
theorem ofEval_of_ok {action : Eval α} {s : Session} {a : α} {σ : Store}
    (h : action s.store = .ok a σ) : ofEval action s = .ok a { s with store := σ } := by
  rw [ofEval, h]

/-- It fails where it fails there. -/
theorem ofEval_of_error {action : Eval α} {s : Session} {fault : Fault} {σ : Store}
    (h : action s.store = .error fault σ) : ofEval action s = .error fault { s with store := σ } := by
  rw [ofEval, h]

/-- Whether an action, where it succeeds, leaves the classification and the journal as they were. -/
def KeepsTallies (action : Action α) : Prop :=
  ∀ s a s', action s = .ok a s' →
    s'.classification = s.classification ∧ s'.journal = s.journal

/-- Answering keeps both. -/
theorem keepsTallies_pure (a : α) : KeepsTallies (pure a : Action α) := by
  intro s a' s' h
  simp only [pure, EStateM.pure, EStateM.Result.ok.injEq] at h
  rw [← h.2]
  exact ⟨rfl, rfl⟩

/-- Two actions in a row keep both where each does. -/
theorem KeepsTallies.bind {first : Action α} {second : α → Action β} (hfirst : KeepsTallies first)
    (hsecond : ∀ a, KeepsTallies (second a)) : KeepsTallies (first >>= second) := by
  intro s b s' h
  obtain ⟨a, t, ha, hb⟩ := bind_ok.mp h
  obtain ⟨hclassification, hjournal⟩ := hfirst s a t ha
  obtain ⟨hclassification', hjournal'⟩ := hsecond a t b s' hb
  exact ⟨hclassification'.trans hclassification, hjournal'.trans hjournal⟩

/-- Failing keeps both. -/
theorem keepsTallies_throw (fault : Fault) : KeepsTallies (throw fault : Action α) := by
  intro s a s' h
  cases h

/-- Reading the session keeps both. -/
theorem keepsTallies_get : KeepsTallies (get : Action Session) := by
  intro s a s' h
  cases h
  exact ⟨rfl, rfl⟩

/-- Computations on values keep both. -/
theorem keepsTallies_ofEval (action : Eval α) : KeepsTallies (ofEval action) := by
  intro s a s' h
  obtain ⟨σ, -, rfl⟩ := ofEval_ok h
  exact ⟨rfl, rfl⟩

/-- Changing a bound name keeps both. -/
theorem keepsTallies_bind (name : String) (value : Value) : KeepsTallies (Action.bind name value) := by
  intro s a s' h
  unfold Action.bind at h
  split at h
  · simp only [EStateM.Result.ok.injEq] at h
    rw [← h.2]
    exact ⟨rfl, rfl⟩
  · simp at h

/-- Reading a bound name keeps both. -/
theorem keepsTallies_bound (name : String) : KeepsTallies (bound name) := by
  intro s a s' h
  unfold bound at h
  split at h
  · simp only [EStateM.Result.ok.injEq] at h
    rw [← h.2]
    exact ⟨rfl, rfl⟩
  · simp at h

/-- Actions for the members of a list keep both where each does. -/
theorem keepsTallies_forM {γ : Type} {f : γ → Action Unit} (h : ∀ c, KeepsTallies (f c))
    (cs : List γ) : KeepsTallies (cs.forM f) := by
  induction cs with
  | nil => exact keepsTallies_pure ()
  | cons c cs ih => exact (h c).bind fun _ => ih

end Action

namespace Evaluator

/-- Whether the hooks of an evaluator leave its classification and its journal alone. -/
structure HooksKeepTallies (e : Evaluator) : Prop where
  before : ∀ item context, (e.before item context).KeepsTallies
  after : ∀ item context, (e.after item context).KeepsTallies

/-! ## What the journal tells -/

/-- The items that a script was run for, in order. -/
def executed (events : List Event) : List Record :=
  (events.filter (·.step == .execute)).map Event.item

/-- The item of an event under the label that its result field has at that time. -/
def tally? (result : Target) (event : Event) : Option (String × Record) :=
  match result.read event.item.value event.store with
  | .ok value σ => some (value.label σ, event.item)
  | .error _ _ => none

/-- The items that were classified, in order, each under its label at that time. -/
def classified (result : Target) (events : List Event) : List (Option (String × Record)) :=
  (events.filter (·.step == .classify)).map (tally? result)

/-- The items of two parts of a journal. -/
theorem executed_append (first second : List Event) :
    executed (first ++ second) = executed first ++ executed second := by
  simp [executed]

/-- The labels of two parts of a journal. -/
theorem classified_append (result : Target) (first second : List Event) :
    classified result (first ++ second) = classified result first ++ classified result second := by
  simp [classified]

/-- Whether what happened between two sessions was to run a script for some items, and to add some
items to the classification under the labels that they had at that time. -/
def Advances (result : Target) (s s' : Session) (items : List Record)
    (tallies : List (String × Record)) : Prop :=
  ∃ events, s'.journal = s.journal ++ events ∧ executed events = items ∧
    classified result events = tallies.map some ∧
    s'.classification = tallies.foldl (fun c t => c.add t.1 t.2) s.classification

/-- Actions that keep the classification and the journal process no items. -/
theorem advances_of_keepsTallies {α : Type} {action : Action α} (result : Target) {s s' : Session}
    {a : α} (hkeeps : action.KeepsTallies) (h : action s = .ok a s') :
    Advances result s s' [] [] := by
  obtain ⟨hclassification, hjournal⟩ := hkeeps s a s' h
  exact ⟨[], by rw [hjournal, List.append_nil], rfl, rfl, hclassification⟩

/-- What happened in a row. -/
theorem Advances.trans {result : Target} {s t u : Session} {items items' : List Record}
    {tallies tallies' : List (String × Record)} (hfirst : Advances result s t items tallies)
    (hsecond : Advances result t u items' tallies') :
    Advances result s u (items ++ items') (tallies ++ tallies') := by
  obtain ⟨events, hjournal, hexecuted, hclassified, hclassification⟩ := hfirst
  obtain ⟨events', hjournal', hexecuted', hclassified', hclassification'⟩ := hsecond
  refine ⟨events ++ events', ?_, ?_, ?_, ?_⟩
  · rw [hjournal', hjournal, List.append_assoc]
  · rw [executed_append, hexecuted, hexecuted']
  · rw [classified_append, hclassified, hclassified', List.map_append]
  · rw [hclassification', hclassification, List.foldl_append]

/-! ## One item -/

/-- Noting a step adds one event to the journal and changes nothing else. -/
theorem note_ok {step : Step} {item : Record} {context : List Record} {s s' : Session} {u : Unit}
    (h : note step item context s = .ok u s') :
    ∃ event : Event, event.step = step ∧ event.item = item ∧ event.store = s.store ∧
      s' = { s with journal := s.journal ++ [event] } := by
  cases h
  exact ⟨_, rfl, rfl, rfl, rfl⟩

/-- Noting a hook processes no item. -/
theorem advances_noteHook {step : Step} (result : Target) {item : Record} {context : List Record}
    {s s' : Session} {u : Unit} (hstep : step = .before ∨ step = .after)
    (h : note step item context s = .ok u s') : Advances result s s' [] [] := by
  obtain ⟨event, hevent, -, -, rfl⟩ := note_ok h
  refine ⟨[event], rfl, ?_, ?_, rfl⟩
  · rcases hstep with rfl | rfl <;> simp [executed, hevent]
  · rcases hstep with rfl | rfl <;> simp [classified, hevent]

/-- Noting that a script is run for an item. -/
theorem advances_noteExecute (result : Target) {item : Record} {context : List Record}
    {s s' : Session} {u : Unit} (h : note .execute item context s = .ok u s') :
    Advances result s s' [item] [] := by
  obtain ⟨event, hevent, hitem, -, rfl⟩ := note_ok h
  refine ⟨[event], rfl, ?_, ?_, rfl⟩
  · simp [executed, hevent, hitem]
  · simp [classified, hevent]

/-- An item that is classified is put under the label that it has at that time. -/
theorem advances_classify {result : Target} {item : Record} {context : List Record}
    {s t s' : Session} {u u' : Unit} (hnote : note .classify item context s = .ok u t)
    (h : classify result item t = .ok u' s') :
    ∃ label, Advances result s s' [] [(label, item)] := by
  obtain ⟨event, hevent, hitem, hstore, rfl⟩ := note_ok hnote
  obtain ⟨value, t', hread, hadd⟩ := bind_ok.mp h
  obtain ⟨σ, hvalue, rfl⟩ := Action.ofEval_ok hread
  cases hadd
  have htally : tally? result event = some (value.label σ, item) := by
    rw [tally?, hitem, hstore, hvalue]
  refine ⟨value.label σ, [event], rfl, ?_, ?_, rfl⟩
  · simp [executed, hevent]
  · simp [classified, hevent, htally]

/-- Running a script keeps the classification and the journal. -/
theorem keepsTallies_execute (job : Environment → Eval Unit) (classes subclasses : Value) :
    (execute job classes subclasses).KeepsTallies :=
  Action.keepsTallies_get.bind fun _ => Action.keepsTallies_ofEval _

/-- An item that is handled is one that the script is run for, and is put under the label that it has
when it is classified. -/
theorem handleItem_ok {e : Evaluator} (he : e.HooksKeepTallies) {p : Plan}
    {records : List Record} {item : Record} {s s' : Session} {u : Unit}
    (h : handleItem e p records item s = .ok u s') :
    ∃ label, Advances p.result s s' [item] [(label, item)] := by
  obtain ⟨context, s₁, hcontext, h⟩ := bind_ok.mp h
  obtain ⟨_, s₂, hnoteBefore, h⟩ := bind_ok.mp h
  obtain ⟨_, s₃, hbefore, h⟩ := bind_ok.mp h
  obtain ⟨_, s₄, hitem, h⟩ := bind_ok.mp h
  obtain ⟨list, s₅, hlist, h⟩ := bind_ok.mp h
  obtain ⟨_, s₆, hcollection, h⟩ := bind_ok.mp h
  obtain ⟨_, s₇, hnoteExecute, h⟩ := bind_ok.mp h
  obtain ⟨_, s₈, hexecute, h⟩ := bind_ok.mp h
  obtain ⟨_, s₉, hnoteClassify, h⟩ := bind_ok.mp h
  obtain ⟨_, t₁, hclassify, h⟩ := bind_ok.mp h
  obtain ⟨_, t₂, hnoteAfter, hafter⟩ := bind_ok.mp h
  -- only the note of the execution and the classification in between leave a trace
  have hopening : Advances p.result s s₆ [] [] :=
    (advances_of_keepsTallies p.result (Action.keepsTallies_ofEval _) hcontext).trans <|
      (advances_noteHook p.result (.inl rfl) hnoteBefore).trans <|
      (advances_of_keepsTallies p.result (he.before item context) hbefore).trans <|
      (advances_of_keepsTallies p.result (Action.keepsTallies_bind _ _) hitem).trans <|
      (advances_of_keepsTallies p.result (Action.keepsTallies_ofEval _) hlist).trans <|
      advances_of_keepsTallies p.result (Action.keepsTallies_bind _ _) hcollection
  have hscript : Advances p.result s₆ s₈ [item] [] :=
    (advances_noteExecute p.result hnoteExecute).trans <|
      advances_of_keepsTallies p.result (keepsTallies_execute _ _ _) hexecute
  have hclosing : Advances p.result t₁ s' [] [] :=
    (advances_noteHook p.result (.inr rfl) hnoteAfter).trans <|
      advances_of_keepsTallies p.result (he.after item context) hafter
  obtain ⟨label, hlabel⟩ := advances_classify hnoteClassify hclassify
  exact ⟨label, hopening.trans <| hscript.trans <| hlabel.trans hclosing⟩

/-- An item that is processed is one that the script is run for, and is put under the label that it
has when it is classified. -/
theorem processItem_ok {e : Evaluator} (he : e.HooksKeepTallies) {p : Plan}
    {records : List Record} {item : Record} {s s' : Session} {u : Unit}
    (h : processItem e p records item s = .ok u s') :
    ∃ label, Advances p.result s s' [item] [(label, item)] := by
  obtain ⟨outer, s₁, hopen, h⟩ := bind_ok.mp h
  obtain ⟨_, s₂, hitem, hclose⟩ := bind_ok.mp h
  obtain ⟨label, hlabel⟩ := handleItem_ok he hitem
  have hopened := advances_of_keepsTallies p.result (Action.keepsTallies_ofEval _) hopen
  have hclosed := advances_of_keepsTallies p.result (Action.keepsTallies_ofEval _) hclose
  exact ⟨label, hopened.trans <| hlabel.trans hclosed⟩

/-! ## One item after the other -/

/-- Processing records in their turn: those whose key is not among the keys met before are items,
the others are passed over.  Keys are read in the store of that time. -/
inductive Turns (e : Evaluator) (p : Plan) (records : List Record) :
    SeenKeys → Session → List Record → List Record → Session → Prop where
  | done (seen : SeenKeys) (s : Session) : Turns e p records seen s [] [] s
  | item {seen seen' : SeenKeys} {s t s' : Session} {σ : Store} {record : Record}
      {rest items : List Record} {u : Unit}
      (hkey : firstOfKey? p.keyOf seen record s.store = .ok (some seen') σ)
      (hitem : processItem e p records record { s with store := σ } = .ok u t)
      (hrest : Turns e p records seen' t rest items s') :
      Turns e p records seen s (record :: rest) (record :: items) s'
  | known {seen : SeenKeys} {s s' : Session} {σ : Store} {record : Record}
      {rest items : List Record}
      (hkey : firstOfKey? p.keyOf seen record s.store = .ok none σ)
      (hrest : Turns e p records seen { s with store := σ } rest items s') :
      Turns e p records seen s (record :: rest) items s'

/-- Processing records that succeeds takes them in their turn, and counts the items. -/
theorem turns_of_processFrom {e : Evaluator} {p : Plan} {records : List Record}
    {rest : List Record} :
    ∀ {seen : SeenKeys} {count n : Nat} {s s' : Session},
      processFrom e p records seen count rest s = .ok n s' →
      ∃ items, Turns e p records seen s rest items s' ∧ n = count + items.length := by
  induction rest with
  | nil =>
      intro seen count n s s' h
      simp only [processFrom, pure, EStateM.pure, EStateM.Result.ok.injEq] at h
      obtain ⟨rfl, rfl⟩ := h
      exact ⟨[], .done seen s, rfl⟩
  | cons record rest ih =>
      intro seen count n s s' h
      obtain ⟨found, t, hfound, h⟩ := bind_ok.mp h
      obtain ⟨σ, hkey, rfl⟩ := Action.ofEval_ok hfound
      cases found with
      | none =>
          obtain ⟨items, hturns, hn⟩ := ih h
          exact ⟨items, .known hkey hturns, hn⟩
      | some seen' =>
          -- processing the item may change keys of the records that follow
          obtain ⟨_, t, hitem, h⟩ := bind_ok.mp h
          obtain ⟨items, hturns, hn⟩ := ih h
          refine ⟨record :: items, .item hkey hitem hturns, ?_⟩
          rw [hn, List.length_cons]
          omega

/-- The items are some of the records, in order. -/
theorem Turns.sublist {e : Evaluator} {p : Plan} {records rest items : List Record}
    {seen : SeenKeys} {s s' : Session} (h : Turns e p records seen s rest items s') :
    items.Sublist rest := by
  induction h with
  | done => exact List.Sublist.slnil
  | item _ _ _ ih => exact ih.cons_cons _
  | known _ _ ih => exact ih.cons _

/-- Every item is one that the script is run for, and is put under the label that it has when it is
classified. -/
theorem Turns.advances {e : Evaluator} (he : e.HooksKeepTallies) {p : Plan}
    {records rest items : List Record} {seen : SeenKeys} {s s' : Session}
    (h : Turns e p records seen s rest items s') :
    ∃ tallies, tallies.map Prod.snd = items ∧ Advances p.result s s' items tallies := by
  induction h with
  | done seen s => exact ⟨[], rfl, [], (List.append_nil _).symm, rfl, rfl, rfl⟩
  | item hkey hitem _ ih =>
      obtain ⟨tallies, hitems, hrest⟩ := ih
      obtain ⟨label, hlabel⟩ := processItem_ok he hitem
      exact ⟨(label, _) :: tallies, by rw [List.map_cons, hitems], hlabel.trans hrest⟩
  | known hkey _ ih => exact ih

end Evaluator

end Rubric
