import Rubric.Proofs.Evaluator.Past
import Rubric.Proofs.Evaluator.Totals

/-!
# The steps of a run, in order

For every item that a run reaches it calls the hook before, runs the script, classifies the item and
calls the hook after, and notes each of the four in its journal.  Hooks that leave the bindings alone
see this: both get the same context, which is what is bound while the script runs and until the next
item is bound; the hook before still sees the item before.  A run that fails stops somewhere among
the four steps of an item, or between two items.

* `Run.reached` : the items that a run reaches, with their contexts;
* `schedule` : the steps for some items, in order, and what is bound when each begins;
* `Run.follows_schedule` : what a run notes is the schedule of the items that it reaches, as far as
  it comes.
-/

namespace Rubric

open Rubric.Script

/-- The contents of values when the turn of an item has come: its tags are its own. -/
def Store.atItem (σ : Store) (position : Nat) : Store :=
  { σ with nextTag := ⟨σ.nextTag.run, some position, 0⟩ }

/-! ## What is noted -/

/-- The value that a name is bound to, null where it is not bound. -/
def Session.boundValue (s : Session) (name : String) : Value :=
  ((s.binder.get? name).map Binding.value).getD .null

/-- The values that are bound as the current item and context. -/
def Session.current (s : Session) : Value × Value := (s.boundValue "$ctxI", s.boundValue "$ctxC")

/-- A step for an item with its context, and what is bound as the current item and context. -/
structure Entry where
  step : Step
  item : Record
  context : List Record
  bound : Value × Value

/-- An event without the contents that values had. -/
def Event.entry (event : Event) : Entry :=
  ⟨event.step, event.item, event.context, event.boundItem, event.boundContext⟩

/-- An item that is reached, with its context, and the tag of the list of the context. -/
structure Visit where
  item : Record
  context : List Record
  tag : Tag

namespace Visit

/-- What is bound as the current item and context from the script of an item on. -/
def bound (v : Visit) : Value × Value := (v.item.value, .list v.tag (v.context.map Record.value))

/-- An item with its context. -/
def reached (v : Visit) : Record × List Record := (v.item, v.context)

/-- The four steps for an item; when the first begins, something else is bound. -/
def entries (v : Visit) (previous : Value × Value) : List Entry :=
  [⟨.before, v.item, v.context, previous⟩, ⟨.execute, v.item, v.context, v.bound⟩,
    ⟨.classify, v.item, v.context, v.bound⟩, ⟨.after, v.item, v.context, v.bound⟩]

end Visit

/-- The steps for some items, in order; when the first begins, something else is bound. -/
def schedule (previous : Value × Value) : List Visit → List Entry
  | [] => []
  | v :: vs => v.entries previous ++ schedule v.bound vs

/-- There are four steps for every item. -/
theorem length_schedule (previous : Value × Value) (visits : List Visit) :
    (schedule previous visits).length = 4 * visits.length := by
  induction visits generalizing previous with
  | nil => rfl
  | cons v vs ih =>
      rw [schedule, List.length_append, ih, List.length_cons]
      show 4 + 4 * vs.length = _
      omega

/-! ## Actions that note steps -/

namespace Action

variable {α β : Type}

/-- Whether an action, from where some values are bound as the current item and context, notes some
steps, or some of the first of them where it fails; where it succeeds, other values are bound, and
its answer has a property. -/
def Notes (previous : Value × Value) (entries : List Entry) (bound : Value × Value)
    (post : α → Prop) (action : Action α) : Prop :=
  ∀ s, s.current = previous → ∃ events,
    (stateLeft (action s)).journal = s.journal ++ events ∧
    match action s with
    | .ok a t => events.map Event.entry = entries ∧ t.current = bound ∧ post a
    | .error _ _ => events.map Event.entry <+: entries

/-- Actions in a row note their steps in a row. -/
theorem Notes.bind {previous middle bound : Value × Value} {entries entries' : List Entry}
    {post : α → Prop} {post' : β → Prop} {first : Action α} {second : α → Action β}
    (hfirst : first.Notes previous entries middle post)
    (hsecond : ∀ a, post a → (second a).Notes middle entries' bound post') :
    (first >>= second).Notes previous (entries ++ entries') bound post' := by
  intro s hs
  obtain ⟨events, hjournal, hnotes⟩ := hfirst s hs
  cases hresult : first s with
  | error fault t =>
      rw [hresult] at hjournal hnotes
      rw [bind_of_error hresult]
      exact ⟨events, hjournal, hnotes.trans (List.prefix_append _ _)⟩
  | ok a t =>
      rw [hresult] at hjournal hnotes
      rw [bind_of_ok hresult]
      obtain ⟨hentries, hmiddle, ha⟩ := hnotes
      obtain ⟨events', hjournal', hnotes'⟩ := hsecond a ha t hmiddle
      refine ⟨events ++ events', ?_, ?_⟩
      · rw [hjournal', ← List.append_assoc]
        exact congrArg (· ++ events') hjournal
      · rw [List.map_append, hentries]
        cases hresult' : second a t with
        | error fault u =>
            rw [hresult'] at hnotes'
            exact (List.prefix_append_right_inj entries).mpr hnotes'
        | ok b u =>
            rw [hresult'] at hnotes'
            obtain ⟨hentries', hbound, hb⟩ := hnotes'
            exact ⟨by rw [hentries'], hbound, hb⟩

/-- Whether an action leaves the journal and what is bound as the current item and context, also where
it fails. -/
def IsSilent (action : Action α) : Prop :=
  ∀ s, (stateLeft (action s)).journal = s.journal ∧ (stateLeft (action s)).current = s.current

/-- A silent action notes nothing. -/
theorem IsSilent.notes {action : Action α} (h : action.IsSilent) (previous : Value × Value) :
    action.Notes previous [] previous fun _ => True := by
  intro s hs
  obtain ⟨hjournal, hcurrent⟩ := h s
  refine ⟨[], by rw [hjournal, List.append_nil], ?_⟩
  cases hresult : action s with
  | error fault t => exact List.nil_prefix
  | ok a t =>
      rw [hresult] at hcurrent
      exact ⟨rfl, hcurrent.trans hs, trivial⟩

/-- Computations on values are silent. -/
theorem isSilent_ofEval (action : Eval α) : (ofEval action).IsSilent := by
  intro s
  unfold ofEval
  cases action s.store <;> exact ⟨rfl, rfl⟩

/-- Making a list notes nothing. -/
theorem notes_newList (items : List Value) (previous : Value × Value) :
    (ofEval (Eval.newList items)).Notes previous [] previous
      fun list => ∃ tag, list = .list tag items :=
  fun s hs => ⟨[], (List.append_nil _).symm, rfl, hs, s.store.nextTag, rfl⟩

/-- What names are bound to after a name was bound. -/
theorem boundValue_of_bind {name : String} {value : Value} {s t : Session} {u : Unit}
    (h : Action.bind name value s = .ok u t) (other : String) :
    t.boundValue other = if other = name then value else s.boundValue other := by
  obtain ⟨hbound, rfl⟩ := Action.eq_of_bind h
  simp only [Session.boundValue, Binder.get?_rebind]
  split
  · rename_i hname
    subst hname
    obtain ⟨binding, hget⟩ := Option.isSome_iff_exists.mp hbound
    simp [hget]
  · cases s.binder.get? other <;> rfl

/-- Binding a name leaves the journal. -/
theorem journal_bind (name : String) (value : Value) (s : Session) :
    (stateLeft (Action.bind name value s)).journal = s.journal := by
  unfold Action.bind
  split <;> rfl

/-- Binding a name notes nothing. -/
theorem notes_bind {name : String} {value : Value} {previous : Value × Value}
    (bound : Value × Value) (h : ∀ s t : Session, s.current = previous →
      (∀ other, t.boundValue other = if other = name then value else s.boundValue other) →
      t.current = bound) :
    (Action.bind name value).Notes previous [] bound fun _ => True := by
  intro s hs
  refine ⟨[], by rw [journal_bind, List.append_nil], ?_⟩
  cases hresult : Action.bind name value s with
  | error fault t => exact List.nil_prefix
  | ok u t => exact ⟨rfl, h s t hs (boundValue_of_bind hresult), trivial⟩

end Action

namespace Evaluator

/-- Noting a step notes it. -/
theorem notes_note (step : Step) (item : Record) (context : List Record)
    (previous : Value × Value) :
    (note step item context).Notes previous [⟨step, item, context, previous⟩] previous
      fun _ => True := by
  rintro s rfl
  exact ⟨_, rfl, rfl, rfl, trivial⟩

/-- Whether the hooks of an evaluator leave the bindings and the journal alone, also where they
fail. -/
structure HooksKeepBindings (e : Evaluator) : Prop where
  before : ∀ item context s, (stateLeft (e.before item context s)).binder = s.binder ∧
    (stateLeft (e.before item context s)).journal = s.journal
  after : ∀ item context s, (stateLeft (e.after item context s)).binder = s.binder ∧
    (stateLeft (e.after item context s)).journal = s.journal

/-- A hook that leaves the bindings and the journal alone is silent. -/
theorem isSilent_of_keeps {action : Action Unit}
    (h : ∀ s, (stateLeft (action s)).binder = s.binder ∧
      (stateLeft (action s)).journal = s.journal) : action.IsSilent :=
  fun s => ⟨(h s).2, by simp only [Session.current, Session.boundValue, (h s).1]⟩

/-- Running a script is silent. -/
theorem isSilent_execute (job : Environment → Eval Unit) (classes subclasses : Value) :
    (execute job classes subclasses).IsSilent :=
  fun s => Action.isSilent_ofEval (job (.make s.store s.binder classes subclasses)) s

/-- Classifying an item is silent. -/
theorem isSilent_classify (target : Target) (item : Record) :
    (classify target item).IsSilent := by
  intro s
  obtain ⟨hjournal, hcurrent⟩ := Action.isSilent_ofEval (target.read item.value) s
  unfold classify
  cases hresult : Action.ofEval (target.read item.value) s with
  | error fault t =>
      rw [hresult] at hjournal hcurrent
      rw [bind_of_error hresult]
      exact ⟨hjournal, hcurrent⟩
  | ok value t =>
      rw [hresult] at hjournal hcurrent
      rw [bind_of_ok hresult]
      exact ⟨hjournal, hcurrent⟩

/-! ## One item -/

/-- What is done for an item after the first note: the hook before, and the item is bound and the list
of its context is made. -/
def openVisit (e : Evaluator) (item : Record) (context : List Record) : Action Value := do
  e.before item context
  Action.bind "$ctxI" item.value
  Action.ofEval (Eval.newList (context.map Record.value))

/-- What is done for an item once the list of its context is made: the list is bound, and the other
steps are taken. -/
def closeVisit (e : Evaluator) (p : Plan) (item : Record) (context : List Record) (list : Value) :
    Action Unit := do
  Action.bind "$ctxC" list
  note .execute item context
  execute p.job p.classes p.subclasses
  note .classify item context
  classify p.result item
  note .after item context
  e.after item context

/-- An item is handled by finding its context, noting the first step, and these. -/
theorem handleItem_eq (e : Evaluator) (p : Plan) (records : List Record) (item : Record) :
    handleItem e p records item = (do
      let context ← Action.ofEval (contextOf p.relates item records)
      note .before item context
      let list ← openVisit e item context
      closeVisit e p item context list) := by
  simp only [handleItem, openVisit, closeVisit, bind_assoc]

variable {e : Evaluator}

theorem notes_openVisit (he : e.HooksKeepBindings) (item : Record) (context : List Record)
    (previous : Value × Value) :
    (openVisit e item context).Notes previous [] (item.value, previous.2)
      fun list => ∃ tag, list = .list tag (context.map Record.value) := by
  refine ((isSilent_of_keeps (he.before item context)).notes previous).bind fun _ _ => ?_
  refine (Action.notes_bind (item.value, previous.2) fun s t hs ht => ?_).bind fun _ _ => ?_
  · simp [Session.current, ht, ← hs]
  · exact Action.notes_newList _ _

theorem notes_closeVisit (he : e.HooksKeepBindings) (p : Plan) (item : Record)
    (context : List Record) (list other : Value) :
    (closeVisit e p item context list).Notes (item.value, other)
      ([.execute, .classify, .after].map fun step => ⟨step, item, context, item.value, list⟩)
      (item.value, list) fun _ => True := by
  refine (Action.notes_bind (item.value, list) fun s t hs ht => ?_).bind fun _ _ => ?_
  · simp only [Session.current, ht, if_true, Prod.mk.injEq, and_true] at hs ⊢
    simpa using hs.1
  refine (notes_note .execute item context _).bind fun _ _ => ?_
  refine ((isSilent_execute p.job p.classes p.subclasses).notes _).bind fun _ _ => ?_
  refine (notes_note .classify item context _).bind fun _ _ => ?_
  refine ((isSilent_classify p.result item).notes _).bind fun _ _ => ?_
  exact (notes_note .after item context _).bind fun _ _ =>
    (isSilent_of_keeps (he.after item context)).notes _

/-- An item whose context is found is begun, and its four steps are noted as far as they are taken. -/
theorem handleItem_notes (he : e.HooksKeepBindings) (p : Plan) (records : List Record)
    (item : Record) {s : Session} {context : List Record} {σ : Store}
    (hcontext : contextOf p.relates item records s.store = .ok context σ) :
    ∃ tag events, events ≠ [] ∧
      (stateLeft (handleItem e p records item s)).journal = s.journal ++ events ∧
      match handleItem e p records item s with
      | .ok _ t => events.map Event.entry = (Visit.mk item context tag).entries s.current ∧
          t.current = (Visit.mk item context tag).bound
      | .error _ _ => events.map Event.entry <+: (Visit.mk item context tag).entries s.current := by
  let first : Event := ⟨.before, item, context, σ, s.boundValue "$ctxI", s.boundValue "$ctxC"⟩
  let s₁ : Session := { s with store := σ, journal := s.journal ++ [first] }
  have hrun : handleItem e p records item s
      = (openVisit e item context >>= closeVisit e p item context) s₁ := by
    have hnoted : note .before item context { s with store := σ } = .ok () s₁ := rfl
    rw [handleItem_eq, bind_of_ok (Action.ofEval_of_ok hcontext), bind_of_ok hnoted]
  -- the note before is taken in any case; from there on the visit is opened and, if that succeeds, closed
  rw [hrun]
  obtain ⟨opening, hopening, hopened⟩ := notes_openVisit he item context s.current s₁ rfl
  cases hresult : openVisit e item context s₁ with
  | error fault t =>
      rw [hresult] at hopening hopened
      rw [bind_of_error hresult]
      refine ⟨default, first :: opening, List.cons_ne_nil _ _, ?_, ?_⟩
      · have hopening : t.journal = s₁.journal ++ opening := hopening
        show t.journal = _
        rw [hopening, List.append_assoc]
        rfl
      · rw [List.map_cons, List.prefix_nil.mp hopened]
        exact ⟨_, rfl⟩
  | ok list t =>
      rw [hresult] at hopening hopened
      rw [bind_of_ok hresult]
      obtain ⟨hnone, hcurrent, tag, rfl⟩ := hopened
      obtain ⟨closing, hclosing, hclosed⟩ := notes_closeVisit he p item context _ _ t hcurrent
      refine ⟨tag, first :: (opening ++ closing), List.cons_ne_nil _ _, ?_, ?_⟩
      · have hopening : t.journal = s₁.journal ++ opening := hopening
        rw [hclosing, hopening, List.append_assoc, List.append_assoc]
        rfl
      · rw [List.map_cons, List.map_append, hnone, List.nil_append]
        cases hlast : closeVisit e p item context (.list tag (context.map Record.value)) t with
        | error fault u =>
            rw [hlast] at hclosed
            exact (List.prefix_cons_inj _).mpr hclosed
        | ok _ u =>
            rw [hlast] at hclosed
            exact ⟨by rw [hclosed.1]; rfl, hclosed.2.1⟩

/-- The context of a record whose turn has come, where it can be found. -/
def contextAt (p : Plan) (records : List Record) (item : Record) (σ : Store) : Option (List Record) :=
  match contextOf p.relates item records (σ.atItem item.position) with
  | .ok context _ => some context
  | .error _ _ => none

/-- The items that processing some records reaches, with their contexts: the records whose key is new
when their turn comes, until something fails. -/
def reachedFrom (e : Evaluator) (p : Plan) (records : List Record) :
    SeenKeys → List Record → Session → List (Record × List Record)
  | _, [], _ => []
  | seen, record :: rest, s =>
    match firstOfKey? p.keyOf seen record s.store with
    | .error _ _ => []
    | .ok none σ => reachedFrom e p records seen rest { s with store := σ }
    | .ok (some seen') σ =>
      match contextAt p records record σ with
      | none => []
      | some context =>
        (record, context) :: match processItem e p records record { s with store := σ } with
          | .ok _ t => reachedFrom e p records seen' rest t
          | .error _ _ => []

/-- Processing an item opens it, handles it and goes on with the tags of before. -/
theorem processItem_eq (e : Evaluator) (p : Plan) (records : List Record) (item : Record)
    (s : Session) :
    processItem e p records item s
      = match handleItem e p records item { s with store := s.store.atItem item.position } with
        | .ok _ t => .ok () { t with store := { t.store with nextTag := s.store.nextTag } }
        | .error fault t => .error fault t := by
  have hopen : Action.ofEval (Eval.openItem item.position) s
      = .ok s.store.nextTag { s with store := s.store.atItem item.position } := rfl
  rw [processItem, bind_of_ok hopen]
  cases hresult : handleItem e p records item { s with store := s.store.atItem item.position } with
  | error fault t => exact bind_of_error hresult
  | ok u t => exact bind_of_ok hresult

/-- Processing an item whose context is found notes its four steps, as far as they are taken. -/
theorem processItem_notes (he : e.HooksKeepBindings) (p : Plan) (records : List Record)
    (item : Record) {s : Session} {context : List Record}
    (hcontext : contextAt p records item s.store = some context) :
    ∃ tag events, events ≠ [] ∧
      (stateLeft (processItem e p records item s)).journal = s.journal ++ events ∧
      match processItem e p records item s with
      | .ok _ t => events.map Event.entry = (Visit.mk item context tag).entries s.current ∧
          t.current = (Visit.mk item context tag).bound
      | .error _ _ => events.map Event.entry <+: (Visit.mk item context tag).entries s.current := by
  unfold contextAt at hcontext
  split at hcontext
  · rename_i found σ hfound
    cases hcontext
    obtain ⟨tag, events, hsome, hjournal, hnotes⟩ := handleItem_notes he p records item
      (s := { s with store := s.store.atItem item.position }) hfound
    refine ⟨tag, events, hsome, ?_⟩
    rw [processItem_eq]
    cases hresult : handleItem e p records item
        { s with store := s.store.atItem item.position } with
    | error fault t | ok u t =>
        rw [hresult] at hjournal hnotes
        exact ⟨hjournal, hnotes⟩
  · cases hcontext

/-- Processing an item whose context is not found fails before any of its steps. -/
theorem processItem_lost {p : Plan} {records : List Record} {item : Record} {s : Session}
    (hcontext : contextAt p records item s.store = none) :
    ∃ fault σ, processItem e p records item s = .error fault { s with store := σ } := by
  unfold contextAt at hcontext
  split at hcontext
  · cases hcontext
  · rename_i fault σ hlost
    have hfound : Action.ofEval (contextOf p.relates item records)
        { s with store := s.store.atItem item.position } = .error fault { s with store := σ } := by
      rw [Action.ofEval, hlost]
    refine ⟨fault, σ, ?_⟩
    rw [processItem_eq, handleItem_eq, bind_of_error hfound]

/-! ## One item after the other -/

/-- Whether some items were reached, and what was noted on the way to a result is their schedule: all
of it where the result is the number of the items, and otherwise as far as within the steps of the last
one. -/
def IsTraced (reached : List (Record × List Record)) (count : Nat) (s : Session)
    (result : EStateM.Result Fault Session Nat) : Prop :=
  ∃ visits events, visits.map Visit.reached = reached ∧
    (stateLeft result).journal = s.journal ++ events ∧
    events.map Event.entry <+: schedule s.current visits ∧
    4 * visits.length < events.length + 4 ∧
    ∀ n t, result = .ok n t → n = count + visits.length ∧ events.length = 4 * visits.length

/-- Where no item is reached, nothing is noted. -/
theorem isTraced_nil (count : Nat) (s : Session) {result : EStateM.Result Fault Session Nat}
    (hjournal : (stateLeft result).journal = s.journal)
    (hresult : ∀ n t, result = .ok n t → n = count) : IsTraced [] count s result :=
  ⟨[], [], rfl, by rw [hjournal, List.append_nil], List.nil_prefix, by simp, fun n t h =>
    ⟨hresult n t h, rfl⟩⟩

/-- Where the last item fails, some of its steps are noted. -/
theorem isTraced_last {v : Visit} {events : List Event} {count : Nat} {s t : Session} {fault : Fault}
    (hsome : events ≠ []) (hjournal : t.journal = s.journal ++ events)
    (hnotes : events.map Event.entry <+: v.entries s.current) :
    IsTraced [v.reached] count s (.error fault t) := by
  have hlength : 0 < events.length := List.length_pos_iff.mpr hsome
  refine ⟨[v], events, rfl, hjournal, ?_, ?_, fun n t h => by cases h⟩
  · simpa [schedule] using hnotes
  · simp only [List.length_singleton]
    omega

/-- The steps for an item come before those for the items after it. -/
theorem IsTraced.cons {v : Visit} {events : List Event} {count : Nat} {s t : Session}
    {reached : List (Record × List Record)} {result : EStateM.Result Fault Session Nat}
    (hjournal : t.journal = s.journal ++ events)
    (hnotes : events.map Event.entry = v.entries s.current) (hbound : t.current = v.bound)
    (hrest : IsTraced reached (count + 1) t result) :
    IsTraced (v.reached :: reached) count s result := by
  obtain ⟨visits, events', rfl, hjournal', hprefix, hlength, hdone⟩ := hrest
  have hfour : events.length = 4 := by simpa [Visit.entries] using congrArg List.length hnotes
  refine ⟨v :: visits, events ++ events', rfl, ?_, ?_, ?_, fun n u h => ?_⟩
  · rw [hjournal', hjournal, List.append_assoc]
  · rw [List.map_append, hnotes, schedule, ← hbound]
    exact (List.prefix_append_right_inj _).mpr hprefix
  · simp only [List.length_cons, List.length_append]
    omega
  · obtain ⟨hn, hall⟩ := hdone n u h
    simp only [List.length_cons, List.length_append]
    omega

/-- Processing records reaches the records whose key is new when their turn comes, and notes their
steps. -/
theorem isTraced_processFrom (he : e.HooksKeepBindings) (p : Plan) (records rest : List Record) :
    ∀ (seen : SeenKeys) (count : Nat) (s : Session),
      IsTraced (reachedFrom e p records seen rest s) count s
        (processFrom e p records seen count rest s) := by
  -- on the records still to come, for every session, since each item leaves another one
  induction rest with
  | nil =>
      intro seen count s
      exact isTraced_nil count s rfl fun n t h => by cases h; rfl
  | cons record rest ih =>
      intro seen count s
      cases hkey : firstOfKey? p.keyOf seen record s.store with
      | error fault σ =>
          rw [processFrom, bind_of_error (Action.ofEval_of_error hkey)]
          simp only [reachedFrom, hkey]
          exact isTraced_nil count s rfl fun n t h => by cases h
      | ok found σ =>
          rw [processFrom, bind_of_ok (Action.ofEval_of_ok hkey)]
          cases found with
          | none =>
              simp only [reachedFrom, hkey]
              exact ih seen count { s with store := σ }
          | some seen' =>
              simp only [reachedFrom, hkey]
              cases hcontext : contextAt p records record σ with
              | none =>
                  -- an item without a context is not begun
                  obtain ⟨fault, σ', hlost⟩ := processItem_lost (e := e) (s := { s with store := σ })
                    hcontext
                  rw [bind_of_error hlost]
                  exact isTraced_nil count s rfl fun n t h => by cases h
              | some context =>
                  -- one that is begun comes last if it fails, and before what the rest notes otherwise
                  obtain ⟨tag, events, hsome, hjournal, hnotes⟩ :=
                    processItem_notes he p records record (s := { s with store := σ }) hcontext
                  cases hitem : processItem e p records record { s with store := σ } with
                  | error fault t =>
                      rw [hitem] at hjournal hnotes
                      rw [bind_of_error hitem]
                      exact isTraced_last hsome hjournal hnotes
                  | ok u t =>
                      rw [hitem] at hjournal hnotes
                      rw [bind_of_ok hitem]
                      exact .cons hjournal hnotes.1 hnotes.2 (ih seen' (count + 1) t)

/-- The items that are reached are some of the records, in order. -/
theorem reachedFrom_sublist (e : Evaluator) (p : Plan) (records rest : List Record) :
    ∀ (seen : SeenKeys) (s : Session),
      ((reachedFrom e p records seen rest s).map Prod.fst).Sublist rest := by
  induction rest with
  | nil => exact fun _ _ => List.Sublist.slnil
  | cons record rest ih =>
      intro seen s
      rw [reachedFrom]
      split
      · exact List.nil_sublist _
      · exact (ih _ _).cons _
      · split
        · exact List.nil_sublist _
        · rw [List.map_cons]
          refine List.Sublist.cons_cons _ ?_
          split
          · exact ih _ _
          · exact List.nil_sublist _

/-! ## Runs -/

/-- Binding a name that is planned leaves the journal, and what is bound as the current item and
context. -/
theorem keptByPlanning_current (journal : List Event) (bound : Value × Value) :
    KeptByPlanning fun s => s.journal = journal ∧ s.current = bound where
  values _ _ hs := hs
  bind name hname value := by
    rintro s ⟨rfl, rfl⟩
    have hdiffers : "$ctxI" ≠ name ∧ "$ctxC" ≠ name := by
      constructor <;> (rintro rfl; revert hname; decide)
    have hjournal := Action.journal_bind name value s
    cases hresult : Action.bind name value s with
    | error fault t =>
        rw [Action.eq_of_bind_error hresult]
        exact ⟨rfl, rfl⟩
    | ok u t =>
        rw [hresult] at hjournal
        have hbound := Action.boundValue_of_bind hresult
        refine ⟨hjournal, ?_⟩
        rw [Session.current, hbound, hbound, if_neg hdiffers.1, if_neg hdiffers.2, Session.current]

/-- Preparing a script leaves the journal, and what is bound as the current item and context. -/
theorem prepare_keeps_current (e : Evaluator) (script : Value) (journal : List Event)
    (bound : Value × Value) :
    (e.prepare script).Keeps fun s => s.journal = journal ∧ s.current = bound := by
  intro s hs
  rw [prepare_eq]
  cases e.engine script s.programs s.store <;> exact hs

/-- Reporting on the items notes nothing, and answers the number of items that were processed. -/
theorem reportItems_notes (full : Bool) (total processed : Nat) (s : Session) :
    (stateLeft (reportItems full total processed s)).journal = s.journal ∧
      ∀ report n t, reportItems full total processed s = .ok (report, n) t → n = processed := by
  rw [reportItems_eq]
  cases s.classification.report (.int total) (reportPlaces full) s.store with
  | error fault σ => exact ⟨rfl, fun _ _ _ h => by cases h⟩
  | ok report σ => exact ⟨rfl, fun _ _ _ h => by cases h; rfl⟩

/-- The items that carrying out a plan reaches, with their contexts. -/
def reachedBy (e : Evaluator) (records : List Record) (p : Plan) (s : Session) :
    List (Record × List Record) :=
  match countDistinct p.keyOf records s.store with
  | .ok _ σ => reachedFrom e p records .empty records { s with store := σ }
  | .error _ _ => []

/-- Carrying out a plan notes the schedule of the items that it reaches, as far as it comes. -/
theorem carryOut_notes (he : e.HooksKeepBindings) (p : Plan) (records : List Record) (full : Bool)
    (s : Session) :
    ∃ visits events, visits.map Visit.reached = reachedBy e records p s ∧
      (stateLeft (e.carryOut records full p s)).journal = s.journal ++ events ∧
      events.map Event.entry <+: schedule s.current visits ∧
      4 * visits.length < events.length + 4 ∧
      ∀ report n t, e.carryOut records full p s = .ok (report, n) t →
        n = visits.length ∧ events.length = 4 * visits.length := by
  rw [carryOut_eq]
  simp only [tallyItems, bind_assoc, pure_bind]
  cases hcount : countDistinct p.keyOf records s.store with
  | error fault σ =>
      rw [bind_of_error (Action.ofEval_of_error hcount)]
      refine ⟨[], [], by simp only [reachedBy, hcount, List.map_nil], (List.append_nil _).symm,
        List.nil_prefix, by simp, fun _ _ _ h => by cases h⟩
  | ok total σ =>
      obtain ⟨visits, events, hvisits, hjournal, hprefix, hlength, hdone⟩ :=
        isTraced_processFrom he p records records .empty 0 { s with store := σ }
      rw [bind_of_ok (Action.ofEval_of_ok hcount)]
      refine ⟨visits, events, by simp only [reachedBy, hcount, hvisits], ?_, hprefix, hlength, ?_⟩
      · cases hitems : processFrom e p records .empty 0 records { s with store := σ } with
        | error fault t =>
            rw [hitems] at hjournal
            rw [bind_of_error hitems]
            exact hjournal
        | ok n t =>
            rw [hitems] at hjournal
            rw [bind_of_ok hitems, (reportItems_notes full total n t).1]
            exact hjournal
      · intro report n u h
        obtain ⟨n', t, hitems, hreport⟩ := bind_ok.mp h
        obtain ⟨hn, hall⟩ := hdone n' t hitems
        refine ⟨?_, hall⟩
        rw [(reportItems_notes full total n' t).2 report n u hreport, hn, Nat.zero_add]

/-- The items that a run reaches, with their contexts: the records whose key is new when their turn
comes, until something fails. -/
def Run.reached (r : Run) (e : Evaluator) (s : Session) : List (Record × List Record) :=
  match r.plan e { s with classification := .empty } with
  | .ok p t => reachedBy e r.records p t
  | .error _ _ => []

/-- The items that a run reaches are some of its records, in order. -/
theorem Run.reached_sublist (r : Run) (e : Evaluator) (s : Session) :
    ((r.reached e s).map Prod.fst).Sublist r.records := by
  unfold Run.reached
  split
  · unfold reachedBy
    split
    · exact reachedFrom_sublist e _ _ _ _ _
    · exact List.nil_sublist _
  · exact List.nil_sublist _

/-- A run notes the steps for the items that it reaches, one item after the other and the four steps
of each in order; hooks, scripts and classifications see the context of their item, and what is bound
when a step begins is the item and the list of its context, except that the hook before still sees
what was bound before.  A run that is completed notes all steps of all items.  One that fails notes
them as far as it came: to a step of the last item that it reached. -/
theorem Run.follows_schedule {e : Evaluator} (he : e.HooksKeepBindings) (r : Run) (s : Session) :
    ∃ visits events, visits.map Visit.reached = r.reached e s ∧
      ((r.reached e s).map Prod.fst).Sublist r.records ∧
      (r.perform e s).2.journal = s.journal ++ events ∧
      match (r.perform e s).1 with
      | .completed _ n =>
          n = visits.length ∧ events.map Event.entry = schedule s.current visits
      | .failed _ =>
          events.map Event.entry <+: schedule s.current visits ∧
            4 * visits.length < events.length + 4 := by
  have hkept := (keptByPlanning_current s.journal s.current).plan
    (fun script => prepare_keeps_current e script s.journal s.current) r
    { s with classification := .empty } ⟨rfl, rfl⟩
  rw [Run.perform_eq]
  cases hplan : r.plan e { s with classification := .empty } with
  | error fault t =>
      rw [hplan] at hkept
      rw [settle, bind_of_error hplan]
      refine ⟨[], [], by simp only [Run.reached, hplan, List.map_nil], r.reached_sublist e s,
        hkept.1.trans (List.append_nil _).symm, List.nil_prefix, by simp⟩
  | ok p t =>
      rw [hplan] at hkept
      obtain ⟨hstart, hcurrent⟩ := hkept
      obtain ⟨visits, events, hvisits, hjournal, hprefix, hlength, hdone⟩ :=
        carryOut_notes he p r.records r.isFull t
      rw [hstart] at hjournal
      rw [hcurrent] at hprefix
      refine ⟨visits, events, by simp only [Run.reached, hplan, hvisits], r.reached_sublist e s, ?_⟩
      rw [settle, bind_of_ok hplan]
      cases hresult : e.carryOut r.records r.isFull p t with
      | error fault u =>
          rw [hresult] at hjournal
          exact ⟨hjournal, hprefix, hlength⟩
      | ok answer u =>
          rw [hresult] at hjournal
          obtain ⟨hn, hall⟩ := hdone answer.1 answer.2 u hresult
          refine ⟨hjournal, hn, hprefix.eq_of_length ?_⟩
          rw [List.length_map, hall, length_schedule]

/-! ## A run that fails at its second item -/

/-- An evaluator without hooks, whose engine fails for the second of two records. -/
def staller : Evaluator where
  resolver := ⟨⟨"dict", []⟩, []⟩
  engine := fun _ => return fun env =>
    match env.item with
    | .mapping 1 => throw (.name (.undefinedVariable "$y"))
    | _ => return ()
  before := Hook.none
  after := Hook.none

/-- It has no hooks that could change bindings. -/
theorem hooksKeepBindings_staller : staller.HooksKeepBindings where
  before _ _ _ := ⟨rfl, rfl⟩
  after _ _ _ := ⟨rfl, rfl⟩

/-- The run fails after it noted six steps. -/
theorem perform_staller :
    ((keyRun.perform staller keySession).1.isSuccess,
      (keyRun.perform staller keySession).2.journal.length) = (false, 6) := by
  unfold keyRun Run.perform runSimple simpleRun resultTarget bindResultKey compiled
  simp only [compileKey_selector, compileTarget_path]
  decide +kernel

/-- These are the four steps of the first item and two of the second. -/
theorem follows_schedule_staller : ∃ visits events, visits.length = 2 ∧ events.length = 6 ∧
    (keyRun.perform staller keySession).2.journal = keySession.journal ++ events ∧
    events.map Event.entry <+: schedule keySession.current visits := by
  obtain ⟨hfails, hnoted⟩ := Prod.mk.inj perform_staller
  obtain ⟨visits, events, hvisits, -, hjournal, hnotes⟩ :=
    Run.follows_schedule hooksKeepBindings_staller keyRun keySession
  have hempty : keySession.journal = [] := by rfl
  have hlength : events.length = 6 := by rw [← hnoted, hjournal, hempty, List.nil_append]
  cases houtcome : (keyRun.perform staller keySession).1 with
  | completed report n => simp [houtcome, Outcome.isSuccess] at hfails
  | failed fault =>
      rw [houtcome] at hnotes
      have hsteps := hnotes.1.length_le
      rw [List.length_map, length_schedule] at hsteps
      exact ⟨visits, events, by omega, hlength, hjournal, hnotes.1⟩

end Evaluator

end Rubric
