import Rubric.Proofs.Evaluator.Table
import Rubric.Proofs.Value.Growth

/-!
# What runs check up front

A run compiles what it is asked for, prepares its script and reads the key of every record before it
turns to its first item.  Where one of these fails, nothing has been done to any record, and the run
ends with the first fault that was found.

* `Run.faults` : the checks of a run, by the session that it starts from;
* `Screens` : actions that make some checks and touch no data;
* `perform_of_fault` : a run one of whose checks fails.
-/

namespace Rubric

open Rubric.Script

/-! ## Checks -/

/-- The fault of a computed answer. -/
def faultOf {α : Type} : Except Fault α → Option Fault
  | .ok _ => none
  | .error fault => some fault

/-- The fault of a computation on a store. -/
def Eval.faultIn {α : Type} (action : Eval α) (σ : Store) : Option Fault :=
  match action σ with
  | .ok _ _ => none
  | .error fault _ => some fault

/-- The fault of the first check that fails. -/
def firstFault (checks : List (Option Fault)) : Option Fault := checks.findSome? id

/-- Checks without any pass. -/
@[simp] theorem firstFault_nil : firstFault [] = none := rfl

/-- The fault of the first check comes before those of the others. -/
@[simp] theorem firstFault_cons (check : Option Fault) (checks : List (Option Fault)) :
    firstFault (check :: checks) = check.or (firstFault checks) := by
  cases check <;> rfl

/-- Checks in a row fail with the first fault of either part. -/
theorem firstFault_append (checks checks' : List (Option Fault)) :
    firstFault (checks ++ checks') = (firstFault checks).or (firstFault checks') := by
  unfold firstFault
  rw [List.findSome?_append]

/-! ## Keys of records -/

section Keys

variable {σ : Store} {key : Selector} {values : List Value}

/-- Whether a value is the key of a record, read in a store that a store has grown to. -/
def KeyAmong (σ : Store) (key : Selector) (values : List Value) (k : Value) : Prop :=
  ∃ v ∈ values, ∃ τ τ', σ.GrownTo τ ∧ key.read v τ = .ok k τ'

/-- Whether the keys of two records cannot be compared, because they hold what is nested in itself. -/
def KeysClash (σ : Store) (key : Selector) (values : List Value) : Prop :=
  ∃ τ k k', σ.GrownTo τ ∧ KeyAmong σ key values k ∧ KeyAmong σ key values k' ∧
    k.found τ k' = .error .tooDeep

/-- The keys that were met. -/
def SeenKeys.keys (seen : SeenKeys) : List Value := seen.digested.map Prod.snd ++ seen.listed

/-- A value that cannot be looked up in a list cannot be compared with one of its items. -/
theorem exists_found_of_foundIn {τ : Store} {k : Value} {items : List Value} {fault : Fault}
    (h : k.foundIn τ items = .error fault) :
    fault = .tooDeep ∧ ∃ item ∈ items, item.found τ k = .error .tooDeep := by
  have hany : anyTrue (fun item => Value.matchWith τ.samePlace item k) items = none ∧
      fault = .tooDeep := by
    unfold Value.foundIn at h
    cases hanswer : anyTrue (fun item => Value.matchWith τ.samePlace item k) items with
    | none =>
        rw [hanswer] at h
        cases h
        exact ⟨rfl, rfl⟩
    | some b =>
        rw [hanswer] at h
        cases h
  refine ⟨hany.2, ?_⟩
  have hnone := hany.1
  clear hany h
  induction items with
  | nil => cases hnone
  | cons item items ih =>
      cases hmatch : Value.matchWith τ.samePlace item k with
      | none => exact ⟨item, List.mem_cons_self, by rw [Value.found, hmatch]; rfl⟩
      | some b =>
          cases b with
          | true => simp [anyTrue, hmatch] at hnone
          | false =>
              obtain ⟨other, hother, hfound⟩ := ih (by simpa [anyTrue, hmatch] using hnone)
              exact ⟨other, List.mem_cons_of_mem _ hother, hfound⟩

/-- Looking a key up among those met fails only where it cannot be compared with one of them, and
leaves these and itself at most. -/
theorem insert?_cases (τ : Store) (k : Value) (seen : SeenKeys) :
    match seen.insert? τ k with
    | .ok none => True
    | .ok (some seen') => ∀ k' ∈ seen'.keys, k' = k ∨ k' ∈ seen.keys
    | .error fault => fault = .tooDeep ∧ ∃ k' ∈ seen.keys, k'.found τ k = .error .tooDeep := by
  unfold SeenKeys.insert?
  -- a key with a digest is looked for among those with the same digest, any other key among the listed ones
  cases k.unhashable? τ with
  | none =>
      simp only [SeenKeys.hasDigested, bind, Except.bind]
      cases hfound : k.foundIn τ
          ((seen.digested.filter fun entry => entry.1 == k.digest τ).map Prod.snd) with
      | error fault =>
          obtain ⟨hfault, k', hmem, hclash⟩ := exists_found_of_foundIn hfound
          obtain ⟨entry, hentry, rfl⟩ := List.mem_map.mp hmem
          have hseen : entry.2 ∈ seen.keys :=
            List.mem_append_left _ (List.mem_map.mpr ⟨entry, (List.mem_filter.mp hentry).1, rfl⟩)
          exact ⟨hfault, entry.2, hseen, hclash⟩
      | ok b =>
          cases b with
          | true => trivial
          | false =>
              intro k' hk'
              simpa [SeenKeys.keys, or_assoc] using hk'
  | some type =>
      simp only [bind, Except.bind]
      cases hfound : k.foundIn τ seen.listed with
      | error fault =>
          obtain ⟨hfault, k', hmem, hclash⟩ := exists_found_of_foundIn hfound
          exact ⟨hfault, k', List.mem_append_right _ hmem, hclash⟩
      | ok b =>
          cases b with
          | true => trivial
          | false =>
              intro k' hk'
              have hparts : k' ∈ seen.keys ∨ k' = k := by
                simpa [SeenKeys.keys, or_assoc] using hk'
              exact hparts.symm

/-- Reading the key of a record in a grown store fails as in the store. -/
theorem faultIn_read (hclosed : σ.Closed σ.all) (hkey : key.Within σ.all) {v : Value}
    (hv : v.Within σ.all) {τ : Store} (hτ : σ.GrownTo τ) :
    match key.read v τ with
    | .ok _ τ' => (key.read v).faultIn σ = none ∧ σ.GrownTo τ'
    | .error fault τ' => (key.read v).faultIn σ = some fault ∧ σ.GrownTo τ' := by
  have hsame := Selector.runAlike_read hclosed hv hkey σ τ (.refl σ) hτ
  unfold Eval.faultIn
  cases hold : key.read v σ with
  | ok k σ' =>
      cases hnew : key.read v τ with
      | ok k' τ' =>
          simp only [hold, hnew] at hsame
          exact ⟨rfl, hsame.2.2⟩
      | error fault τ' => simp [hold, hnew] at hsame
  | error fault σ' =>
      cases hnew : key.read v τ with
      | ok k' τ' => simp [hold, hnew] at hsame
      | error fault' τ' =>
          simp only [hold, hnew] at hsame
          exact ⟨congrArg some hsame.1, hsame.2.2⟩

/-- Finding the items among some records fails with the fault of the first key that cannot be read, or
because two keys cannot be compared. -/
theorem distinctFrom_fault (hclosed : σ.Closed σ.all) (hkey : key.Within σ.all)
    (records : List Record) (hrecords : ∀ r ∈ records, r.value.Within σ.all ∧ r.value ∈ values) :
    ∀ seen : SeenKeys, (∀ k ∈ seen.keys, KeyAmong σ key values k) → ∀ τ, σ.GrownTo τ →
      match distinctFrom (fun r => key.read r.value) seen records τ with
      | .ok _ τ' => firstFault (records.map fun r => (key.read r.value).faultIn σ) = none ∧
          σ.GrownTo τ'
      | .error fault τ' => (firstFault (records.map fun r => (key.read r.value).faultIn σ)
          = some fault ∨ fault = .tooDeep ∧ KeysClash σ key values) ∧ σ.GrownTo τ' := by
  -- the keys met so far are keys of records, and the store has grown at most: both go through the records
  induction records with
  | nil => exact fun seen _ τ hτ => ⟨rfl, hτ⟩
  | cons r records ih =>
      obtain ⟨⟨hvalue, hmem⟩, hrecords⟩ := List.forall_mem_cons.mp hrecords
      intro seen hseen τ hτ
      rw [List.map_cons, firstFault_cons, distinctFrom]
      have hread := faultIn_read hclosed hkey hvalue hτ
      cases hk : key.read r.value τ with
      | error fault τ' =>
          rw [hk] at hread
          have hfirst : firstOfKey? (fun r : Record => key.read r.value) seen r τ = .error fault τ' :=
            bind_of_error hk
          rw [bind_of_error hfirst, hread.1]
          exact ⟨.inl rfl, hread.2⟩
      | ok k τ' =>
          rw [hk] at hread
          obtain ⟨hnone, hτ'⟩ := hread
          rw [hnone, Option.none_or]
          have hamong : KeyAmong σ key values k := ⟨r.value, hmem, τ, τ', hτ, hk⟩
          -- a key that can be read can still fail to be compared with one that was met
          have hinsert := insert?_cases τ' k seen
          have hfirst : firstOfKey? (fun r : Record => key.read r.value) seen r τ
              = Eval.ofExcept (seen.insert? τ' k) τ' := by
            rw [firstOfKey?, bind_of_ok hk, bind_of_ok (get_ok τ')]
          cases hanswer : seen.insert? τ' k with
          | error fault =>
              rw [hanswer] at hinsert hfirst
              obtain ⟨hfault, k', hk', hclash⟩ := hinsert
              rw [bind_of_error hfirst]
              exact ⟨.inr ⟨hfault, τ', k', k, hτ', hseen k' hk', hamong, hclash⟩, hτ'⟩
          | ok found =>
              rw [hanswer] at hinsert hfirst
              rw [bind_of_ok hfirst]
              cases found with
              | none => exact ih hrecords seen hseen τ' hτ'
              | some seen' =>
                  have hseen' : ∀ k' ∈ seen'.keys, KeyAmong σ key values k' := by
                    intro k' hk'
                    rcases hinsert k' hk' with rfl | hold
                    · exact hamong
                    · exact hseen k' hold
                  have hrest := ih hrecords seen' hseen' τ' hτ'
                  show match (distinctFrom (fun r => key.read r.value) seen' records
                    >>= fun items => pure (r :: items)) τ' with | .ok _ _ => _ | .error _ _ => _
                  cases hitems : distinctFrom (fun r : Record => key.read r.value) seen' records
                      τ' with
                  | ok items τ'' =>
                      rw [hitems] at hrest
                      rw [bind_of_ok hitems]
                      exact hrest
                  | error fault τ'' =>
                      rw [hitems] at hrest
                      rw [bind_of_error hitems]
                      exact hrest

end Keys

namespace Evaluator

/-! ## The checks of a run -/

namespace Run

/-- The expression of the item key of a run. -/
def itemKey : Run → Value
  | full _ request => request.itemKey
  | simple _ request => request.itemKey

/-- The faults of compiling the expressions of a run, in the order in which they are compiled.  A
simplified run that is given no result field uses the one that was bound before. -/
def compileFaults (e : Evaluator) (s : Session) : Run → List (Option Fault)
  | full _ request =>
    [faultOf (e.resolver.compileKey s.store request.itemKey),
      faultOf (e.resolver.compileTarget s.store request.resultKey),
      faultOf (e.resolver.compileTarget s.store request.obsKey),
      faultOf (e.resolver.compile s.store request.evalKey),
      faultOf (e.resolver.compileDisplay s.store request.itemDisplay),
      faultOf (e.resolver.compile s.store request.evalBasedKey),
      faultOf (e.resolver.compileDisplay s.store request.evalBasedDisplay)]
  | simple _ request =>
    [faultOf (e.resolver.compileKey s.store request.itemKey),
      if !request.resultKey.isNull then
        faultOf (e.resolver.compileTarget s.store request.resultKey)
      else if (s.boundValue "resultKey").isNull then some (.selector .unboundResultKey)
      else none]

/-- The fault of reading the script of a run, where that is a text. -/
def scriptFault (r : Run) : Option Fault :=
  match r.script with
  | .str text => faultOf (compileText true text)
  | _ => none

/-- The faults of reading the keys of the records of a run, one after the other. -/
def keyFaults (e : Evaluator) (s : Session) (r : Run) : List (Option Fault) :=
  match e.resolver.compileKey s.store r.itemKey with
  | .ok key => r.records.map fun record => (key.read record.value).faultIn s.store
  | .error _ => []

/-- The checks of a run, in the order in which they are made. -/
def faults (e : Evaluator) (s : Session) (r : Run) : List (Option Fault) :=
  r.compileFaults e s ++ r.scriptFault :: r.keyFaults e s

/-- What else keeps a run from its items: a script that is no text, descriptions of labels that cannot
be copied, and keys that cannot be compared because they hold what is nested in itself. -/
inductive Hindered (e : Evaluator) (σ : Store) (r : Run) : Fault → Prop where
  | script {τ : Store} {fault : Fault} (hgrown : σ.GrownTo τ)
    (htext : ∀ text, r.script ≠ .str text) (h : compile τ true r.script = .error fault) :
    Hindered e σ r fault
  | description {τ : Store} {v : Value} {fault : Fault} (hgrown : σ.GrownTo τ)
    (hv : v ∈ [r.classes, r.subclasses]) (h : v.copiedEntries τ = .error fault) :
    Hindered e σ r fault
  | keys {key : Selector} (hkey : e.resolver.compileKey σ r.itemKey = .ok key)
    (h : KeysClash σ key (r.records.map Record.value)) : Hindered e σ r .tooDeep

end Run

/-! ## Actions that make checks -/

/-- Whether an action, from sessions with a property, ends in sessions with another one, succeeds only
where its checks do, and fails with the fault of the first that fails or with one of others. -/
def Screens {α : Type} (I J : Session → Prop) (H : Fault → Prop) (checks : List (Option Fault))
    (post : α → Prop) (action : Action α) : Prop :=
  ∀ s, I s → match action s with
    | .ok a t => firstFault checks = none ∧ post a ∧ J t
    | .error fault t => (firstFault checks = some fault ∨ H fault) ∧ J t

namespace Screens

variable {α β : Type} {I J K : Session → Prop} {H : Fault → Prop}
  {checks checks' : List (Option Fault)} {post : α → Prop} {post' : β → Prop}

/-- Actions in a row make their checks in a row. -/
theorem bind {first : Action α} {second : α → Action β} (h : Screens I J H checks post first)
    (hkept : ∀ t, J t → K t) (hsecond : ∀ a, post a → Screens J K H checks' post' (second a)) :
    Screens I K H (checks ++ checks') post' (first >>= second) := by
  intro s hs
  have hfirst := h s hs
  rw [firstFault_append]
  cases hone : first s with
  | ok a t =>
      rw [hone] at hfirst
      obtain ⟨hnone, ha, ht⟩ := hfirst
      rw [bind_of_ok hone, hnone, Option.none_or]
      exact hsecond a ha t ht
  | error fault t =>
      rw [hone] at hfirst
      obtain ⟨hfault, ht⟩ := hfirst
      rw [bind_of_error hone]
      refine ⟨?_, hkept t ht⟩
      rcases hfault with hfound | hother
      · rw [hfound]
        exact .inl rfl
      · exact .inr hother

/-- A check comes before those of what follows. -/
theorem cons {check : Option Fault} {first : Action α} {second : α → Action β}
    (h : Screens I J H [check] post first) (hkept : ∀ t, J t → K t)
    (hsecond : ∀ a, post a → Screens J K H checks' post' (second a)) :
    Screens I K H (check :: checks') post' (first >>= second) :=
  h.bind hkept hsecond

/-- An action without checks comes before what follows. -/
theorem skip {first : Action α} {second : α → Action β} (h : Screens I J H [] post first)
    (hkept : ∀ t, J t → K t) (hsecond : ∀ a, post a → Screens J K H checks' post' (second a)) :
    Screens I K H checks' post' (first >>= second) :=
  h.bind hkept hsecond

/-- Answering makes no checks. -/
theorem of_pure {a : α} (ha : post a) : Screens I I H [] post (pure a) := fun _ hs => ⟨rfl, ha, hs⟩

end Screens

section

variable {e : Evaluator} {s : Session} {H : Fault → Prop}

/-- What binding names leaves of a session: everything but values of names. -/
structure Opened (s t : Session) : Prop where
  store_eq : t.store = s.store
  journal_eq : t.journal = s.journal
  fits : t.Fits

/-- What a run leaves of a session before its first item: contents of values, and the journal. -/
structure Untouched (s t : Session) : Prop where
  store_grown : s.store.GrownTo t.store
  journal_eq : t.journal = s.journal
  fits : t.Fits

/-- What binding names leaves touches no data. -/
theorem Opened.untouched {t : Session} (h : Opened s t) : Untouched s t :=
  ⟨h.store_eq ▸ .refl s.store, h.journal_eq, h.fits⟩

/-- Compiling an expression makes its check, and changes nothing. -/
theorem screens_compiled {α : Type} {I : Session → Prop} (hI : ∀ t, I t → t.store = s.store)
    (compile : Resolver → Store → Value → Except Fault α) (expression : Value) :
    Screens I I H [faultOf (compile e.resolver s.store expression)]
      (fun a => compile e.resolver s.store expression = .ok a) (e.compiled compile expression) := by
  intro t ht
  have hstore := hI t ht
  cases hcompile : compile e.resolver s.store expression with
  | ok a =>
      rw [compiled_of_ok (by rw [hstore, hcompile])]
      exact ⟨rfl, rfl, ht⟩
  | error fault =>
      rw [compiled_of_error (by rw [hstore, hcompile])]
      exact ⟨.inl rfl, ht⟩

/-- Binding a reserved name makes no checks. -/
theorem screens_bind {name : String} (hname : name ∈ reservedBindings.map Prod.fst) (value : Value) :
    Screens (Opened s) (Opened s) H [] (fun _ => True) (Action.bind name value) := by
  intro t ht
  rw [show t = { t with binder := t.binder } from rfl, bind_of_contains (ht.fits.reserved name hname)]
  exact ⟨rfl, trivial, ht.store_eq, ht.journal_eq, fun other hother => by
    rw [Binder.contains_rebind]
    exact ht.fits.reserved other hother, ht.fits.programs_sound⟩

/-- Binding a name to a compiled expression makes the check of the expression. -/
theorem screens_bindCompiled {name : String} (hname : name ∈ reservedBindings.map Prod.fst)
    (compile : Resolver → Store → Value → Except Fault Selector) (expression : Value) :
    Screens (Opened s) (Opened s) H [faultOf (compile e.resolver s.store expression)]
      (fun _ => True) (e.bindCompiled name compile expression) :=
  (screens_compiled (fun _ ht => ht.store_eq) compile expression).cons (fun _ ht => ht)
    fun _ _ => screens_bind hname _

/-- Binding the result field makes the check of its expression. -/
theorem screens_bindResultKey (expression : Value) :
    Screens (Opened s) (Opened s) H
      [faultOf (e.resolver.compileTarget s.store expression)] (fun _ => True)
      (e.bindResultKey expression) := by
  refine (screens_compiled (fun _ ht => ht.store_eq) _ expression).cons (fun _ ht => ht)
    fun target _ => ?_
  exact (screens_bind (by decide) _).skip (fun _ ht => ht) fun _ _ => .of_pure trivial

/-- Finding the result field makes the check of its expression, or that one was bound before. -/
theorem screens_resultTarget (hs : s.Fits) (htable : e.HasTable s) (expression : Value) :
    Screens (· = s) (Opened s) H
      [if !expression.isNull then faultOf (e.resolver.compileTarget s.store expression)
        else if (s.boundValue "resultKey").isNull then some (.selector .unboundResultKey) else none]
      (fun _ => True) (e.resultTarget expression) := by
  rintro t rfl
  have hopened : Opened t t := ⟨rfl, rfl, hs⟩
  unfold resultTarget
  cases hnull : expression.isNull with
  | false =>
      simp only [Bool.not_false, if_true]
      exact screens_bindResultKey expression t hopened
  | true =>
      obtain ⟨binding, hget, hsuits⟩ := htable.reserved "resultKey" (by decide)
      have hbound : Action.bound "resultKey" t = .ok binding.value t := by
        simp [Action.bound, Binder.get, hget]
      have hvalue : t.boundValue "resultKey" = binding.value := by simp [Session.boundValue, hget]
      simp only [Bool.not_true, Bool.false_eq_true, if_false]
      rw [bind_of_ok hbound, hvalue]
      -- the table says that what was bound is a target, if it is anything
      rcases hsuits.target (by decide) with hnothing | ⟨target, htarget⟩
      · rw [hnothing]
        exact ⟨.inl rfl, hopened⟩
      · rw [htarget]
        exact ⟨rfl, trivial, hopened⟩

/-- What a run compiles and binds before its relation makes the checks of its expressions. -/
theorem screens_opening (hs : s.Fits) (htable : e.HasTable s) (r : Run) :
    Screens (· = s) (Opened s) H (r.compileFaults e s)
      (fun opened => e.resolver.compileKey s.store r.itemKey = .ok opened.1) (r.opening e) := by
  have hopened : ∀ t, t = s → Opened s t := by
    rintro t rfl
    exact ⟨rfl, rfl, hs⟩
  have hsame : ∀ t, t = s → t.store = s.store := fun t ht => congrArg Session.store ht
  cases r with
  | full values request =>
      refine (screens_compiled hsame _ _).cons hopened fun key hkey => ?_
      refine (screens_compiled hsame _ _).cons hopened fun result _ => ?_
      refine (screens_compiled hsame _ _).cons hopened fun obs _ => ?_
      have hstart : ∀ {α : Type} {checks : List (Option Fault)} {post : α → Prop} {A : Action α},
          Screens (Opened s) (Opened s) H checks post A → Screens (· = s) (Opened s) H checks post A :=
        fun h t ht => h t (hopened t ht)
      refine hstart ?_
      refine (screens_bindCompiled (by decide) _ _).cons (fun _ ht => ht) fun _ _ => ?_
      refine (screens_bindCompiled (by decide) _ _).cons (fun _ ht => ht) fun _ _ => ?_
      refine (screens_bindCompiled (by decide) _ _).cons (fun _ ht => ht) fun _ _ => ?_
      refine (screens_bindCompiled (by decide) _ _).cons (fun _ ht => ht) fun _ _ => ?_
      refine (screens_bind (by decide) _).skip (fun _ ht => ht) fun _ _ => ?_
      refine (screens_bind (by decide) _).skip (fun _ ht => ht) fun _ _ => ?_
      refine (screens_bind (by decide) _).skip (fun _ ht => ht) fun _ _ => ?_
      exact (screens_bind (by decide) _).skip (fun _ ht => ht) fun _ _ => .of_pure hkey
  | simple values request =>
      refine (screens_compiled hsame _ _).cons hopened fun key hkey => ?_
      refine (screens_resultTarget hs htable _).cons (fun _ ht => ht) fun result _ => ?_
      refine (screens_bind (by decide) _).skip (fun _ ht => ht) fun _ _ => ?_
      exact (screens_bind (by decide) _).skip (fun _ ht => ht) fun _ _ => .of_pure hkey

/-- Finding the relation makes no checks. -/
theorem screens_relationOr (key : Selector) (relation : Value) :
    Screens (Opened s) (Untouched s) H [] (fun _ => True)
      (Action.ofEval (relationOr key relation)) := by
  intro t ht
  have hgrown : s.store.GrownTo t.store := ht.untouched.store_grown
  have hanswer : ∃ v runs tag, Evaluator.relationOr key relation t.store
      = .ok v { t.store with runs := runs, nextTag := tag } := by
    unfold Evaluator.relationOr
    have hopen : Eval.openRun t.store = .ok () { t.store with
      runs := t.store.runs + 1, nextTag := ⟨t.store.runs + 1, none, 0⟩ } := rfl
    rw [bind_of_ok hopen, bind_of_ok (get_ok _)]
    split
    · exact ⟨relation, _, _, rfl⟩
    · exact ⟨_, _, _, rfl⟩
  obtain ⟨v, runs, tag, hok⟩ := hanswer
  rw [Action.ofEval, hok]
  exact ⟨rfl, trivial, hgrown.tags runs tag, ht.journal_eq, ht.fits.reserved, ht.fits.programs_sound⟩

/-- Binding a name where contents have grown makes no checks. -/
theorem screens_bindLater {name : String} (hname : name ∈ reservedBindings.map Prod.fst)
    (value : Value) :
    Screens (Untouched s) (Untouched s) H [] (fun _ => True) (Action.bind name value) := by
  intro t ht
  rw [show t = { t with binder := t.binder } from rfl, bind_of_contains (ht.fits.reserved name hname)]
  exact ⟨rfl, trivial, ht.store_grown, ht.journal_eq, fun other hother => by
    rw [Binder.contains_rebind]
    exact ht.fits.reserved other hother, ht.fits.programs_sound⟩

/-- Copying a description of labels fails only where it cannot be copied. -/
theorem screens_copyMapping {v : Value}
    (hother : ∀ τ fault, s.store.GrownTo τ → v.copiedEntries τ = .error fault → H fault) :
    Screens (Untouched s) (Untouched s) H [] (fun _ => True) (Action.ofEval v.copyMapping) := by
  intro t ht
  rw [Action.ofEval, Value.copyMapping_eq]
  cases hcopied : v.copiedEntries t.store with
  | ok entries =>
      exact ⟨rfl, trivial, ht.store_grown.addMapping entries, ht.journal_eq, ht.fits.reserved,
        ht.fits.programs_sound⟩
  | error fault => exact ⟨.inr (hother _ fault ht.store_grown hcopied), ht⟩

/-- Binding the relation and the descriptions of labels makes no checks. -/
theorem screens_bindShared (relation : Value) {classes subclasses : Value}
    (hother : ∀ v ∈ [classes, subclasses], ∀ τ fault, s.store.GrownTo τ →
      v.copiedEntries τ = .error fault → H fault) :
    Screens (Untouched s) (Untouched s) H [] (fun _ => True)
      (bindShared relation classes subclasses) := by
  have hclasses := hother classes (by simp)
  have hsubclasses := hother subclasses (by simp)
  refine (screens_bindLater (by decide) _).skip (fun _ ht => ht) fun _ _ => ?_
  refine (screens_copyMapping hclasses).skip (fun _ ht => ht) fun _ _ => ?_
  refine (screens_bindLater (by decide) _).skip (fun _ ht => ht) fun _ _ => ?_
  refine (screens_copyMapping hsubclasses).skip (fun _ ht => ht) fun _ _ => ?_
  exact screens_bindLater (by decide) _

/-- Preparing a script makes the check of its text. -/
theorem screens_prepare (hengine : e.engine = scriptEngine) (r : Run)
    (hother : ∀ τ fault, s.store.GrownTo τ → (∀ text, r.script ≠ .str text) →
      compile τ true r.script = .error fault → H fault) :
    Screens (Untouched s) (Untouched s) H [r.scriptFault] (fun _ => True) (e.prepare r.script) := by
  intro t ht
  obtain ⟨hprogram, hsound⟩ := compileCached_sound ht.fits.programs_sound t.store r.script
  -- a text has its fault wherever it is read
  have htext : ∀ text, r.script = .str text →
      compile t.store true r.script = compileText true text ∧
        r.scriptFault = faultOf (compileText true text) := by
    intro text hscript
    rw [Run.scriptFault, hscript]
    exact ⟨rfl, rfl⟩
  cases hcached : compileCached t.store true t.programs r.script with
  | ok prepared =>
      have hprepare : e.prepare r.script t
          = .ok (programJob prepared.1) { t with programs := prepared.2 } := by
        rw [prepare_eq, hengine, scriptEngine_eq, hcached]
      rw [hprepare]
      have hcompiled : compile t.store true r.script = .ok prepared.1 := by
        rw [← hprogram, hcached]
        rfl
      obtain ⟨text, hscript, hok⟩ := compileText_of_compile hcompiled
      refine ⟨?_, trivial, ht.store_grown, ht.journal_eq, ht.fits.reserved, hsound prepared hcached⟩
      rw [(htext text hscript).2, hok]
      rfl
  | error fault =>
      have hprepare : e.prepare r.script t = .error fault t := by
        rw [prepare_eq, hengine, scriptEngine_eq, hcached]
      rw [hprepare]
      have hcompiled : compile t.store true r.script = .error fault := by
        rw [← hprogram, hcached]
        rfl
      refine ⟨?_, ht⟩
      by_cases hscript : ∃ text, r.script = .str text
      · obtain ⟨text, hscript⟩ := hscript
        obtain ⟨hcompile, hfault⟩ := htext text hscript
        rw [hfault, ← hcompile, hcompiled]
        exact .inl rfl
      · push Not at hscript
        exact .inr (hother _ fault ht.store_grown hscript hcompiled)

/-- Counting the items makes the checks of the keys of all records. -/
theorem screens_count (hclosed : s.store.Closed s.store.all) {key : Selector}
    (hkey : key.Within s.store.all) {records : List Record}
    (hrecords : ∀ r ∈ records, r.value.Within s.store.all)
    (hother : KeysClash s.store key (records.map Record.value) → H .tooDeep) :
    Screens (Untouched s) (Untouched s) H
      (records.map fun record => (key.read record.value).faultIn s.store) (fun _ => True)
      (Action.ofEval (countDistinct (fun record : Record => key.read record.value) records)) := by
  intro t ht
  have hcount := distinctFrom_fault hclosed hkey records
    (fun r hr => ⟨hrecords r hr, List.mem_map.mpr ⟨r, hr, rfl⟩⟩) .empty
    (fun k hk => by cases hk) t.store ht.store_grown
  rw [Action.ofEval, countDistinct, distinctItems]
  cases hitems : distinctFrom (fun record : Record => key.read record.value) .empty records
      t.store with
  | ok items σ =>
      rw [hitems] at hcount
      rw [bind_of_ok hitems]
      exact ⟨hcount.1, trivial, hcount.2, ht.journal_eq, ht.fits.reserved, ht.fits.programs_sound⟩
  | error fault σ =>
      rw [hitems] at hcount
      rw [bind_of_error hitems]
      obtain ⟨hfault, hgrown⟩ := hcount
      refine ⟨?_, hgrown, ht.journal_eq, ht.fits.reserved, ht.fits.programs_sound⟩
      rcases hfault with hfound | ⟨rfl, hclash⟩
      · exact .inl hfound
      · exact .inr (hother hclash)

end

/-! ## What comes before the first item -/

/-- What a run does before its first item: it prepares its plan and counts the items. -/
def Run.prelude (e : Evaluator) (r : Run) : Action (Plan × Nat) := do
  let opened ← r.opening e
  let relation ← Action.ofEval (relationOr opened.1 r.relation)
  bindShared relation r.classes r.subclasses
  let job ← e.prepare r.script
  let total ← Action.ofEval
    (countDistinct (fun record : Record => opened.1.read record.value) r.records)
  return (⟨opened.1, relation, opened.2, job, r.classes, r.subclasses⟩, total)

/-- What a run does from its first item on. -/
def conclude (e : Evaluator) (records : List Record) (full : Bool) (ready : Plan × Nat) :
    Action (String × Nat) := do
  let processed ← processFrom e ready.1 records .empty 0 records
  let classification := (← get).classification
  let report ← Action.ofEval (classification.report (.int ready.2) (reportPlaces full))
  modify fun s => { s with description := report }
  return (report, processed)

/-- A run is what it does before its first item and what it does from there. -/
theorem Run.steps_prelude (e : Evaluator) (r : Run) :
    r.plan e >>= e.carryOut r.records r.isFull
      = r.prelude e >>= e.conclude r.records r.isFull := by
  rw [Run.steps_eq]
  simp only [prelude, conclude, carryOut, bind_assoc, pure_bind]
  rfl

/-- What a run does before its first item makes its checks, and touches no data. -/
theorem screens_prelude {e : Evaluator} (hengine : e.engine = scriptEngine) {s : Session}
    (hclosed : s.store.Closed s.store.all) (hs : s.Fits) (htable : e.HasTable s) (r : Run)
    (hkey : r.itemKey.Within s.store.all)
    (hrecords : ∀ record ∈ r.records, record.value.Within s.store.all) :
    Screens (· = s) (Untouched s) (r.Hindered e s.store) (r.faults e s) (fun _ => True) (r.prelude e) := by
  refine (screens_opening hs htable r).bind (fun _ ht => ht.untouched) fun opened hopened => ?_
  have hwithin : opened.1.Within s.store.all := Resolver.compileKey_within hopened hkey
  have hkeys : r.keyFaults e s
      = r.records.map (fun record => (opened.1.read record.value).faultIn s.store) ++ [] := by
    rw [Run.keyFaults, hopened, List.append_nil]
  rw [hkeys]
  refine (screens_relationOr _ _).skip (fun _ ht => ht) fun relation _ => ?_
  refine (screens_bindShared relation fun v hv τ fault hτ h => ?_).skip (fun _ ht => ht)
    fun _ _ => ?_
  · exact .description hτ hv h
  refine (screens_prepare hengine r fun τ fault hτ htext h => ?_).cons (fun _ ht => ht)
    fun job _ => ?_
  · exact .script hτ htext h
  refine (screens_count hclosed hwithin hrecords fun h => ?_).bind (fun _ ht => ht)
    fun total _ => .of_pure trivial
  exact .keys hopened h

/-! ## What is not done -/

/-- An evaluator with other hooks, which does something else for every item than run the script. -/
def replaced (e : Evaluator) (before after : Hook) (job : Environment → Eval Unit) : Evaluator where
  resolver := e.resolver
  engine := fun script cache => do
    let prepared ← e.engine script cache
    return (job, prepared.2)
  before := before
  after := after

/-- What comes before the first item is the same with other hooks and another job, which it only
answers. -/
theorem prelude_replaced (e : Evaluator) (before after : Hook) (job : Environment → Eval Unit)
    (r : Run) : r.prelude (e.replaced before after job)
      = r.prelude e >>= fun ready => pure ({ ready.1 with job := job }, ready.2) := by
  have hopening : r.opening (e.replaced before after job) = r.opening e := by cases r <;> rfl
  have hprepare : (e.replaced before after job).prepare r.script
      = e.prepare r.script >>= fun _ => pure job := by
    funext s
    have hengine : (e.replaced before after job).engine r.script s.programs s.store
        = (e.engine r.script s.programs >>= fun prepared => pure (job, prepared.2)) s.store := rfl
    rw [prepare_eq, hengine]
    cases hprepared : e.engine r.script s.programs s.store with
    | ok prepared σ =>
        have hok : e.prepare r.script s
            = .ok prepared.1 { s with store := σ, programs := prepared.2 } := by
          rw [prepare_eq, hprepared]
        rw [bind_of_ok hprepared, bind_of_ok hok]
        rfl
    | error fault σ =>
        have herror : e.prepare r.script s = .error fault { s with store := σ } := by
          rw [prepare_eq, hprepared]
        rw [bind_of_error hprepared, bind_of_error herror]
  simp only [Run.prelude, hopening, hprepare, bind_assoc, pure_bind]

/-- A run one of whose checks fails ends with the fault of the first that does, or with another one
that is found before its first item.  It notes no step of an item, so that no hook is called and no
script runs; whatever these would do, the run is the same.  All objects and mappings have the contents
that they had. -/
theorem perform_of_fault {e : Evaluator} (hengine : e.engine = scriptEngine) {s : Session}
    (hs : s.IsSound) (htable : e.HasTable s) (r : Run) (hkey : r.itemKey.Within s.store.all)
    (hrecords : ∀ record ∈ r.records, record.value.Within s.store.all) {first : Fault}
    (hfirst : firstFault (r.faults e s) = some first) :
    ∃ fault t, r.perform e s = (.failed fault, t) ∧ (fault = first ∨ r.Hindered e s.store fault) ∧
      t.journal = s.journal ∧ s.store.GrownTo t.store ∧
      ∀ before after job, r.perform (e.replaced before after job) s = r.perform e s := by
  let s₀ : Session := { s with classification := .empty }
  have hfits : s₀.Fits := by
    refine ⟨fun name hname => ?_, hs.programs_sound⟩
    obtain ⟨binding, hget, -⟩ := htable.reserved _ hname
    simp [s₀, Binder.contains, hget]
  have hprelude := screens_prelude (s := s₀) hengine hs.closed hfits htable r hkey hrecords s₀ rfl
  have hfaults : firstFault (r.faults e s₀) = some first := by cases r <;> exact hfirst
  cases hrun : r.prelude e s₀ with
  | ok ready t =>
      rw [hrun] at hprelude
      rw [hprelude.1] at hfaults
      cases hfaults
  | error fault t =>
      rw [hrun] at hprelude
      obtain ⟨hfault, huntouched⟩ := hprelude
      -- a run that stops in its prelude is settled from there, whatever would have followed
      have hperform : ∀ e : Evaluator, r.prelude e s₀ = .error fault t →
          r.perform e s = (.failed fault, { t with classification := .empty, description := "" }) := by
        intro e hrun
        rw [Run.perform_eq, settle, Run.steps_prelude, bind_of_error hrun]
      refine ⟨fault, _, hperform e hrun, ?_, huntouched.journal_eq, huntouched.store_grown, ?_⟩
      · rcases hfault with hfound | hother
        · rw [hfaults] at hfound
          exact .inl (Option.some.inj hfound).symm
        · exact .inr hother
      · intro before after job
        rw [hperform e hrun]
        refine hperform _ ?_
        rw [prelude_replaced, bind_of_error hrun]

/-- Where a script is a text and the descriptions of labels are mappings, if they are anything, only
keys that cannot be compared are in the way. -/
theorem Run.Hindered.keysClash {e : Evaluator} {σ : Store} {r : Run} {fault : Fault}
    (h : r.Hindered e σ fault) (hscript : ∃ text, r.script = .str text)
    (hdescribed : ∀ v ∈ [r.classes, r.subclasses], v = .null ∨ ∃ address, v = .mapping address) :
    fault = .tooDeep ∧ ∃ key, e.resolver.compileKey σ r.itemKey = .ok key ∧
      KeysClash σ key (r.records.map Record.value) := by
  cases h with
  | script _ htext _ =>
      obtain ⟨text, hscript⟩ := hscript
      exact absurd hscript (htext text)
  | description _ hv hcopied =>
      rcases hdescribed _ hv with rfl | ⟨address, rfl⟩
      · cases hcopied
      · unfold Value.copiedEntries at hcopied
        split at hcopied <;> cases hcopied
  | keys hkey hclash => exact ⟨rfl, _, hkey, hclash⟩

/-! ## A key that the last record does not have -/

/-- A full run over two records with a key and a number. -/
def numberRun : Run :=
  .full [.mapping 0, .mapping 1, .int 7] (gradeRequest "SET $result = COUNT($ctxC)\n")

/-- The key of its records, as it is compiled. -/
theorem compileKey_grader (σ : Store) :
    grader.resolver.compileKey σ numberRun.itemKey = .ok (.key (.path "k" ["k"])) := by
  show grader.resolver.compileKey σ (.str "k") = _
  rw [Resolver.compileKey, compile_grader_key]
  rfl

/-- The records of grades mention no place that the store does not have. -/
theorem closed_gradedStore : gradedStore.Closed gradedStore.all := by
  intro p hp v hv
  have hplain : v ∈ [.str "k", .int 1, .int 2, .str "grade", .null, .int 5] := by
    cases p with
    | mapping address =>
        have haddress : address = 0 ∨ address = 1 := by
          have hlt : address < 2 := hp
          omega
        rcases haddress with rfl | rfl <;>
          simp [Store.contents, Store.entries, gradedStore] at hv <;> aesop
    | object address => exact absurd hp (Nat.not_lt_zero address)
  simp only [List.mem_cons, List.not_mem_nil, or_false] at hplain
  rcases hplain with rfl | rfl | rfl | rfl | rfl | rfl <;> simp

/-- The records of that run are records of grades, and a number. -/
theorem within_numberRun : ∀ record ∈ numberRun.records, record.value.Within gradedStore.all := by
  simp [numberRun, Run.records, Record.numbered, Store.all, gradedStore]

/-- The keys that its records have are integers. -/
theorem integer_of_keyAmong {k : Value}
    (h : KeyAmong gradedStore (.key (.path "k" ["k"])) (numberRun.records.map Record.value) k) :
    ∃ n, k = .int n := by
  obtain ⟨v, hv, τ, τ', hgrown, hread⟩ := h
  obtain ⟨record, hrecord, rfl⟩ := List.mem_map.mp hv
  have hpath := hgrown.readPath_eq closed_gradedStore ["k"] (within_numberRun record hrecord)
  -- the mappings keep their entries, so the key is read as in the store that the run begins with
  have hkey : (Selector.key (.path "k" ["k"])).read record.value τ
      = match record.value.readPath gradedStore ["k"] with
        | .ok w => Eval.ofExcept (w.keyForm τ) τ
        | .error fault => .error fault τ := by
    have hinner : (Selector.path "k" ["k"]).read record.value τ
        = Eval.ofExcept (record.value.readPath τ ["k"]) τ := by
      rw [Selector.read, bind_of_ok (get_ok τ)]
    rw [Selector.read, ← hpath]
    cases hanswer : record.value.readPath τ ["k"] with
    | ok w =>
        rw [hanswer] at hinner
        rw [bind_of_ok hinner, bind_of_ok (get_ok τ)]
    | error fault =>
        rw [hanswer] at hinner
        exact bind_of_error hinner
  rw [hkey] at hread
  simp only [numberRun, Run.records, Record.numbered, List.zipIdx_cons, List.zipIdx_nil,
    List.map_cons, List.map_nil, List.mem_cons, List.not_mem_nil, or_false] at hrecord
  rcases hrecord with rfl | rfl | rfl
  · have hvalue : (Value.mapping 0).readPath gradedStore ["k"] = .ok (.int 1) := by rfl
    rw [hvalue] at hread
    cases hread
    exact ⟨1, rfl⟩
  · have hvalue : (Value.mapping 1).readPath gradedStore ["k"] = .ok (.int 2) := by rfl
    rw [hvalue] at hread
    cases hread
    exact ⟨2, rfl⟩
  · cases hread

/-- The only check of that run that fails is that of the key of the number. -/
theorem faults_numberRun {new : Session} (hnew : grader.start gradedStore = .ok new) :
    firstFault (numberRun.faults grader new) = some (.access (.noAttribute "int" "k")) := by
  obtain ⟨b, -, rfl⟩ := eq_of_start hnew
  have hcompiled : firstFault (numberRun.compileFaults grader ⟨gradedStore, b, .empty, "", [], []⟩)
      = none := by
    show firstFault [faultOf (grader.resolver.compileKey gradedStore (.str "k")),
      faultOf (grader.resolver.compileTarget gradedStore (.str "grade")),
      faultOf (grader.resolver.compileTarget gradedStore (.str "grade")),
      faultOf (grader.resolver.compile gradedStore (.str "grade")),
      faultOf (grader.resolver.compileDisplay gradedStore (.str "k")),
      faultOf (grader.resolver.compile gradedStore (.str "grade")),
      faultOf (grader.resolver.compileDisplay gradedStore (.str "grade"))] = none
    simp only [Resolver.compileKey, Resolver.compileTarget, Resolver.compileDisplay,
      compile_grader_key, compile_grader_grade]
    rfl
  have hscript : numberRun.scriptFault = none := by
    show faultOf (compileText true "SET $result = COUNT($ctxC)\n") = none
    decide +kernel
  have hkeys : numberRun.keyFaults grader ⟨gradedStore, b, .empty, "", [], []⟩
      = numberRun.records.map fun record =>
        ((Selector.key (.path "k" ["k"])).read record.value).faultIn gradedStore := by
    rw [Run.keyFaults, compileKey_grader]
  rw [Run.faults, firstFault_append, hcompiled, firstFault_cons, hscript, hkeys]
  rfl

/-- That run ends with the fault of the number, and leaves the two records before it alone. -/
theorem perform_numberRun : ∃ new t, grader.start gradedStore = .ok new ∧
    numberRun.perform grader new = (.failed (.access (.noAttribute "int" "k")), t) ∧
    t.journal = [] ∧ gradedStore.GrownTo t.store ∧
    ∀ before after job, numberRun.perform (grader.replaced before after job) new
      = numberRun.perform grader new := by
  obtain ⟨new, hnew⟩ := start_grader gradedStore
  have hstore : new.store = gradedStore := by
    obtain ⟨b, -, rfl⟩ := eq_of_start hnew
    rfl
  have htable : grader.HasTable new := hasTable_of_start hnew
  have hrecords : ∀ record ∈ numberRun.records, record.value.Within new.store.all := by
    rw [hstore]
    exact within_numberRun
  obtain ⟨fault, t, hperform, hfault, hjournal, hgrown, hsame⟩ :=
    perform_of_fault rfl (isSound_of_start hnew closed_gradedStore) htable numberRun (Value.within_str "k")
      hrecords (faults_numberRun hnew)
  refine ⟨new, t, hnew, ?_, ?_, hstore ▸ hgrown, hsame⟩
  · rcases hfault with rfl | hother
    · exact hperform
    · -- the keys of the first two records are integers, which can be compared
      rw [hstore] at hother
      obtain ⟨-, key, hkey, τ, k, k', -, hk, hk', hclash⟩ :=
        hother.keysClash ⟨_, rfl⟩ (by simp [numberRun, Run.classes, Run.subclasses, gradeRequest])
      rw [compileKey_grader] at hkey
      cases hkey
      obtain ⟨m, rfl⟩ := integer_of_keyAmong hk
      obtain ⟨n, rfl⟩ := integer_of_keyAmong hk'
      cases hclash
  · rw [hjournal]
    obtain ⟨b, -, rfl⟩ := eq_of_start hnew
    rfl

end Evaluator

end Rubric
