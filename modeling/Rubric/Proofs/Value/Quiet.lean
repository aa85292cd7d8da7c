import Mathlib.Order.Defs.Unbundled
import Rubric.Proofs.Value.Writes

/-!
# Computations that write nothing

Operators, selectors and calls take tags for new values, and write nothing else: the one way to write
through a call is to call a setter with a record and a value.

* `Leaves` : how the state that a computation leaves is related to the one it began in;
* `Eval.IsQuiet` : computations on values that write nothing, also where they fail;
* `Value.quiet_call` : calls are quiet, but for calls of setters with two arguments;
* `Value.rewrites_setAttribute` : writing an attribute writes that attribute at its place.
-/

namespace Rubric

open Value (Place)

/-! ## What computations leave -/

section

variable {ε σ α β : Type} {R : σ → σ → Prop}

/-- Whether a computation leaves states that are related to those it began in, where it succeeds and
where it fails. -/
def Leaves (R : σ → σ → Prop) (action : EStateM ε σ α) : Prop := ∀ s, R s (stateLeft (action s))

/-- What a computation leaves is related by every weaker relation. -/
theorem Leaves.imp {Q : σ → σ → Prop} {action : EStateM ε σ α} (h : Leaves R action)
    (himp : ∀ s t, R s t → Q s t) : Leaves Q action := fun s => himp s _ (h s)

/-- A computation that looks at the state leaves what it leaves for each. -/
theorem leaves_get_bind {f : σ → EStateM ε σ β} (h : ∀ s, Leaves R (f s)) :
    Leaves R (get >>= f) := fun s => h s s

variable [IsPreorder σ R]

/-- Answering leaves the state. -/
theorem leaves_pure (a : α) : Leaves R (pure a : EStateM ε σ α) := fun s => refl s

/-- Failing leaves the state. -/
theorem leaves_throw (fault : ε) : Leaves R (throw fault : EStateM ε σ α) := fun s => refl s

/-- Two computations in a row leave what is related by both. -/
theorem Leaves.bind {first : EStateM ε σ α} {second : α → EStateM ε σ β} (hfirst : Leaves R first)
    (hsecond : ∀ a, Leaves R (second a)) : Leaves R (first >>= second) := by
  intro s
  have hs := hfirst s
  cases hresult : first s with
  | ok a t =>
      rw [hresult] at hs
      rw [bind_of_ok hresult]
      exact IsTrans.trans _ _ _ hs (hsecond a t)
  | error fault t =>
      rw [hresult] at hs
      rwa [bind_of_error hresult]

/-- A computation for every member of a list leaves what is related by each. -/
theorem leaves_mapM {f : α → EStateM ε σ β} (h : ∀ a, Leaves R (f a)) (as : List α) :
    Leaves R (as.mapM f) := by
  induction as with
  | nil => exact leaves_pure []
  | cons a as ih =>
      rw [List.mapM_cons]
      exact (h a).bind fun b => ih.bind fun bs => leaves_pure (b :: bs)

/-- So does going through a list. -/
theorem leaves_foldlM {f : β → α → EStateM ε σ β} (h : ∀ b a, Leaves R (f b a)) (as : List α) :
    ∀ b, Leaves R (as.foldlM f b) := by
  induction as with
  | nil => exact fun b => leaves_pure b
  | cons a as ih =>
      intro b
      rw [List.foldlM_cons]
      exact (h b a).bind ih

end

/-! ## Stores with the same contents -/

/-- Whether two stores have the same contents, and differ by the next tag at most. -/
structure Store.SameContents (σ τ : Store) : Prop where
  mappings_eq : τ.mappings = σ.mappings
  objects_eq : τ.objects = σ.objects
  runs_eq : τ.runs = σ.runs

instance : IsPreorder Store Store.SameContents where
  refl _ := ⟨rfl, rfl, rfl⟩
  trans _ _ _ h h' := ⟨h'.mappings_eq.trans h.mappings_eq, h'.objects_eq.trans h.objects_eq,
    h'.runs_eq.trans h.runs_eq⟩

namespace Store

variable {writes : Place → List String} {σ τ : Store}

/-- A store with the same contents is the store with another tag. -/
theorem SameContents.eq (h : σ.SameContents τ) : τ = { σ with nextTag := τ.nextTag } := by
  obtain ⟨mappings, objects, runs, tag⟩ := τ
  obtain ⟨rfl, rfl, rfl⟩ := h
  rfl

/-- Nothing is written between stores with the same contents. -/
theorem SameContents.rewrites (h : σ.SameContents τ) : σ.Rewrites writes τ := by
  rw [h.eq]
  exact .withTag writes σ _

instance : IsPreorder Store (Store.Rewrites writes) where
  refl σ := .refl writes σ
  trans _ _ _ h h' := h.trans h'

end Store

/-- Whether a computation on values writes nothing. -/
abbrev Eval.IsQuiet {α : Type} (action : Eval α) : Prop := Leaves Store.SameContents action

section

variable {α : Type}

theorem quiet_ofExcept (answer : Except Fault α) : (Eval.ofExcept answer).IsQuiet := by
  cases answer with
  | ok a => exact leaves_pure a
  | error fault => exact leaves_throw fault

theorem quiet_reads (answer : Store → Except Fault α) :
    (get >>= fun σ => Eval.ofExcept (answer σ)).IsQuiet :=
  leaves_get_bind fun σ => quiet_ofExcept (answer σ)

theorem quiet_get_throw (fault : Store → Fault) :
    (get >>= fun σ => throw (fault σ) : Eval α).IsQuiet :=
  leaves_get_bind fun σ => leaves_throw (fault σ)

theorem quiet_freshTag : Eval.freshTag.IsQuiet := fun _ => ⟨rfl, rfl, rfl⟩

theorem quiet_newList (items : List Value) : (Eval.newList items).IsQuiet :=
  quiet_freshTag.bind fun _ => leaves_pure _

theorem quiet_ofFloat (x : Option Number.Binary64) : (Eval.ofFloat x).IsQuiet := by
  cases x with
  | some x => exact leaves_pure _
  | none => exact quiet_freshTag.bind fun _ => leaves_pure _

end

/-! ## Operators -/

namespace Value

theorem quiet_onDoubles (op : Number.Binary64 → Number.Binary64 → Option Number.Binary64)
    (a b : NumberView) : (onDoubles op a b).IsQuiet := by
  refine (quiet_ofExcept _).bind fun x => (quiet_ofExcept _).bind fun y => ?_
  split <;> exact quiet_ofFloat _

theorem quiet_onNumbers {ints : Int → Int → Eval Value}
    {doubles : Number.Binary64 → Number.Binary64 → Option Number.Binary64}
    (hints : ∀ n m, (ints n m).IsQuiet) (a b : NumberView) :
    (onNumbers ints doubles a b).IsQuiet := by
  unfold onNumbers
  split
  · exact hints _ _
  · exact quiet_onDoubles _ _ _

theorem quiet_add (a b : Value) : (a.add b).IsQuiet := by
  unfold add
  split
  · exact quiet_onNumbers (fun n m => leaves_pure _) _ _
  split
  · exact quiet_newList _
  · exact quiet_get_throw _
  · exact leaves_pure _
  · exact leaves_pure _
  · exact leaves_pure _
  · exact leaves_pure _
  · exact quiet_get_throw _
  · exact quiet_get_throw _
  · exact quiet_get_throw _

theorem quiet_sub (a b : Value) : (a.sub b).IsQuiet := by
  unfold sub
  split
  · exact quiet_onNumbers (fun n m => leaves_pure _) _ _
  split
  · exact leaves_get_bind fun σ => (quiet_ofExcept _).bind fun _ => leaves_pure _
  · exact quiet_get_throw _

theorem quiet_repeat? {a : Value} {times : Int} {action : Eval Value}
    (h : a.repeat? times = some action) : action.IsQuiet := by
  cases a with
  | str s =>
      cases h
      exact (quiet_ofExcept _).bind fun n => leaves_pure _
  | list _ items =>
      cases h
      exact (quiet_ofExcept _).bind fun n => quiet_newList _
  | tuple items | row _ _ items =>
      cases h
      exact (quiet_ofExcept _).bind fun n => leaves_pure _
  | _ => cases h

/-- Repeating a sequence as often as a value says, or failing. -/
theorem quiet_repeatBy (a times : Value) {fault : Eval Value} (hfault : fault.IsQuiet) :
    Eval.IsQuiet (match times.asInt? with
      | some n => (a.repeat? n).getD fault
      | none => do throw (.type (.repetition (times.typeName (← get))))) := by
  split
  · rename_i n _
    cases h : a.repeat? n with
    | none => exact hfault
    | some action => exact quiet_repeat? h
  · exact quiet_get_throw _

theorem quiet_mul (a b : Value) : (a.mul b).IsQuiet := by
  unfold mul
  split
  · exact quiet_onNumbers (fun n m => leaves_pure _) _ _
  split
  · exact quiet_repeatBy a b (quiet_get_throw _)
  split
  · exact quiet_repeatBy b a (quiet_get_throw _)
  · exact quiet_get_throw _

theorem quiet_divInts (n m : Int) : (divInts n m).IsQuiet := by
  unfold divInts
  cases Number.Binary64.ofQuotient? n m with
  | some x => exact leaves_pure _
  | none => exact leaves_throw _

theorem quiet_div (a b : Value) : (a.div b).IsQuiet := by
  unfold div
  split
  · exact leaves_throw _
  split
  · exact quiet_onNumbers quiet_divInts _ _
  · exact quiet_get_throw _

theorem quiet_mod (a b : Value) : (a.mod b).IsQuiet := by
  unfold mod
  split
  · exact leaves_throw _
  split
  · exact quiet_onNumbers (fun n m => leaves_pure _) _ _
  split
  · exact leaves_get_bind fun σ => (quiet_ofExcept _).bind fun _ => leaves_pure _
  · exact quiet_get_throw _

theorem quiet_neg (a : Value) : a.neg.IsQuiet := by
  unfold neg
  split
  · exact leaves_pure _
  · exact leaves_pure _
  · exact quiet_ofFloat _
  · exact quiet_get_throw _

theorem quiet_abs (a : Value) : a.abs.IsQuiet := by
  unfold abs
  split
  · exact leaves_pure _
  · exact leaves_pure _
  · exact quiet_ofFloat _
  · exact quiet_get_throw _

theorem quiet_round (a : Value) (places : Int) : (a.round places).IsQuiet := by
  unfold round
  split
  · exact leaves_pure _
  · split
    · exact leaves_pure _
    · exact leaves_throw _
  · exact quiet_ofFloat _
  · exact quiet_get_throw _

theorem quiet_sum (vs : List Value) : (Value.sum vs).IsQuiet := leaves_foldlM quiet_add vs _

end Value

/-! ## Calls -/

mutual

/-- Reading through a selector is quiet. -/
theorem Selector.quiet_read : ∀ (s : Selector) (record : Value), (s.read record).IsQuiet
  | .path _ names, record => by
      rw [Selector.read]
      exact quiet_reads _
  | .composite parts, record => by
      rw [Selector.read]
      exact (Selector.quiet_readAll parts record).bind fun _ => leaves_pure _
  | .computed _ callee, record => by
      rw [Selector.read]
      exact Value.quiet_call callee [record] (fun _ _ => by simp)
  | .display inner, record => by
      rw [Selector.read]
      exact (Selector.quiet_read inner record).bind fun _ => leaves_get_bind fun _ => leaves_pure _
  | .key inner, record => by
      rw [Selector.read]
      exact (Selector.quiet_read inner record).bind fun value => quiet_reads _

/-- So is reading through several selectors. -/
theorem Selector.quiet_readAll :
    ∀ (parts : List Selector) (record : Value), (Selector.readAll parts record).IsQuiet
  | [], _ => by
      rw [Selector.readAll]
      exact leaves_pure _
  | part :: parts, record => by
      rw [Selector.readAll]
      exact (Selector.quiet_read part record).bind fun _ =>
        (Selector.quiet_readAll parts record).bind fun _ => leaves_pure _

/-- Calling a value is quiet, but for a setter that is called with a record and a value. -/
theorem Value.quiet_call : ∀ (v : Value) (args : List Value),
    (∀ s, v = .setter s → args.length ≠ 2) → (v.call args).IsQuiet
  | .function _ body, args, _ => by
      rw [Value.call]
      exact Function.quiet_call body args
  | .selector s, args, _ => by
      rw [Value.call]
      exact (quiet_ofExcept _).bind fun record => Selector.quiet_read s record
  | .setter s, args, h => by
      rw [Value.call]
      have hargs := h s rfl
      match args with
      | [] => exact leaves_throw _
      | [_] => exact leaves_throw _
      | [_, _] => simp at hargs
      | _ :: _ :: _ :: _ => exact leaves_throw _
  | .null, _, _ | .bool _, _, _ | .int _, _, _ | .float _, _, _ | .nan _, _, _ | .str _, _, _
  | .list _ _, _, _ | .tuple _, _, _ | .row _ _ _, _, _ | .set _ _, _, _ | .mapping _, _, _
  | .object _, _, _ | .target _ _, _, _ => by
      rw [Value.call]
      · exact quiet_get_throw _
      all_goals simp

/-- Calling a function is quiet. -/
theorem Function.quiet_call : ∀ (f : Function) (args : List Value), (f.call args).IsQuiet
  | .field name, args => by
      rw [Function.call]
      exact (quiet_ofExcept _).bind fun record => quiet_reads _
  | .failing message, _ => by
      rw [Function.call]
      exact leaves_throw _
  | .constant value, _ => by
      rw [Function.call]
      exact leaves_pure _
  | .arguments, args => by
      rw [Function.call]
      exact quiet_newList _
  | .always, args | .never, args => by
      rw [Function.call]
      exact (quiet_ofExcept _).bind fun _ => leaves_pure _
  | .sameKey key, args => by
      rw [Function.call]
      exact (quiet_ofExcept _).bind fun pair => (Selector.quiet_read key _).bind fun left =>
        (Selector.quiet_read key _).bind fun right => leaves_get_bind fun σ =>
          (quiet_ofExcept _).bind fun _ => leaves_pure _
  | .comparing names operator, args => by
      rw [Function.call]
      exact (quiet_ofExcept _).bind fun pair => leaves_get_bind fun σ =>
        (quiet_ofExcept _).bind fun left => (quiet_ofExcept _).bind fun right =>
          (quiet_ofExcept _).bind fun _ => leaves_pure _
  | .failingRelation message, args => by
      rw [Function.call]
      exact (quiet_ofExcept _).bind fun _ => leaves_throw _

end

/-- Calling a value with one argument is quiet. -/
theorem Value.quiet_callOne (v record : Value) : (v.call [record]).IsQuiet :=
  Value.quiet_call v [record] fun _ _ => by simp

/-! ## Writing one attribute -/

/-- The attributes that may be written where some names of one value may be. -/
def Value.writesOf (v : Value) (names : List String) (p : Place) : List String :=
  if v.place? = some p then names else []

/-- Writing an attribute of a mapping sets an entry, where that can be done. -/
theorem Value.setAttribute_mapping (address : Nat) (name : String) (value : Value) (σ : Store) :
    (mapping address).setAttribute name value σ
      = match setEntry σ name value (σ.entries address) with
        | .ok entries => .ok () (σ.setEntries address entries)
        | .error fault => .error fault σ := by
  show (Eval.ofExcept (setEntry σ name value (σ.entries address)) >>= _) σ = _
  cases setEntry σ name value (σ.entries address) <;> rfl

/-- Writing an attribute of an object that is not frozen sets it. -/
theorem Value.setAttribute_object (address : Nat) (name : String) (value : Value) (σ : Store) :
    (object address).setAttribute name value σ
      = if (σ.object address).isFrozen then .error (.access (.frozen name)) σ
        else .ok () (σ.setAttributes address (setNamed name value (σ.object address).attributes)) := by
  show (if (σ.object address).isFrozen then
    (throw (.access (.frozen name)) : Eval Unit) else _) σ = _
  split <;> rfl

/-- Writing an attribute of a value writes it at the place of the value. -/
theorem Value.rewrites_setAttribute {v : Value} {name : String} {names : List String}
    (hname : name ∈ names) (value : Value) :
    Leaves (Store.Rewrites (v.writesOf names)) (v.setAttribute name value) := by
  intro σ
  cases v with
  | mapping address =>
      rw [setAttribute_mapping]
      cases hwritten : setEntry σ name value (σ.entries address) with
      | error fault => exact .refl _ _
      | ok entries =>
          refine Store.rewrites_setEntries (otherEntries_setEntry ?_ value hwritten)
          simpa [writesOf, place?] using hname
  | object address =>
      rw [setAttribute_object]
      cases hfrozen : (σ.object address).isFrozen with
      | true => exact .refl _ _
      | false =>
          refine Store.rewrites_setAttributes hfrozen (otherAttributes_setNamed ?_ value _)
          simpa [writesOf, place?] using hname
  | row _ type _ =>
      refine (?_ : Eval.IsQuiet _).imp (fun _ _ h => h.rewrites) σ
      refine leaves_get_bind fun _ => ?_
      dsimp only
      split <;> exact leaves_throw _
  | _ => exact (quiet_get_throw _).imp (fun _ _ h => h.rewrites) σ

end Rubric
