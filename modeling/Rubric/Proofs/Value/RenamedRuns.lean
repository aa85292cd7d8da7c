import Rubric.Proofs.Sequencing
import Rubric.Proofs.Value.RenamedTemplates
import Rubric.Record.Call

/-!
# Computations with renamed tags

A computation gives tags out one after the other.  Where a renaming takes the tags that it gives out to
those that come next in another store, and different tags stay different, it does the same in both: it
gives the renamed value or the same fault, and leaves stores that are renamed alike.

* `Renames` : computations that do the same up to a renaming of tags;
* `Value.renames_call`, `Value.renames_writePath` : calls and writes are such.
-/

namespace Rubric

open Value (retagEntries retagNamed)

/-! ## Computations up to a renaming -/

/-- Whether a renaming takes tags to come to those that come elsewhere, as far as some are given out. -/
def LinesUp (ρ : Tag → Tag) (next next' : Tag) (k : Nat) : Prop :=
  ∀ i < k, ρ (next.advance i) = next'.advance i

/-- What comes of a computation with its tags renamed. -/
def retagResult {α β : Type} (ρ : Tag → Tag) (next : Tag) (f : α → β) :
    EStateM.Result Fault Store α → EStateM.Result Fault Store β
  | .ok a σ => .ok (f a) (σ.retag ρ next)
  | .error fault σ => .error fault (σ.retag ρ next)

/-- The tag that comes next then. -/
theorem nextTag_retagResult {α β : Type} {ρ : Tag → Tag} {next : Tag} {f : α → β}
    (result : EStateM.Result Fault Store α) : (stateLeft (retagResult ρ next f result)).nextTag = next := by
  cases result <;> rfl

/-- Whether a computation does with renamed tags what another does, where the renaming takes the tags that
it gives out to those that come next. -/
def Renames {α β : Type} (ρ : Tag → Tag) (f : α → β) (action : Eval α) (action' : Eval β) : Prop :=
  ∀ σ, ∃ k, (stateLeft (action σ)).nextTag = σ.nextTag.advance k ∧
    ∀ next, LinesUp ρ σ.nextTag next k →
      action' (σ.retag ρ next) = retagResult ρ (next.advance k) f (action σ)

section

variable {α β α' β' : Type} {ρ : Tag → Tag} {f : α → α'} {g : β → β'}

theorem renames_pure (a : α) : Renames ρ f (pure a : Eval α) (pure (f a)) :=
  fun _ => ⟨0, rfl, fun _ _ => rfl⟩

theorem renames_throw (fault : Fault) : Renames ρ f (throw fault : Eval α) (throw fault) :=
  fun _ => ⟨0, rfl, fun _ _ => rfl⟩

/-- Two computations in a row. -/
theorem Renames.bind {first : Eval α} {first' : Eval α'} {second : α → Eval β} {second' : α' → Eval β'}
    (hfirst : Renames ρ f first first') (hsecond : ∀ a, Renames ρ g (second a) (second' (f a))) :
    Renames ρ g (first >>= second) (first' >>= second') := by
  intro σ
  obtain ⟨i, hnext, hi⟩ := hfirst σ
  cases hresult : first σ with
  | ok a τ =>
      rw [hresult] at hnext hi
      obtain ⟨k, hnext', hk⟩ := hsecond a τ
      have hmiddle : τ.nextTag = σ.nextTag.advance i := hnext
      rw [hmiddle] at hnext' hk
      refine ⟨i + k, ?_, fun next hlines => ?_⟩
      · rw [bind_of_ok hresult, hnext', Tag.advance_advance]
      · have hearly : LinesUp ρ σ.nextTag next i := fun n hn =>
          hlines n (Nat.lt_of_lt_of_le hn (Nat.le_add_right i k))
        have hlate : LinesUp ρ (σ.nextTag.advance i) (next.advance i) k := fun n hn => by
          rw [Tag.advance_advance, Tag.advance_advance]
          exact hlines (i + n) (Nat.add_lt_add_left hn i)
        rw [bind_of_ok hresult, bind_of_ok (hi next hearly), hk _ hlate, Tag.advance_advance]
  | error fault τ =>
      rw [hresult] at hnext hi
      refine ⟨i, ?_, fun next hlines => ?_⟩
      · rw [bind_of_error hresult]
        exact hnext
      · rw [bind_of_error hresult, bind_of_error (hi next hlines)]
        rfl

/-- A computation that looks at the store. -/
theorem renames_look {look : Store → Eval β} {look' : Store → Eval β'}
    (h : ∀ σ next, Renames ρ g (look σ) (look' (σ.retag ρ next))) :
    Renames ρ g (get >>= look) (get >>= look') := by
  intro σ
  obtain ⟨k, hnext, -⟩ := h σ σ.nextTag σ
  refine ⟨k, hnext, fun next hlines => ?_⟩
  obtain ⟨i, hnext', hi⟩ := h σ next σ
  have hsame : i = k := Tag.advance_inj.mp (hnext'.symm.trans hnext)
  subst hsame
  exact hi next hlines

/-- A computation for every member of a list. -/
theorem renames_mapM {h : α → α'} {each : α → Eval β} {each' : α' → Eval β'}
    (heach : ∀ a, Renames ρ g (each a) (each' (h a))) (as : List α) :
    Renames ρ (List.map g) (as.mapM each) ((as.map h).mapM each') := by
  induction as with
  | nil => exact renames_pure []
  | cons a as ih =>
      rw [List.map_cons, List.mapM_cons, List.mapM_cons]
      exact (heach a).bind fun b => ih.bind fun bs => renames_pure (b :: bs)

/-- Going through a list. -/
theorem renames_foldlM {h : α → α'} {each : β → α → Eval β} {each' : β' → α' → Eval β'}
    (heach : ∀ b a, Renames ρ g (each b a) (each' (g b) (h a))) (as : List α) : ∀ b,
    Renames ρ g (as.foldlM each b) ((as.map h).foldlM each' (g b)) := by
  induction as with
  | nil => exact fun b => renames_pure b
  | cons a as ih =>
      intro b
      rw [List.map_cons, List.foldlM_cons, List.foldlM_cons]
      exact (heach b a).bind ih

end

/-! ## Tags, lists and writes -/

section

variable {ρ : Tag → Tag} {α β β' : Type} {f : α → β}

/-- A computed answer. -/
theorem renames_ofExcept {answer : Except Fault α} {answer' : Except Fault β} (h : answer' = answer.map f) :
    Renames ρ f (Eval.ofExcept answer) (Eval.ofExcept answer') := by
  subst h
  cases answer with
  | error fault => exact renames_throw fault
  | ok a => exact renames_pure a

/-- An answer that no tag plays a part in. -/
theorem renames_answer (answer : Except Fault α) :
    Renames ρ id (Eval.ofExcept answer) (Eval.ofExcept answer) :=
  renames_ofExcept (by cases answer <;> rfl)

/-- An answer that is found in the store. -/
theorem renames_reads {answer : Store → Except Fault α} {answer' : Store → Except Fault β}
    (h : ∀ σ next, answer' (σ.retag ρ next) = (answer σ).map f) :
    Renames ρ f (get >>= fun σ => Eval.ofExcept (answer σ)) (get >>= fun σ => Eval.ofExcept (answer' σ)) :=
  renames_look fun σ next => renames_ofExcept (h σ next)

/-- A failure that is told with the store in view. -/
theorem renames_get_throw {fault fault' : Store → Fault} (h : ∀ σ next, fault' (σ.retag ρ next) = fault σ) :
    Renames ρ f (get >>= fun σ => throw (fault σ) : Eval α) (get >>= fun σ => throw (fault' σ) : Eval β) :=
  renames_look fun σ next => by
    rw [h]
    exact renames_throw _

/-- Taking a tag. -/
theorem renames_freshTag : Renames ρ ρ Eval.freshTag Eval.freshTag := by
  intro σ
  refine ⟨1, rfl, fun next hlines => ?_⟩
  have hnext : ρ σ.nextTag = next := hlines 0 Nat.one_pos
  show EStateM.Result.ok next _ = EStateM.Result.ok (ρ σ.nextTag) _
  rw [hnext]
  rfl

/-- A value whose tags are kept. -/
theorem renames_kept {v : Value} (h : v.retag ρ = v) :
    Renames ρ (Value.retag ρ) (pure v : Eval Value) (pure v) := by
  have hpure := renames_pure (f := Value.retag ρ) (ρ := ρ) v
  rwa [h] at hpure

/-- Making a list. -/
theorem renames_newList (items : List Value) :
    Renames ρ (Value.retag ρ) (Eval.newList items) (Eval.newList (items.map (Value.retag ρ))) :=
  renames_freshTag.bind fun tag => by
    rw [← Value.retagAll_eq_map]
    exact renames_pure (Value.list tag items)

/-- The value of arithmetic. -/
theorem renames_ofFloat (x : Option Number.Binary64) :
    Renames ρ (Value.retag ρ) (Eval.ofFloat x) (Eval.ofFloat x) := by
  cases x with
  | none => exact renames_freshTag.bind fun tag => renames_pure (Value.nan tag)
  | some x => exact renames_pure (Value.float x)

/-- Writing the entries of a mapping. -/
theorem renames_setEntries (address : Nat) (entries : List (Value × Value)) :
    Renames ρ id (modify fun σ => σ.setEntries address entries : Eval Unit)
      (modify fun σ => σ.setEntries address (retagEntries ρ entries)) := by
  intro σ
  refine ⟨0, rfl, fun next _ => ?_⟩
  show EStateM.Result.ok () _ = EStateM.Result.ok () _
  simp only [Store.retag, Store.setEntries, Array.map_setIfInBounds]
  rfl

/-- Writing the attributes of an object. -/
theorem renames_setAttributes (address : Nat) (attributes : List (String × Value)) :
    Renames ρ id (modify fun σ => σ.setAttributes address attributes : Eval Unit)
      (modify fun σ => σ.setAttributes address (retagNamed ρ attributes)) := by
  intro σ
  refine ⟨0, rfl, fun next _ => ?_⟩
  have hobject : (σ.retag ρ next).object address = (σ.object address).retag ρ := Store.object_retag address
  show EStateM.Result.ok () ((σ.retag ρ next).setAttributes address (retagNamed ρ attributes))
    = EStateM.Result.ok () ((σ.setAttributes address attributes).retag ρ next)
  simp only [Store.setAttributes, hobject, Object.type_retag]
  simp only [Store.retag, Array.map_setIfInBounds]
  rfl

end

/-! ## Operators -/

namespace Value

variable {ρ : Tag → Tag}

theorem renames_onDoubles (op : Number.Binary64 → Number.Binary64 → Option Number.Binary64)
    (a b : NumberView) :
    Renames ρ (retag ρ) (onDoubles op a b) (onDoubles op a b) := by
  refine (renames_answer _).bind fun x => (renames_answer _).bind fun y => ?_
  cases x with
  | none => exact renames_ofFloat none
  | some x =>
      cases y with
      | none => exact renames_ofFloat none
      | some y => exact renames_ofFloat (op x y)

theorem renames_onNumbers {ints : Int → Int → Eval Value}
    {doubles : Number.Binary64 → Number.Binary64 → Option Number.Binary64}
    (hints : ∀ n m, Renames ρ (retag ρ) (ints n m) (ints n m)) (a b : NumberView) :
    Renames ρ (retag ρ) (onNumbers ints doubles a b) (onNumbers ints doubles a b) := by
  cases a with
  | int n =>
      cases b with
      | int m => exact hints n m
      | _ => exact renames_onDoubles doubles _ _
  | _ => exact renames_onDoubles doubles _ _

/-- An operator without meaning for its operands. -/
theorem renames_operandFault {α β : Type} {f : α → β} (operator : String) (a b : Value) :
    Renames ρ f (operandFault operator a b) (operandFault operator (a.retag ρ) (b.retag ρ)) :=
  renames_get_throw fun σ next => by rw [typeName_retag, typeName_retag]

theorem renames_add (a b : Value) : Renames ρ (retag ρ) (a.add b) ((a.retag ρ).add (b.retag ρ)) := by
  have hnumbers (x y : NumberView) : Renames ρ (retag ρ)
      (onNumbers (fun n m => return .int (n + m)) Number.Binary64.add? x y)
      (onNumbers (fun n m => return .int (n + m)) Number.Binary64.add? x y) :=
    renames_onNumbers (fun n m => renames_pure (int (n + m))) x y
  have hfault (a b : Value) : Renames ρ (retag ρ) (operandFault "+" a b : Eval Value)
      (operandFault "+" (a.retag ρ) (b.retag ρ)) := renames_operandFault "+" a b
  have hjoin (sequence : String) : Renames ρ (retag ρ)
      (get >>= fun σ => throw (.type (.joining sequence (b.typeName σ))) : Eval Value)
      (get >>= fun σ => throw (.type (.joining sequence ((b.retag ρ).typeName σ)))) :=
    renames_get_throw fun σ next => by rw [typeName_retag]
  have htuple (xs ys : List Value) : Renames ρ (retag ρ) (pure (tuple (xs ++ ys)) : Eval Value)
      (pure (tuple (retagAll ρ xs ++ retagAll ρ ys))) := by
    rw [retagAll_eq_map, retagAll_eq_map, ← List.map_append, ← retagAll_eq_map]
    exact renames_pure (tuple (xs ++ ys))
  unfold add
  rw [number?_retag, number?_retag]
  split
  · exact hnumbers _ _
  cases a with
  | list _ xs =>
      cases b with
      | list _ ys =>
          have hlist := renames_newList (ρ := ρ) (xs ++ ys)
          rw [List.map_append, ← retagAll_eq_map, ← retagAll_eq_map] at hlist
          exact hlist
      | _ => exact hjoin "list"
  | tuple xs | row _ _ xs =>
      cases b with
      | tuple ys => exact htuple xs ys
      | row _ _ ys => exact htuple xs ys
      | _ => exact hjoin "tuple"
  | _ => exact hfault _ b

theorem renames_sub (hρ : Function.Injective ρ) (a b : Value) :
    Renames ρ (retag ρ) (a.sub b) ((a.retag ρ).sub (b.retag ρ)) := by
  have hfault (a b : Value) : Renames ρ (retag ρ) (operandFault "-" a b : Eval Value)
      (operandFault "-" (a.retag ρ) (b.retag ρ)) := renames_operandFault "-" a b
  unfold sub
  rw [number?_retag, number?_retag]
  split
  · exact renames_onNumbers (fun n m => renames_pure (int (n - m))) _ _
  cases a with
  | set frozen xs =>
      cases b with
      | set _ ys =>
          simp only [retag, retagAll_eq_map]
          refine renames_look fun σ next => ?_
          refine (renames_ofExcept (without_retag hρ ys xs)).bind fun rest => ?_
          rw [← retagAll_eq_map]
          exact renames_pure (set frozen rest)
      | _ => exact hfault _ _
  | _ => exact hfault _ b

/-- A sequence several times over. -/
theorem map_repeated {α β : Type} (f : α → β) (times : Nat) (items : List α) :
    (repeated times items).map f = repeated times (items.map f) := by
  rw [repeated, repeated, List.map_flatten, List.map_replicate]

theorem renames_repeat? (a : Value) (times : Int) {fault fault' : Eval Value}
    (hfault : Renames ρ (retag ρ) fault fault') :
    Renames ρ (retag ρ) ((a.repeat? times).getD fault) (((a.retag ρ).repeat? times).getD fault') := by
  have htuple (items : List Value) : Renames ρ (retag ρ)
      (do return tuple (repeated (← Eval.ofExcept (repeatCount .outOfMemory items.length times)) items))
      (do return tuple (repeated (← Eval.ofExcept
        (repeatCount .outOfMemory (retagAll ρ items).length times)) (retagAll ρ items))) := by
    rw [retagAll_eq_map, List.length_map]
    refine (renames_answer _).bind fun n => ?_
    rw [id, ← map_repeated, ← retagAll_eq_map]
    exact renames_pure (tuple (repeated n items))
  cases a with
  | str s => exact (renames_answer _).bind fun n => renames_pure (str (String.ofList (repeated n s.toList)))
  | list _ items =>
      simp only [retag, repeat?, Option.getD_some, retagAll_eq_map, List.length_map]
      refine (renames_answer _).bind fun n => ?_
      rw [id, ← map_repeated]
      exact renames_newList (repeated n items)
  | tuple items => exact htuple items
  | row _ _ items => exact htuple items
  | _ => exact hfault

@[simp] theorem isRepeatable_retag (v : Value) : (v.retag ρ).isRepeatable = v.isRepeatable := by
  cases v <;> rfl

/-- Repeating a sequence as often as a value says. -/
theorem renames_repeatBy (a times : Value) {fault fault' : Eval Value}
    (hfault : Renames ρ (retag ρ) fault fault') :
    Renames ρ (retag ρ)
      (match times.asInt? with
        | some n => (a.repeat? n).getD fault
        | none => do throw (.type (.repetition (times.typeName (← get)))))
      (match (times.retag ρ).asInt? with
        | some n => ((a.retag ρ).repeat? n).getD fault'
        | none => do throw (.type (.repetition ((times.retag ρ).typeName (← get))))) := by
  rw [asInt?_retag]
  split
  · exact renames_repeat? a _ hfault
  · exact renames_get_throw fun σ next => by rw [typeName_retag]

theorem renames_mul (a b : Value) : Renames ρ (retag ρ) (a.mul b) ((a.retag ρ).mul (b.retag ρ)) := by
  unfold mul
  rw [number?_retag, number?_retag, isRepeatable_retag, isRepeatable_retag]
  split
  · exact renames_onNumbers (fun n m => renames_pure (int (n * m))) _ _
  split
  · exact renames_repeatBy a b (renames_operandFault "*" a b)
  split
  · exact renames_repeatBy b a (renames_operandFault "*" a b)
  · exact renames_operandFault "*" a b

@[simp] theorem equalsZero_retag (v : Value) : (v.retag ρ).equalsZero = v.equalsZero := by
  rw [equalsZero, equalsZero, number?_retag]

theorem renames_divInts (n m : Int) : Renames ρ (retag ρ) (divInts n m) (divInts n m) := by
  unfold divInts
  cases Number.Binary64.ofQuotient? n m with
  | some x => exact renames_pure (float x)
  | none => exact renames_throw _

theorem renames_div (a b : Value) : Renames ρ (retag ρ) (a.div b) ((a.retag ρ).div (b.retag ρ)) := by
  unfold div
  rw [equalsZero_retag, number?_retag, number?_retag]
  split
  · exact renames_throw _
  split
  · exact renames_onNumbers renames_divInts _ _
  · exact renames_operandFault "/" a b

theorem renames_mod (hρ : Function.Injective ρ) (a b : Value) :
    Renames ρ (retag ρ) (a.mod b) ((a.retag ρ).mod (b.retag ρ)) := by
  unfold mod
  rw [equalsZero_retag, number?_retag, number?_retag]
  split
  · exact renames_throw _
  split
  · exact renames_onNumbers (fun n m => renames_pure (int (n.fmod m))) _ _
  cases a with
  | str template =>
      refine renames_look fun σ next => ?_
      have hfill : fillTemplate (σ.retag ρ next) template (b.retag ρ) = (fillTemplate σ template b).map id := by
        rw [fillTemplate_retag hρ]
        cases fillTemplate σ template b <;> rfl
      exact (renames_ofExcept hfill).bind fun text => renames_pure (str text)
  | _ => exact renames_operandFault "%" _ b

theorem renames_neg (a : Value) : Renames ρ (retag ρ) a.neg (a.retag ρ).neg := by
  unfold neg
  rw [number?_retag]
  split
  · exact renames_pure (int _)
  · exact renames_pure (float _)
  · exact renames_ofFloat none
  · exact renames_get_throw fun σ next => by rw [typeName_retag]

theorem renames_abs (a : Value) : Renames ρ (retag ρ) a.abs (a.retag ρ).abs := by
  unfold abs
  rw [number?_retag]
  split
  · exact renames_pure (int _)
  · exact renames_pure (float _)
  · exact renames_ofFloat none
  · exact renames_get_throw fun σ next => by rw [typeName_retag]

theorem renames_round (a : Value) (places : Int) :
    Renames ρ (retag ρ) (a.round places) ((a.retag ρ).round places) := by
  unfold round
  rw [number?_retag]
  split
  · exact renames_pure (int _)
  · split
    · exact renames_pure (float _)
    · exact renames_throw _
  · exact renames_ofFloat none
  · exact renames_get_throw fun σ next => by rw [typeName_retag]

theorem renames_sum (vs : List Value) : Renames ρ (retag ρ) (Value.sum vs) (Value.sum (vs.map (retag ρ))) :=
  renames_foldlM renames_add vs (int 0)

/-! ## Writes -/

theorem renames_setAttribute (hρ : Function.Injective ρ) (v : Value) (name : String) (value : Value) :
    Renames ρ id (v.setAttribute name value) ((v.retag ρ).setAttribute name (value.retag ρ)) := by
  refine renames_look fun σ next => ?_
  have hname : (v.retag ρ).typeName (σ.retag ρ next) = v.typeName σ := typeName_retag v
  cases v with
  | mapping address =>
      refine (renames_ofExcept (f := retagEntries ρ) ?_).bind fun entries => renames_setEntries address entries
      show setEntry (σ.retag ρ next) name (value.retag ρ) ((σ.retag ρ next).entries address) = _
      rw [Store.entries_retag, setEntry_retag hρ]
  | object address =>
      have hobject : (σ.retag ρ next).object address = (σ.object address).retag ρ := Store.object_retag address
      have hwrite (o : Object) : Renames ρ id
          (if o.type.structured && o.type.frozen then throw (.access (.frozen name))
            else modify fun store => store.setAttributes address (setNamed name value o.attributes) : Eval Unit)
          (if (o.retag ρ).type.structured && (o.retag ρ).type.frozen then throw (.access (.frozen name))
            else modify fun store =>
              store.setAttributes address (setNamed name (value.retag ρ) (o.retag ρ).attributes) : Eval Unit) := by
        rw [Object.type_retag, Object.attributes_retag, setNamed_retag]
        split
        · exact renames_throw _
        · exact renames_setAttributes address _
      have h := hwrite (σ.object address)
      rw [← hobject] at h
      exact h
  | row _ type _ =>
      show Renames ρ id (if type.fields.contains name then _ else _) (if type.fields.contains name then _ else _)
      split <;> exact renames_throw _
  | _ => exact renames_throw _

theorem renames_writePath (hρ : Function.Injective ρ) (v : Value) (path : List String) (value : Value) :
    Renames ρ id (v.writePath path value) ((v.retag ρ).writePath path (value.retag ρ)) := by
  unfold writePath
  refine renames_look fun σ next => (renames_ofExcept (readPath_retag hρ v path.dropLast)).bind fun parent => ?_
  rw [isNull_retag]
  cases path.getLast? with
  | none => exact renames_throw _
  | some name =>
      dsimp only
      split
      · exact renames_throw _
      · exact renames_setAttribute hρ parent name value

end Value

/-! ## Setters -/

variable {ρ : Tag → Tag}

mutual

theorem Setter.renames_assign (hρ : Function.Injective ρ) : ∀ (s : Setter) (record value : Value),
    Renames ρ id (s.assign record value) (s.assign (record.retag ρ) (value.retag ρ))
  | .path _ names, record, value => by
      rw [Setter.assign, Setter.assign]
      exact Value.renames_writePath hρ record names value
  | .composite parts, record, value => by
      have hrefused : Renames ρ (id : Unit → Unit)
          (do throw (.name (.compositeWidth parts.length (value.shown (← get)))) : Eval Unit)
          (do throw (.name (.compositeWidth parts.length ((value.retag ρ).shown (← get)))) : Eval Unit) :=
        renames_get_throw fun σ next => by rw [Value.shown_retag hρ]
      rw [Setter.assign, Setter.assign, Value.sequence?_retag]
      cases value.sequence? with
      | none => exact hrefused
      | some items =>
          simp only [Option.map_some, List.length_map]
          split
          · exact Setter.renames_assignEach hρ parts record items
          · exact hrefused

theorem Setter.renames_assignEach (hρ : Function.Injective ρ) :
    ∀ (parts : List Setter) (record : Value) (values : List Value),
    Renames ρ id (Setter.assignEach parts record values)
      (Setter.assignEach parts (record.retag ρ) (values.map (Value.retag ρ)))
  | [], _, _ => renames_pure ()
  | _ :: _, _, [] => renames_pure ()
  | part :: parts, record, value :: values => by
      rw [List.map_cons, Setter.assignEach, Setter.assignEach]
      exact (Setter.renames_assign hρ part record value).bind fun _ =>
        Setter.renames_assignEach hρ parts record values

end

/-! ## Calls -/

/-- The one argument of a call. -/
theorem oneArgument_retag (callee : String) (own : Nat) (args : List Value) :
    oneArgument callee own (args.map (Value.retag ρ)) = (oneArgument callee own args).map (Value.retag ρ) := by
  rcases args with _ | ⟨a, _ | ⟨b, args⟩⟩
  · rfl
  · rfl
  · simp only [List.map_cons, oneArgument, List.length_cons, List.length_map, Except.map]

/-- The two arguments of a call. -/
theorem twoArguments_retag (callee first second : String) (own : Nat) (args : List Value) :
    twoArguments callee first second own (args.map (Value.retag ρ))
      = (twoArguments callee first second own args).map fun pair => (pair.1.retag ρ, pair.2.retag ρ) := by
  rcases args with _ | ⟨a, _ | ⟨b, _ | ⟨c, args⟩⟩⟩
  · rfl
  · rfl
  · rfl
  · simp only [List.map_cons, twoArguments, List.length_cons, List.length_map, Except.map]

mutual

theorem Selector.renames_read (hρ : Function.Injective ρ) : ∀ (s : Selector) (record : Value),
    Renames ρ (Value.retag ρ) (s.read record) ((s.retag ρ).read (record.retag ρ))
  | .path _ names, record => by
      rw [Selector.retag, Selector.read, Selector.read]
      exact renames_reads fun σ next => Value.readPath_retag hρ record names
  | .composite parts, record => by
      rw [Selector.retag, Selector.read, Selector.read]
      refine (Selector.renames_readAll hρ parts record).bind fun values => ?_
      rw [← Value.retagAll_eq_map]
      exact renames_pure (Value.tuple values)
  | .computed _ callee, record => by
      rw [Selector.retag, Selector.read, Selector.read]
      exact Value.renames_call hρ callee [record]
  | .display inner, record => by
      rw [Selector.retag, Selector.read, Selector.read]
      refine (Selector.renames_read hρ inner record).bind fun value => ?_
      refine renames_look fun σ next => ?_
      rw [Value.label_retag hρ]
      exact renames_pure (Value.str (value.label σ))
  | .key inner, record => by
      rw [Selector.retag, Selector.read, Selector.read]
      exact (Selector.renames_read hρ inner record).bind fun value =>
        renames_reads fun σ next => Value.keyForm_retag hρ value

theorem Selector.renames_readAll (hρ : Function.Injective ρ) : ∀ (parts : List Selector) (record : Value),
    Renames ρ (List.map (Value.retag ρ)) (Selector.readAll parts record)
      (Selector.readAll (Selector.retagAll ρ parts) (record.retag ρ))
  | [], _ => by
      rw [Selector.retagAll, Selector.readAll, Selector.readAll]
      exact renames_pure []
  | part :: parts, record => by
      rw [Selector.retagAll, Selector.readAll, Selector.readAll]
      exact (Selector.renames_read hρ part record).bind fun value =>
        (Selector.renames_readAll hρ parts record).bind fun values => renames_pure (value :: values)

theorem Value.renames_call (hρ : Function.Injective ρ) : ∀ (v : Value) (args : List Value),
    Renames ρ (Value.retag ρ) (v.call args) ((v.retag ρ).call (args.map (Value.retag ρ)))
  | .function _ body, args => by
      rw [Value.retag, Value.call, Value.call]
      exact Function.renames_call hρ body args
  | .selector s, args => by
      rw [Value.retag, Value.call, Value.call]
      exact (renames_ofExcept (oneArgument_retag _ _ args)).bind fun record => Selector.renames_read hρ s record
  | .setter s, args => by
      rw [Value.retag, Value.call, Value.call]
      refine (renames_ofExcept (twoArguments_retag _ _ _ _ args)).bind fun pair => ?_
      exact (Setter.renames_assign hρ s pair.1 pair.2).bind fun _ => renames_pure Value.null
  | .null, _ | .bool _, _ | .int _, _ | .float _, _ | .nan _, _ | .str _, _
  | .list _ _, _ | .tuple _, _ | .row _ _ _, _ | .set _ _, _ | .mapping _, _
  | .object _, _ | .target _ _, _ => by
      simp only [Value.retag, Value.call]
      exact renames_get_throw fun σ next => by
        simp only [Value.typeName, Store.object_retag, Object.type_retag]

theorem Function.renames_call (hρ : Function.Injective ρ) : ∀ (f : Function) (args : List Value),
    Renames ρ (Value.retag ρ) (f.call args) ((f.retag ρ).call (args.map (Value.retag ρ)))
  | .field name, args => by
      rw [Function.retag, Function.call, Function.call]
      exact (renames_ofExcept (oneArgument_retag _ _ args)).bind fun record =>
        renames_reads fun σ next => Value.subscript_retag hρ record (.str name)
  | .failing message, _ => by
      rw [Function.retag, Function.call, Function.call]
      exact renames_throw _
  | .constant value, _ => by
      rw [Function.retag, Function.call, Function.call]
      exact renames_pure value
  | .arguments, args => by
      rw [Function.retag, Function.call, Function.call]
      exact renames_newList args
  | .always, args => by
      rw [Function.retag, Function.call, Function.call]
      exact (renames_ofExcept (twoArguments_retag _ _ _ _ args)).bind fun _ => renames_pure (Value.bool true)
  | .never, args => by
      rw [Function.retag, Function.call, Function.call]
      exact (renames_ofExcept (twoArguments_retag _ _ _ _ args)).bind fun _ => renames_pure (Value.bool false)
  | .sameKey key, args => by
      rw [Function.retag, Function.call, Function.call]
      refine (renames_ofExcept (twoArguments_retag _ _ _ _ args)).bind fun pair => ?_
      refine (Selector.renames_read hρ key pair.1).bind fun left => ?_
      refine (Selector.renames_read hρ key pair.2).bind fun right => ?_
      refine renames_look fun σ next => ?_
      rw [Value.equal_retag hρ]
      exact (renames_answer _).bind fun answer => renames_pure (Value.bool answer)
  | .comparing names operator, args => by
      rw [Function.retag, Function.call, Function.call]
      refine (renames_ofExcept (twoArguments_retag _ _ _ _ args)).bind fun pair => ?_
      refine renames_look fun σ next => ?_
      refine (renames_ofExcept (Value.readPath_retag hρ pair.1 names)).bind fun left => ?_
      refine (renames_ofExcept (Value.readPath_retag hρ pair.2 names)).bind fun right => ?_
      rw [Value.compareText_retag hρ]
      exact (renames_answer _).bind fun answer => renames_pure (Value.bool answer)
  | .failingRelation message, args => by
      rw [Function.retag, Function.call, Function.call]
      exact (renames_ofExcept (twoArguments_retag _ _ _ _ args)).bind fun _ => renames_throw _

end

/-! ## Targets and relations -/

theorem Target.renames_read (hρ : Function.Injective ρ) (s : Selector) (assign : Option Setter)
    (record : Value) :
    Renames ρ (Value.retag ρ) ((Target.mk s assign).read record)
      ((Target.mk (s.retag ρ) assign).read (record.retag ρ)) :=
  Selector.renames_read hρ s record

theorem Target.renames_write (hρ : Function.Injective ρ) (s : Selector) (assign : Option Setter)
    (record value : Value) :
    Renames ρ id ((Target.mk s assign).write record value)
      ((Target.mk (s.retag ρ) assign).write (record.retag ρ) (value.retag ρ)) := by
  cases assign with
  | some setter => exact Setter.renames_assign hρ setter record value
  | none =>
      simp only [Target.write, Target.expression, Selector.expression_retag]
      exact renames_throw _

theorem renames_related (hρ : Function.Injective ρ) (relation record item : Value) :
    Renames ρ id (related relation record item)
      (related (relation.retag ρ) (record.retag ρ) (item.retag ρ)) :=
  (Value.renames_call hρ relation [record, item]).bind fun answer =>
    renames_look fun σ next => by
      rw [Value.truthy_retag]
      exact renames_pure (answer.truthy σ)

end Rubric
