import Rubric.Proofs.Value.RenamedRuns
import Rubric.Script.Check
import Rubric.Script.Interpreter

/-!
# Expressions with renamed tags

The value of an expression depends on the tags of the values it is made of only in so far as they are the
same or not.  So does what is written while it is evaluated.  Of the local variables only those matter that
the expression reads.

* `Environment.Keeps` : renamings that keep the tags of the bindings;
* `Builtin.renames_call` : the built-in functions do the same up to a renaming of tags;
* `Expr.renames_eval` : so do expressions, where the variables that they read are renamed alike.
-/

namespace Rubric.Script

open Value (retagNamed)

variable {ρ : Tag → Tag}

/-! ## Collections -/

theorem renames_itemsOrNone (collection : Value) : Renames ρ (List.map (Value.retag ρ))
    (itemsOrNone collection) (itemsOrNone (collection.retag ρ)) := by
  refine renames_look fun σ next => ?_
  rw [Value.truthy_retag]
  split
  · exact renames_ofExcept (Value.items_retag collection)
  · exact renames_pure []

/-- The items of a collection. -/
theorem renames_items (collection : Value) : Renames ρ (List.map (Value.retag ρ))
    (do Eval.ofExcept (collection.items (← get)))
    (do Eval.ofExcept ((collection.retag ρ).items (← get))) :=
  renames_reads fun _ _ => Value.items_retag collection

/-- Calling what can be called, and refusing the rest. -/
theorem renames_callOne (hρ : Function.Injective ρ) (selector record : Value) : Renames ρ (Value.retag ρ)
    (if selector.isCallable then selector.call [record]
      else do throw (.type (.notASelector (selector.shown (← get)))))
    (if (selector.retag ρ).isCallable then (selector.retag ρ).call [record.retag ρ]
      else do throw (.type (.notASelector ((selector.retag ρ).shown (← get))))) := by
  rw [Value.isCallable_retag]
  split
  · exact Value.renames_call hρ selector [record]
  · exact renames_get_throw fun σ next => by rw [Value.shown_retag hρ]

theorem renames_selectFrom (hρ : Function.Injective ρ) (selector record : Value) : Renames ρ (Value.retag ρ)
    (selectFrom selector record) (selectFrom (selector.retag ρ) (record.retag ρ)) := by
  have hcall := renames_callOne hρ selector record
  cases selector with
  | null => exact renames_pure record
  | target s assign => exact Target.renames_read hρ s assign record
  | str name => exact renames_reads fun σ next => Value.readPath_retag hρ record (Text.dotted name)
  | _ => exact hcall

theorem renames_selectAll (hρ : Function.Injective ρ) (collection selector : Value) :
    Renames ρ (List.map (Value.retag ρ)) (selectAll collection selector)
      (selectAll (collection.retag ρ) (selector.retag ρ)) := by
  unfold selectAll
  rw [Value.isNull_retag]
  split
  · exact renames_pure []
  · refine renames_look fun σ next => ?_
    exact (renames_ofExcept (Value.items_retag collection)).bind fun items =>
      renames_mapM (renames_selectFrom hρ selector) items

/-- The values that are not null, with their tags renamed. -/
theorem map_retag_filter_isNull (values : List Value) :
    (values.filter fun v => !v.isNull).map (Value.retag ρ)
      = (values.map (Value.retag ρ)).filter fun v => !v.isNull := by
  rw [List.filter_map]
  congr 1
  refine List.filter_congr fun v _ => ?_
  rw [Function.comp, Value.isNull_retag]

theorem renames_selectPresent (hρ : Function.Injective ρ) (collection selector : Value) :
    Renames ρ (List.map (Value.retag ρ)) (selectPresent collection selector)
      (selectPresent (collection.retag ρ) (selector.retag ρ)) := by
  refine (renames_selectAll hρ collection selector).bind fun values => ?_
  rw [← map_retag_filter_isNull]
  exact renames_pure _

/-- Elements are kept alike where they are tested alike. -/
theorem renames_keepWhere {α α' : Type} {f : α → α'} {test : α → Eval Bool} {test' : α' → Eval Bool}
    (h : ∀ a, Renames ρ id (test a) (test' (f a))) (as : List α) :
    Renames ρ (List.map f) (keepWhere test as) (keepWhere test' (as.map f)) := by
  induction as with
  | nil => exact renames_pure []
  | cons a as ih =>
      rw [List.map_cons, keepWhere, keepWhere]
      refine (h a).bind fun keep => ih.bind fun others => ?_
      cases keep with
      | true => exact renames_pure (a :: others)
      | false => exact renames_pure others

theorem renames_comparesTo (hρ : Function.Injective ρ) (selector operator value record : Value) :
    Renames ρ id (comparesTo selector operator value record)
      (comparesTo (selector.retag ρ) (operator.retag ρ) (value.retag ρ) (record.retag ρ)) := by
  refine (renames_selectFrom hρ selector record).bind fun left => renames_look fun σ next => ?_
  rw [Value.text_retag hρ, Value.compareText_retag hρ]
  exact renames_answer _

theorem distinctValues_retag (hρ : Function.Injective ρ) {σ : Store} {next : Tag} (values : List Value) :
    ∀ kept : List Value,
      distinctValues (σ.retag ρ next) (kept.map (Value.retag ρ)) (values.map (Value.retag ρ))
        = (distinctValues σ kept values).map (List.map (Value.retag ρ)) := by
  induction values with
  | nil => exact fun kept => rfl
  | cons v values ih =>
      intro kept
      simp only [List.map_cons, distinctValues, Value.foundIn_retag hρ, bind, Except.bind]
      cases v.foundIn σ kept with
      | error fault => rfl
      | ok found =>
          cases found with
          | true => exact ih kept
          | false =>
              have hmore := ih (kept ++ [v])
              rw [List.map_append] at hmore
              exact hmore

/-! ## The built-in functions -/

theorem renames_countOf (hρ : Function.Injective ρ) (collection selector : Value) :
    Renames ρ (Value.retag ρ) (countOf collection selector)
      (countOf (collection.retag ρ) (selector.retag ρ)) := by
  have hlength (values : List Value) : Renames ρ (Value.retag ρ) (pure (.int values.length) : Eval Value)
      (pure (.int (values.map (Value.retag ρ)).length)) := by
    rw [List.length_map]
    exact renames_pure (Value.int values.length)
  unfold countOf
  rw [Value.isNull_retag]
  split
  · exact (renames_itemsOrNone collection).bind hlength
  · exact (renames_selectPresent hρ collection selector).bind hlength

theorem renames_meanOf (hρ : Function.Injective ρ) (collection selector : Value) :
    Renames ρ (Value.retag ρ) (meanOf collection selector)
      (meanOf (collection.retag ρ) (selector.retag ρ)) := by
  refine (renames_selectPresent hρ collection selector).bind fun values => ?_
  cases values with
  | nil => exact renames_pure Value.null
  | cons v values =>
      refine (Value.renames_sum (v :: values)).bind fun total => ?_
      have hlength : ((v :: values).map (Value.retag ρ)).length = (v :: values).length := List.length_map _
      rw [hlength]
      exact Value.renames_div total (.int (v :: values).length)

theorem renames_extremeOf (hρ : Function.Injective ρ) (op : OrderOp) (collection selector : Value) :
    Renames ρ (Value.retag ρ) (extremeOf op collection selector)
      (extremeOf op (collection.retag ρ) (selector.retag ρ)) := by
  refine (renames_selectPresent hρ collection selector).bind fun values => ?_
  cases values with
  | nil => exact renames_pure Value.null
  | cons first rest => exact renames_reads fun σ next => Value.extreme_retag hρ op first rest

theorem renames_roundTo (value places : Value) : Renames ρ (Value.retag ρ) (roundTo value places)
    (roundTo (value.retag ρ) (places.retag ρ)) := by
  unfold roundTo
  rw [Value.isNull_retag]
  split
  · exact renames_pure Value.null
  · refine renames_look fun σ next => ?_
    rw [Value.toInteger_retag]
    exact (renames_answer _).bind fun n => Value.renames_round value n

theorem renames_numberOf (hρ : Function.Injective ρ) (value : Value) : Renames ρ (Value.retag ρ)
    (numberOf value) (numberOf (value.retag ρ)) := by
  unfold numberOf
  rw [Value.isNull_retag, Value.number?_retag]
  split
  · exact renames_pure value
  · refine renames_look fun σ next => ?_
    rw [Value.text_retag hρ]
    dsimp only
    split
    · refine (renames_answer _).bind fun x => ?_
      cases x with
      | some x => exact renames_pure (Value.float x)
      | none => exact renames_ofFloat none
    · exact (renames_answer _).bind fun n => renames_pure (Value.int n)

theorem renames_lengthOf (value : Value) : Renames ρ (Value.retag ρ) (lengthOf value)
    (lengthOf (value.retag ρ)) := by
  unfold lengthOf
  rw [Value.isNull_retag]
  split
  · exact renames_pure (Value.int 0)
  · refine renames_look fun σ next => ?_
    rw [Value.length_retag]
    exact (renames_answer _).bind fun n => renames_pure (Value.int n)

theorem concatenated_retag (hρ : Function.Injective ρ) {σ : Store} {next : Tag} (parts : List Value) :
    concatenated (σ.retag ρ next) (parts.map (Value.retag ρ)) = concatenated σ parts := by
  rw [concatenated, concatenated, List.map_map]
  congr 1
  refine List.map_congr_left fun v _ => ?_
  rw [Function.comp, Value.label_retag hρ]

/-- The texts of values joined. -/
theorem renames_concatenated (hρ : Function.Injective ρ) (parts : List Value) : Renames ρ (Value.retag ρ)
    (do return .str (concatenated (← get) parts))
    (do return .str (concatenated (← get) (parts.map (Value.retag ρ)))) := by
  refine renames_look fun σ next => ?_
  rw [concatenated_retag hρ]
  exact renames_pure (Value.str _)

theorem firstPresent_retag (values : List Value) :
    firstPresent (values.map (Value.retag ρ)) = (firstPresent values).retag ρ := by
  have hsame : (fun v : Value => !v.isNull) ∘ Value.retag ρ = fun v => !v.isNull := by
    funext v
    rw [Function.comp, Value.isNull_retag]
  rw [firstPresent, firstPresent, List.find?_map, hsame]
  cases values.find? fun v => !v.isNull <;> rfl

theorem renames_descriptionIn (hρ : Function.Injective ρ) (table label default : Value) :
    Renames ρ (Value.retag ρ) (descriptionIn table label default)
      (descriptionIn (table.retag ρ) (label.retag ρ) (default.retag ρ)) := by
  have hfault : Renames ρ (Value.retag ρ)
      (get >>= fun σ => throw (.access (.noAttribute (table.typeName σ) "get")) : Eval Value)
      (get >>= fun σ => throw (.access (.noAttribute ((table.retag ρ).typeName σ) "get"))) :=
    renames_get_throw fun σ next => by rw [Value.typeName_retag]
  unfold descriptionIn
  cases table with
  | null => exact renames_look fun σ next => renames_pure default
  | mapping address =>
      refine renames_look fun σ next => ?_
      show Renames ρ (Value.retag ρ) _ (Eval.ofExcept (Value.lookup (σ.retag ρ next)
        (.str ((label.retag ρ).label (σ.retag ρ next))) ((σ.retag ρ next).entries address)) >>= _)
      rw [Value.label_retag hρ, Store.entries_retag]
      refine (renames_ofExcept (Value.lookup_retag hρ (.str (label.label σ)) (σ.entries address))).bind
        fun found => ?_
      cases found with
      | none => exact renames_pure default
      | some description => exact renames_pure description
  | _ => exact hfault

theorem renames_knownIn (hρ : Function.Injective ρ) (table label : Value) :
    Renames ρ id (knownIn table label) (knownIn (table.retag ρ) (label.retag ρ)) := by
  unfold knownIn
  rw [Value.isNull_retag]
  refine renames_look fun σ next => ?_
  split
  · exact renames_pure false
  · have hmember : (Value.str (label.label σ)).memberOf (σ.retag ρ next) (table.retag ρ)
        = (Value.str (label.label σ)).memberOf σ table := Value.memberOf_retag hρ (.str _) table
    rw [Value.label_retag hρ, hmember]
    exact renames_answer _


theorem renames_related_all (hρ : Function.Injective ρ) (relation record : Value) (pool : List Value) :
    Renames ρ (Value.retag ρ)
      (do Eval.newList (← keepWhere (fun r => related relation r record) pool))
      (do Eval.newList (← keepWhere (fun r => related (relation.retag ρ) r (record.retag ρ))
        (pool.map (Value.retag ρ)))) :=
  (renames_keepWhere (fun r => renames_related hρ relation r record) pool).bind renames_newList

/-! ## Environments -/

/-- Whether a renaming keeps the tags of the bindings and of the descriptions of labels. -/
structure Environment.Keeps (ρ : Tag → Tag) (env : Environment) : Prop where
  bindings : ∀ b ∈ env.binder.bindings, b.value.retag ρ = b.value
  classes : env.classes.retag ρ = env.classes
  subclasses : env.subclasses.retag ρ = env.subclasses

namespace Environment.Keeps

variable {env : Environment} (h : env.Keeps ρ)

include h

theorem get? {name : String} {binding : Binding} (hbound : env.binder.get? name = some binding) :
    binding.value.retag ρ = binding.value :=
  h.bindings binding (List.mem_of_find?_eq_some hbound)

theorem valueOf (name : String) : (env.valueOf name).retag ρ = env.valueOf name := by
  unfold Environment.valueOf
  cases hbound : env.binder.get? name with
  | none => rfl
  | some binding => exact h.get? hbound

theorem item : env.item.retag ρ = env.item := h.valueOf "$ctxI"

end Environment.Keeps

/-- The tags that an environment contains. -/
def Environment.tags (env : Environment) : List Tag :=
  env.binder.bindings.flatMap (fun b => b.value.tags) ++ (env.classes.tags ++ env.subclasses.tags)

/-- A renaming that keeps the tags of an environment. -/
theorem Environment.keeps_of_tags {env : Environment} (h : ∀ tag ∈ env.tags, ρ tag = tag) : env.Keeps ρ := by
  rw [Environment.tags, List.forall_mem_append, List.forall_mem_flatMap, List.forall_mem_append] at h
  exact ⟨fun b hb => Value.retag_of_kept b.value (h.1 b hb), Value.retag_of_kept _ h.2.1,
    Value.retag_of_kept _ h.2.2⟩

section

variable {env : Environment} (hρ : Function.Injective ρ) (hkeeps : env.Keeps ρ)

include hρ hkeeps

theorem renames_relatedTo (record collection : Value) : Renames ρ (Value.retag ρ)
    (relatedTo env record collection) (relatedTo env (record.retag ρ) (collection.retag ρ)) := by
  unfold relatedTo Binder.get
  cases hbound : env.binder.get? "$pkAll" with
  | none => exact renames_throw _
  | some binding =>
      have hvalue := hkeeps.get? hbound
      have hall := renames_related_all hρ binding.value record
      rw [hvalue] at hall
      show Renames ρ (Value.retag ρ) (if binding.value.isNull then _ else _)
        (if binding.value.isNull then _ else _)
      split
      · exact renames_throw _
      · rw [Value.isNull_retag]
        split
        · have hpool := renames_itemsOrNone (ρ := ρ) (env.valueOf "$ctxC")
          rw [hkeeps.valueOf] at hpool
          exact hpool.bind hall
        · exact renames_look fun σ next => (renames_ofExcept (Value.items_retag collection)).bind hall

theorem Builtin.renames_value (b : Builtin) (args : List Value) : Renames ρ (Value.retag ρ)
    (b.value env args) (b.value env (args.map (Value.retag ρ))) := by
  have hgiven (i : Nat) (default : Value) :
      (args.map (Value.retag ρ)).getD i (default.retag ρ) = (args.getD i default).retag ρ := by
    rw [List.getD_eq_getElem?_getD, List.getD_eq_getElem?_getD, List.getElem?_map]
    cases args[i]? <;> rfl
  have harg (i : Nat) : (args.map (Value.retag ρ)).getD i .null = (args.getD i .null).retag ρ :=
    hgiven i .null
  have hplaces : (args.map (Value.retag ρ)).getD 1 (.int 0) = (args.getD 1 (.int 0)).retag ρ :=
    hgiven 1 (.int 0)
  unfold Builtin.value
  simp only [harg, hplaces]
  cases b with
  | count => exact renames_countOf hρ _ _
  | sum => exact (renames_selectPresent hρ _ _).bind Value.renames_sum
  | avg => exact renames_meanOf hρ _ _
  | min => exact renames_extremeOf hρ .lt _ _
  | max => exact renames_extremeOf hρ .gt _ _
  | values => exact (renames_selectAll hρ _ _).bind renames_newList
  | filter =>
      exact (renames_itemsOrNone _).bind fun items =>
        (renames_keepWhere (renames_comparesTo hρ _ _ _) items).bind renames_newList
  | distinct =>
      exact (renames_itemsOrNone _).bind fun items => renames_look fun σ next =>
        (renames_ofExcept (distinctValues_retag hρ items [])).bind renames_newList
  | related => exact renames_relatedTo hρ hkeeps _ _
  | round => exact renames_roundTo _ _
  | abs =>
      dsimp only
      rw [Value.isNull_retag]
      split
      · exact renames_pure Value.null
      · exact Value.renames_abs _
  | str =>
      refine renames_look fun σ next => ?_
      rw [Value.label_retag hρ]
      exact renames_pure (Value.str _)
  | num => exact renames_numberOf hρ _
  | len => exact renames_lengthOf _
  | concat => exact renames_concatenated hρ args
  | coalesce =>
      dsimp only
      rw [firstPresent_retag]
      exact renames_pure _
  | describe =>
      have hdescribe := renames_descriptionIn hρ env.classes (args.getD 0 .null) (.str "")
      rw [hkeeps.classes] at hdescribe
      exact hdescribe
  | subclass =>
      have hdescribe := renames_descriptionIn hρ env.subclasses (args.getD 0 .null) .null
      rw [hkeeps.subclasses] at hdescribe
      exact hdescribe
  | hasClass =>
      have hclass := renames_knownIn hρ env.classes (args.getD 0 .null)
      have hsubclass := renames_knownIn hρ env.subclasses (args.getD 0 .null)
      rw [hkeeps.classes] at hclass
      rw [hkeeps.subclasses] at hsubclass
      refine hclass.bind fun known => ?_
      cases known with
      | true => exact renames_pure (Value.bool true)
      | false => exact hsubclass.bind fun known => renames_pure (Value.bool known)

theorem Builtin.renames_call (b : Builtin) (args : List Value) : Renames ρ (Value.retag ρ)
    (b.call env args) (b.call env (args.map (Value.retag ρ))) := by
  unfold Builtin.call
  rw [List.length_map]
  exact (renames_answer _).bind fun _ => Builtin.renames_value hρ hkeeps b args

/-! ## Names and operators -/

theorem renames_bindingValue {binding : Binding} (hvalue : binding.value.retag ρ = binding.value) :
    Renames ρ (Value.retag ρ) (bindingValue env binding) (bindingValue env binding) := by
  have hitem := hkeeps.item
  unfold bindingValue
  split
  · exact renames_pure Value.null
  · rename_i s assign _ hfield
    rw [hfield] at hvalue
    have hselector : s.retag ρ = s := by injection hvalue
    have hread := Target.renames_read hρ s assign env.item
    rw [hselector, hitem] at hread
    exact hread
  · have hname (σ : Store) (next : Tag) :
        binding.value.typeName (σ.retag ρ next) = binding.value.typeName σ := by
      rw [← Value.typeName_retag (ρ := ρ) (σ := σ), hvalue]
    exact renames_get_throw fun σ next => by rw [hname]
  · exact renames_kept hvalue

theorem renames_lookupVar {locals locals' : Locals} {name : String}
    (hlocal : locals'.lookup name = (locals.lookup name).map (Value.retag ρ)) :
    Renames ρ (Value.retag ρ) (lookupVar env locals name) (lookupVar env locals' name) := by
  unfold lookupVar
  rw [hlocal]
  cases locals.lookup name with
  | some v => exact renames_pure v
  | none =>
      cases hbound : env.binder.get? name with
      | some binding => exact renames_bindingValue hρ hkeeps (hkeeps.get? hbound)
      | none => exact renames_throw _

theorem renames_lookupName (name : String) :
    Renames ρ (Value.retag ρ) (lookupName env name) (lookupName env name) := by
  unfold lookupName
  cases hbound : env.binder.get? name with
  | some binding => exact renames_bindingValue hρ hkeeps (hkeeps.get? hbound)
  | none => exact renames_throw _

end

theorem NumberLiteral.retag_toValue (n : NumberLiteral) : n.toValue.retag ρ = n.toValue := by
  cases n <;> rfl

section

variable (hρ : Function.Injective ρ)

include hρ

theorem renames_plus (left right : Value) :
    Renames ρ (Value.retag ρ) (plus left right) (plus (left.retag ρ) (right.retag ρ)) := by
  have hjoined : Renames ρ (Value.retag ρ) (do return .str (concatenated (← get) [left, right]))
      (do return .str (concatenated (← get) [left.retag ρ, right.retag ρ])) :=
    renames_concatenated hρ [left, right]
  have hadd := Value.renames_add (ρ := ρ) left right
  unfold plus
  cases left with
  | str s => exact hjoined
  | _ =>
      cases right with
      | str s => exact hjoined
      | _ => exact hadd

theorem renames_compared (operator : String) (left right : Value) : Renames ρ (Value.retag ρ)
    (do return .bool (← Eval.ofExcept (left.compareText (← get) operator right)))
    (do return .bool (← Eval.ofExcept ((left.retag ρ).compareText (← get) operator (right.retag ρ)))) := by
  refine renames_look fun σ next => ?_
  rw [Value.compareText_retag hρ]
  exact (renames_answer _).bind fun answer => renames_pure (Value.bool answer)

theorem BinaryOp.renames_applyTo (op : BinaryOp) (left right : Value) : Renames ρ (Value.retag ρ)
    (op.applyTo left right) (op.applyTo (left.retag ρ) (right.retag ρ)) := by
  cases op with
  | or | and =>
      refine renames_look fun σ next => ?_
      rw [Value.truthy_retag, Value.truthy_retag]
      exact renames_pure (Value.bool _)
  | add => exact renames_plus hρ left right
  | sub => exact Value.renames_sub hρ left right
  | mul => exact Value.renames_mul left right
  | div => exact Value.renames_div left right
  | mod => exact Value.renames_mod hρ left right
  | _ => exact renames_compared hρ _ left right

omit hρ in
@[simp] theorem BinaryOp.decided_retag {σ : Store} {next : Tag} (op : BinaryOp) (left : Value) :
    op.decided (σ.retag ρ next) (left.retag ρ) = op.decided σ left := by
  cases op <;> simp only [decided, Value.truthy_retag]

omit hρ in
theorem UnaryOp.renames_applyTo (op : UnaryOp) (operand : Value) : Renames ρ (Value.retag ρ)
    (op.applyTo operand) (op.applyTo (operand.retag ρ)) := by
  cases op with
  | not =>
      refine renames_look fun σ next => ?_
      rw [Value.truthy_retag]
      exact renames_pure (Value.bool _)
  | neg => exact Value.renames_neg operand

/-! ## Calls -/

theorem renames_callValue (function : String) (callee : Value) (args : List Value) :
    Renames ρ (Value.retag ρ) (callValue function callee args)
      (callValue function (callee.retag ρ) (args.map (Value.retag ρ))) := by
  have hcall : Renames ρ (Value.retag ρ)
      (if callee.isCallable then callee.call args else throw (.type (.notCallable function)))
      (if (callee.retag ρ).isCallable then (callee.retag ρ).call (args.map (Value.retag ρ))
        else throw (.type (.notCallable function))) := by
    rw [Value.isCallable_retag]
    split
    · exact Value.renames_call hρ callee args
    · exact renames_throw _
  cases callee with
  | target s assign =>
      exact (renames_ofExcept (oneArgument_retag _ _ args)).bind fun record =>
        Target.renames_read hρ s assign record
  | _ => exact hcall

end

section

variable {env : Environment} (hρ : Function.Injective ρ) (hkeeps : env.Keeps ρ) {locals locals' : Locals}

include hρ hkeeps

theorem renames_callNamed {function : String} (args : List Value)
    (hlocal : isVariableName function →
      locals'.lookup function = (locals.lookup function).map (Value.retag ρ)) :
    Renames ρ (Value.retag ρ) (callNamed env locals function args)
      (callNamed env locals' function (args.map (Value.retag ρ))) := by
  unfold callNamed
  split
  · rename_i hvariable
    exact (renames_lookupVar hρ hkeeps (hlocal hvariable)).bind fun callee =>
      renames_callValue hρ function callee args
  · cases hbound : env.binder.get? function with
    | some binding =>
        exact (renames_bindingValue hρ hkeeps (hkeeps.get? hbound)).bind fun callee =>
          renames_callValue hρ function callee args
    | none =>
        dsimp only
        split
        · exact Builtin.renames_call hρ hkeeps _ args
        · exact renames_throw _

end

/-! ## Expressions -/

variable {env : Environment} {locals locals' : Locals}

mutual

/-- Expressions have the same values up to a renaming of tags where the variables that they read have. -/
theorem Expr.renames_eval (hρ : Function.Injective ρ) (hkeeps : env.Keeps ρ) : ∀ e : Expr,
    (∀ name ∈ e.walk.filterMap Expr.readVar?, locals'.lookup name = (locals.lookup name).map (Value.retag ρ)) →
    Renames ρ (Value.retag ρ) (e.eval env locals) (e.eval env locals')
  | .str value, _ => by
      rw [Expr.eval, Expr.eval]
      exact renames_pure (Value.str value)
  | .num value, _ => by
      rw [Expr.eval, Expr.eval]
      exact renames_kept value.retag_toValue
  | .bool value, _ => by
      rw [Expr.eval, Expr.eval]
      exact renames_pure (Value.bool value)
  | .null, _ => by
      rw [Expr.eval, Expr.eval]
      exact renames_pure Value.null
  | .var ident, h => by
      rw [Expr.eval, Expr.eval]
      exact renames_lookupVar hρ hkeeps (h _ (by simp [Expr.walk, Expr.readVar?]))
  | .name ident, _ => by
      rw [Expr.eval, Expr.eval]
      exact renames_lookupName hρ hkeeps ident
  | .list items, h => by
      rw [Expr.eval, Expr.eval]
      exact (Expr.renames_evalAll hρ hkeeps items h).bind renames_newList
  | .member target field, h => by
      rw [Expr.eval, Expr.eval]
      refine (renames_answer _).bind fun _ => (Expr.renames_eval hρ hkeeps target h).bind fun base => ?_
      exact renames_reads fun σ next => Value.readAttribute_retag hρ base field
  | .index target key, h => by
      rw [Expr.walk, List.filterMap_cons_none rfl, List.filterMap_append, List.forall_mem_append] at h
      rw [Expr.eval, Expr.eval]
      refine (Expr.renames_eval hρ hkeeps target h.1).bind fun container => ?_
      rw [Value.isNull_retag]
      split
      · exact renames_pure Value.null
      · exact (Expr.renames_eval hρ hkeeps key h.2).bind fun place =>
          renames_reads fun σ next => Value.subscript_retag hρ container place
  | .call function args, h => by
      have hargs : ∀ name ∈ (Expr.walkAll args).filterMap Expr.readVar?,
          locals'.lookup name = (locals.lookup name).map (Value.retag ρ) := fun name hname =>
        h name (List.filterMap_subset _ (List.subset_cons_self _ _) hname)
      have hfunction : isVariableName function →
          locals'.lookup function = (locals.lookup function).map (Value.retag ρ) := fun hvariable =>
        h function (List.mem_filterMap.mpr ⟨_, List.mem_cons_self, if_pos hvariable⟩)
      rw [Expr.eval, Expr.eval]
      exact (Expr.renames_evalAll hρ hkeeps args hargs).bind fun values =>
        renames_callNamed hρ hkeeps values hfunction
  | .binary op left right, h => by
      rw [Expr.walk, List.filterMap_cons_none rfl, List.filterMap_append, List.forall_mem_append] at h
      rw [Expr.eval, Expr.eval]
      refine (Expr.renames_eval hρ hkeeps left h.1).bind fun first => renames_look fun σ next => ?_
      rw [BinaryOp.decided_retag]
      split
      · exact renames_pure (Value.bool _)
      · exact (Expr.renames_eval hρ hkeeps right h.2).bind fun second => op.renames_applyTo hρ first second
  | .unary op operand, h => by
      rw [Expr.eval, Expr.eval]
      exact (Expr.renames_eval hρ hkeeps operand h).bind op.renames_applyTo

/-- So do several expressions. -/
theorem Expr.renames_evalAll (hρ : Function.Injective ρ) (hkeeps : env.Keeps ρ) : ∀ es : List Expr,
    (∀ name ∈ (Expr.walkAll es).filterMap Expr.readVar?,
      locals'.lookup name = (locals.lookup name).map (Value.retag ρ)) →
    Renames ρ (List.map (Value.retag ρ)) (Expr.evalAll env locals es) (Expr.evalAll env locals' es)
  | [], _ => by
      rw [Expr.evalAll, Expr.evalAll]
      exact renames_pure []
  | e :: es, h => by
      rw [Expr.walkAll, List.filterMap_append, List.forall_mem_append] at h
      rw [Expr.evalAll, Expr.evalAll]
      exact (Expr.renames_eval hρ hkeeps e h.1).bind fun v =>
        (Expr.renames_evalAll hρ hkeeps es h.2).bind fun vs => renames_pure (v :: vs)

end

/-! ## Parts of statements -/

theorem renames_assignBound (hρ : Function.Injective ρ) (hkeeps : env.Keeps ρ) {binding : Binding}
    (hvalue : binding.value.retag ρ = binding.value) (value : Value) :
    Renames ρ id (assignBound env binding value) (assignBound env binding (value.retag ρ)) := by
  have hitem := hkeeps.item
  unfold assignBound
  split
  · exact renames_throw _
  · rename_i s assign _ hfield
    rw [hfield] at hvalue
    have hselector : s.retag ρ = s := by injection hvalue
    have hwrite := Target.renames_write hρ s assign env.item value
    rw [hselector, hitem] at hwrite
    exact hwrite
  · have hname (σ : Store) (next : Tag) :
        binding.value.typeName (σ.retag ρ next) = binding.value.typeName σ := by
      rw [← Value.typeName_retag (ρ := ρ) (σ := σ), hvalue]
    exact renames_get_throw fun σ next => by rw [hname]
  · exact renames_throw _

theorem renames_assignField (hρ : Function.Injective ρ) (hkeeps : env.Keeps ρ) {name : String}
    {path : List String} {value : Expr}
    (howner : locals'.lookup name = (locals.lookup name).map (Value.retag ρ))
    (hvalue : ∀ name ∈ value.walk.filterMap Expr.readVar?,
      locals'.lookup name = (locals.lookup name).map (Value.retag ρ)) :
    Renames ρ id (assignField env locals name path value) (assignField env locals' name path value) := by
  refine (renames_lookupVar hρ hkeeps howner).bind fun base => (renames_answer _).bind fun _ => ?_
  exact (Expr.renames_eval hρ hkeeps value hvalue).bind fun v => Value.renames_writePath hρ base path v

/-- What a loop runs over, with its tags renamed. -/
def retagRun (ρ : Tag → Tag) (run : Value × Option Nat × List Value) : Value × Option Nat × List Value :=
  (run.1.retag ρ, run.2.1, run.2.2.map (Value.retag ρ))

theorem entryCount?_retag {σ : Store} {next : Tag} (v : Value) :
    entryCount? (σ.retag ρ next) (v.retag ρ) = entryCount? σ v := by
  cases v with
  | mapping address =>
      simp only [Value.retag, entryCount?, Store.entries_retag, Value.retagEntries, List.length_map]
  | _ => rfl

theorem renames_loopElements (hρ : Function.Injective ρ) (hkeeps : env.Keeps ρ) {collection : Expr}
    (h : ∀ name ∈ collection.walk.filterMap Expr.readVar?,
      locals'.lookup name = (locals.lookup name).map (Value.retag ρ)) :
    Renames ρ (retagRun ρ) (loopElements env collection locals) (loopElements env collection locals') := by
  refine (Expr.renames_eval hρ hkeeps collection h).bind fun v => renames_look fun σ next => ?_
  rw [Value.truthy_retag, entryCount?_retag]
  split
  · exact (renames_ofExcept (Value.items_retag v)).bind fun elements =>
      renames_pure (v, entryCount? σ v, elements)
  · exact renames_pure (Value.null, none, ([] : List Value))

/-- Actions on values in a row are one action on values. -/
theorem ofEval_bind {α β : Type} (first : Locals → Eval α) (second : α → Locals → Eval β) :
    (Exec.ofEval first >>= fun a => Exec.ofEval (second a))
      = Exec.ofEval fun locals => first locals >>= fun a => second a locals := by
  funext s
  cases hresult : first s.locals s.store with
  | ok a σ =>
      have hfirst : Exec.ofEval first s = .ok a { s with store := σ } := by rw [Exec.ofEval, hresult]
      rw [bind_of_ok hfirst, Exec.ofEval, Exec.ofEval, bind_of_ok hresult]
  | error fault σ =>
      have hfirst : Exec.ofEval first s = .error fault { s with store := σ } := by rw [Exec.ofEval, hresult]
      rw [bind_of_error hfirst, Exec.ofEval, bind_of_error hresult]

/-- Whether a condition holds, as an action on values. -/
def truthOf (env : Environment) (condition : Expr) (locals : Locals) : Eval Bool := do
  let v ← condition.eval env locals
  return v.truthy (← get)

theorem conditionHolds_eq (condition : Expr) :
    conditionHolds env condition = Exec.ofEval (truthOf env condition) :=
  ofEval_bind (fun locals => condition.eval env locals) fun v _ => do return v.truthy (← get)

theorem renames_truthOf (hρ : Function.Injective ρ) (hkeeps : env.Keeps ρ) {condition : Expr}
    (h : ∀ name ∈ condition.walk.filterMap Expr.readVar?,
      locals'.lookup name = (locals.lookup name).map (Value.retag ρ)) :
    Renames ρ id (truthOf env condition locals) (truthOf env condition locals') := by
  refine (Expr.renames_eval hρ hkeeps condition h).bind fun v => renames_look fun σ next => ?_
  rw [Value.truthy_retag]
  exact renames_pure (v.truthy σ)

end Rubric.Script
