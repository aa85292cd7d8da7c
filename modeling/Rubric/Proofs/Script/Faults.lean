import Rubric.Proofs.Value.Faults
import Rubric.Script.Check
import Rubric.Script.Interpreter

/-!
# Where the faults of a script arise

A fault of an expression either lies in the values that it works on or names a part of the expression
that stands for nothing.  A statement adds the faults of its own assignment.

* `Builtin.raises_call` : the built-in functions raise faults of values only;
* `Expr.raises_eval` : so do expressions, but for the names in them;
* `Stmt.Raises` : the faults that a statement raises outside its blocks.
-/

namespace Rubric.Script

open Rubric.Text

/-! ## Built-in functions -/

theorem raises_itemsOrNone (collection : Value) : RaisesOfValues (itemsOrNone collection) := by
  refine raisesOnly_get_bind fun σ => ?_
  split
  · exact raises_ofExcept (Value.ofValues_items σ collection)
  · exact raisesOnly_pure _

theorem raises_selectFrom (selector record : Value) :
    RaisesOfValues (selectFrom selector record) := by
  unfold selectFrom
  split
  · exact raisesOnly_pure _
  · exact Target.raises_read _ record
  · exact raises_reads fun σ => Value.ofValues_readPath σ record _
  · split
    · exact Value.raises_call _ _
    · exact raises_get_throw fun _ => rfl

theorem raises_selectAll (collection selector : Value) :
    RaisesOfValues (selectAll collection selector) := by
  unfold selectAll
  split
  · exact raisesOnly_pure _
  · exact raisesOnly_get_bind fun σ =>
      (raises_ofExcept (Value.ofValues_items σ collection)).bind fun items =>
        raisesOnly_mapM (raises_selectFrom selector) items

theorem raises_selectPresent (collection selector : Value) :
    RaisesOfValues (selectPresent collection selector) :=
  (raises_selectAll collection selector).bind fun _ => raisesOnly_pure _

/-- Keeping the elements that pass a test raises what the test does. -/
theorem raises_keepWhere {α : Type} {test : α → Eval Bool} (h : ∀ a, RaisesOfValues (test a))
    (as : List α) : RaisesOfValues (keepWhere test as) := by
  induction as with
  | nil => exact raisesOnly_pure _
  | cons a as ih => exact (h a).bind fun _ => ih.bind fun _ => raisesOnly_pure _

theorem raises_comparesTo (selector operator value record : Value) :
    RaisesOfValues (comparesTo selector operator value record) :=
  (raises_selectFrom selector record).bind fun left =>
    raises_reads fun σ => Value.ofValues_compareText σ left (operator.text σ) value

theorem ofValues_distinctValues (σ : Store) (vs : List Value) :
    ∀ kept, OfValues (distinctValues σ kept vs) := by
  induction vs with
  | nil => exact fun kept => ofValues_ok _
  | cons v vs ih =>
      intro kept
      refine (Value.ofValues_foundIn σ v kept).bind fun found => ?_
      split
      · exact ih _
      · exact ih _

theorem ofValues_checkSignature (s : Signature) (given : Nat) : OfValues (s.check given) := by
  unfold Signature.check
  extract_lets least
  split
  · exact ofValues_error.mpr rfl
  split <;> simp [Fault.isOfValues]

theorem raises_countOf (collection selector : Value) :
    RaisesOfValues (countOf collection selector) := by
  unfold countOf
  split
  · exact (raises_itemsOrNone _).bind fun _ => raisesOnly_pure _
  · exact (raises_selectPresent _ _).bind fun _ => raisesOnly_pure _

theorem raises_meanOf (collection selector : Value) :
    RaisesOfValues (meanOf collection selector) := by
  refine (raises_selectPresent _ _).bind fun values => ?_
  split
  · exact raisesOnly_pure _
  · exact (Value.raises_sum _).bind fun total => Value.raises_div _ _

theorem raises_extremeOf (op : OrderOp) (collection selector : Value) :
    RaisesOfValues (extremeOf op collection selector) := by
  refine (raises_selectPresent _ _).bind fun values => ?_
  split
  · exact raisesOnly_pure _
  · exact raises_reads fun σ => Value.ofValues_extreme σ op _ _

theorem ofValues_binding (b : Binder) (name : String) : OfValues (b.get name) := by
  unfold Binder.get
  split <;> simp [Fault.isOfValues]

theorem raises_relatedTo (env : Environment) (record collection : Value) :
    RaisesOfValues (relatedTo env record collection) := by
  refine (raises_ofExcept (ofValues_binding _ _)).bind fun relation => ?_
  have hkeep (pool : List Value) :
      RaisesOfValues (do
        Eval.newList (← keepWhere (fun r => related relation.value r record) pool)) :=
    (raises_keepWhere (fun r => raises_related relation.value r record) pool).bind raises_newList
  dsimp only
  split
  · exact raisesOnly_throw rfl
  · split
    · exact (raises_itemsOrNone _).bind hkeep
    · exact raisesOnly_get_bind fun σ =>
        (raises_ofExcept (Value.ofValues_items σ collection)).bind hkeep

theorem raises_roundTo (value places : Value) : RaisesOfValues (roundTo value places) := by
  unfold roundTo
  split
  · exact raisesOnly_pure _
  · exact raisesOnly_get_bind fun σ =>
      (raises_ofExcept (Value.ofValues_toInteger σ places)).bind fun n => Value.raises_round _ n

theorem raises_numberOf (value : Value) : RaisesOfValues (numberOf value) := by
  unfold numberOf
  split
  · exact raisesOnly_pure _
  · refine raisesOnly_get_bind fun σ => ?_
    dsimp only
    split
    · refine (raises_ofExcept (Value.ofValues_decimalOfText _)).bind fun x => ?_
      split
      · exact raisesOnly_pure _
      · exact raises_ofFloat _
    · exact (raises_ofExcept (Value.ofValues_integerOfText _)).bind fun _ => raisesOnly_pure _

theorem raises_lengthOf (value : Value) : RaisesOfValues (lengthOf value) := by
  unfold lengthOf
  split
  · exact raisesOnly_pure _
  · exact raisesOnly_get_bind fun σ =>
      (raises_ofExcept (Value.ofValues_length σ value)).bind fun _ => raisesOnly_pure _

theorem raises_descriptionIn (table label default : Value) :
    RaisesOfValues (descriptionIn table label default) := by
  refine raisesOnly_get_bind fun σ => ?_
  split
  · exact raisesOnly_pure _
  · exact (raises_ofExcept (Value.ofValues_lookup σ _ _)).bind fun _ => raisesOnly_pure _
  · exact raisesOnly_throw rfl

theorem raises_knownIn (table label : Value) : RaisesOfValues (knownIn table label) := by
  refine raisesOnly_get_bind fun σ => ?_
  split
  · exact raisesOnly_pure _
  · exact raises_ofExcept (Value.ofValues_memberOf σ _ table)

theorem Builtin.raises_value (env : Environment) (b : Builtin) (args : List Value) :
    RaisesOfValues (b.value env args) := by
  cases b with
  | count => exact raises_countOf _ _
  | sum => exact (raises_selectPresent _ _).bind Value.raises_sum
  | avg => exact raises_meanOf _ _
  | min => exact raises_extremeOf _ _ _
  | max => exact raises_extremeOf _ _ _
  | values => exact (raises_selectAll _ _).bind raises_newList
  | filter =>
      exact (raises_itemsOrNone _).bind fun items =>
        (raises_keepWhere (raises_comparesTo _ _ _) items).bind raises_newList
  | distinct =>
      exact (raises_itemsOrNone _).bind fun items => raisesOnly_get_bind fun σ =>
        (raises_ofExcept (ofValues_distinctValues σ items [])).bind raises_newList
  | related => exact raises_relatedTo _ _ _
  | round => exact raises_roundTo _ _
  | abs =>
      simp only [Builtin.value]
      split
      · exact raisesOnly_pure _
      · exact Value.raises_abs _
  | str => exact raisesOnly_get_bind fun _ => raisesOnly_pure _
  | num => exact raises_numberOf _
  | len => exact raises_lengthOf _
  | concat => exact raisesOnly_get_bind fun _ => raisesOnly_pure _
  | coalesce => exact raisesOnly_pure _
  | describe => exact raises_descriptionIn _ _ _
  | subclass => exact raises_descriptionIn _ _ _
  | hasClass =>
      refine (raises_knownIn _ _).bind fun known => ?_
      split
      · exact raisesOnly_pure _
      · exact (raises_knownIn _ _).bind fun _ => raisesOnly_pure _

/-- What a built-in function raises lies in its arguments. -/
theorem Builtin.raises_call (env : Environment) (b : Builtin) (args : List Value) :
    RaisesOfValues (b.call env args) :=
  (raises_ofExcept (ofValues_checkSignature _ _)).bind fun _ => Builtin.raises_value env b args

/-! ## Operators and calls -/

theorem raises_plus (a b : Value) : RaisesOfValues (plus a b) := by
  unfold plus
  split
  · exact raisesOnly_get_bind fun _ => raisesOnly_pure _
  · exact raisesOnly_get_bind fun _ => raisesOnly_pure _
  · exact Value.raises_add a b

theorem BinaryOp.raises_applyTo (op : BinaryOp) (a b : Value) :
    RaisesOfValues (op.applyTo a b) := by
  have hcompare : RaisesOfValues (do
      return Value.bool (← Eval.ofExcept (a.compareText (← get) op.text b))) :=
    raisesOnly_get_bind fun σ =>
      (raises_ofExcept (Value.ofValues_compareText σ a op.text b)).bind fun _ =>
        raisesOnly_pure _
  cases op with
  | or => exact raisesOnly_get_bind fun _ => raisesOnly_pure _
  | and => exact raisesOnly_get_bind fun _ => raisesOnly_pure _
  | add => exact raises_plus a b
  | sub => exact Value.raises_sub a b
  | mul => exact Value.raises_mul a b
  | div => exact Value.raises_div a b
  | mod => exact Value.raises_mod a b
  | _ => exact hcompare

theorem UnaryOp.raises_applyTo (op : UnaryOp) (a : Value) : RaisesOfValues (op.applyTo a) := by
  cases op with
  | not => exact raisesOnly_get_bind fun _ => raisesOnly_pure _
  | neg => exact Value.raises_neg a

theorem raises_callValue (function : String) (callee : Value) (args : List Value) :
    RaisesOfValues (callValue function callee args) := by
  unfold callValue
  split
  · exact (raises_ofExcept (ofValues_oneArgument _ _ _)).bind fun record =>
      Target.raises_read _ record
  · split
    · exact Value.raises_call _ _
    · exact raisesOnly_throw rfl

theorem raises_bindingValue (env : Environment) (binding : Binding) :
    RaisesOfValues (bindingValue env binding) := by
  unfold bindingValue
  split
  · exact raisesOnly_pure _
  · exact Target.raises_read _ _
  · exact raises_get_throw fun _ => rfl
  · exact raisesOnly_pure _

/-! ## Expressions -/

/-- The fault of an expression whose own name stands for nothing. -/
inductive Unresolved (env : Environment) (locals : Locals) : Expr → Fault → Prop where
  | undefinedVariable {e : Expr} {name : String} (reads : e.readVar? = some name)
      (unset : locals.lookup name = none) (unbound : env.binder.get? name = none) :
      Unresolved env locals e (.name (.undefinedVariable name))
  | unknownName {ident : String} (unbound : env.binder.get? ident = none) :
      Unresolved env locals (.name ident) (.name (.unknownName ident))
  | unknownFunction {function : String} {args : List Expr} (plain : isVariableName function = false)
      (unbound : env.binder.get? function = none) (unknown : Builtin.ofName? function = none) :
      Unresolved env locals (.call function args) (.name (.unknownFunction function))

section

variable (env : Environment) (locals : Locals)

/-- Whether a computation raises faults of values and of the names of some expressions only. -/
abbrev RaisesIn {α : Type} (parts : List Expr) (action : Eval α) : Prop :=
  RaisesOnly (fun fault => fault.isOfValues ∨ ∃ e ∈ parts, Unresolved env locals e fault) action

variable {env locals} {α : Type} {parts : List Expr} {action : Eval α}

/-- Faults of values may arise in any case. -/
theorem raisesIn_ofValues (h : RaisesOfValues action) : RaisesIn env locals parts action :=
  h.imp fun _ => Or.inl

/-- The names of more expressions may be at fault. -/
theorem RaisesIn.mono {others : List Expr} (h : RaisesIn env locals parts action)
    (hsub : parts ⊆ others) : RaisesIn env locals others action :=
  h.imp fun _ => Or.imp_right fun ⟨e, he, hfault⟩ => ⟨e, hsub he, hfault⟩

variable (env locals)

/-- A variable is undefined where it is neither assigned nor bound. -/
theorem raises_lookupVar (name : String) :
    RaisesOnly (fun fault => fault.isOfValues ∨ locals.lookup name = none ∧
      env.binder.get? name = none ∧ fault = .name (.undefinedVariable name))
      (lookupVar env locals name) := by
  unfold lookupVar
  split
  · exact raisesOnly_pure _
  · rename_i hunset
    split
    · exact (raises_bindingValue env _).imp fun _ => Or.inl
    · rename_i hunbound
      exact raisesOnly_throw (.inr ⟨hunset, hunbound, rfl⟩)

/-- What a variable in an expression raises. -/
theorem raises_readVar {e : Expr} {name : String} (h : e.readVar? = some name) (he : e ∈ parts) :
    RaisesIn env locals parts (lookupVar env locals name) :=
  (raises_lookupVar env locals name).imp fun _ => Or.imp_right
    fun ⟨hunset, hunbound, hfault⟩ => ⟨e, he, hfault ▸ .undefinedVariable h hunset hunbound⟩

theorem raises_lookupName {ident : String} (he : .name ident ∈ parts) :
    RaisesIn env locals parts (lookupName env ident) := by
  unfold lookupName
  split
  · exact raisesIn_ofValues (raises_bindingValue env _)
  · rename_i hunbound
    exact raisesOnly_throw (.inr ⟨_, he, .unknownName hunbound⟩)

theorem raises_callNamed {function : String} {args : List Expr} (values : List Value)
    (he : .call function args ∈ parts) :
    RaisesIn env locals parts (callNamed env locals function values) := by
  unfold callNamed
  split
  · rename_i hvariable
    exact (raises_readVar env locals (by simp [Expr.readVar?, hvariable]) he).bind
      fun callee => raisesIn_ofValues (raises_callValue function callee values)
  · rename_i hplain
    split
    · exact raisesIn_ofValues ((raises_bindingValue env _).bind
        fun callee => raises_callValue function callee values)
    · rename_i hunbound
      split
      · exact raisesIn_ofValues (Builtin.raises_call env _ values)
      · rename_i hunknown
        exact raisesOnly_throw
          (.inr ⟨_, he, .unknownFunction (Bool.eq_false_iff.mpr hplain) hunbound hunknown⟩)

theorem ofValues_checkPublic (name : String) : OfValues (checkPublic name) := by
  unfold checkPublic
  split <;> simp [Fault.isOfValues]

theorem mem_walk_self (e : Expr) : e ∈ e.walk := by
  cases e <;> simp [Expr.walk]

theorem mem_walkAll {part : Expr} {es : List Expr} :
    part ∈ Expr.walkAll es ↔ ∃ e ∈ es, part ∈ e.walk := by
  induction es with
  | nil => simp [Expr.walkAll]
  | cons e es ih => simp [Expr.walkAll, ih]

mutual

/-- A fault of an expression lies in the values or in a name that is part of the expression. -/
theorem Expr.raises_eval : ∀ e : Expr, RaisesIn env locals e.walk (e.eval env locals)
  | .str _ | .num _ | .bool _ | .null => by
      rw [Expr.eval]
      exact raisesOnly_pure _
  | .var _ => by
      rw [Expr.eval]
      exact raises_readVar env locals rfl (mem_walk_self _)
  | .name _ => by
      rw [Expr.eval]
      exact raises_lookupName env locals (mem_walk_self _)
  | .list items => by
      rw [Expr.eval, Expr.walk]
      exact ((Expr.raises_evalAll items).mono (List.subset_cons_self _ _)).bind
        fun values => raisesIn_ofValues (raises_newList values)
  | .member target field => by
      rw [Expr.eval, Expr.walk]
      refine (raisesIn_ofValues (raises_ofExcept (ofValues_checkPublic field))).bind fun _ => ?_
      exact ((Expr.raises_eval target).mono (List.subset_cons_self _ _)).bind fun base =>
        raisesIn_ofValues (raises_reads fun σ => Value.ofValues_readAttribute σ base field)
  | .index target key => by
      rw [Expr.eval, Expr.walk]
      refine ((Expr.raises_eval target).mono ?_).bind fun container => ?_
      · exact List.subset_cons_of_subset _ (List.subset_append_left _ _)
      split
      · exact raisesOnly_pure _
      · refine ((Expr.raises_eval key).mono ?_).bind fun place => ?_
        · exact List.subset_cons_of_subset _ (List.subset_append_right _ _)
        · exact raisesIn_ofValues (raises_reads fun σ => Value.ofValues_subscript σ container place)
  | .call function args => by
      rw [Expr.eval, Expr.walk]
      exact ((Expr.raises_evalAll args).mono (List.subset_cons_self _ _)).bind fun values =>
        raises_callNamed env locals values List.mem_cons_self
  | .binary op left right => by
      rw [Expr.eval, Expr.walk]
      refine ((Expr.raises_eval left).mono ?_).bind fun first => raisesOnly_get_bind fun σ => ?_
      · exact List.subset_cons_of_subset _ (List.subset_append_left _ _)
      split
      · exact raisesOnly_pure _
      · refine ((Expr.raises_eval right).mono ?_).bind fun second =>
          raisesIn_ofValues (BinaryOp.raises_applyTo op first second)
        exact List.subset_cons_of_subset _ (List.subset_append_right _ _)
  | .unary op operand => by
      rw [Expr.eval, Expr.walk]
      exact ((Expr.raises_eval operand).mono (List.subset_cons_self _ _)).bind fun value =>
        raisesIn_ofValues (UnaryOp.raises_applyTo op value)

/-- The same for several expressions. -/
theorem Expr.raises_evalAll :
    ∀ es : List Expr, RaisesIn env locals (Expr.walkAll es) (Expr.evalAll env locals es)
  | [] => by
      rw [Expr.evalAll]
      exact raisesOnly_pure _
  | e :: es => by
      rw [Expr.evalAll, Expr.walkAll]
      refine ((Expr.raises_eval e).mono (List.subset_append_left _ _)).bind fun v => ?_
      exact ((Expr.raises_evalAll es).mono (List.subset_append_right _ _)).bind
        fun vs => raisesOnly_pure _

end

end

/-! ## Statements -/

/-- The faults that a statement raises outside its blocks, with the local variables as they are
then. -/
inductive Stmt.Raises (env : Environment) (locals : Locals) : Stmt → Fault → Prop where
  | ofValues {s : Stmt} {fault : Fault} (h : fault.isOfValues) : Stmt.Raises env locals s fault
  /-- A name in one of the expressions stands for nothing. -/
  | unresolved {s : Stmt} {e : Expr} {fault : Fault} (part : e ∈ Expr.walkAll s.expressions)
      (h : Unresolved env locals e fault) : Stmt.Raises env locals s fault
  /-- The variable whose field is set stands for nothing. -/
  | owner {s : Stmt} {name : String} (owns : s.fieldOwner? = some name)
      (unset : locals.lookup name = none) (unbound : env.binder.get? name = none) :
      Stmt.Raises env locals s (.name (.undefinedVariable name))
  /-- The name that is assigned is bound, and not to a field. -/
  | readOnly {line : Nat} {var : String} {value : Expr} {binding : Binding}
      (bound : env.binder.get? ("$" ++ var) = some binding) (kind : binding.kind ≠ .target) :
      Stmt.Raises env locals (.assign line var [] value) (.name (.assignToBinding binding.name))
  /-- The name that a loop runs over is bound. -/
  | shadowing {line : Nat} {var : String} {collection : Expr} {body : List Stmt}
      (bound : env.binder.contains ("$" ++ var)) :
      Stmt.Raises env locals (.foreach line var collection body)
        (.name (.shadowing ("$" ++ var)))

section

variable {env : Environment} {locals : Locals}

/-- A fault that a statement raises does not name a line yet. -/
theorem Stmt.Raises.located {s : Stmt} {fault : Fault} (h : s.Raises env locals fault)
    (line : Nat) : fault.located line = .atLine line fault := by
  cases h with
  | ofValues h => cases fault <;> simp_all [Fault.isOfValues, Fault.located, Fault.isScriptFault]
  | unresolved _ h => cases h <;> rfl
  | _ => rfl

theorem raises_ofValues {α : Type} {action : Eval α} (s : Stmt) (h : RaisesOfValues action) :
    RaisesOnly (s.Raises env locals) action := h.imp fun _ => .ofValues

/-- What an expression of a statement raises. -/
theorem raises_evalOf {e : Expr} {s : Stmt} (he : e ∈ s.expressions) :
    RaisesOnly (s.Raises env locals) (e.eval env locals) := by
  refine (Expr.raises_eval env locals e).imp fun fault hfault => ?_
  rcases hfault with hfault | ⟨part, hpart, hfault⟩
  · exact .ofValues hfault
  · exact .unresolved (mem_walkAll.mpr ⟨e, he, hpart⟩) hfault

/-- What the assignment to a bound name raises. -/
theorem raises_assignBound {line : Nat} {var : String} {value : Expr} {binding : Binding}
    (hbound : env.binder.get? ("$" ++ var) = some binding) (v : Value) :
    RaisesOnly ((Stmt.assign line var [] value).Raises env locals)
      (assignBound env binding v) := by
  unfold assignBound
  split
  · exact raisesOnly_throw (.ofValues rfl)
  · exact raises_ofValues _ (Target.raises_write _ _ _)
  · exact raises_ofValues _ (raises_get_throw fun _ => rfl)
  · rename_i hkind _ _
    exact raisesOnly_throw (.readOnly hbound hkind)

theorem ofValues_checkPublicAll (path : List String) : OfValues (path.forM checkPublic) := by
  induction path with
  | nil => exact ofValues_ok _
  | cons name path ih =>
      exact (ofValues_checkPublic name).bind fun _ => ih

/-- What the assignment of a field raises. -/
theorem raises_assignField (line : Nat) (var name : String) (path : List String) (value : Expr) :
    RaisesOnly ((Stmt.assign line var (name :: path) value).Raises env locals)
      (assignField env locals ("$" ++ var) (name :: path) value) := by
  unfold assignField
  refine RaisesOnly.bind ?_ fun base => ?_
  · refine (raises_lookupVar env locals _).imp fun fault hfault => ?_
    rcases hfault with hfault | ⟨hunset, hunbound, rfl⟩
    · exact .ofValues hfault
    · exact .owner rfl hunset hunbound
  · exact (raises_ofValues _ (raises_ofExcept (ofValues_checkPublicAll _))).bind fun _ =>
      (raises_evalOf (by simp [Stmt.expressions])).bind fun v =>
        raises_ofValues _ (Value.raises_writePath _ _ _)

/-- What the elements of a loop raise. -/
theorem raises_loopElements (line : Nat) (var : String) (collection : Expr) (body : List Stmt) :
    RaisesOnly ((Stmt.foreach line var collection body).Raises env locals)
      (loopElements env collection locals) := by
  unfold loopElements
  refine (raises_evalOf (by simp [Stmt.expressions])).bind fun v => raisesOnly_get_bind fun σ => ?_
  split
  · exact (raises_ofValues _ (raises_ofExcept (Value.ofValues_items σ v))).bind
      fun _ => raisesOnly_pure _
  · exact raisesOnly_pure _

end

end Rubric.Script
