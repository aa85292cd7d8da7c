import Rubric.Proofs.Script.Faults
import Rubric.Proofs.Script.Locality
import Rubric.Proofs.Script.Locals
import Rubric.Proofs.Value.Quiet

/-!
# Scripts that call no setters

Where a script calls nothing that is bound to a setter, evaluating its expressions writes nothing.  If
it sets no field of a value either, all that it writes are its bound fields, of the current item: that
setters are in its reach does not matter.

* `Environment.CallsQuietly` : names that can be called without writing;
* `Expr.leaves_eval`, `Expr.quiet_eval` : expressions write what their calls write, and those that call such
  names only write nothing;
* `Program.rewrites_run` : scripts that call such names only write the bound fields of the item only.
-/

namespace Rubric.Script

open Rubric.Text
open Value (Place)

/-! ## Built-in functions -/

theorem quiet_itemsOrNone (collection : Value) : (itemsOrNone collection).IsQuiet := by
  refine leaves_get_bind fun σ => ?_
  split
  · exact quiet_ofExcept _
  · exact leaves_pure _

theorem quiet_selectFrom (selector record : Value) : (selectFrom selector record).IsQuiet := by
  unfold selectFrom
  split
  · exact leaves_pure _
  · exact Selector.quiet_read _ record
  · exact quiet_reads _
  · split
    · exact Value.quiet_callOne _ record
    · exact quiet_get_throw _

theorem quiet_selectAll (collection selector : Value) :
    (selectAll collection selector).IsQuiet := by
  unfold selectAll
  split
  · exact leaves_pure _
  · exact leaves_get_bind fun σ => (quiet_ofExcept _).bind fun items =>
      leaves_mapM (quiet_selectFrom selector) items

theorem quiet_selectPresent (collection selector : Value) :
    (selectPresent collection selector).IsQuiet :=
  (quiet_selectAll collection selector).bind fun _ => leaves_pure _

/-- Keeping the elements that pass a test is quiet where the test is. -/
theorem quiet_keepWhere {α : Type} {test : α → Eval Bool} (h : ∀ a, (test a).IsQuiet)
    (as : List α) : (keepWhere test as).IsQuiet := by
  induction as with
  | nil => exact leaves_pure _
  | cons a as ih => exact (h a).bind fun _ => ih.bind fun _ => leaves_pure _

theorem quiet_comparesTo (selector operator value record : Value) :
    (comparesTo selector operator value record).IsQuiet :=
  (quiet_selectFrom selector record).bind fun _ => quiet_reads _

theorem quiet_countOf (collection selector : Value) : (countOf collection selector).IsQuiet := by
  unfold countOf
  split
  · exact (quiet_itemsOrNone _).bind fun _ => leaves_pure _
  · exact (quiet_selectPresent _ _).bind fun _ => leaves_pure _

theorem quiet_meanOf (collection selector : Value) : (meanOf collection selector).IsQuiet := by
  refine (quiet_selectPresent _ _).bind fun values => ?_
  split
  · exact leaves_pure _
  · exact (Value.quiet_sum _).bind fun total => Value.quiet_div _ _

theorem quiet_extremeOf (op : OrderOp) (collection selector : Value) :
    (extremeOf op collection selector).IsQuiet := by
  refine (quiet_selectPresent _ _).bind fun values => ?_
  split
  · exact leaves_pure _
  · exact quiet_reads _

theorem quiet_roundTo (value places : Value) : (roundTo value places).IsQuiet := by
  unfold roundTo
  split
  · exact leaves_pure _
  · exact leaves_get_bind fun σ => (quiet_ofExcept _).bind fun n => Value.quiet_round _ n

theorem quiet_numberOf (value : Value) : (numberOf value).IsQuiet := by
  unfold numberOf
  split
  · exact leaves_pure _
  · refine leaves_get_bind fun σ => ?_
    dsimp only
    split
    · refine (quiet_ofExcept _).bind fun x => ?_
      split
      · exact leaves_pure _
      · exact quiet_ofFloat _
    · exact (quiet_ofExcept _).bind fun _ => leaves_pure _

theorem quiet_lengthOf (value : Value) : (lengthOf value).IsQuiet := by
  unfold lengthOf
  split
  · exact leaves_pure _
  · exact leaves_get_bind fun σ => (quiet_ofExcept _).bind fun _ => leaves_pure _

theorem quiet_descriptionIn (table label default : Value) :
    (descriptionIn table label default).IsQuiet := by
  refine leaves_get_bind fun σ => ?_
  split
  · exact leaves_pure _
  · exact (quiet_ofExcept _).bind fun _ => leaves_pure _
  · exact leaves_throw _

theorem quiet_knownIn (table label : Value) : (knownIn table label).IsQuiet := by
  refine leaves_get_bind fun σ => ?_
  split
  · exact leaves_pure _
  · exact quiet_ofExcept _

/-! ## Names that can be called -/

/-- Whether calling a name writes nothing: it is bound to what is no field and no setter, or else the
name of a built-in function, if anything. -/
def Environment.CallsQuietly (env : Environment) (function : String) : Prop :=
  match env.binder.get? function with
  | some binding => binding.kind ≠ .target ∧ ∀ s, binding.value ≠ .setter s
  | none => isVariableName function = false

section

variable {env : Environment} (hrelation : ∀ s, env.valueOf "$pkAll" ≠ .setter s)

include hrelation

theorem quiet_relatedTo (record collection : Value) :
    (relatedTo env record collection).IsQuiet := by
  unfold relatedTo Binder.get
  cases hbound : env.binder.get? "$pkAll" with
  | none => exact leaves_throw _
  | some binding =>
      have hsetter : ∀ s, binding.value ≠ .setter s := by
        simpa [Environment.valueOf, hbound] using hrelation
      have hkeep (pool : List Value) : Eval.IsQuiet (do
          Eval.newList (← keepWhere (fun r => related binding.value r record) pool)) := by
        refine (quiet_keepWhere (fun r => ?_) pool).bind quiet_newList
        exact (Value.quiet_call _ _ fun s hs => absurd hs (hsetter s)).bind fun _ =>
          leaves_get_bind fun _ => leaves_pure _
      show Eval.IsQuiet (if binding.value.isNull then _ else _)
      split
      · exact leaves_throw _
      · split
        · exact (quiet_itemsOrNone _).bind hkeep
        · exact leaves_get_bind fun σ => (quiet_ofExcept _).bind hkeep

theorem Builtin.quiet_value (b : Builtin) (args : List Value) : (b.value env args).IsQuiet := by
  cases b with
  | count => exact quiet_countOf _ _
  | sum => exact (quiet_selectPresent _ _).bind Value.quiet_sum
  | avg => exact quiet_meanOf _ _
  | min => exact quiet_extremeOf _ _ _
  | max => exact quiet_extremeOf _ _ _
  | values => exact (quiet_selectAll _ _).bind quiet_newList
  | filter =>
      exact (quiet_itemsOrNone _).bind fun items =>
        (quiet_keepWhere (quiet_comparesTo _ _ _) items).bind quiet_newList
  | distinct =>
      exact (quiet_itemsOrNone _).bind fun items => leaves_get_bind fun σ =>
        (quiet_ofExcept _).bind quiet_newList
  | related => exact quiet_relatedTo hrelation _ _
  | round => exact quiet_roundTo _ _
  | abs =>
      simp only [Builtin.value]
      split
      · exact leaves_pure _
      · exact Value.quiet_abs _
  | str => exact leaves_get_bind fun _ => leaves_pure _
  | num => exact quiet_numberOf _
  | len => exact quiet_lengthOf _
  | concat => exact leaves_get_bind fun _ => leaves_pure _
  | coalesce => exact leaves_pure _
  | describe => exact quiet_descriptionIn _ _ _
  | subclass => exact quiet_descriptionIn _ _ _
  | hasClass =>
      refine (quiet_knownIn _ _).bind fun known => ?_
      split
      · exact leaves_pure _
      · exact (quiet_knownIn _ _).bind fun _ => leaves_pure _

/-- Calling a built-in function is quiet. -/
theorem Builtin.quiet_call (b : Builtin) (args : List Value) : (b.call env args).IsQuiet :=
  (quiet_ofExcept _).bind fun _ => Builtin.quiet_value hrelation b args

end

/-! ## Operators and names -/

theorem quiet_plus (a b : Value) : (plus a b).IsQuiet := by
  unfold plus
  split
  · exact leaves_get_bind fun _ => leaves_pure _
  · exact leaves_get_bind fun _ => leaves_pure _
  · exact Value.quiet_add a b

theorem BinaryOp.quiet_applyTo (op : BinaryOp) (a b : Value) : (op.applyTo a b).IsQuiet := by
  have hcompare : Eval.IsQuiet (do
      return Value.bool (← Eval.ofExcept (a.compareText (← get) op.text b))) :=
    leaves_get_bind fun σ => (quiet_ofExcept _).bind fun _ => leaves_pure _
  cases op with
  | or => exact leaves_get_bind fun _ => leaves_pure _
  | and => exact leaves_get_bind fun _ => leaves_pure _
  | add => exact quiet_plus a b
  | sub => exact Value.quiet_sub a b
  | mul => exact Value.quiet_mul a b
  | div => exact Value.quiet_div a b
  | mod => exact Value.quiet_mod a b
  | _ => exact hcompare

theorem UnaryOp.quiet_applyTo (op : UnaryOp) (a : Value) : (op.applyTo a).IsQuiet := by
  cases op with
  | not => exact leaves_get_bind fun _ => leaves_pure _
  | neg => exact Value.quiet_neg a

/-- Calling what is no setter is quiet. -/
theorem quiet_callValue (function : String) {callee : Value} (h : ∀ s, callee ≠ .setter s)
    (args : List Value) : (callValue function callee args).IsQuiet := by
  unfold callValue
  split
  · exact (quiet_ofExcept _).bind fun record => Selector.quiet_read _ record
  · split
    · exact Value.quiet_call _ _ fun s hs => absurd hs (h s)
    · exact leaves_throw _

theorem quiet_bindingValue (env : Environment) (binding : Binding) :
    (bindingValue env binding).IsQuiet := by
  unfold bindingValue
  split
  · exact leaves_pure _
  · exact Selector.quiet_read _ _
  · exact quiet_get_throw _
  · exact leaves_pure _

theorem quiet_lookupVar (env : Environment) (locals : Locals) (name : String) :
    (lookupVar env locals name).IsQuiet := by
  unfold lookupVar
  split
  · exact leaves_pure _
  · split
    · exact quiet_bindingValue env _
    · exact leaves_throw _

theorem quiet_lookupName (env : Environment) (name : String) : (lookupName env name).IsQuiet := by
  unfold lookupName
  split
  · exact quiet_bindingValue env _
  · exact leaves_throw _

/-! ## Expressions -/

/-- Whether the functions that an expression calls have a property. -/
def Expr.Calls (P : String → Prop) (e : Expr) : Prop :=
  ∀ part ∈ e.walk, ∀ function ∈ part.called?, P function

/-- Whether no local has a bound name. -/
def Locals.Unbound (env : Environment) (locals : Locals) : Prop :=
  ∀ name ∈ locals.map Prod.fst, env.binder.contains name = false

section

variable {env : Environment} {locals : Locals}

/-- Calling a name that can be called quietly is quiet. -/
theorem quiet_callNamed (hrelation : ∀ s, env.valueOf "$pkAll" ≠ .setter s)
    (hlocals : locals.Unbound env) {function : String} (h : env.CallsQuietly function)
    (args : List Value) : (callNamed env locals function args).IsQuiet := by
  unfold Environment.CallsQuietly at h
  unfold callNamed
  cases hbound : env.binder.get? function with
  | none =>
      rw [hbound] at h
      simp only [h, Bool.false_eq_true, if_false]
      split
      · exact Builtin.quiet_call hrelation _ args
      · exact leaves_throw _
  | some binding =>
      rw [hbound] at h
      obtain ⟨hkind, hsetter⟩ := h
      have hvalue : bindingValue env binding = pure binding.value := by
        unfold bindingValue
        split <;> first | rfl | exact absurd ‹_› hkind
      have hvar : lookupVar env locals function = pure binding.value := by
        simp only [lookupVar, lookup_of_bound hlocals hbound, hbound, hvalue]
      simp only [hvar, hvalue, pure_bind]
      split <;> exact quiet_callValue function hsetter args

mutual

/-- An expression leaves what its calls leave, where what is quiet leaves that as well. -/
theorem Expr.leaves_eval {R : Store → Store → Prop} [IsPreorder Store R]
    (hR : ∀ σ τ : Store, σ.SameContents τ → R σ τ) : ∀ e : Expr,
    (e.Calls fun function => ∀ args, Leaves R (callNamed env locals function args)) →
    Leaves R (e.eval env locals)
  | .str _, _ | .num _, _ | .bool _, _ | .null, _ => by
      rw [Expr.eval]
      exact leaves_pure _
  | .var _, _ => by
      rw [Expr.eval]
      exact (quiet_lookupVar env locals _).imp hR
  | .name _, _ => by
      rw [Expr.eval]
      exact (quiet_lookupName env _).imp hR
  | .list items, h => by
      rw [Expr.Calls, Expr.walk, List.forall_mem_cons] at h
      rw [Expr.eval]
      exact (Expr.leaves_evalAll hR items h.2).bind fun vs => (quiet_newList vs).imp hR
  | .member owner field, h => by
      rw [Expr.Calls, Expr.walk, List.forall_mem_cons] at h
      rw [Expr.eval]
      exact ((quiet_ofExcept _).imp hR).bind fun _ => (Expr.leaves_eval hR owner h.2).bind fun base =>
        (quiet_reads _).imp hR
  | .index owner key, h => by
      rw [Expr.Calls, Expr.walk, List.forall_mem_cons, List.forall_mem_append] at h
      rw [Expr.eval]
      refine (Expr.leaves_eval hR owner h.2.1).bind fun container => ?_
      split
      · exact leaves_pure _
      · exact (Expr.leaves_eval hR key h.2.2).bind fun place => (quiet_reads _).imp hR
  | .call function args, h => by
      rw [Expr.Calls, Expr.walk, List.forall_mem_cons] at h
      rw [Expr.eval]
      exact (Expr.leaves_evalAll hR args h.2).bind fun vs => h.1 function rfl vs
  | .binary op left right, h => by
      rw [Expr.Calls, Expr.walk, List.forall_mem_cons, List.forall_mem_append] at h
      rw [Expr.eval]
      refine (Expr.leaves_eval hR left h.2.1).bind fun first => leaves_get_bind fun σ => ?_
      split
      · exact leaves_pure _
      · exact (Expr.leaves_eval hR right h.2.2).bind fun second => (op.quiet_applyTo first second).imp hR
  | .unary op operand, h => by
      rw [Expr.Calls, Expr.walk, List.forall_mem_cons] at h
      rw [Expr.eval]
      exact (Expr.leaves_eval hR operand h.2).bind fun v => (op.quiet_applyTo v).imp hR

/-- So do several expressions. -/
theorem Expr.leaves_evalAll {R : Store → Store → Prop} [IsPreorder Store R]
    (hR : ∀ σ τ : Store, σ.SameContents τ → R σ τ) : ∀ es : List Expr,
    (∀ part ∈ Expr.walkAll es, ∀ function ∈ part.called?,
      ∀ args, Leaves R (callNamed env locals function args)) →
    Leaves R (Expr.evalAll env locals es)
  | [], _ => by
      rw [Expr.evalAll]
      exact leaves_pure _
  | e :: es, h => by
      rw [Expr.walkAll, List.forall_mem_append] at h
      rw [Expr.evalAll]
      exact (Expr.leaves_eval hR e h.1).bind fun v => (Expr.leaves_evalAll hR es h.2).bind fun vs =>
        leaves_pure _

end

/-- Evaluating an expression that calls names quietly is quiet. -/
theorem Expr.quiet_eval (hrelation : ∀ s, env.valueOf "$pkAll" ≠ .setter s) (hlocals : locals.Unbound env)
    (e : Expr) (h : e.Calls env.CallsQuietly) : (e.eval env locals).IsQuiet :=
  Expr.leaves_eval (fun _ _ => id) e fun part hpart function hcalled args =>
    quiet_callNamed hrelation hlocals (h part hpart function hcalled) args

end

/-! ## Statements -/

section

variable {env : Environment} {writes : Place → List String} {α : Type}

/-- Whether a state of a run is left by one that writes some attributes only, where no local has a bound
name. -/
def RunState.Rewrites (env : Environment) (writes : Place → List String) (s t : RunState) : Prop :=
  s.locals.Unbound env → t.locals.Unbound env ∧ s.store.Rewrites writes t.store

instance : IsPreorder RunState (RunState.Rewrites env writes) where
  refl s hs := ⟨hs, .refl writes s.store⟩
  trans _ _ _ h h' hs := by
    obtain ⟨ht, hst⟩ := h hs
    obtain ⟨hu, htu⟩ := h' ht
    exact ⟨hu, hst.trans htu⟩

/-- An action on values leaves the locals of a run as they are. -/
theorem stateLeft_ofEval (action : Locals → Eval α) (s : RunState) :
    stateLeft (Exec.ofEval action s) = { s with store := stateLeft (action s.locals s.store) } := by
  unfold Exec.ofEval
  cases action s.locals s.store <;> rfl

/-- Locating faults changes no state. -/
theorem stateLeft_atLine (line : Nat) (action : Exec α) (s : RunState) :
    stateLeft (Exec.atLine line action s) = stateLeft (action s) := by
  unfold Exec.atLine
  cases action s <;> rfl

/-- A script leaves the store that its statements leave. -/
theorem stateLeft_run (p : Program) (σ : Store) :
    stateLeft (p.run env σ) = (stateLeft (Stmt.runAll env p.statements ⟨σ, []⟩)).store := by
  unfold Program.run
  cases Stmt.runAll env p.statements ⟨σ, []⟩ <;> rfl

/-- An action on values leaves as a part of a run what it leaves. -/
theorem leaves_ofEval {action : Locals → Eval α}
    (h : ∀ locals, locals.Unbound env → Leaves (Store.Rewrites writes) (action locals)) :
    Leaves (RunState.Rewrites env writes) (Exec.ofEval action) := by
  intro s hs
  rw [stateLeft_ofEval]
  exact ⟨hs, h s.locals hs s.store⟩

/-- Setting a local whose name is not bound writes nothing. -/
theorem leaves_setLocal {name : String} (hname : env.binder.contains name = false) (value : Value) :
    Leaves (RunState.Rewrites env writes) (Exec.setLocal name value) := by
  intro s hs
  refine ⟨fun other hother => ?_, .refl writes s.store⟩
  rcases mem_names_setNamed hother with rfl | hother
  · exact hname
  · exact hs other hother

/-- A part of a run leaves the same where its faults are located. -/
theorem leaves_atLine {R : RunState → RunState → Prop} (line : Nat) {action : Exec α}
    (h : Leaves R action) : Leaves R (Exec.atLine line action) := by
  intro s
  rw [stateLeft_atLine]
  exact h s

/-- Running over elements leaves what is related by the body. -/
theorem leaves_runOver {R : RunState → RunState → Prop} [IsPreorder RunState R] (collection : Value)
    (entries : Option Nat) {body : Value → Exec Unit} (hbody : ∀ v, Leaves R (body v))
    (elements : List Value) : Leaves R (runOver collection entries body elements) := by
  have hcheck : Leaves R (checkEntries collection entries) := by
    refine leaves_get_bind fun s => ?_
    split
    · exact leaves_throw _
    · exact leaves_pure _
  induction elements with
  | nil => exact hcheck
  | cons element elements ih => exact hcheck.bind fun _ => (hbody element).bind fun _ => ih

/-- Whether the bound fields of an environment are some attributes of the item, or bound to nothing. -/
def Environment.BindsFields (env : Environment) (names : List String) : Prop :=
  ∀ name b, env.binder.get? name = some b → b.kind = .target →
    b.value = .null ∨ ∃ field ∈ names, boundField? b = some field

end

section

variable {env : Environment} {names : List String}

/-- What a run writes whose bound fields are some attributes. -/
abbrev FieldWrites (env : Environment) (names : List String) : RunState → RunState → Prop :=
  RunState.Rewrites env (env.item.writesOf names)

/-- Writing a bound name writes an attribute of the item. -/
theorem leaves_assignBound (hfields : env.BindsFields names) {name : String} {binding : Binding}
    (hbound : env.binder.get? name = some binding) (value : Value) :
    Leaves (Store.Rewrites (env.item.writesOf names)) (assignBound env binding value) := by
  by_cases hkind : binding.kind = .target
  · rcases hfields name binding hbound hkind with hnull | ⟨field, hfield, hbinding⟩
    · rw [assignBound, hkind, hnull]
      exact leaves_throw _
    · obtain ⟨text, text', htarget⟩ := boundField?_eq_some hbinding
      simp only [assignBound, hkind, htarget, Target.write, Setter.assign, Value.writePath_single]
      exact Value.rewrites_setAttribute hfield value
  · unfold assignBound
    split
    · exact absurd ‹_› hkind
    · exact absurd ‹_› hkind
    · exact absurd ‹_› hkind
    · exact leaves_throw _

/-- An assignment sets a local, or writes an attribute of the item. -/
theorem leaves_assignVar (hfields : env.BindsFields names) (name : String) (value : Value) :
    Leaves (FieldWrites env names) (assignVar env name value) := by
  intro s hs
  cases hbound : env.binder.get? name with
  | none =>
      have hfree : env.binder.contains name = false := by simp [Binder.contains, hbound]
      have hset : assignVar env name value s = Exec.setLocal name value s := by
        unfold assignVar
        rw [bind_of_ok (get_ok s), hbound]
        cases s.locals.lookup name <;> rfl
      rw [hset]
      exact leaves_setLocal hfree value s hs
  | some binding =>
      have hwrite : assignVar env name value s
          = Exec.ofEval (fun _ => assignBound env binding value) s := by
        unfold assignVar
        rw [bind_of_ok (get_ok s), hbound, lookup_of_bound hs hbound]
      rw [hwrite]
      exact leaves_ofEval (fun _ _ => leaves_assignBound hfields hbound value) s hs

/-- Whether a statement sets no field of a value, and its expressions call quietly. -/
def Stmt.IsPlain (env : Environment) (s : Stmt) : Prop :=
  s.fieldOwner? = none ∧ ∀ e ∈ s.expressions, e.Calls env.CallsQuietly

theorem leaves_evaluate (hrelation : ∀ s, env.valueOf "$pkAll" ≠ .setter s) {e : Expr}
    (h : e.Calls env.CallsQuietly) :
    Leaves (FieldWrites env names) (evaluate env e) :=
  leaves_ofEval fun _ hlocals =>
    (Expr.quiet_eval hrelation hlocals e h).imp fun _ _ hsame => hsame.rewrites

theorem leaves_conditionHolds (hrelation : ∀ s, env.valueOf "$pkAll" ≠ .setter s)
    {condition : Expr} (h : condition.Calls env.CallsQuietly) :
    Leaves (FieldWrites env names) (conditionHolds env condition) :=
  (leaves_evaluate hrelation h).bind fun _ => leaves_get_bind fun _ => leaves_pure _

theorem leaves_loopElements (hrelation : ∀ s, env.valueOf "$pkAll" ≠ .setter s)
    {collection : Expr} (h : collection.Calls env.CallsQuietly) :
    Leaves (FieldWrites env names) (Exec.ofEval (loopElements env collection)) := by
  refine leaves_ofEval fun locals hlocals => ?_
  have hquiet : (loopElements env collection locals).IsQuiet := by
    refine (Expr.quiet_eval hrelation hlocals collection h).bind fun v => leaves_get_bind fun σ => ?_
    split
    · exact (quiet_ofExcept _).bind fun _ => leaves_pure _
    · exact leaves_pure _
  exact hquiet.imp fun _ _ hsame => hsame.rewrites

mutual

/-- A plain statement writes bound fields of the item only. -/
theorem Stmt.leaves_run (hrelation : ∀ s, env.valueOf "$pkAll" ≠ .setter s)
    (hfields : env.BindsFields names) : ∀ s : Stmt, (∀ t ∈ s.walk, t.IsPlain env) →
    Leaves (FieldWrites env names) (s.run env)
  | .assign line var [] value, h => by
      have hself : Stmt.IsPlain env (.assign line var [] value) := h _ (by simp [Stmt.walk])
      rw [Stmt.run]
      exact leaves_atLine line ((leaves_evaluate hrelation (hself.2 value (by simp [Stmt.expressions]))).bind
        fun v => leaves_assignVar hfields _ v)
  | .assign line var (name :: path) value, h => by
      have hself : Stmt.IsPlain env (.assign line var (name :: path) value) :=
        h _ (by simp [Stmt.walk])
      exact absurd hself.1 (by simp [Stmt.fieldOwner?])
  | .branch line condition body rest, h => by
      rw [Stmt.walk, List.forall_mem_cons, List.forall_mem_append] at h
      obtain ⟨⟨-, hself⟩, hbody, hrest⟩ := h
      rw [Stmt.expressions, List.forall_mem_cons] at hself
      rw [Stmt.run]
      refine leaves_atLine line ((leaves_conditionHolds hrelation hself.1).bind fun holds => ?_)
      split
      · exact Stmt.leaves_runAll hrelation hfields body hbody
      · exact Alternatives.leaves_run hrelation hfields rest hself.2 hrest
  | .foreach line var collection body, h => by
      rw [Stmt.walk, List.forall_mem_cons] at h
      obtain ⟨⟨-, hself⟩, hbody⟩ := h
      rw [Stmt.run]
      refine leaves_atLine line ?_
      dsimp only
      split
      · exact leaves_throw _
      · rename_i hfree
        refine (leaves_loopElements hrelation (hself collection (by simp [Stmt.expressions]))).bind
          fun run => ?_
        exact leaves_runOver _ _ (fun v => (leaves_setLocal (by simpa using hfree) v).bind
          fun _ => Stmt.leaves_runAll hrelation hfields body hbody) _
  | .call line function args, h => by
      have hself : Stmt.IsPlain env (.call line function args) := h _ (by simp [Stmt.walk])
      rw [Stmt.run]
      exact leaves_atLine line ((leaves_evaluate hrelation (hself.2 _ (by simp [Stmt.expressions]))).bind
        fun _ => leaves_pure _)

/-- So do alternatives. -/
theorem Alternatives.leaves_run (hrelation : ∀ s, env.valueOf "$pkAll" ≠ .setter s)
    (hfields : env.BindsFields names) : ∀ rest : Alternatives,
    (∀ e ∈ rest.conditions, e.Calls env.CallsQuietly) → (∀ t ∈ rest.walk, t.IsPlain env) →
    Leaves (FieldWrites env names) (rest.run env)
  | .done, _, _ => by
      rw [Alternatives.run]
      exact leaves_pure _
  | .otherwise body, _, h => by
      rw [Alternatives.walk] at h
      rw [Alternatives.run]
      exact Stmt.leaves_runAll hrelation hfields body h
  | .elif condition body rest, hconditions, h => by
      rw [Alternatives.conditions, List.forall_mem_cons] at hconditions
      rw [Alternatives.walk, List.forall_mem_append] at h
      rw [Alternatives.run]
      refine (leaves_conditionHolds hrelation hconditions.1).bind fun holds => ?_
      split
      · exact Stmt.leaves_runAll hrelation hfields body h.1
      · exact Alternatives.leaves_run hrelation hfields rest hconditions.2 h.2

/-- So do the statements of a block. -/
theorem Stmt.leaves_runAll (hrelation : ∀ s, env.valueOf "$pkAll" ≠ .setter s)
    (hfields : env.BindsFields names) : ∀ ss : List Stmt, (∀ t ∈ Stmt.walkAll ss, t.IsPlain env) →
    Leaves (FieldWrites env names) (Stmt.runAll env ss)
  | [], _ => by
      rw [Stmt.runAll]
      exact leaves_pure _
  | s :: ss, h => by
      rw [Stmt.walkAll, List.forall_mem_append] at h
      rw [Stmt.runAll]
      exact (Stmt.leaves_run hrelation hfields s h.1).bind fun _ => Stmt.leaves_runAll hrelation hfields ss h.2

end

/-- A script that sets no field of a value and calls names quietly writes its bound fields of the item
only, whether it ends or fails. -/
theorem Program.rewrites_run (hrelation : ∀ s, env.valueOf "$pkAll" ≠ .setter s)
    (hfields : env.BindsFields names) {p : Program}
    (hsets : ∀ s ∈ p.allStatements, s.fieldOwner? = none)
    (hcalls : ∀ function ∈ p.calledFunctions, env.CallsQuietly function) :
    Leaves (Store.Rewrites (env.item.writesOf names)) (p.run env) := by
  intro σ
  have hplain : ∀ s ∈ p.allStatements, s.IsPlain env := by
    refine fun s hs => ⟨hsets s hs, fun e he part hpart function hfunction => hcalls function ?_⟩
    exact List.mem_filterMap.mpr ⟨part, List.mem_flatMap.mpr ⟨s, hs, mem_walkAll.mpr ⟨e, he, hpart⟩⟩,
      hfunction⟩
  have hstart : Locals.Unbound env [] := fun _ h => by cases h
  obtain ⟨-, hleft⟩ := Stmt.leaves_runAll hrelation hfields p.statements hplain ⟨σ, []⟩ hstart
  rwa [stateLeft_run]

end

end Rubric.Script
