import Rubric.Proofs.Value.Writes
import Rubric.Script.Check
import Rubric.Script.Interpreter

/-!
# Scripts are local

A script goes by what it may read and write.  Where what it is given is within what it may read, and
its bound fields and the fields that it sets may be written, running it gives the same in every store
that agrees on what it may read, and changes nothing but what it may write.  The proofs follow the
definitions: each built-in function, operator, expression and statement is put together from local
computations.

* `Environment.Within`, `Environment.MayWrite` : what a script is given, against a scope;
* `Expr.local_eval` : expressions are local;
* `Stmt.local_run`, `Program.local_run` : so are statements and scripts.
-/

namespace Rubric.Script

open Rubric.Text
open Value (Place)
open Value Eval StateFrame

variable {F : Scope}

/-! ## Built-in functions -/

theorem local_itemsOrNone {collection : Value} (h : collection.Within F.reads) :
    Eval.Local F (itemsOrNone collection) fun vs => ∀ v ∈ vs, v.Within F.reads := by
  refine local_store_bind (fun σ σ' hσ => ?_) fun σ hclosed => ?_
  · rw [truthy_agree hσ h, items_agree hσ h]
  · split
    · exact local_ofExcept fun vs hvs => items_within hclosed h hvs
    · exact local_pure (by simp)

theorem local_selectFrom {selector record : Value} (hselector : selector.Within F.reads)
    (hrecord : record.Within F.reads) :
    Eval.Local F (selectFrom selector record) (Value.Within F.reads) := by
  unfold selectFrom
  split
  · exact local_pure hrecord
  · exact Selector.local_read (within_target.mp hselector).1 hrecord
  · exact local_readPath hrecord _
  · split
    · exact Value.local_call hselector (by simpa using hrecord)
    · exact local_get_throw fun _ _ hσ => by rw [shown_agree hσ hselector]

theorem local_selectAll {collection selector : Value} (hcollection : collection.Within F.reads)
    (hselector : selector.Within F.reads) :
    Eval.Local F (selectAll collection selector) fun vs => ∀ v ∈ vs, v.Within F.reads := by
  unfold selectAll
  split
  · exact local_pure (by simp)
  · rw [← bind_assoc]
    exact (local_items hcollection).bind fun items hitems =>
      local_mapM fun v hv => local_selectFrom hselector (hitems v hv)

theorem local_selectPresent {collection selector : Value}
    (hcollection : collection.Within F.reads) (hselector : selector.Within F.reads) :
    Eval.Local F (selectPresent collection selector) fun vs => ∀ v ∈ vs, v.Within F.reads :=
  (local_selectAll hcollection hselector).bind fun _ hvs =>
    local_pure fun v hv => hvs v (List.mem_filter.mp hv).1

/-- Keeping the elements that pass a test is local where the test is. -/
theorem local_keepWhere {α : Type} {P : α → Prop} {test : α → Eval Bool} {as : List α}
    (hP : ∀ a ∈ as, P a) (h : ∀ a ∈ as, Eval.Local F (test a) fun _ => True) :
    Eval.Local F (keepWhere test as) fun kept => ∀ a ∈ kept, P a := by
  induction as with
  | nil => exact local_pure (by simp)
  | cons a as ih =>
      obtain ⟨ha, has⟩ := List.forall_mem_cons.mp h
      obtain ⟨hPa, hPas⟩ := List.forall_mem_cons.mp hP
      refine ha.bind fun keep _ => (ih hPas has).bind fun kept hkept => local_pure ?_
      split
      · exact List.forall_mem_cons.mpr ⟨hPa, hkept⟩
      · exact hkept

theorem local_comparesTo {selector operator value record : Value}
    (hselector : selector.Within F.reads) (hoperator : operator.Within F.reads)
    (hvalue : value.Within F.reads) (hrecord : record.Within F.reads) :
    Eval.Local F (comparesTo selector operator value record) fun _ => True := by
  refine (local_selectFrom hselector hrecord).bind fun left hleft => ?_
  refine local_store_bind (fun σ σ' hσ => ?_) fun σ _ => local_answer _
  rw [text_agree hσ hoperator, compareText_agree hσ hleft _ hvalue]

/-- Values found to be distinct are some of those given. -/
theorem distinctValues_agree {σ σ' : Store} {region : Region} (h : σ.Agree region σ')
    {vs : List Value} (hvs : ∀ v ∈ vs, v.Within region) : ∀ {kept : List Value},
    (∀ v ∈ kept, v.Within region) →
      distinctValues σ' kept vs = distinctValues σ kept vs ∧
        ∀ ws, distinctValues σ kept vs = .ok ws → ∀ w ∈ ws, w.Within region := by
  induction vs with
  | nil =>
      intro kept hkept
      refine ⟨rfl, fun ws hws => ?_⟩
      cases hws
      exact hkept
  | cons v vs ih =>
      intro kept hkept
      obtain ⟨hv, hrest⟩ := List.forall_mem_cons.mp hvs
      have hmore : ∀ w ∈ kept ++ [v], w.Within region :=
        List.forall_mem_append.mpr ⟨hkept, by simpa using hv⟩
      simp only [distinctValues, foundIn_agree h hv hkept, bind, Except.bind]
      cases v.foundIn σ kept with
      | error fault => simp
      | ok found =>
          cases found with
          | true => simpa using ih hrest hkept
          | false => simpa using ih hrest hmore

theorem local_distinct {collection : Value} (h : collection.Within F.reads) :
    Eval.Local F (do
      let items ← itemsOrNone collection
      Eval.newList (← Eval.ofExcept (distinctValues (← get) [] items))) (Value.Within F.reads) := by
  refine (local_itemsOrNone h).bind fun items hitems => ?_
  rw [← bind_assoc]
  exact (local_reads (fun σ σ' hσ => (distinctValues_agree hσ hitems (by simp)).1)
    fun σ ws hclosed hws => (distinctValues_agree (.refl hclosed) hitems (by simp)).2 ws hws).bind
      fun ws hws => local_newList hws

theorem local_countOf {collection selector : Value} (hcollection : collection.Within F.reads)
    (hselector : selector.Within F.reads) :
    Eval.Local F (countOf collection selector) (Value.Within F.reads) := by
  unfold countOf
  split
  · exact (local_itemsOrNone hcollection).bind fun _ _ => local_pure (within_int _)
  · exact (local_selectPresent hcollection hselector).bind fun _ _ => local_pure (within_int _)

theorem local_meanOf {collection selector : Value} (hcollection : collection.Within F.reads)
    (hselector : selector.Within F.reads) :
    Eval.Local F (meanOf collection selector) (Value.Within F.reads) := by
  refine (local_selectPresent hcollection hselector).bind fun values hvalues => ?_
  split
  · exact local_pure within_null
  · exact (local_sum hvalues).bind fun total htotal => local_div htotal (within_int _)

theorem local_extremeOf (op : OrderOp) {collection selector : Value}
    (hcollection : collection.Within F.reads) (hselector : selector.Within F.reads) :
    Eval.Local F (extremeOf op collection selector) (Value.Within F.reads) := by
  refine (local_selectPresent hcollection hselector).bind fun values hvalues => ?_
  split
  · exact local_pure within_null
  · rename_i first rest
    obtain ⟨hfirst, hrest⟩ := List.forall_mem_cons.mp hvalues
    exact local_reads (fun σ σ' hσ => (extreme_agree hσ op rest hfirst hrest).1)
      fun σ w hclosed => (extreme_agree (.refl hclosed) op rest hfirst hrest).2 w

theorem local_roundTo {value places : Value} (hvalue : value.Within F.reads) (hplaces : places.Within F.reads) :
    Eval.Local F (roundTo value places) (Value.Within F.reads) := by
  unfold roundTo
  split
  · exact local_pure within_null
  · refine local_store_bind (fun σ σ' hσ => ?_) fun σ _ =>
      (local_answer _).bind fun n _ => local_round hvalue n
    rw [toInteger_agree hσ hplaces]

theorem local_numberOf {value : Value} (h : value.Within F.reads) :
    Eval.Local F (numberOf value) (Value.Within F.reads) := by
  unfold numberOf
  split
  · exact local_pure h
  · refine local_store_bind (fun σ σ' hσ => by rw [text_agree hσ h]) fun σ _ => ?_
    dsimp only
    split
    · refine (local_answer _).bind fun x _ => ?_
      split
      · exact local_pure (within_float _)
      · exact local_ofFloat _
    · exact (local_answer _).bind fun _ _ => local_pure (within_int _)

theorem local_lengthOf {value : Value} (h : value.Within F.reads) :
    Eval.Local F (lengthOf value) (Value.Within F.reads) := by
  unfold lengthOf
  split
  · exact local_pure (within_int 0)
  · exact local_store_bind (fun σ σ' hσ => by rw [length_agree hσ h]) fun σ _ =>
      (local_answer _).bind fun _ _ => local_pure (within_int _)

theorem concatenated_agree {σ σ' : Store} {region : Region} (h : σ.Agree region σ')
    {parts : List Value} (hparts : ∀ v ∈ parts, v.Within region) :
    concatenated σ' parts = concatenated σ parts := by
  rw [concatenated, concatenated, List.map_congr_left fun v hv => label_agree h (hparts v hv)]

theorem local_concatenated {parts : List Value} (h : ∀ v ∈ parts, v.Within F.reads) :
    Eval.Local F (do return .str (concatenated (← get) parts)) (Value.Within F.reads) :=
  local_store_bind (fun σ σ' hσ => by rw [concatenated_agree hσ h]) fun σ _ =>
    local_pure (within_str _)

theorem firstPresent_within {region : Region} {values : List Value}
    (h : ∀ v ∈ values, v.Within region) : (firstPresent values).Within region := by
  unfold firstPresent
  cases hfound : values.find? fun v => !v.isNull with
  | none => exact within_null
  | some v => exact h v (List.mem_of_find?_eq_some hfound)

theorem local_descriptionIn {table label default : Value} (htable : table.Within F.reads)
    (hlabel : label.Within F.reads) (hdefault : default.Within F.reads) :
    Eval.Local F (descriptionIn table label default) (Value.Within F.reads) := by
  unfold descriptionIn
  cases table with
  | null => exact local_store_bind (fun _ _ _ => rfl) fun _ _ => local_pure hdefault
  | mapping address =>
      have haddress := within_mapping.mp htable
      refine local_store_bind (fun σ σ' hσ => ?_) fun σ hclosed => ?_
      · simp only [label_agree hσ hlabel, hσ.entries_eq address haddress, lookup_str σ σ']
      · refine (local_ofExcept fun found hfound => ?_).bind fun found hfound => local_pure hfound
        cases found with
        | none => exact hdefault
        | some v =>
            obtain ⟨k, hmem⟩ := mem_of_lookup hfound
            exact (hclosed.entry haddress hmem).2
  | _ => exact local_get_throw fun _ _ hσ => by rw [typeName_agree hσ htable]

theorem local_knownIn {table label : Value} (htable : table.Within F.reads)
    (hlabel : label.Within F.reads) : Eval.Local F (knownIn table label) fun _ => True := by
  refine local_store_bind (fun σ σ' hσ => ?_) fun σ _ => ?_
  · rw [label_agree hσ hlabel, memberOf_agree hσ (within_str _) htable]
  · split
    · exact local_pure trivial
    · exact local_answer _

/-! ## Operators and calls -/

theorem NumberLiteral.within_toValue {region : Region} (n : NumberLiteral) :
    n.toValue.Within region := by
  cases n with
  | int n => exact within_int n
  | float x => exact within_float x

theorem local_plus {a b : Value} (ha : a.Within F.reads) (hb : b.Within F.reads) :
    Eval.Local F (plus a b) (Value.Within F.reads) := by
  have hconcatenated : Eval.Local F (do return .str (concatenated (← get) [a, b]))
      (Value.Within F.reads) := local_concatenated (by simp [ha, hb])
  unfold plus
  split
  · exact hconcatenated
  · exact hconcatenated
  · exact local_add ha hb

theorem BinaryOp.local_applyTo (op : BinaryOp) {a b : Value} (ha : a.Within F.reads)
    (hb : b.Within F.reads) : Eval.Local F (op.applyTo a b) (Value.Within F.reads) := by
  have hcompare : Eval.Local F (do
      return Value.bool (← Eval.ofExcept (a.compareText (← get) op.text b)))
      (Value.Within F.reads) :=
    local_store_bind (fun σ σ' hσ => by rw [compareText_agree hσ ha op.text hb])
      fun σ _ => (local_answer _).bind fun _ _ => local_pure (within_bool _)
  have htruth {σ σ' : Store} (hσ : F.Sees σ σ') :
      a.truthy σ' = a.truthy σ ∧ b.truthy σ' = b.truthy σ :=
    ⟨truthy_agree hσ ha, truthy_agree hσ hb⟩
  cases op with
  | or | and =>
      exact local_store_bind (fun σ σ' hσ => by simp only [htruth hσ]) fun _ _ =>
        local_pure (within_bool _)
  | add => exact local_plus ha hb
  | sub => exact local_sub ha hb
  | mul => exact local_mul ha hb
  | div => exact local_div ha hb
  | mod => exact local_mod ha hb
  | _ => exact hcompare

theorem BinaryOp.decided_agree {σ σ' : Store} (h : F.Sees σ σ') (op : BinaryOp) {a : Value}
    (ha : a.Within F.reads) : op.decided σ' a = op.decided σ a := by
  cases op <;> simp only [BinaryOp.decided, truthy_agree h ha]

theorem UnaryOp.local_applyTo (op : UnaryOp) {a : Value} (ha : a.Within F.reads) :
    Eval.Local F (op.applyTo a) (Value.Within F.reads) := by
  cases op with
  | not =>
      exact local_store_bind (fun σ σ' hσ => by rw [truthy_agree hσ ha]) fun _ _ =>
        local_pure (within_bool _)
  | neg => exact local_neg ha

theorem local_callValue (function : String) {callee : Value} {args : List Value}
    (hcallee : callee.Within F.reads) (hargs : ∀ v ∈ args, v.Within F.reads) :
    Eval.Local F (callValue function callee args) (Value.Within F.reads) := by
  unfold callValue
  split
  · exact (local_ofExcept fun _ h => within_oneArgument h hargs).bind fun record hrecord =>
      Selector.local_read (within_target.mp hcallee).1 hrecord
  · split
    · exact Value.local_call hcallee hargs
    · exact local_throw _

/-! ## Environments -/

/-- The one attribute of the item that a binding stands for, where it stands for one. -/
def boundField? (b : Binding) : Option String :=
  match b.kind, b.value with
  | .target, .target (.path _ [name]) (some (.path _ [written])) =>
    if name = written then some name else none
  | _, _ => none

/-- A binding that stands for an attribute reads it and writes it. -/
theorem boundField?_eq_some {b : Binding} {name : String} (h : boundField? b = some name) :
    ∃ text text', b.value = .target (.path text [name]) (some (.path text' [name])) := by
  unfold boundField? at h
  split at h
  · rename_i text read text' written _ hvalue
    split at h
    · rename_i hsame
      cases h
      exact ⟨text, text', hsame ▸ hvalue⟩
    · cases h
  · cases h

/-- A binding that stands for an attribute is a bound field. -/
theorem kind_of_boundField? {b : Binding} {field : String} (h : boundField? b = some field) :
    b.kind = .target := by
  unfold boundField? at h
  split at h
  · assumption
  · cases h

/-- Whether what an environment gives out is within what may be read: the values of its bindings, and
what reads its bound fields. -/
structure Environment.Within (F : Scope) (env : Environment) : Prop where
  values : ∀ name b, env.binder.get? name = some b → b.kind ≠ .target → b.value.Within F.reads
  fields : ∀ name b, env.binder.get? name = some b → b.kind = .target →
    b.value.Within F.reads ∨ ∃ s assign, b.value = .target s assign ∧ s.Within F.reads
  item : env.item.Within F.reads
  context : (env.valueOf "$ctxC").Within F.reads
  relation : (env.valueOf "$pkAll").Within F.reads
  classes : env.classes.Within F.reads
  subclasses : env.subclasses.Within F.reads

/-- Whether writing the bound fields of an item within what may be read writes what may be written. -/
def Environment.MayWrite (F : Scope) (env : Environment) : Prop :=
  env.item.Within F.reads → ∀ name b, env.binder.get? name = some b → b.kind = .target →
    ∀ v : Value, v.Within F.reads → Eval.Local F (assignBound env b v) fun _ => True

/-- Reading through a target is local where its selector is within what may be read. -/
theorem local_bindingValue_target {env : Environment} (hitem : env.item.Within F.reads)
    {binding : Binding} (hkind : binding.kind = .target)
    (hvalue : binding.value.Within F.reads ∨
      ∃ s assign, binding.value = .target s assign ∧ s.Within F.reads) :
    Eval.Local F (bindingValue env binding) (Value.Within F.reads) := by
  unfold bindingValue
  rw [hkind]
  split
  · exact local_pure within_null
  · rename_i s assign _ htarget
    refine Selector.local_read ?_ hitem
    rcases hvalue with hvalue | ⟨s', assign', hsame, hs⟩
    · rw [htarget] at hvalue
      exact (within_target.mp hvalue).1
    · rw [htarget] at hsame
      cases hsame
      exact hs
  · rename_i hnottarget
    rcases hvalue with hvalue | ⟨s, assign, hsame, -⟩
    · exact local_get_throw fun _ _ hσ => by rw [typeName_agree hσ hvalue]
    · exact absurd hsame (hnottarget s assign)
  · exact absurd rfl ‹_›

/-- A binding to null may not be written, which is local. -/
theorem local_assignBound_null {env : Environment} {binding : Binding}
    (hkind : binding.kind = .target) (hnull : binding.value = .null) (value : Value) :
    Eval.Local F (assignBound env binding value) fun _ => True := by
  rw [assignBound, hkind, hnull]
  exact local_throw _

/-- Writing a bound attribute of the item is local where the attribute may be written. -/
theorem local_assignBound_field {env : Environment} (hitem : env.item.Within F.reads)
    {binding : Binding} {field : String} (hfield : boundField? binding = some field)
    (hmay : ∀ p, env.item.place? = some p → F.mayWrite p field) {value : Value}
    (hvalue : value.Within F.reads) :
    Eval.Local F (assignBound env binding value) fun _ => True := by
  obtain ⟨text, text', htarget⟩ := boundField?_eq_some hfield
  simp only [assignBound, kind_of_boundField? hfield, htarget, Target.write, Setter.assign,
    writePath_single]
  exact local_setAttribute hitem hmay hvalue

/-- Writing through a target is local where it is within what may be read. -/
theorem local_assignBound_within {env : Environment} (hitem : env.item.Within F.reads)
    {binding : Binding} (hkind : binding.kind = .target) (hbinding : binding.value.Within F.reads)
    {value : Value} (hvalue : value.Within F.reads) :
    Eval.Local F (assignBound env binding value) fun _ => True := by
  unfold assignBound
  rw [hkind]
  split
  · exact local_throw _
  · rename_i s assign _ htarget
    rw [htarget] at hbinding
    cases assign with
    | none => exact local_throw _
    | some setter =>
        exact Setter.local_assign ((within_target.mp hbinding).2 setter rfl) hitem hvalue
  · exact local_get_throw fun _ _ hσ => by rw [typeName_agree hσ hbinding]
  · exact absurd rfl ‹_›

section

variable {env : Environment} (henv : env.Within F)

include henv

theorem local_bindingValue {name : String} {binding : Binding}
    (h : env.binder.get? name = some binding) :
    Eval.Local F (bindingValue env binding) (Value.Within F.reads) := by
  by_cases hkind : binding.kind = .target
  · exact local_bindingValue_target henv.item hkind (henv.fields name binding h hkind)
  · have hvalue := henv.values name binding h hkind
    unfold bindingValue
    split
    · exact absurd ‹_› hkind
    · exact absurd ‹_› hkind
    · exact absurd ‹_› hkind
    · exact local_pure hvalue

theorem local_lookupVar {locals : Locals} (hlocals : ∀ entry ∈ locals, entry.2.Within F.reads)
    (name : String) : Eval.Local F (lookupVar env locals name) (Value.Within F.reads) := by
  unfold lookupVar
  split
  · rename_i v hfound
    exact local_pure (hlocals (name, v) (Store.mem_of_lookup hfound))
  · split
    · rename_i binding hbound
      exact local_bindingValue henv hbound
    · exact local_throw _

theorem local_lookupName (name : String) :
    Eval.Local F (lookupName env name) (Value.Within F.reads) := by
  unfold lookupName
  split
  · rename_i binding hbound
    exact local_bindingValue henv hbound
  · exact local_throw _

theorem local_relatedTo {record collection : Value} (hrecord : record.Within F.reads)
    (hcollection : collection.Within F.reads) :
    Eval.Local F (relatedTo env record collection) (Value.Within F.reads) := by
  have hrelation : Eval.Local F (Eval.ofExcept (env.binder.get "$pkAll"))
      fun binding => binding.value.Within F.reads := by
    refine local_ofExcept fun binding hbinding => ?_
    have h := henv.relation
    unfold Binder.get at hbinding
    split at hbinding
    · rename_i found hfound
      cases hbinding
      simpa [Environment.valueOf, hfound] using h
    · cases hbinding
  refine hrelation.bind fun binding hbinding => ?_
  have hkeep {pool : List Value} (hpool : ∀ v ∈ pool, v.Within F.reads) : Eval.Local F (do
      Eval.newList (← keepWhere (fun r => related binding.value r record) pool))
      (Value.Within F.reads) :=
    (local_keepWhere hpool fun v hv => local_related hbinding (hpool v hv) hrecord).bind
      fun kept hkept => local_newList hkept
  dsimp only
  split
  · exact local_throw _
  · split
    · exact (local_itemsOrNone henv.context).bind fun pool hpool => hkeep hpool
    · rw [← bind_assoc]
      exact (local_items hcollection).bind fun pool hpool => hkeep hpool

theorem local_builtinValue (b : Builtin) {args : List Value}
    (hargs : ∀ v ∈ args, v.Within F.reads) :
    Eval.Local F (b.value env args) (Value.Within F.reads) := by
  -- an argument that is not given is null, which is within every region
  have harg (i : Nat) : (args.getD i .null).Within F.reads := by
    rw [List.getD_eq_getElem?_getD]
    cases hget : args[i]? with
    | none => exact within_null
    | some v => exact hargs v (List.mem_of_getElem? hget)
  have hplaces : (args.getD 1 (.int 0)).Within F.reads := by
    rw [List.getD_eq_getElem?_getD]
    cases hget : args[1]? with
    | none => exact within_int 0
    | some v => exact hargs v (List.mem_of_getElem? hget)
  cases b with
  | count => exact local_countOf (harg 0) (harg 1)
  | sum => exact (local_selectPresent (harg 0) (harg 1)).bind fun vs hvs => local_sum hvs
  | avg => exact local_meanOf (harg 0) (harg 1)
  | min => exact local_extremeOf _ (harg 0) (harg 1)
  | max => exact local_extremeOf _ (harg 0) (harg 1)
  | values =>
      exact (local_selectAll (harg 0) (harg 1)).bind fun vs hvs => local_newList hvs
  | filter =>
      exact (local_itemsOrNone (harg 0)).bind fun items hitems =>
        (local_keepWhere hitems fun v hv =>
          local_comparesTo (harg 1) (harg 2) (harg 3) (hitems v hv)).bind
            fun kept hkept => local_newList hkept
  | distinct => exact local_distinct (harg 0)
  | related => exact local_relatedTo henv (harg 0) (harg 1)
  | round => exact local_roundTo (harg 0) hplaces
  | abs =>
      simp only [Builtin.value]
      split
      · exact local_pure within_null
      · exact local_abs (harg 0)
  | str =>
      exact local_store_bind (fun σ σ' hσ => by rw [label_agree hσ (harg 0)]) fun σ _ =>
        local_pure (within_str _)
  | num => exact local_numberOf (harg 0)
  | len => exact local_lengthOf (harg 0)
  | concat => exact local_concatenated hargs
  | coalesce => exact local_pure (firstPresent_within hargs)
  | describe => exact local_descriptionIn henv.classes (harg 0) (within_str _)
  | subclass => exact local_descriptionIn henv.subclasses (harg 0) within_null
  | hasClass =>
      refine (local_knownIn henv.classes (harg 0)).bind fun known _ => ?_
      split
      · exact local_pure (within_bool _)
      · exact (local_knownIn henv.subclasses (harg 0)).bind fun _ _ => local_pure (within_bool _)

theorem local_callNamed {locals : Locals} (hlocals : ∀ entry ∈ locals, entry.2.Within F.reads)
    (function : String) {args : List Value} (hargs : ∀ v ∈ args, v.Within F.reads) :
    Eval.Local F (callNamed env locals function args) (Value.Within F.reads) := by
  unfold callNamed
  split
  · exact (local_lookupVar henv hlocals function).bind fun callee hcallee =>
      local_callValue function hcallee hargs
  · split
    · rename_i binding hbound
      exact (local_bindingValue henv hbound).bind
        fun callee hcallee => local_callValue function hcallee hargs
    · split
      · exact (local_answer _).bind fun _ _ => local_builtinValue henv _ hargs
      · exact local_throw _

end

/-! ## Expressions -/

section

variable {env : Environment} {locals : Locals}

mutual

/-- Evaluating an expression is local. -/
theorem Expr.local_eval (henv : env.Within F)
    (hlocals : ∀ entry ∈ locals, entry.2.Within F.reads) :
    ∀ e : Expr, Eval.Local F (e.eval env locals) (Value.Within F.reads)
  | .str value => by
      rw [Expr.eval]
      exact local_pure (within_str value)
  | .num value => by
      rw [Expr.eval]
      exact local_pure (NumberLiteral.within_toValue value)
  | .bool value => by
      rw [Expr.eval]
      exact local_pure (within_bool value)
  | .null => by
      rw [Expr.eval]
      exact local_pure within_null
  | .var ident => by
      rw [Expr.eval]
      exact local_lookupVar henv hlocals _
  | .name ident => by
      rw [Expr.eval]
      exact local_lookupName henv ident
  | .list items => by
      rw [Expr.eval]
      exact (Expr.local_evalAll henv hlocals items).bind fun vs hvs => local_newList hvs
  | .member owner field => by
      rw [Expr.eval]
      exact (local_answer _).bind fun _ _ => (Expr.local_eval henv hlocals owner).bind
        fun base hbase => local_readAttribute hbase field
  | .index owner key => by
      rw [Expr.eval]
      refine (Expr.local_eval henv hlocals owner).bind fun container hcontainer => ?_
      split
      · exact local_pure within_null
      · exact (Expr.local_eval henv hlocals key).bind fun place hplace =>
          local_subscript hcontainer hplace
  | .call callee args => by
      rw [Expr.eval]
      exact (Expr.local_evalAll henv hlocals args).bind fun vs hvs =>
        local_callNamed henv hlocals callee hvs
  | .binary op left right => by
      rw [Expr.eval]
      refine (Expr.local_eval henv hlocals left).bind fun first hfirst =>
        local_store_bind (fun σ σ' hσ => by rw [op.decided_agree hσ hfirst]) fun σ _ => ?_
      split
      · exact local_pure (within_bool _)
      · exact (Expr.local_eval henv hlocals right).bind fun second hsecond =>
          op.local_applyTo hfirst hsecond
  | .unary op operand => by
      rw [Expr.eval]
      exact (Expr.local_eval henv hlocals operand).bind fun v hv => op.local_applyTo hv

/-- Evaluating several expressions is local. -/
theorem Expr.local_evalAll (henv : env.Within F)
    (hlocals : ∀ entry ∈ locals, entry.2.Within F.reads) :
    ∀ es : List Expr, Eval.Local F (Expr.evalAll env locals es)
      fun vs => ∀ v ∈ vs, v.Within F.reads
  | [] => by
      rw [Expr.evalAll]
      exact local_pure (by simp)
  | e :: es => by
      rw [Expr.evalAll]
      exact (Expr.local_eval henv hlocals e).bind fun v hv =>
        (Expr.local_evalAll henv hlocals es).bind fun vs hvs =>
          local_pure (List.forall_mem_cons.mpr ⟨hv, hvs⟩)

end

end

/-! ## Parts of a run -/

/-- The states of a run, compared by a footprint: the locals are the same, and within what may be
read. -/
def runFrame (F : Scope) : StateFrame RunState where
  sees s s' := F.Sees s.store s'.store ∧ s'.locals = s.locals ∧
    ∀ entry ∈ s.locals, entry.2.Within F.reads
  rewrites s t := F.rewrites s.store t.store
  refl _ := F.refl _
  trans := F.trans

/-- Whether a part of a run is local. -/
abbrev Exec.Local {α : Type} (F : Scope) (action : Exec α) (post : α → Prop) : Prop :=
  (runFrame F).Local action post

section

variable {α : Type} {post : α → Prop}

/-- An action on values is local as a part of a run. -/
theorem local_ofEval {action : Locals → Eval α}
    (h : ∀ locals : Locals, (∀ entry ∈ locals, entry.2.Within F.reads) →
      Eval.Local F (action locals) post) : Exec.Local F (Exec.ofEval action) post where
  ok s s' hs a t hok := by
    obtain ⟨hsees, hlocals, hwithin⟩ := hs
    simp only [Exec.ofEval] at hok ⊢
    cases hresult : action s.locals s.store with
    | error fault σ => simp [hresult] at hok
    | ok b σ =>
        simp only [hresult] at hok
        cases hok
        obtain ⟨hpost, hσ, σ', hresult', hsees', hσ'⟩ := (h s.locals hwithin).ok hsees hresult
        refine ⟨hpost, hσ, ⟨σ', s.locals⟩, ?_, ⟨hsees', rfl, hwithin⟩, hσ'⟩
        rw [hlocals, hresult']
  error s s' hs fault t herror := by
    obtain ⟨hsees, hlocals, hwithin⟩ := hs
    simp only [Exec.ofEval] at herror ⊢
    cases hresult : action s.locals s.store with
    | ok b σ => simp [hresult] at herror
    | error fault' σ =>
        simp only [hresult] at herror
        cases herror
        obtain ⟨hσ, σ', hresult', hsees', hσ'⟩ := (h s.locals hwithin).error hsees hresult
        refine ⟨hσ, ⟨σ', s.locals⟩, ?_, ⟨hsees', rfl, hwithin⟩, hσ'⟩
        rw [hlocals, hresult']

/-- Setting a local is local. -/
theorem local_setLocal (name : String) {value : Value} (h : value.Within F.reads) :
    Exec.Local F (Exec.setLocal name value) fun _ => True where
  ok s s' hs a t hok := by
    obtain ⟨hsees, hlocals, hwithin⟩ := hs
    cases hok
    refine ⟨trivial, F.refl _, { s' with locals := Value.setNamed name value s'.locals }, rfl,
      ⟨hsees, by rw [hlocals], ?_⟩, F.refl _⟩
    exact Value.setNamed_within h hwithin
  error _ _ _ _ _ herror := by cases herror

/-- A part of a run stays local where its faults are located. -/
theorem local_atLine (line : Nat) {action : Exec α} (h : Exec.Local F action post) :
    Exec.Local F (Exec.atLine line action) post where
  ok s s' hs a t hok := by
    simp only [Exec.atLine] at hok ⊢
    cases hresult : action s with
    | error fault t' => simp [hresult] at hok
    | ok b t' =>
        simp only [hresult] at hok
        cases hok
        obtain ⟨hpost, ht, u, hresult', hsees, hu⟩ := h.ok hs hresult
        exact ⟨hpost, ht, u, by rw [hresult'], hsees, hu⟩
  error s s' hs fault t herror := by
    simp only [Exec.atLine] at herror ⊢
    cases hresult : action s with
    | ok b t' => simp [hresult] at herror
    | error fault' t' =>
        simp only [hresult] at herror
        cases herror
        obtain ⟨ht, u, hresult', hsees, hu⟩ := h.error hs hresult
        exact ⟨ht, u, by rw [hresult'], hsees, hu⟩

end

/-! ## Statements -/

section

variable {env : Environment}

theorem entryCount?_agree {σ σ' : Store} (h : F.Sees σ σ') {v : Value} (hv : v.Within F.reads) :
    entryCount? σ' v = entryCount? σ v := by
  cases v with
  | mapping address => simp only [entryCount?, h.entries_eq address (within_mapping.mp hv)]
  | _ => rfl

/-- Running over elements is local where the body is. -/
theorem local_runOver {collection : Value} (hcollection : collection.Within F.reads)
    (entries : Option Nat) {body : Value → Exec Unit}
    (hbody : ∀ v, v.Within F.reads → Exec.Local F (body v) fun _ => True) {elements : List Value}
    (helements : ∀ v ∈ elements, v.Within F.reads) :
    Exec.Local F (runOver collection entries body elements) fun _ => True := by
  have hcheck : Exec.Local F (checkEntries collection entries) fun _ => True := by
    refine local_get_bind (fun s s' hs => by rw [entryCount?_agree hs.1 hcollection]) fun s _ _ => ?_
    split
    · exact local_throw _
    · exact local_pure trivial
  induction elements with
  | nil => exact hcheck
  | cons element elements ih =>
      obtain ⟨helement, hrest⟩ := List.forall_mem_cons.mp helements
      exact hcheck.bind fun _ _ => (hbody element helement).bind fun _ _ => ih hrest

theorem local_evaluate (henv : env.Within F) (e : Expr) : Exec.Local F (evaluate env e) (Value.Within F.reads) :=
  local_ofEval fun _ hlocals => Expr.local_eval henv hlocals e

theorem local_conditionHolds (henv : env.Within F) (condition : Expr) :
    Exec.Local F (conditionHolds env condition) fun _ => True :=
  (local_evaluate henv condition).bind fun v hv =>
    local_get_bind (fun s s' hs => by rw [truthy_agree hs.1 hv]) fun _ _ _ =>
      local_pure trivial

/-- What a loop runs over is within what may be read. -/
theorem local_loopElements (henv : env.Within F) {locals : Locals}
    (hlocals : ∀ entry ∈ locals, entry.2.Within F.reads) (collection : Expr) : Eval.Local F (loopElements env collection locals)
      fun run => run.1.Within F.reads ∧ ∀ v ∈ run.2.2, v.Within F.reads := by
  refine (Expr.local_eval henv hlocals collection).bind fun v hv => ?_
  refine local_store_bind (fun σ σ' hσ => ?_) fun σ hclosed => ?_
  · rw [truthy_agree hσ hv, entryCount?_agree hσ hv, items_agree hσ hv]
  · split
    · exact (local_ofExcept fun vs hvs => items_within hclosed hv hvs).bind fun vs hvs =>
        local_pure ⟨hv, hvs⟩
    · exact local_pure ⟨within_null, by simp⟩

/-- Assigning a bound field writes what may be written. -/
theorem local_assignBound (henv : env.Within F) (hwrites : env.MayWrite F) {name : String}
    {binding : Binding} (h : env.binder.get? name = some binding) {value : Value} (hvalue : value.Within F.reads) :
    Eval.Local F (assignBound env binding value) fun _ => True := by
  by_cases hkind : binding.kind = .target
  · exact hwrites henv.item name binding h hkind value hvalue
  · unfold assignBound
    split
    · exact absurd ‹_› hkind
    · exact absurd ‹_› hkind
    · exact absurd ‹_› hkind
    · exact local_throw _

theorem local_assignVar (henv : env.Within F) (hwrites : env.MayWrite F) (name : String)
    {value : Value} (hvalue : value.Within F.reads) :
    Exec.Local F (assignVar env name value) fun _ => True := by
  refine local_get_bind (fun s s' hs => by rw [hs.2.1]) fun s _ _ => ?_
  split
  · rename_i binding _ hbound
    exact local_ofEval fun _ _ => local_assignBound henv hwrites hbound hvalue
  · exact local_setLocal name hvalue

/-- The last field that a statement sets of what a variable holds. -/
def Stmt.fieldSet? : Stmt → Option String
  | .assign _ _ (name :: path) _ => (name :: path).getLast?
  | _ => none

/-- Whether the fields that some statements set may be written everywhere. -/
def SetsWithin (F : Scope) (ss : List Stmt) : Prop :=
  ∀ s ∈ ss, ∀ name ∈ s.fieldSet?, ∀ p ∈ F.reads, F.mayWrite p name

/-- Statements that set no field of a value set none that may not be written. -/
theorem setsWithin_of_fieldOwner? {ss : List Stmt} (h : ∀ s ∈ ss, s.fieldOwner? = none) :
    SetsWithin F ss := by
  intro s hs name hname
  have howner := h s hs
  cases s with
  | assign line var path value =>
      cases path with
      | nil => cases hname
      | cons first rest => simp [Stmt.fieldOwner?] at howner
  | _ => cases hname

/-- Assigning a field is local where the field may be written everywhere. -/
theorem local_assignField (henv : env.Within F) {locals : Locals}
    (hlocals : ∀ entry ∈ locals, entry.2.Within F.reads) (name : String) {path : List String}
    (hpath : ∀ field ∈ path.getLast?, ∀ p ∈ F.reads, F.mayWrite p field) (value : Expr) :
    Eval.Local F (assignField env locals name path value) fun _ => True := by
  refine (local_lookupVar henv hlocals name).bind fun base hbase => ?_
  refine (local_answer _).bind fun _ _ => ?_
  exact (Expr.local_eval henv hlocals value).bind fun v hv => local_writePath hbase hpath hv

mutual

/-- A statement is local where the fields that it sets may be written. -/
theorem Stmt.local_run (henv : env.Within F) (hwrites : env.MayWrite F) : ∀ s : Stmt, SetsWithin F s.walk →
    Exec.Local F (s.run env) fun _ => True
  | .assign line var [] value, _ => by
      rw [Stmt.run]
      exact local_atLine line ((local_evaluate henv value).bind fun v hv =>
        local_assignVar henv hwrites _ hv)
  | .assign line var (name :: path) value, h => by
      have hself : ∀ field ∈ (name :: path).getLast?, ∀ p ∈ F.reads, F.mayWrite p field :=
        h (.assign line var (name :: path) value) (by simp [Stmt.walk])
      rw [Stmt.run]
      exact local_atLine line (local_ofEval fun _ hlocals =>
        local_assignField henv hlocals _ hself value)
  | .branch line condition body rest, h => by
      rw [Stmt.walk] at h
      obtain ⟨hbody, hrest⟩ := List.forall_mem_append.mp (List.forall_mem_cons.mp h).2
      rw [Stmt.run]
      refine local_atLine line ((local_conditionHolds henv condition).bind fun holds _ => ?_)
      split
      · exact Stmt.local_runAll henv hwrites body hbody
      · exact Alternatives.local_run henv hwrites rest hrest
  | .foreach line var collection body, h => by
      rw [Stmt.walk] at h
      have hbody := (List.forall_mem_cons.mp h).2
      rw [Stmt.run]
      refine local_atLine line ?_
      dsimp only
      split
      · exact local_throw _
      · refine (local_ofEval fun _ hlocals => local_loopElements henv hlocals collection).bind
          fun run hrun => ?_
        exact local_runOver hrun.1 _ (fun v hv => (local_setLocal _ hv).bind fun _ _ =>
          Stmt.local_runAll henv hwrites body hbody) hrun.2
  | .call line callee args, _ => by
      rw [Stmt.run]
      exact local_atLine line ((local_evaluate henv (.call callee args)).bind fun _ _ =>
        local_pure trivial)

theorem Alternatives.local_run (henv : env.Within F) (hwrites : env.MayWrite F) : ∀ rest : Alternatives,
    SetsWithin F rest.walk → Exec.Local F (rest.run env) fun _ => True
  | .done, _ => by
      rw [Alternatives.run]
      exact local_pure trivial
  | .otherwise body, h => by
      rw [Alternatives.walk] at h
      rw [Alternatives.run]
      exact Stmt.local_runAll henv hwrites body h
  | .elif condition body rest, h => by
      rw [Alternatives.walk] at h
      obtain ⟨hbody, hrest⟩ := List.forall_mem_append.mp h
      rw [Alternatives.run]
      refine (local_conditionHolds henv condition).bind fun holds _ => ?_
      split
      · exact Stmt.local_runAll henv hwrites body hbody
      · exact Alternatives.local_run henv hwrites rest hrest

theorem Stmt.local_runAll (henv : env.Within F) (hwrites : env.MayWrite F) : ∀ ss : List Stmt,
    SetsWithin F (Stmt.walkAll ss) →
    Exec.Local F (Stmt.runAll env ss) fun _ => True
  | [], _ => by
      rw [Stmt.runAll]
      exact local_pure trivial
  | s :: ss, h => by
      rw [Stmt.walkAll] at h
      obtain ⟨hs, hss⟩ := List.forall_mem_append.mp h
      rw [Stmt.runAll]
      exact (Stmt.local_run henv hwrites s hs).bind fun _ _ => Stmt.local_runAll henv hwrites ss hss

end

/-- A script is local where the fields that it sets may be written, and its variables are within what
may be read. -/
theorem Program.local_runWhere (henv : env.Within F) (hwrites : env.MayWrite F) {p : Program}
    (h : SetsWithin F p.allStatements) :
    Eval.Local F (p.run env) fun locals => ∀ entry ∈ locals, entry.2.Within F.reads where
  ok σ σ' hσ locals τ hok := by
    have hstart : (runFrame F).sees ⟨σ, []⟩ ⟨σ', []⟩ := ⟨hσ, rfl, by simp⟩
    simp only [Program.run] at hok ⊢
    cases hresult : Stmt.runAll env p.statements ⟨σ, []⟩ with
    | error fault t => simp [hresult] at hok
    | ok a t =>
        simp only [hresult] at hok
        cases hok
        obtain ⟨-, ht, t', hresult', ⟨hsees, hlocals, hwithin⟩, ht'⟩ :=
          (Stmt.local_runAll henv hwrites p.statements h).ok hstart hresult
        exact ⟨hwithin, ht, t'.store, by rw [hresult', ← hlocals], hsees, ht'⟩
  error σ σ' hσ fault τ herror := by
    have hstart : (runFrame F).sees ⟨σ, []⟩ ⟨σ', []⟩ := ⟨hσ, rfl, by simp⟩
    simp only [Program.run] at herror ⊢
    cases hresult : Stmt.runAll env p.statements ⟨σ, []⟩ with
    | ok a t => simp [hresult] at herror
    | error fault' t =>
        simp only [hresult] at herror
        cases herror
        obtain ⟨ht, t', hresult', hsees, ht'⟩ :=
          (Stmt.local_runAll henv hwrites p.statements h).error hstart hresult
        exact ⟨ht, t'.store, by rw [hresult'], hsees.1, ht'⟩

/-- A script that sets no field of a value is local. -/
theorem Program.local_run (henv : env.Within F) (hwrites : env.MayWrite F) {p : Program}
    (h : ∀ s ∈ p.allStatements, s.fieldOwner? = none) :
    Eval.Local F (p.run env) fun locals => ∀ entry ∈ locals, entry.2.Within F.reads :=
  Program.local_runWhere henv hwrites (setsWithin_of_fieldOwner? h)

end

end Rubric.Script
