import Rubric.Proofs.Sequencing
import Rubric.Script.Interpreter

/-!
# The attributes that scripts reach

A script spells the names of attributes in three places: after a full stop, in the path of an
assignment, and in the texts that it gives to functions as selectors.  To say which attributes a run
reaches, runs are described here over any way to read and write what a script spells; over the
standard way they are the runs of scripts.  An attribute that a run does not reach may be read and
written in any way at all, and the run stays the same.

* `Program.runVia` : the run of a script over an accessor;
* `private_attributes_guarded` : members and assignments reach no private attribute and are refused,
  and neither does a run in which no text with a private name is used as a selector;
* `private_attributes_selected` : such a text does reach private attributes.
-/

namespace Rubric.Script

open Rubric.Text

/-! ## Accessors -/

/-- Whether the name of an attribute marks it as private. -/
def isPrivate (name : String) : Bool := name.startsWith "_"

/-- A way to read and to write the attributes that a script spells: single ones, and the paths that it
gives to functions as selectors. -/
structure Accessor where
  read : Value → String → Eval Value
  write : Value → String → Value → Eval Unit
  select : Value → List String → Eval Value

namespace Accessor

/-- The way of scripts. -/
def standard : Accessor where
  read v name := do Eval.ofExcept (v.readAttribute (← get) name)
  write := Value.setAttribute
  select v path := do Eval.ofExcept (v.readPath (← get) path)

/-- Whether public attributes are read and written in the way of scripts. -/
structure AgreesOnPublic (via : Accessor) : Prop where
  read_eq : ∀ v name, isPrivate name = false → via.read v name = standard.read v name
  write_eq : ∀ v name value, isPrivate name = false →
    via.write v name value = standard.write v name value
  select_eq : ∀ v path, (∀ name ∈ path, isPrivate name = false) →
    via.select v path = standard.select v path

/-- The fault of a run that is stopped at a selector. -/
def stop : Fault := .stopped "private selector"

/-- The way of scripts, except that a run stops where a selector names a private attribute. -/
def watching : Accessor :=
  { standard with
    select := fun v path => if path.any isPrivate then throw stop else standard.select v path }

variable (via : Accessor)

/-- Writes the attribute at the end of a path. -/
def writePath (v : Value) (path : List String) (value : Value) : Eval Unit := do
  let parent ← path.dropLast.foldlM via.read v
  match path.getLast? with
  | none => throw (.access (.outOfRange "list"))
  | some name =>
    if parent.isNull && path.length > 1 then
      throw (.access (.setThroughNone (join "." path) (join "." path.dropLast)))
    else via.write parent name value

/-! ## Built-in functions -/

/-- The value that a selector reads from a record. -/
def selectFrom (selector record : Value) : Eval Value :=
  match selector with
  | .str name => via.select record (dotted name)
  | selector => Script.selectFrom selector record

/-- The values that a selector reads, without the nulls where they are not wanted. -/
def selectAll (collection selector : Value) : Eval (List Value) := do
  if collection.isNull then return []
  else (← Eval.ofExcept (collection.items (← get))).mapM (via.selectFrom selector)

/-- The values that a selector reads, without the nulls. -/
def selectPresent (collection selector : Value) : Eval (List Value) := do
  return (← via.selectAll collection selector).filter fun v => !v.isNull

/-- Whether the comparison of a record's value holds. -/
def comparesTo (selector operator value record : Value) : Eval Bool := do
  let left ← via.selectFrom selector record
  let σ ← get
  Eval.ofExcept (left.compareText σ (operator.text σ) value)

/-- The least or greatest of the values, null where there are none. -/
def extremeOf (op : OrderOp) (collection selector : Value) : Eval Value := do
  match ← via.selectPresent collection selector with
  | [] => return .null
  | first :: rest => do Eval.ofExcept (Value.extreme (← get) op first rest)

/-- The value of a function; those without selectors are as ever. -/
def builtinValue (env : Environment) (b : Builtin) (args : List Value) : Eval Value :=
  let arg (i : Nat) : Value := args.getD i .null
  match b with
  | .count => do
    if (arg 1).isNull then return .int (← itemsOrNone (arg 0)).length
    else return .int (← via.selectPresent (arg 0) (arg 1)).length
  | .sum => do Value.sum (← via.selectPresent (arg 0) (arg 1))
  | .avg => do
    match ← via.selectPresent (arg 0) (arg 1) with
    | [] => return .null
    | values => do (← Value.sum values).div (.int values.length)
  | .min => via.extremeOf .lt (arg 0) (arg 1)
  | .max => via.extremeOf .gt (arg 0) (arg 1)
  | .values => do Eval.newList (← via.selectAll (arg 0) (arg 1))
  | .filter => do
    let items ← itemsOrNone (arg 0)
    Eval.newList (← keepWhere (via.comparesTo (arg 1) (arg 2) (arg 3)) items)
  | b => b.value env args

/-- Calls a function by name. -/
def callNamed (env : Environment) (locals : Locals) (function : String) (args : List Value) :
    Eval Value :=
  match isVariableName function, env.binder.get? function, Builtin.ofName? function with
  | false, none, some b => do
    Eval.ofExcept (b.signature.check args.length)
    via.builtinValue env b args
  | _, _, _ => Script.callNamed env locals function args

end Accessor

/-! ## Runs over an accessor -/

section

variable (via : Accessor) (env : Environment)

mutual

/-- The value of an expression. -/
def Expr.evalVia (locals : Locals) : Expr → Eval Value
  | .list items => do Eval.newList (← Expr.evalAllVia locals items)
  | .member target field => do
    Eval.ofExcept (checkPublic field)
    let base ← target.evalVia locals
    via.read base field
  | .index target key => do
    let container ← target.evalVia locals
    if container.isNull then return .null
    else
      let place ← key.evalVia locals
      Eval.ofExcept (container.subscript (← get) place)
  | .call function args => do
    let values ← Expr.evalAllVia locals args
    via.callNamed env locals function values
  | .binary op left right => do
    let first ← left.evalVia locals
    if op.decided (← get) first then return .bool (op == .or)
    else
      let second ← right.evalVia locals
      op.applyTo first second
  | .unary op operand => do
    let value ← operand.evalVia locals
    op.applyTo value
  | e => e.eval env locals

/-- The values of several expressions, from left to right. -/
def Expr.evalAllVia (locals : Locals) : List Expr → Eval (List Value)
  | [] => return []
  | e :: es => do
    let v ← e.evalVia locals
    return v :: (← Expr.evalAllVia locals es)

end

/-- Assigns a field of what a variable holds. -/
def assignFieldVia (locals : Locals) (name : String) (path : List String) (value : Expr) :
    Eval Unit := do
  let base ← lookupVar env locals name
  Eval.ofExcept (path.forM checkPublic)
  let v ← value.evalVia via env locals
  via.writePath base path v

/-- Whether a condition holds. -/
def conditionHoldsVia (condition : Expr) : Exec Bool := do
  let v ← Exec.ofEval fun locals => condition.evalVia via env locals
  return v.truthy (← get).store

/-- The elements that a loop runs over, and the number of entries that they belong to. -/
def loopElementsVia (collection : Expr) (locals : Locals) :
    Eval (Value × Option Nat × List Value) := do
  let v ← collection.evalVia via env locals
  let σ ← get
  if v.truthy σ then return (v, entryCount? σ v, ← Eval.ofExcept (v.items σ))
  else return (.null, none, [])

mutual

/-- Runs a statement. -/
def Stmt.runVia : Stmt → Exec Unit
  | .assign line var path value => Exec.atLine line do
    match path with
    | [] => assignVar env ("$" ++ var) (← Exec.ofEval fun locals => value.evalVia via env locals)
    | _ :: _ => Exec.ofEval fun locals => assignFieldVia via env locals ("$" ++ var) path value
  | .branch line condition body rest => Exec.atLine line do
    if ← conditionHoldsVia via env condition then Stmt.runAllVia body else rest.runVia
  | .foreach line var collection body => Exec.atLine line do
    let name := "$" ++ var
    if env.binder.contains name then throw (.name (.shadowing name))
    else
      let (v, entries, elements) ← Exec.ofEval (loopElementsVia via env collection)
      runOver v entries (fun element => do
        Exec.setLocal name element
        Stmt.runAllVia body) elements
  | .call line function args => Exec.atLine line do
    let _ ← Exec.ofEval fun locals => (Expr.call function args).evalVia via env locals
    return ()

/-- Runs the first of the alternatives whose condition holds. -/
def Alternatives.runVia : Alternatives → Exec Unit
  | .done => return ()
  | .otherwise body => Stmt.runAllVia body
  | .elif condition body rest => do
    if ← conditionHoldsVia via env condition then Stmt.runAllVia body else rest.runVia

/-- Runs statements one after the other. -/
def Stmt.runAllVia : List Stmt → Exec Unit
  | [] => return ()
  | s :: ss => do
    s.runVia
    Stmt.runAllVia ss

end

/-- Runs a script and returns its local variables. -/
def Program.runVia (p : Program) : Eval Locals := fun σ =>
  match Stmt.runAllVia via env p.statements ⟨σ, []⟩ with
  | .ok _ s => .ok s.locals s.store
  | .error fault s => .error fault s.store

end

/-! ## The standard way -/

namespace Accessor

theorem standard_foldlM_read (path : List String) (v : Value) :
    path.foldlM standard.read v = get >>= fun σ => Eval.ofExcept (v.readPath σ path) := by
  induction path generalizing v with
  | nil => rfl
  | cons name path ih =>
      rw [List.foldlM_cons]
      funext σ
      simp only [ih, Value.readPath, List.foldlM_cons]
      show (Eval.ofExcept (v.readAttribute σ name) >>= _) σ = Eval.ofExcept _ σ
      cases v.readAttribute σ name <;> rfl

theorem standard_writePath (v : Value) (path : List String) (value : Value) :
    standard.writePath v path value = v.writePath path value := by
  unfold writePath
  rw [standard_foldlM_read]
  rfl

theorem standard_selectFrom (selector record : Value) :
    standard.selectFrom selector record = Script.selectFrom selector record := by
  cases selector <;> rfl

theorem standard_selectAll (collection selector : Value) :
    standard.selectAll collection selector = Script.selectAll collection selector := by
  unfold selectAll Script.selectAll
  simp only [funext (standard_selectFrom selector)]

theorem standard_selectPresent (collection selector : Value) :
    standard.selectPresent collection selector = Script.selectPresent collection selector := by
  rw [selectPresent, Script.selectPresent, standard_selectAll]

theorem standard_comparesTo (selector operator value : Value) :
    standard.comparesTo selector operator value = Script.comparesTo selector operator value := by
  funext record
  rw [comparesTo, Script.comparesTo, standard_selectFrom]

theorem standard_extremeOf (op : OrderOp) (collection selector : Value) :
    standard.extremeOf op collection selector = Script.extremeOf op collection selector :=
  congrArg (· >>= _) (standard_selectPresent collection selector)

theorem standard_builtinValue (env : Environment) (b : Builtin) (args : List Value) :
    standard.builtinValue env b args = b.value env args := by
  cases b with
  | avg => exact congrArg (· >>= _) (standard_selectPresent _ _)
  | _ =>
      simp only [builtinValue, Builtin.value, countOf, standard_selectPresent, standard_selectAll,
        standard_comparesTo, standard_extremeOf]

theorem standard_callNamed (env : Environment) (locals : Locals) (function : String)
    (args : List Value) :
    standard.callNamed env locals function args = Script.callNamed env locals function args := by
  unfold callNamed
  split
  · rename_i hplain hunbound hbuiltin
    rw [Script.callNamed]
    simp only [hplain, hunbound, hbuiltin, Builtin.call, standard_builtinValue]
    rfl
  · rfl

end Accessor

section

variable (env : Environment)

mutual

theorem Expr.evalVia_standard (locals : Locals) :
    ∀ e : Expr, e.evalVia .standard env locals = e.eval env locals
  | .str _ | .num _ | .bool _ | .null | .var _ | .name _ => by
      rw [Expr.evalVia]
      all_goals simp
  | .list items => by
      rw [Expr.evalVia, Expr.eval, Expr.evalAllVia_standard locals items]
  | .member target field => by
      rw [Expr.evalVia, Expr.eval, Expr.evalVia_standard locals target]
      rfl
  | .index target key => by
      rw [Expr.evalVia, Expr.eval, Expr.evalVia_standard locals target,
        Expr.evalVia_standard locals key]
  | .call function args => by
      simp only [Expr.evalVia, Expr.eval, Expr.evalAllVia_standard locals args,
        Accessor.standard_callNamed]
  | .binary op left right => by
      rw [Expr.evalVia, Expr.eval, Expr.evalVia_standard locals left,
        Expr.evalVia_standard locals right]
  | .unary op operand => by
      rw [Expr.evalVia, Expr.eval, Expr.evalVia_standard locals operand]

theorem Expr.evalAllVia_standard (locals : Locals) :
    ∀ es : List Expr, Expr.evalAllVia .standard env locals es = Expr.evalAll env locals es
  | [] => by rw [Expr.evalAllVia, Expr.evalAll]
  | e :: es => by
      rw [Expr.evalAllVia, Expr.evalAll, Expr.evalVia_standard locals e,
        Expr.evalAllVia_standard locals es]

end

theorem assignFieldVia_standard (locals : Locals) (name : String) (path : List String)
    (value : Expr) :
    assignFieldVia .standard env locals name path value
      = assignField env locals name path value := by
  simp only [assignFieldVia, assignField, Expr.evalVia_standard, Accessor.standard_writePath]

theorem conditionHoldsVia_standard (condition : Expr) :
    conditionHoldsVia .standard env condition = conditionHolds env condition := by
  simp only [conditionHoldsVia, conditionHolds, evaluate, Expr.evalVia_standard]

theorem loopElementsVia_standard (collection : Expr) :
    loopElementsVia .standard env collection = loopElements env collection := by
  funext locals
  simp only [loopElementsVia, loopElements, Expr.evalVia_standard]

mutual

theorem Stmt.runVia_standard : ∀ s : Stmt, s.runVia .standard env = s.run env
  | .assign line var [] value => by
      rw [Stmt.runVia, Stmt.run]
      simp only [Expr.evalVia_standard, evaluate]
  | .assign line var (_ :: _) value => by
      rw [Stmt.runVia, Stmt.run]
      simp only [assignFieldVia_standard]
  | .branch line condition body rest => by
      rw [Stmt.runVia, Stmt.run, conditionHoldsVia_standard, Stmt.runAllVia_standard body,
        Alternatives.runVia_standard rest]
  | .foreach line var collection body => by
      rw [Stmt.runVia, Stmt.run, loopElementsVia_standard, Stmt.runAllVia_standard body]
  | .call line function args => by
      rw [Stmt.runVia, Stmt.run]
      simp only [Expr.evalVia_standard, evaluate]

theorem Alternatives.runVia_standard :
    ∀ rest : Alternatives, rest.runVia .standard env = rest.run env
  | .done => by rw [Alternatives.runVia, Alternatives.run]
  | .otherwise body => by
      rw [Alternatives.runVia, Alternatives.run, Stmt.runAllVia_standard body]
  | .elif condition body rest => by
      rw [Alternatives.runVia, Alternatives.run, conditionHoldsVia_standard,
        Stmt.runAllVia_standard body, Alternatives.runVia_standard rest]

theorem Stmt.runAllVia_standard :
    ∀ ss : List Stmt, Stmt.runAllVia .standard env ss = Stmt.runAll env ss
  | [] => by rw [Stmt.runAllVia, Stmt.runAll]
  | s :: ss => by
      rw [Stmt.runAllVia, Stmt.runAll, Stmt.runVia_standard s, Stmt.runAllVia_standard ss]

end

/-- Over the standard way, runs are the runs of scripts. -/
theorem Program.runVia_standard (p : Program) : p.runVia .standard env = p.run env := by
  funext σ
  have hsame := congrFun (Stmt.runAllVia_standard env p.statements) ⟨σ, []⟩
  cases hresult : Stmt.runAll env p.statements ⟨σ, []⟩ <;>
    simp only [Program.runVia, Program.run, hsame, hresult]

end

/-! ## Runs that are not stopped -/

theorem alikeBut_keepWhere {α : Type} {P : Fault → Prop} {test test' : α → Eval Bool}
    (h : ∀ a, AlikeBut P (test a) (test' a)) (as : List α) :
    AlikeBut P (keepWhere test as) (keepWhere test' as) := by
  induction as with
  | nil => exact .refl _
  | cons a as ih => exact (h a).bind fun _ => ih.bind fun _ => .refl _

/-- Whether a fault is the stop of a run at a selector, located or not. -/
def IsStop (fault : Fault) : Prop :=
  fault = Accessor.stop ∨ ∃ line, fault = .atLine line Accessor.stop

/-- Actions on values that are alike are alike as parts of a run. -/
theorem alikeBut_ofEval {α : Type} {P : Fault → Prop} {watched other : Locals → Eval α}
    (h : ∀ locals, AlikeBut P (watched locals) (other locals)) :
    AlikeBut P (Exec.ofEval watched) (Exec.ofEval other) := by
  intro s
  simp only [Exec.ofEval]
  rcases h s.locals s.store with ⟨fault, σ, herror, hfault⟩ | hsame
  · exact .inl ⟨fault, { s with store := σ }, by rw [herror], hfault⟩
  · exact .inr (by rw [hsame])

/-- A stop is still one where it is located. -/
theorem alikeBut_atLine {α : Type} {watched other : Exec α} (line : Nat)
    (h : AlikeBut IsStop watched other) :
    AlikeBut IsStop (Exec.atLine line watched) (Exec.atLine line other) := by
  intro s
  simp only [Exec.atLine]
  rcases h s with ⟨fault, s', herror, hfault⟩ | hsame
  · refine .inl ⟨fault.located line, s', by rw [herror], .inr ?_⟩
    rcases hfault with rfl | ⟨inner, rfl⟩
    · exact ⟨line, rfl⟩
    · exact ⟨inner, rfl⟩
  · exact .inr (by rw [hsame])

theorem alikeBut_runOver {P : Fault → Prop} {body body' : Value → Exec Unit}
    (h : ∀ element, AlikeBut P (body element) (body' element)) (collection : Value)
    (entries : Option Nat) (elements : List Value) :
    AlikeBut P (runOver collection entries body elements)
      (runOver collection entries body' elements) := by
  induction elements with
  | nil => exact .refl _
  | cons element elements ih =>
      exact (AlikeBut.refl _).bind fun _ => (h element).bind fun _ => ih

namespace Accessor

variable {via : Accessor} (hvia : via.AgreesOnPublic)

include hvia

theorem alike_select (v : Value) (path : List String) :
    AlikeBut IsStop (watching.select v path) (via.select v path) := by
  by_cases h : path.any isPrivate
  · simp only [watching, h, if_true]
    exact alikeBut_throw (.inl rfl) _
  · have hpublic : ∀ name ∈ path, isPrivate name = false := by simpa using h
    simp only [watching, h, hvia.select_eq v path hpublic]
    exact .refl _

theorem alike_selectFrom (selector record : Value) :
    AlikeBut IsStop (watching.selectFrom selector record) (via.selectFrom selector record) := by
  cases selector with
  | str name => exact alike_select hvia record (dotted name)
  | _ => exact .refl _

theorem alike_selectAll (collection selector : Value) :
    AlikeBut IsStop (watching.selectAll collection selector)
      (via.selectAll collection selector) := by
  unfold selectAll
  split
  · exact .refl _
  · exact alikeBut_get_bind fun σ => (AlikeBut.refl _).bind fun items =>
      alikeBut_mapM (alike_selectFrom hvia selector) items

theorem alike_selectPresent (collection selector : Value) :
    AlikeBut IsStop (watching.selectPresent collection selector)
      (via.selectPresent collection selector) :=
  (alike_selectAll hvia collection selector).bind fun _ => .refl _

theorem alike_comparesTo (selector operator value record : Value) :
    AlikeBut IsStop (watching.comparesTo selector operator value record)
      (via.comparesTo selector operator value record) :=
  (alike_selectFrom hvia selector record).bind fun _ => .refl _

theorem alike_extremeOf (op : OrderOp) (collection selector : Value) :
    AlikeBut IsStop (watching.extremeOf op collection selector)
      (via.extremeOf op collection selector) :=
  (alike_selectPresent hvia collection selector).bind fun _ => .refl _

theorem alike_builtinValue (env : Environment) (b : Builtin) (args : List Value) :
    AlikeBut IsStop (watching.builtinValue env b args) (via.builtinValue env b args) := by
  cases b with
  | count =>
      simp only [builtinValue]
      split
      · exact .refl _
      · exact (alike_selectPresent hvia _ _).bind fun _ => .refl _
  | sum => exact (alike_selectPresent hvia _ _).bind fun _ => .refl _
  | avg => exact (alike_selectPresent hvia _ _).bind fun _ => .refl _
  | min => exact alike_extremeOf hvia _ _ _
  | max => exact alike_extremeOf hvia _ _ _
  | values => exact (alike_selectAll hvia _ _).bind fun _ => .refl _
  | filter =>
      exact (AlikeBut.refl _).bind fun items =>
        (alikeBut_keepWhere (alike_comparesTo hvia _ _ _) items).bind fun _ => .refl _
  | _ => exact .refl _

theorem alike_callNamed (env : Environment) (locals : Locals) (function : String)
    (args : List Value) :
    AlikeBut IsStop (watching.callNamed env locals function args)
      (via.callNamed env locals function args) := by
  unfold callNamed
  split
  · exact (AlikeBut.refl _).bind fun _ => alike_builtinValue hvia env _ args
  · exact .refl _

theorem alike_foldlM_read {path : List String} (hpublic : ∀ name ∈ path, isPrivate name = false)
    (v : Value) :
    AlikeBut IsStop (path.foldlM watching.read v) (path.foldlM via.read v) := by
  induction path generalizing v with
  | nil => exact .refl _
  | cons name path ih =>
      obtain ⟨hname, hpath⟩ := List.forall_mem_cons.mp hpublic
      rw [List.foldlM_cons, List.foldlM_cons, hvia.read_eq v name hname]
      exact (AlikeBut.refl _).bind fun w => ih hpath w

theorem alike_writePath {path : List String} (hpublic : ∀ name ∈ path, isPrivate name = false)
    (v value : Value) :
    AlikeBut IsStop (watching.writePath v path value) (via.writePath v path value) := by
  refine (alike_foldlM_read hvia (fun name hname =>
    hpublic name (List.dropLast_subset path hname)) v).bind fun parent => ?_
  cases hlast : path.getLast? with
  | none => exact .refl _
  | some name =>
      have hname := hpublic name (List.mem_of_getLast? hlast)
      dsimp only
      split
      · exact .refl _
      · rw [hvia.write_eq parent name value hname]
        exact .refl _

end Accessor

section

variable {via : Accessor} (env : Environment)

theorem checkPublic_eq (name : String) :
    checkPublic name
      = if isPrivate name then .error (.access (.privateAttribute name)) else .ok () := rfl

/-- A path is refused for the first of its names that is private. -/
theorem forM_checkPublic (path : List String) :
    path.forM checkPublic = match path.find? isPrivate with
      | some name => .error (.access (.privateAttribute name))
      | none => .ok () := by
  induction path with
  | nil => rfl
  | cons name path ih =>
      show (checkPublic name >>= fun _ => path.forM checkPublic) = _
      rw [checkPublic_eq, List.find?_cons, ih]
      cases isPrivate name <;> rfl

mutual

theorem Expr.alike_evalVia (hvia : via.AgreesOnPublic) (locals : Locals) : ∀ e : Expr,
    AlikeBut IsStop (e.evalVia .watching env locals) (e.evalVia via env locals)
  | .str _ | .num _ | .bool _ | .null | .var _ | .name _ => by
      rw [Expr.evalVia, Expr.evalVia]
      · exact .refl _
      all_goals simp
  | .list items => by
      rw [Expr.evalVia, Expr.evalVia]
      exact (Expr.alike_evalAllVia hvia locals items).bind fun _ => .refl _
  | .member target field => by
      rw [Expr.evalVia, Expr.evalVia, checkPublic_eq]
      -- A private name fails before anything is read; only a public one is.
      cases hfield : isPrivate field with
      | true => exact .refl _
      | false =>
          refine (AlikeBut.refl _).bind fun _ => (Expr.alike_evalVia hvia locals target).bind
            fun base => ?_
          rw [hvia.read_eq base field hfield]
          exact .refl _
  | .index target key => by
      rw [Expr.evalVia, Expr.evalVia]
      refine (Expr.alike_evalVia hvia locals target).bind fun container => ?_
      split
      · exact .refl _
      · exact (Expr.alike_evalVia hvia locals key).bind fun _ => .refl _
  | .call function args => by
      rw [Expr.evalVia, Expr.evalVia]
      exact (Expr.alike_evalAllVia hvia locals args).bind fun values =>
        Accessor.alike_callNamed hvia env locals function values
  | .binary op left right => by
      rw [Expr.evalVia, Expr.evalVia]
      refine (Expr.alike_evalVia hvia locals left).bind fun first => alikeBut_get_bind fun σ => ?_
      split
      · exact .refl _
      · exact (Expr.alike_evalVia hvia locals right).bind fun _ => .refl _
  | .unary op operand => by
      rw [Expr.evalVia, Expr.evalVia]
      exact (Expr.alike_evalVia hvia locals operand).bind fun _ => .refl _

theorem Expr.alike_evalAllVia (hvia : via.AgreesOnPublic) (locals : Locals) :
    ∀ es : List Expr,
    AlikeBut IsStop (Expr.evalAllVia .watching env locals es) (Expr.evalAllVia via env locals es)
  | [] => by
      rw [Expr.evalAllVia, Expr.evalAllVia]
      exact .refl _
  | e :: es => by
      rw [Expr.evalAllVia, Expr.evalAllVia]
      exact (Expr.alike_evalVia hvia locals e).bind fun _ =>
        (Expr.alike_evalAllVia hvia locals es).bind fun _ => .refl _

end

theorem alike_assignFieldVia (hvia : via.AgreesOnPublic) (locals : Locals) (name : String) (path : List String)
    (value : Expr) :
    AlikeBut IsStop (assignFieldVia .watching env locals name path value)
      (assignFieldVia via env locals name path value) := by
  unfold assignFieldVia
  refine (AlikeBut.refl _).bind fun base => ?_
  rw [forM_checkPublic]
  cases hprivate : path.find? isPrivate with
  | some name => exact .refl _
  | none =>
      have hpublic : ∀ name ∈ path, isPrivate name = false := by
        simpa using List.find?_eq_none.mp hprivate
      exact (AlikeBut.refl _).bind fun _ => (Expr.alike_evalVia env hvia locals value).bind
        fun v => Accessor.alike_writePath hvia hpublic base v

theorem alike_conditionHoldsVia (hvia : via.AgreesOnPublic) (condition : Expr) :
    AlikeBut IsStop (conditionHoldsVia .watching env condition)
      (conditionHoldsVia via env condition) :=
  (alikeBut_ofEval fun locals => Expr.alike_evalVia env hvia locals condition).bind
    fun _ => .refl _

theorem alike_loopElementsVia (hvia : via.AgreesOnPublic) (collection : Expr) (locals : Locals) :
    AlikeBut IsStop (loopElementsVia .watching env collection locals)
      (loopElementsVia via env collection locals) :=
  (Expr.alike_evalVia env hvia locals collection).bind fun _ => .refl _

mutual

theorem Stmt.alike_runVia (hvia : via.AgreesOnPublic) :
    ∀ s : Stmt, AlikeBut IsStop (s.runVia .watching env) (s.runVia via env)
  | .assign line var [] value => by
      rw [Stmt.runVia, Stmt.runVia]
      exact alikeBut_atLine line ((alikeBut_ofEval fun locals =>
        Expr.alike_evalVia env hvia locals value).bind fun _ => .refl _)
  | .assign line var (name :: path) value => by
      rw [Stmt.runVia, Stmt.runVia]
      exact alikeBut_atLine line (alikeBut_ofEval fun locals =>
        alike_assignFieldVia env hvia locals _ (name :: path) value)
  | .branch line condition body rest => by
      rw [Stmt.runVia, Stmt.runVia]
      refine alikeBut_atLine line ((alike_conditionHoldsVia env hvia condition).bind
        fun holds => ?_)
      split
      · exact Stmt.alike_runAllVia hvia body
      · exact Alternatives.alike_runVia hvia rest
  | .foreach line var collection body => by
      rw [Stmt.runVia, Stmt.runVia]
      refine alikeBut_atLine line ?_
      dsimp only
      split
      · exact .refl _
      · exact (alikeBut_ofEval fun locals => alike_loopElementsVia env hvia collection locals).bind
          fun run => alikeBut_runOver (fun element => (AlikeBut.refl _).bind fun _ =>
            Stmt.alike_runAllVia hvia body) run.1 run.2.1 run.2.2
  | .call line function args => by
      rw [Stmt.runVia, Stmt.runVia]
      exact alikeBut_atLine line ((alikeBut_ofEval fun locals =>
        Expr.alike_evalVia env hvia locals (.call function args)).bind fun _ => .refl _)

theorem Alternatives.alike_runVia (hvia : via.AgreesOnPublic) :
    ∀ rest : Alternatives, AlikeBut IsStop (rest.runVia .watching env) (rest.runVia via env)
  | .done => by
      rw [Alternatives.runVia, Alternatives.runVia]
      exact .refl _
  | .otherwise body => by
      rw [Alternatives.runVia, Alternatives.runVia]
      exact Stmt.alike_runAllVia hvia body
  | .elif condition body rest => by
      rw [Alternatives.runVia, Alternatives.runVia]
      refine (alike_conditionHoldsVia env hvia condition).bind fun holds => ?_
      split
      · exact Stmt.alike_runAllVia hvia body
      · exact Alternatives.alike_runVia hvia rest

theorem Stmt.alike_runAllVia (hvia : via.AgreesOnPublic) : ∀ ss : List Stmt,
    AlikeBut IsStop (Stmt.runAllVia .watching env ss) (Stmt.runAllVia via env ss)
  | [] => by
      rw [Stmt.runAllVia, Stmt.runAllVia]
      exact .refl _
  | s :: ss => by
      rw [Stmt.runAllVia, Stmt.runAllVia]
      exact (Stmt.alike_runVia hvia s).bind fun _ => Stmt.alike_runAllVia hvia ss

end

/-- A run that is not stopped at a selector is the same over every accessor that agrees on public
attributes. -/
theorem Program.alike_runVia (hvia : via.AgreesOnPublic) (p : Program) :
    AlikeBut IsStop (p.runVia .watching env) (p.runVia via env) := by
  intro σ
  simp only [Program.runVia]
  rcases Stmt.alike_runAllVia env hvia p.statements ⟨σ, []⟩ with ⟨fault, s, herror, hfault⟩ | hsame
  · exact .inl ⟨fault, s.store, by rw [herror], hfault⟩
  · exact .inr (by rw [hsame])

end

/-! ## The guard of private attributes -/

section

variable (env : Environment)

/-- Whether a run uses a text with the name of a private attribute as a selector. -/
def Program.SelectsPrivate (p : Program) (σ : Store) : Prop :=
  ∃ fault τ, p.runVia .watching env σ = .error fault τ ∧ IsStop fault

/-- A run that selects no private attribute reaches none. -/
theorem Program.runVia_eq {via : Accessor} (hvia : via.AgreesOnPublic) {p : Program} {σ : Store}
    (h : ¬p.SelectsPrivate env σ) : p.runVia via env σ = p.run env σ := by
  have hstandard : Accessor.standard.AgreesOnPublic :=
    ⟨fun _ _ _ => rfl, fun _ _ _ _ => rfl, fun _ _ _ => rfl⟩
  rw [← Program.runVia_standard]
  rcases Program.alike_runVia env hvia p σ with hstop | hsame
  · exact absurd hstop h
  rcases Program.alike_runVia env hstandard p σ with hstop | hsame'
  · exact absurd hstop h
  rw [hsame, hsame']

/-- A private member is refused before anything is evaluated. -/
theorem Expr.eval_member_private {locals : Locals} {field : String} (h : isPrivate field)
    (target : Expr) (σ : Store) : (Expr.member target field).eval env locals σ
      = .error (.access (.privateAttribute field)) σ := by
  rw [Expr.eval, checkPublic_eq, if_pos h]
  rfl

/-- An assignment to a path with a private name is refused before its value is computed. -/
theorem assignField_private {locals : Locals} {path : List String} {hidden : String}
    (h : path.find? isPrivate = some hidden) (name : String) (value : Expr) :
    assignField env locals name path value = (do
      let _ ← lookupVar env locals name
      throw (.access (.privateAttribute hidden))) := by
  unfold assignField
  rw [forM_checkPublic, h]
  rfl

/-- The guard of private attributes.  Runs over the standard accessor are the runs of the script, and
unless a run uses a text with a private name as a selector, it is the same over every accessor that
agrees on public attributes: it neither reads nor writes a private one.  Members and assignments that
spell a private name are refused, and nothing is read or written through them. -/
theorem private_attributes_guarded (p : Program) :
    p.runVia .standard env = p.run env ∧
    (∀ via : Accessor, via.AgreesOnPublic → ∀ σ, ¬p.SelectsPrivate env σ →
      p.runVia via env σ = p.run env σ) ∧
    (∀ locals target field, isPrivate field → ∀ σ, (Expr.member target field).eval env locals σ
      = .error (.access (.privateAttribute field)) σ) ∧
    (∀ line var path value hidden, path.find? isPrivate = some hidden →
      (Stmt.assign line var path value).run env
        = Exec.atLine line (Exec.ofEval fun locals => do
            let _ ← lookupVar env locals ("$" ++ var)
            throw (.access (.privateAttribute hidden)))) := by
  refine ⟨Program.runVia_standard env p, fun via hvia σ h => Program.runVia_eq env hvia h,
    fun locals target field h σ => Expr.eval_member_private env h target σ, ?_⟩
  intro line var path value hidden h
  cases path with
  | nil => simp at h
  | cons name path =>
      rw [Stmt.run]
      simp only [assignField_private env h]

end

/-! ## Texts as selectors -/

/-- The accessor that refuses private attributes wherever a script spells them. -/
def Accessor.refusing : Accessor where
  read v name :=
    if isPrivate name then throw (.access (.privateAttribute name)) else standard.read v name
  write v name value :=
    if isPrivate name then throw (.access (.privateAttribute name))
    else standard.write v name value
  select v path :=
    match path.find? isPrivate with
    | some name => throw (.access (.privateAttribute name))
    | none => standard.select v path

theorem Accessor.agreesOnPublic_refusing : Accessor.refusing.AgreesOnPublic where
  read_eq v name h := by simp [refusing, h]
  write_eq v name value h := by simp [refusing, h]
  select_eq v path h := by
    have hnone : path.find? isPrivate = none := by simpa using h
    simp only [refusing, hnone]

/-- One record with a public and a private attribute. -/
def secretStore : Store :=
  { (default : Store) with
    objects := #[⟨⟨"Record", ["n", "_secret"], true, true, false⟩, [("n", .int 1), ("_secret", .int 2)]⟩] }

/-- The record as the item and as the only one in its context. -/
def secretEnv : Environment :=
  ⟨⟨[⟨"$ctxI", .object 0, .literal⟩, ⟨"$ctxC", .list ⟨0, none, 0⟩ [.object 0], .collection⟩]⟩,
    .null, .null⟩

/-- A script that writes a public attribute, reads it in two ways and then spells the private one. -/
def spelledSecret : Program :=
  ⟨[.assign 1 "ctxI" ["n"] (.num (.int 3)),
    .foreach 2 "r" (.var "ctxC") [.assign 3 "x" [] (.member (.var "r") "n")],
    .assign 5 "y" [] (.member (.var "ctxI") "_secret")],
    "SET $ctxI.n = 3\nFOREACH $r IN $ctxC\n  SET $x = $r.n\nENDFOREACH\n" ++
      "SET $y = $ctxI._secret\n"⟩

/-- A script that gives the name of the private attribute to a function. -/
def selectedSecret : Program :=
  ⟨[.assign 1 "x" [] (.call "VALUES" [.var "ctxC", .str "_secret"])],
    "SET $x = VALUES($ctxC, \"_secret\")\n"⟩

/-- The fault that a computation failed with, if it failed. -/
def raised? {σ α : Type} : EStateM.Result Fault σ α → Option Fault
  | .ok _ _ => none
  | .error fault _ => some fault

/-- Where a private name is spelled as a member, a guard at every place makes no difference. -/
theorem private_attributes_guarded_spelled :
    isPrivate "_secret" ∧ Accessor.refusing.AgreesOnPublic ∧
      ¬spelledSecret.SelectsPrivate secretEnv secretStore ∧
      spelledSecret.runVia .refusing secretEnv secretStore
        = spelledSecret.run secretEnv secretStore := by
  have hfault : raised? (spelledSecret.runVia .watching secretEnv secretStore)
      = some (.atLine 5 (.access (.privateAttribute "_secret"))) := by decide +kernel
  have hselects : ¬spelledSecret.SelectsPrivate secretEnv secretStore := by
    rintro ⟨fault, τ, hrun, hstop⟩
    rw [hrun] at hfault
    cases hfault
    rcases hstop with h | ⟨line, h⟩ <;> cases h
  obtain ⟨-, hsame, -, -⟩ := private_attributes_guarded secretEnv spelledSecret
  exact ⟨by decide +kernel, Accessor.agreesOnPublic_refusing, hselects,
    hsame .refusing Accessor.agreesOnPublic_refusing secretStore hselects⟩

/-- A text with a private name that is used as a selector is not refused: the run reads the
attribute. -/
theorem private_attributes_selected :
    ¬ ∀ (p : Program) (env : Environment) (via : Accessor), via.AgreesOnPublic →
      ∀ σ, p.runVia via env σ = p.run env σ := by
  intro hall
  have hrefused : raised? (selectedSecret.runVia .refusing secretEnv secretStore)
      = some (.atLine 1 (.access (.privateAttribute "_secret"))) := by decide +kernel
  have hread : raised? (selectedSecret.run secretEnv secretStore) = none := by decide +kernel
  rw [hall selectedSecret secretEnv .refusing Accessor.agreesOnPublic_refusing, hread] at hrefused
  cases hrefused

end Rubric.Script
