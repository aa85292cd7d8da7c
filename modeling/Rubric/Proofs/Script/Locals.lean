import Rubric.Evaluator
import Rubric.Proofs.Script.Points

/-!
# Local variables and bindings

A script gets local variables from assignments and from loops.  An assignment makes a local of a name
that is not bound, and a loop refuses a bound name; so no local ever has the name of a binding, and
what a bound name reads as is what it is bound to, although locals are looked up first.

* `Locals.Apart` : local variables that are apart from the bindings;
* `locals_stay_apart` : they are apart at every point of every run.
-/

namespace Rubric.Script

/-- Whether local variables are apart from what is bound: none has a bound name, all are assigned by
the script, and bound names read as what they are bound to. -/
structure Locals.Apart (env : Environment) (p : Program) (locals : Locals) : Prop where
  unbound : ∀ name ∈ locals.map Prod.fst, env.binder.contains name = false
  assigned : ∀ name ∈ locals.map Prod.fst, name ∈ p.assignedVariables
  reads : ∀ name binding, env.binder.get? name = some binding →
    lookupVar env locals name = bindingValue env binding

section

variable {env : Environment} {p : Program} {locals : Locals}

/-- Where no local has a bound name, no local is found under one. -/
theorem lookup_of_bound (hunbound : ∀ name ∈ locals.map Prod.fst, env.binder.contains name = false)
    {name : String} {binding : Binding} (hbound : env.binder.get? name = some binding) :
    locals.lookup name = none := by
  refine List.lookup_eq_none_iff.mpr fun entry hentry => ?_
  have hname : entry.1 ≠ name := by
    rintro rfl
    have hfree := hunbound _ (List.mem_map_of_mem hentry)
    simp [Binder.contains, hbound] at hfree
  simpa using hname.symm

/-- Where no local has a bound name, bound names read as what they are bound to. -/
theorem Locals.Apart.of_names
    (hunbound : ∀ name ∈ locals.map Prod.fst, env.binder.contains name = false)
    (hassigned : ∀ name ∈ locals.map Prod.fst, name ∈ p.assignedVariables) :
    locals.Apart env p where
  unbound := hunbound
  assigned := hassigned
  reads name binding hbound := by
    simp only [lookupVar, lookup_of_bound hunbound hbound, hbound]

/-- A name that is set is the only one that may be new. -/
theorem mem_names_setNamed {name other : String} {value : Value} {locals : Locals}
    (h : other ∈ (Value.setNamed name value locals).map Prod.fst) :
    other = name ∨ other ∈ locals.map Prod.fst := by
  induction locals with
  | nil => simpa [Value.setNamed] using h
  | cons entry locals ih =>
      obtain ⟨n, v⟩ := entry
      rw [Value.setNamed] at h
      split at h
      · rename_i heq
        exact .inr (by simpa [heq] using h)
      · rcases List.mem_cons.mp h with rfl | hother
        · exact .inr List.mem_cons_self
        · exact (ih hother).imp_right (List.mem_cons_of_mem _)

/-- A local with a name that is not bound stays apart. -/
theorem Locals.Apart.setNamed (h : locals.Apart env p) {name : String}
    (hunbound : env.binder.contains name = false) (hassigned : name ∈ p.assignedVariables)
    (value : Value) : Locals.Apart env p (Value.setNamed name value locals) := by
  refine .of_names (fun other hother => ?_) fun other hother => ?_
  · rcases mem_names_setNamed hother with rfl | hother
    · exact hunbound
    · exact h.unbound other hother
  · rcases mem_names_setNamed hother with rfl | hother
    · exact hassigned
    · exact h.assigned other hother

/-- What a statement of a script assigns is assigned by the script. -/
theorem mem_assignedVariables {s : Stmt} (hs : s ∈ p.allStatements) {name : String}
    (h : s.assigned? = some name) : name ∈ p.assignedVariables :=
  List.mem_filterMap.mpr ⟨s, hs, h⟩

/-- Setting a local with a name that is not bound keeps the locals apart. -/
theorem maintains_setLocal {name : String} (hunbound : env.binder.contains name = false)
    (hassigned : name ∈ p.assignedVariables) (value : Value) :
    Maintains (fun s : RunState => s.locals.Apart env p) (fun _ => True)
      (Exec.setLocal name value) :=
  fun _ hs => ⟨rfl, trivial, hs.setNamed hunbound hassigned value⟩

/-- An assignment keeps the locals apart: a bound name is not made a local. -/
theorem maintains_assignVar {name : String} (hassigned : name ∈ p.assignedVariables)
    (value : Value) :
    Maintains (fun s : RunState => s.locals.Apart env p) (fun _ => True)
      (assignVar env name value) := by
  refine sameUnder_get_bind fun s hs => ?_
  cases hbound : env.binder.get? name with
  | none =>
      have hunbound : env.binder.contains name = false := by simp [Binder.contains, hbound]
      cases s.locals.lookup name <;> exact maintains_setLocal hunbound hassigned value
  | some binding =>
      rw [lookup_of_bound hs.unbound hbound]
      exact sameUnder_ofEval (I := fun locals _ => locals.Apart env p) fun _ =>
        maintains_const _ _

/-- The steps of a run keep the locals apart. -/
theorem stepsKeep_apart (env : Environment) (p : Program) :
    StepsKeep env (· ∈ p.allStatements) (fun _ => True) (fun locals _ => locals.Apart env p)
      fun _ => True where
  str _ := trivial
  num _ := trivial
  bool _ := trivial
  null := trivial
  var _ _ _ := maintains_const _ _
  name _ _ _ := maintains_const _ _
  list _ _ _ := maintains_const _ _
  member _ _ _ _ := maintains_const _ _
  index _ _ _ _ _ := maintains_const _ _
  call _ _ _ _ _ := maintains_const _ _
  binary _ _ _ _ _ _ := maintains_const _ _
  unary _ _ _ _ := maintains_const _ _
  items _ _ _ _ _ _ _ _ _ := trivial
  assign _ _ _ hs _ v _ := maintains_assignVar (mem_assignedVariables hs rfl) v
  setField _ _ _ _ _ _ _ _ _ _ _ := maintains_const _ _
  loop _ _ _ _ hs hunbound v _ := maintains_setLocal hunbound (mem_assignedVariables hs rfl) v

end

/-- Running a script for an item leaves what is bound as it is, whether it ends or fails. -/
theorem binder_execute (p : Program) (classes subclasses : Value) (s : Session) :
    (stateLeft (Evaluator.execute (programJob p) classes subclasses s)).binder = s.binder := by
  have hrun : Evaluator.execute (programJob p) classes subclasses s
      = Action.ofEval (programJob p (.make s.store s.binder classes subclasses)) s := rfl
  rw [hrun, Action.ofEval]
  split <;> rfl

/-- Local variables and bindings never mix.  At every point that the run of a script passes, and where
it ends or fails, no local has a bound name, every local is among the variables that the script
assigns, and every bound name reads as what it is bound to; and the run leaves what is bound as it
is. -/
theorem locals_stay_apart (p : Program) (env : Environment) (σ : Store) :
    (∀ locals τ, p.Passes env σ locals τ → locals.Apart env p) ∧
    (p.lastState env σ).locals.Apart env p ∧
    ∀ (s : Session) (classes subclasses : Value),
      (stateLeft (Evaluator.execute (programJob p) classes subclasses s)).binder = s.binder := by
  have hstart : Locals.Apart env p [] := .of_names (by simp) (by simp)
  obtain ⟨hpoints, hlast⟩ :=
    (stepsKeep_apart env p).holds_throughout (fun _ ht => ht) (fun _ _ => trivial) σ hstart
  exact ⟨hpoints, hlast, fun s classes subclasses => binder_execute p classes subclasses s⟩

/-! ## A run that fails -/

/-- A script that reads what `$obs` is bound to, and then a variable that is not assigned. -/
def unfinishedScript : Program :=
  ⟨[.assign 1 "x" [] (.var "obs"), .assign 2 "z" [] (.var "y")], "SET $x = $obs\nSET $z = $y\n"⟩

/-- An environment in which `$obs` is bound to a number. -/
def numberEnv : Environment := ⟨⟨[⟨"$obs", .int 2, .literal⟩]⟩, .null, .null⟩

/-- The run of the script passes a point at which it has a local, and fails. -/
theorem unfinishedScript_passes :
    unfinishedScript.Passes numberEnv default [("$x", .int 2)] default := by
  classical
  let probe : Probe := fun _ locals σ =>
    if (locals, σ) = ([("$x", .int 2)], default) then .error (.name (.shadowing "")) σ else .ok () σ
  have hidle : ∀ σ, probe numberEnv [] σ = .ok () σ := fun σ => if_neg (by simp)
  have hstop : probe numberEnv [("$x", .int 2)] default = .error (.name (.shadowing "")) default :=
    if_pos rfl
  have hplain : unfinishedScript.run numberEnv default
      = .error (.located 2 (.name (.undefinedVariable "$y"))) default := by rfl
  have hvalue : (Expr.var "obs").evalProbed probe numberEnv [] default = .ok (.int 2) default := by
    show between probe numberEnv [] (lookupVar numberEnv [] "$obs") default = _
    have hlookup : lookupVar numberEnv [] "$obs" default = .ok (.int 2) default := rfl
    rw [between, bind_of_ok (hidle default), bind_of_ok hlookup, bind_of_ok (hidle default)]
    rfl
  have hread : evaluateProbed probe numberEnv (.var "obs") ⟨default, []⟩
      = .ok (.int 2) ⟨default, []⟩ := by
    simp only [evaluateProbed, Exec.ofEval, hvalue]
  have hassign : (evaluateProbed probe numberEnv (.var "obs") >>= assignVar numberEnv "$x")
      ⟨default, []⟩ = .ok () ⟨default, [("$x", .int 2)]⟩ := (bind_of_ok hread).trans rfl
  have hfirst : (Stmt.assign 1 "x" [] (.var "obs")).runProbed probe numberEnv ⟨default, []⟩
      = .ok () ⟨default, [("$x", .int 2)]⟩ := by
    have hrun : (Stmt.assign 1 "x" [] (.var "obs")).runProbed probe numberEnv = Exec.atLine 1
        (evaluateProbed probe numberEnv (.var "obs") >>= assignVar numberEnv "$x") := by
      rw [Stmt.runProbed]
      rfl
    rw [hrun, Exec.atLine, hassign]
  have hstart : pause probe numberEnv ⟨default, []⟩ = .ok () ⟨default, []⟩ := by
    simp only [pause, Exec.ofEval, hidle]
  have hlocal : pause probe numberEnv ⟨default, [("$x", .int 2)]⟩
      = .error (.name (.shadowing "")) ⟨default, [("$x", .int 2)]⟩ := by
    simp only [pause, Exec.ofEval, hstop]
  have hprobed : unfinishedScript.runProbed probe numberEnv default
      = .error (.name (.shadowing "")) default := by
    rw [Program.runProbed, unfinishedScript, Stmt.runAllProbed, bind_of_ok hstart,
      bind_of_ok hfirst, Stmt.runAllProbed, bind_of_error hlocal]
  refine ⟨probe, fun locals τ hne => if_neg hne, ?_⟩
  rw [hprobed, hplain]
  intro h
  cases h

/-- At that point the local is apart from what is bound. -/
theorem locals_stay_apart_unfinishedScript :
    unfinishedScript.Passes numberEnv default [("$x", .int 2)] default ∧
      Locals.Apart numberEnv unfinishedScript [("$x", .int 2)] :=
  ⟨unfinishedScript_passes,
    (locals_stay_apart unfinishedScript numberEnv default).1 _ _ unfinishedScript_passes⟩

end Rubric.Script
