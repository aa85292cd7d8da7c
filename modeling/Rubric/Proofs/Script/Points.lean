import Rubric.Proofs.Script.Mentions
import Rubric.Proofs.Sequencing

/-!
# The points of a run

A run passes a point before and after every expression that it evaluates, before every statement,
and at the end of every block.  What holds where a run starts and is kept by its steps, holds at all
its points.  To say so of the runs of scripts themselves, a probe is let in at every point: it sees
what the script runs against, the local variables and what values contain there, and it may write or
stop the run.  Where a probe is idle at all points with a property that the steps keep, the run is
the run without it; and a run passes the points where a probe alone can make a difference.

* `Program.runProbed`, `Program.Passes` : the run of a script with a probe at every point, and the
  points that the run passes;
* `StepsKeep` : what the steps of a run do for a property to be kept;
* `StepsKeep.holds_throughout` : a property that the steps keep holds at every point.
-/

namespace Rubric.Script

/-! ## Runs with a probe -/

/-- What is done at every point of a run, by what the script runs against and the local variables
there. -/
abbrev Probe := Environment → Locals → Eval Unit

section

variable (probe : Probe) (env : Environment)

/-- A computation between two points. -/
def between {α : Type} (locals : Locals) (action : Eval α) : Eval α := do
  probe env locals
  let a ← action
  probe env locals
  return a

/-- A point between two parts of a run. -/
def pause : Exec Unit := Exec.ofEval fun locals => probe env locals

mutual

/-- The value of an expression. -/
def Expr.evalProbed (locals : Locals) : Expr → Eval Value
  | .list items => between probe env locals do
    Eval.newList (← Expr.evalAllProbed locals items)
  | .member target field => between probe env locals do
    Eval.ofExcept (checkPublic field)
    let base ← target.evalProbed locals
    Eval.ofExcept (base.readAttribute (← get) field)
  | .index target key => between probe env locals do
    let container ← target.evalProbed locals
    if container.isNull then return .null
    else
      let place ← key.evalProbed locals
      Eval.ofExcept (container.subscript (← get) place)
  | .call function args => between probe env locals do
    let values ← Expr.evalAllProbed locals args
    callNamed env locals function values
  | .binary op left right => between probe env locals do
    let first ← left.evalProbed locals
    if op.decided (← get) first then return .bool (op == .or)
    else
      let second ← right.evalProbed locals
      op.applyTo first second
  | .unary op operand => between probe env locals do
    let value ← operand.evalProbed locals
    op.applyTo value
  | e => between probe env locals (e.eval env locals)

/-- The values of several expressions, from left to right. -/
def Expr.evalAllProbed (locals : Locals) : List Expr → Eval (List Value)
  | [] => return []
  | e :: es => do
    let v ← e.evalProbed locals
    return v :: (← Expr.evalAllProbed locals es)

end

/-- Assigns a field of what a variable holds. -/
def assignFieldProbed (locals : Locals) (name : String) (path : List String) (value : Expr) :
    Eval Unit := do
  let base ← lookupVar env locals name
  Eval.ofExcept (path.forM checkPublic)
  let v ← value.evalProbed probe env locals
  base.writePath path v

/-- The value of an expression of a statement. -/
def evaluateProbed (e : Expr) : Exec Value :=
  Exec.ofEval fun locals => e.evalProbed probe env locals

/-- Whether a condition holds. -/
def conditionHoldsProbed (condition : Expr) : Exec Bool := do
  let v ← evaluateProbed probe env condition
  return v.truthy (← get).store

/-- The elements that a loop runs over, and the number of entries that they belong to. -/
def loopElementsProbed (collection : Expr) (locals : Locals) :
    Eval (Value × Option Nat × List Value) := do
  let v ← collection.evalProbed probe env locals
  let σ ← get
  if v.truthy σ then return (v, entryCount? σ v, ← Eval.ofExcept (v.items σ))
  else return (.null, none, [])

mutual

/-- Runs a statement. -/
def Stmt.runProbed : Stmt → Exec Unit
  | .assign line var path value => Exec.atLine line do
    match path with
    | [] => assignVar env ("$" ++ var) (← evaluateProbed probe env value)
    | _ :: _ => Exec.ofEval fun locals => assignFieldProbed probe env locals ("$" ++ var) path value
  | .branch line condition body rest => Exec.atLine line do
    if ← conditionHoldsProbed probe env condition then Stmt.runAllProbed body else rest.runProbed
  | .foreach line var collection body => Exec.atLine line do
    let name := "$" ++ var
    if env.binder.contains name then throw (.name (.shadowing name))
    else
      let (v, entries, elements) ← Exec.ofEval (loopElementsProbed probe env collection)
      runOver v entries (fun element => do
        Exec.setLocal name element
        Stmt.runAllProbed body) elements
  | .call line function args => Exec.atLine line do
    let _ ← evaluateProbed probe env (.call function args)
    return ()

/-- Runs the first of the alternatives whose condition holds. -/
def Alternatives.runProbed : Alternatives → Exec Unit
  | .done => return ()
  | .otherwise body => Stmt.runAllProbed body
  | .elif condition body rest => do
    if ← conditionHoldsProbed probe env condition then Stmt.runAllProbed body else rest.runProbed

/-- Runs statements one after the other. -/
def Stmt.runAllProbed : List Stmt → Exec Unit
  | [] => pause probe env
  | s :: ss => do
    pause probe env
    s.runProbed
    Stmt.runAllProbed ss

end

/-- Runs a script and returns its local variables. -/
def Program.runProbed (p : Program) : Eval Locals := fun σ =>
  match Stmt.runAllProbed probe env p.statements ⟨σ, []⟩ with
  | .ok _ s => .ok s.locals s.store
  | .error fault s => .error fault s.store

end

/-- Whether the run of a script passes a point with some local variables and some contents: a probe
that is idle at all other points makes a difference. -/
def Program.Passes (p : Program) (env : Environment) (σ : Store) (locals : Locals) (τ : Store) :
    Prop :=
  ∃ probe : Probe, (∀ locals' τ', (locals', τ') ≠ (locals, τ) → probe env locals' τ' = .ok () τ') ∧
    p.runProbed probe env σ ≠ p.run env σ

/-- The state in which the run of a script ends or fails. -/
def Program.lastState (p : Program) (env : Environment) (σ : Store) : RunState :=
  stateLeft (Stmt.runAll env p.statements ⟨σ, []⟩)

/-! ## Computations that keep a property -/

section

variable {ε S α β : Type}

/-- Whether a computation does what another does in every state with a property, and that one keeps
the property, also where it fails, and gives a value with a property of values. -/
def SameUnder (I : S → Prop) (post : α → Prop) (probed plain : EStateM ε S α) : Prop :=
  ∀ s, I s → probed s = plain s ∧ match plain s with
    | .ok a t => post a ∧ I t
    | .error _ t => I t

/-- Whether a computation keeps a property of states and gives a value with a property of values. -/
abbrev Maintains (I : S → Prop) (post : α → Prop) (action : EStateM ε S α) : Prop :=
  SameUnder I post action action

variable {I : S → Prop} {post : α → Prop} {post' : β → Prop}

/-- Answering keeps every property. -/
theorem maintains_pure {a : α} (h : post a) : Maintains I post (pure a : EStateM ε S α) :=
  fun _ hs => ⟨rfl, h, hs⟩

/-- Failing keeps every property. -/
theorem maintains_throw (fault : ε) : Maintains I post (throw fault : EStateM ε S α) :=
  fun _ hs => ⟨rfl, hs⟩

/-- A computation keeps a property that it does not change, whatever it gives. -/
theorem maintains_of_keeps {action : EStateM ε S α}
    (h : ∀ s, I s → match action s with | .ok _ t => I t | .error _ t => I t) :
    Maintains I (fun _ => True) action := by
  intro s hs
  have hkept := h s hs
  refine ⟨rfl, ?_⟩
  cases hresult : action s with
  | ok a t =>
      rw [hresult] at hkept
      exact ⟨trivial, hkept⟩
  | error fault t =>
      rw [hresult] at hkept
      exact hkept

/-- A property that holds of no state or of all is kept. -/
theorem maintains_const (P : Prop) (action : EStateM ε S α) :
    Maintains (fun _ => P) (fun _ => True) action :=
  maintains_of_keeps fun s hP => by cases action s <;> exact hP

/-- A computed answer keeps every property. -/
theorem maintains_ofExcept {I : Store → Prop} {answer : Except Fault α}
    (h : ∀ a, answer = .ok a → post a) : Maintains I post (Eval.ofExcept answer) := by
  cases answer with
  | error fault => exact maintains_throw fault
  | ok a => exact maintains_pure (h a rfl)

/-- What is known where a computation succeeds that keeps a property. -/
theorem SameUnder.of_ok {probed plain : EStateM ε S α} (h : SameUnder I post probed plain) {s t : S}
    (hs : I s) {a : α} (hok : plain s = .ok a t) : post a ∧ I t := by
  obtain ⟨-, hkept⟩ := h s hs
  rw [hok] at hkept
  exact hkept

/-- Computations in a row do the same where each does. -/
theorem SameUnder.bind {first first' : EStateM ε S α} {second second' : α → EStateM ε S β}
    (hfirst : SameUnder I post first first')
    (hsecond : ∀ a, post a → SameUnder I post' (second a) (second' a)) :
    SameUnder I post' (first >>= second) (first' >>= second') := by
  intro s hs
  obtain ⟨hsame, hkept⟩ := hfirst s hs
  cases hresult : first' s with
  | ok a t =>
      rw [hresult] at hsame hkept
      rw [bind_of_ok hsame, bind_of_ok hresult]
      exact hsecond a hkept.1 t hkept.2
  | error fault t =>
      rw [hresult] at hsame hkept
      rw [bind_of_error hsame, bind_of_error hresult]
      exact ⟨rfl, hkept⟩

/-- Computations that look at the state do the same where they do for each. -/
theorem sameUnder_get_bind {f f' : S → EStateM ε S β}
    (h : ∀ s, I s → SameUnder I post' (f s) (f' s)) :
    SameUnder I post' (get >>= f) (get >>= f') := fun s hs => h s hs s hs

/-- What is idle may come before. -/
theorem SameUnder.after_idle {idle : EStateM ε S Unit} {probed plain : EStateM ε S α}
    (hidle : ∀ s, I s → idle s = .ok () s) (h : SameUnder I post probed plain) :
    SameUnder I post (idle >>= fun _ => probed) plain := by
  intro s hs
  rw [bind_of_ok (hidle s hs)]
  exact h s hs

end

/-! ## Runs whose steps keep a property -/

/-- Whether the steps of a run keep a property of points, where values have a property.  The
statements are those that are allowed, and the names those that may be mentioned. -/
structure StepsKeep (env : Environment) (Allowed : Stmt → Prop) (Named : String → Prop)
    (I : Locals → Store → Prop) (V : Value → Prop) : Prop where
  str : ∀ s, V (.str s)
  num : ∀ n : NumberLiteral, V n.toValue
  bool : ∀ b, V (.bool b)
  null : V .null
  var : ∀ locals name, Named name → Maintains (I locals) V (lookupVar env locals name)
  name : ∀ locals name, Named name → Maintains (I locals) V (lookupName env name)
  list : ∀ locals vs, (∀ v ∈ vs, V v) → Maintains (I locals) V (Eval.newList vs)
  member : ∀ locals v field, V v →
    Maintains (I locals) V (do Eval.ofExcept (v.readAttribute (← get) field))
  index : ∀ locals v place, V v → V place →
    Maintains (I locals) V (do Eval.ofExcept (v.subscript (← get) place))
  call : ∀ locals function args, Named function → (∀ v ∈ args, V v) →
    Maintains (I locals) V (callNamed env locals function args)
  binary : ∀ locals (op : BinaryOp) v w, V v → V w → Maintains (I locals) V (op.applyTo v w)
  unary : ∀ locals (op : UnaryOp) v, V v → Maintains (I locals) V (op.applyTo v)
  items : ∀ locals σ v vs, I locals σ → V v → v.items σ = .ok vs → ∀ w ∈ vs, V w
  assign : ∀ line var value, Allowed (.assign line var [] value) → Named ("$" ++ var) → ∀ v, V v →
    Maintains (fun s => I s.locals s.store) (fun _ => True) (assignVar env ("$" ++ var) v)
  setField : ∀ line var name path value, Allowed (.assign line var (name :: path) value) →
    ∀ locals base v, V base → V v →
      Maintains (I locals) (fun _ => True) (base.writePath (name :: path) v)
  loop : ∀ line var collection body, Allowed (.foreach line var collection body) →
    env.binder.contains ("$" ++ var) = false → ∀ v, V v →
      Maintains (fun s => I s.locals s.store) (fun _ => True) (Exec.setLocal ("$" ++ var) v)

section

variable {env : Environment} {Allowed : Stmt → Prop} {Named : String → Prop}
  {I : Locals → Store → Prop} {V : Value → Prop} {probe : Probe}

/-- Whether a probe is idle at the points with a property. -/
def Probe.IdleUnder (probe : Probe) (env : Environment) (I : Locals → Store → Prop) : Prop :=
  ∀ locals σ, I locals σ → probe env locals σ = .ok () σ

/-- An idle probe before and after a computation changes nothing. -/
theorem sameUnder_between (hprobe : probe.IdleUnder env I) {α : Type} {post : α → Prop}
    {locals : Locals} {probed plain : Eval α} (h : SameUnder (I locals) post probed plain) :
    SameUnder (I locals) post (between probe env locals probed) plain := by
  refine SameUnder.after_idle (hprobe locals) ?_
  intro σ hσ
  obtain ⟨hsame, hkept⟩ := h σ hσ
  cases hresult : plain σ with
  | ok a τ =>
      rw [hresult] at hsame hkept
      refine ⟨?_, hkept⟩
      rw [bind_of_ok hsame, bind_of_ok (hprobe locals τ hkept.2)]
      rfl
  | error fault τ =>
      rw [hresult] at hsame hkept
      exact ⟨bind_of_error hsame, hkept⟩

mutual

/-- An expression with an idle probe has the value that it has without. -/
theorem Expr.sameUnder_evalProbed (hsteps : StepsKeep env Allowed Named I V)
    (hprobe : probe.IdleUnder env I) (locals : Locals) : ∀ e : Expr, (∀ name ∈ e.mentions, Named name) →
    SameUnder (I locals) V (e.evalProbed probe env locals) (e.eval env locals)
  | .str value, _ => sameUnder_between hprobe (maintains_pure (hsteps.str value))
  | .num value, _ => sameUnder_between hprobe (maintains_pure (hsteps.num value))
  | .bool value, _ => sameUnder_between hprobe (maintains_pure (hsteps.bool value))
  | .null, _ => sameUnder_between hprobe (maintains_pure hsteps.null)
  | .var ident, h =>
      sameUnder_between hprobe (hsteps.var locals _ (h _ (by simp [Expr.mentions])))
  | .name ident, h =>
      sameUnder_between hprobe (hsteps.name locals ident (h _ (by simp [Expr.mentions])))
  | .list items, h => by
      rw [Expr.mentions] at h
      rw [Expr.evalProbed, Expr.eval]
      exact sameUnder_between hprobe ((Expr.sameUnder_evalAllProbed hsteps hprobe locals items h).bind
        fun vs hvs => hsteps.list locals vs hvs)
  | .member target field, h => by
      rw [Expr.mentions] at h
      rw [Expr.evalProbed, Expr.eval]
      refine sameUnder_between hprobe ?_
      refine SameUnder.bind (maintains_ofExcept fun _ _ => trivial) fun _ _ => ?_
      exact (Expr.sameUnder_evalProbed hsteps hprobe locals target h).bind fun base hbase =>
        hsteps.member locals base field hbase
  | .index target key, h => by
      rw [Expr.mentions, List.forall_mem_append] at h
      rw [Expr.evalProbed, Expr.eval]
      refine sameUnder_between hprobe ?_
      refine (Expr.sameUnder_evalProbed hsteps hprobe locals target h.1).bind fun v hv => ?_
      split
      · exact maintains_pure hsteps.null
      · exact (Expr.sameUnder_evalProbed hsteps hprobe locals key h.2).bind fun place hplace =>
          hsteps.index locals v place hv hplace
  | .call function args, h => by
      rw [Expr.mentions, List.forall_mem_cons] at h
      rw [Expr.evalProbed, Expr.eval]
      exact sameUnder_between hprobe ((Expr.sameUnder_evalAllProbed hsteps hprobe locals args h.2).bind
        fun vs hvs => hsteps.call locals function vs h.1 hvs)
  | .binary op left right, h => by
      rw [Expr.mentions, List.forall_mem_append] at h
      rw [Expr.evalProbed, Expr.eval]
      refine sameUnder_between hprobe ?_
      refine (Expr.sameUnder_evalProbed hsteps hprobe locals left h.1).bind fun v hv => ?_
      refine sameUnder_get_bind fun σ _ => ?_
      split
      · exact maintains_pure (hsteps.bool _)
      · exact (Expr.sameUnder_evalProbed hsteps hprobe locals right h.2).bind fun w hw =>
          hsteps.binary locals op v w hv hw
  | .unary op operand, h => by
      rw [Expr.mentions] at h
      rw [Expr.evalProbed, Expr.eval]
      exact sameUnder_between hprobe ((Expr.sameUnder_evalProbed hsteps hprobe locals operand h).bind
        fun v hv => hsteps.unary locals op v hv)

/-- So have several expressions. -/
theorem Expr.sameUnder_evalAllProbed (hsteps : StepsKeep env Allowed Named I V)
    (hprobe : probe.IdleUnder env I) (locals : Locals) : ∀ es : List Expr,
    (∀ name ∈ Expr.mentionsAll es, Named name) →
    SameUnder (I locals) (fun vs => ∀ v ∈ vs, V v)
      (Expr.evalAllProbed probe env locals es) (Expr.evalAll env locals es)
  | [], _ => by
      rw [Expr.evalAllProbed, Expr.evalAll]
      exact maintains_pure (by simp)
  | e :: es, h => by
      rw [Expr.mentionsAll, List.forall_mem_append] at h
      rw [Expr.evalAllProbed, Expr.evalAll]
      refine (Expr.sameUnder_evalProbed hsteps hprobe locals e h.1).bind fun v hv => ?_
      exact (Expr.sameUnder_evalAllProbed hsteps hprobe locals es h.2).bind fun vs hvs =>
        maintains_pure (List.forall_mem_cons.mpr ⟨hv, hvs⟩)

end

/-! ## Parts of a run -/

/-- A property of points, as one of the states of a run. -/
abbrev AtState (I : Locals → Store → Prop) (s : RunState) : Prop := I s.locals s.store

/-- Computations on values that do the same, do so as parts of a run. -/
theorem sameUnder_ofEval {α : Type} {post : α → Prop} {probed plain : Locals → Eval α}
    (h : ∀ locals, SameUnder (I locals) post (probed locals) (plain locals)) :
    SameUnder (AtState I) post (Exec.ofEval probed) (Exec.ofEval plain) := by
  intro s hs
  obtain ⟨hsame, hkept⟩ := h s.locals s.store hs
  simp only [Exec.ofEval, hsame]
  cases hresult : plain s.locals s.store with
  | ok a σ | error fault σ =>
      rw [hresult] at hkept
      exact ⟨trivial, hkept⟩

/-- Parts of a run do the same where their faults are located. -/
theorem sameUnder_atLine {α : Type} {I : RunState → Prop} {post : α → Prop} (line : Nat)
    {probed plain : Exec α} (h : SameUnder I post probed plain) :
    SameUnder I post (Exec.atLine line probed) (Exec.atLine line plain) := by
  intro s hs
  obtain ⟨hsame, hkept⟩ := h s hs
  simp only [Exec.atLine, hsame]
  cases hresult : plain s with
  | ok a t | error fault t =>
      rw [hresult] at hkept
      exact ⟨trivial, hkept⟩

/-- A pause with an idle probe changes nothing. -/
theorem pause_idle (hprobe : probe.IdleUnder env I) {s : RunState} (hs : AtState I s) :
    pause probe env s = .ok () s := by
  simp only [pause, Exec.ofEval, hprobe _ _ hs]

/-- What comes after a pause with an idle probe does what it does without. -/
theorem SameUnder.after_pause (hprobe : probe.IdleUnder env I) {α : Type} {post : α → Prop}
    {probed plain : Exec α} (h : SameUnder (AtState I) post probed plain) :
    SameUnder (AtState I) post (pause probe env >>= fun _ => probed) plain :=
  SameUnder.after_idle (fun _ hs => pause_idle hprobe hs) h

/-- Running over elements with bodies that do the same does the same. -/
theorem sameUnder_runOver {I : RunState → Prop} (collection : Value) (entries : Option Nat)
    {body body' : Value → Exec Unit}
    (hbody : ∀ v, V v → SameUnder I (fun _ => True) (body v) (body' v)) {elements : List Value}
    (helements : ∀ v ∈ elements, V v) :
    SameUnder I (fun _ => True) (runOver collection entries body elements)
      (runOver collection entries body' elements) := by
  have hcheck : Maintains I (fun _ => True) (checkEntries collection entries) := by
    refine sameUnder_get_bind fun s _ => ?_
    split
    · exact maintains_throw _
    · exact maintains_pure trivial
  induction elements with
  | nil => exact hcheck
  | cons element elements ih =>
      obtain ⟨helement, hrest⟩ := List.forall_mem_cons.mp helements
      exact hcheck.bind fun _ _ => (hbody element helement).bind fun _ _ => ih hrest

theorem sameUnder_evaluate (hsteps : StepsKeep env Allowed Named I V) (hprobe : probe.IdleUnder env I)
    {e : Expr} (h : ∀ name ∈ e.mentions, Named name) :
    SameUnder (AtState I) V (evaluateProbed probe env e) (evaluate env e) :=
  sameUnder_ofEval fun locals => Expr.sameUnder_evalProbed hsteps hprobe locals e h

theorem sameUnder_conditionHolds (hsteps : StepsKeep env Allowed Named I V)
    (hprobe : probe.IdleUnder env I) {condition : Expr} (h : ∀ name ∈ condition.mentions, Named name) :
    SameUnder (AtState I) (fun _ => True) (conditionHoldsProbed probe env condition)
      (conditionHolds env condition) :=
  (sameUnder_evaluate hsteps hprobe h).bind fun _ _ =>
    sameUnder_get_bind fun _ _ => maintains_pure trivial

theorem sameUnder_loopElements (hsteps : StepsKeep env Allowed Named I V) (hprobe : probe.IdleUnder env I)
    {collection : Expr} (h : ∀ name ∈ collection.mentions, Named name) (locals : Locals) :
    SameUnder (I locals) (fun run => ∀ v ∈ run.2.2, V v)
      (loopElementsProbed probe env collection locals) (loopElements env collection locals) := by
  refine (Expr.sameUnder_evalProbed hsteps hprobe locals collection h).bind fun v hv => ?_
  refine sameUnder_get_bind fun σ hσ => ?_
  split
  · exact SameUnder.bind (maintains_ofExcept fun vs hvs => hsteps.items locals σ v vs hσ hv hvs)
      fun vs hvs => maintains_pure hvs
  · exact maintains_pure (by simp)

theorem sameUnder_assignField (hsteps : StepsKeep env Allowed Named I V) (hprobe : probe.IdleUnder env I)
    {line : Nat} {var name : String} {path : List String} {value : Expr}
    (h : Allowed (.assign line var (name :: path) value)) (hvar : Named ("$" ++ var))
    (hvalue : ∀ name ∈ value.mentions, Named name) (locals : Locals) :
    SameUnder (I locals) (fun _ => True)
      (assignFieldProbed probe env locals ("$" ++ var) (name :: path) value)
      (assignField env locals ("$" ++ var) (name :: path) value) := by
  refine SameUnder.bind (hsteps.var locals _ hvar) fun base hbase => ?_
  refine SameUnder.bind (maintains_ofExcept fun _ _ => trivial) fun _ _ => ?_
  refine (Expr.sameUnder_evalProbed hsteps hprobe locals value hvalue).bind fun v hv => ?_
  exact hsteps.setField line var name path value h locals base v hbase hv

mutual

/-- A statement with an idle probe does what it does without. -/
theorem Stmt.sameUnder_runProbed (hsteps : StepsKeep env Allowed Named I V)
    (hprobe : probe.IdleUnder env I) : ∀ s : Stmt, (∀ t ∈ s.walk, Allowed t) →
    (∀ name ∈ s.mentions, Named name) →
    SameUnder (AtState I) (fun _ => True) (s.runProbed probe env) (s.run env)
  | .assign line var [] value, h, hnames => by
      rw [Stmt.mentions, List.forall_mem_cons] at hnames
      rw [Stmt.runProbed, Stmt.run]
      refine sameUnder_atLine line ((sameUnder_evaluate hsteps hprobe hnames.2).bind fun v hv => ?_)
      exact hsteps.assign line var value (h _ (by simp [Stmt.walk])) hnames.1 v hv
  | .assign line var (name :: path) value, h, hnames => by
      rw [Stmt.mentions, List.forall_mem_cons] at hnames
      have hself : Allowed (.assign line var (name :: path) value) := h _ (by simp [Stmt.walk])
      rw [Stmt.runProbed, Stmt.run]
      exact sameUnder_atLine line (sameUnder_ofEval fun locals =>
        sameUnder_assignField hsteps hprobe hself hnames.1 hnames.2 locals)
  | .branch line condition body rest, h, hnames => by
      rw [Stmt.walk] at h
      obtain ⟨hbody, hrest⟩ := List.forall_mem_append.mp (List.forall_mem_cons.mp h).2
      simp only [Stmt.mentions, List.forall_mem_append] at hnames
      rw [Stmt.runProbed, Stmt.run]
      refine sameUnder_atLine line ((sameUnder_conditionHolds hsteps hprobe hnames.1.1).bind
        fun holds _ => ?_)
      split
      · exact Stmt.sameUnder_runAllProbed hsteps hprobe body hbody hnames.1.2
      · exact Alternatives.sameUnder_runProbed hsteps hprobe rest hrest hnames.2
  | .foreach line var collection body, h, hnames => by
      rw [Stmt.walk] at h
      obtain ⟨hself, hbody⟩ := List.forall_mem_cons.mp h
      simp only [Stmt.mentions, List.forall_mem_cons, List.forall_mem_append] at hnames
      rw [Stmt.runProbed, Stmt.run]
      refine sameUnder_atLine line ?_
      dsimp only
      split
      · exact maintains_throw _
      · rename_i hfree
        refine SameUnder.bind (sameUnder_ofEval fun locals =>
          sameUnder_loopElements hsteps hprobe hnames.2.1 locals) fun run hrun => ?_
        refine sameUnder_runOver _ _ (fun v hv => ?_) hrun
        exact (hsteps.loop line var collection body hself (by simpa using hfree) v hv).bind
          fun _ _ => Stmt.sameUnder_runAllProbed hsteps hprobe body hbody hnames.2.2
  | .call line function args, _, hnames => by
      rw [Stmt.mentions] at hnames
      rw [Stmt.runProbed, Stmt.run]
      exact sameUnder_atLine line ((sameUnder_evaluate hsteps hprobe hnames).bind
        fun _ _ => maintains_pure trivial)

/-- So do alternatives. -/
theorem Alternatives.sameUnder_runProbed (hsteps : StepsKeep env Allowed Named I V)
    (hprobe : probe.IdleUnder env I) : ∀ rest : Alternatives, (∀ t ∈ rest.walk, Allowed t) →
    (∀ name ∈ rest.mentions, Named name) →
    SameUnder (AtState I) (fun _ => True) (rest.runProbed probe env) (rest.run env)
  | .done, _, _ => by
      rw [Alternatives.runProbed, Alternatives.run]
      exact maintains_pure trivial
  | .otherwise body, h, hnames => by
      rw [Alternatives.walk] at h
      rw [Alternatives.mentions] at hnames
      rw [Alternatives.runProbed, Alternatives.run]
      exact Stmt.sameUnder_runAllProbed hsteps hprobe body h hnames
  | .elif condition body rest, h, hnames => by
      rw [Alternatives.walk] at h
      obtain ⟨hbody, hrest⟩ := List.forall_mem_append.mp h
      simp only [Alternatives.mentions, List.forall_mem_append] at hnames
      rw [Alternatives.runProbed, Alternatives.run]
      refine (sameUnder_conditionHolds hsteps hprobe hnames.1.1).bind fun holds _ => ?_
      split
      · exact Stmt.sameUnder_runAllProbed hsteps hprobe body hbody hnames.1.2
      · exact Alternatives.sameUnder_runProbed hsteps hprobe rest hrest hnames.2

/-- So do the statements of a block. -/
theorem Stmt.sameUnder_runAllProbed (hsteps : StepsKeep env Allowed Named I V)
    (hprobe : probe.IdleUnder env I) : ∀ ss : List Stmt, (∀ t ∈ Stmt.walkAll ss, Allowed t) →
    (∀ name ∈ Stmt.mentionsAll ss, Named name) →
    SameUnder (AtState I) (fun _ => True) (Stmt.runAllProbed probe env ss) (Stmt.runAll env ss)
  | [], _, _ => by
      rw [Stmt.runAllProbed, Stmt.runAll]
      exact fun s hs => ⟨pause_idle hprobe hs, trivial, hs⟩
  | s :: ss, h, hnames => by
      rw [Stmt.walkAll] at h
      obtain ⟨hs, hss⟩ := List.forall_mem_append.mp h
      rw [Stmt.mentionsAll, List.forall_mem_append] at hnames
      rw [Stmt.runAllProbed, Stmt.runAll]
      have hfirst := Stmt.sameUnder_runProbed hsteps hprobe s hs hnames.1
      exact SameUnder.after_pause hprobe (hfirst.bind fun _ _ =>
        Stmt.sameUnder_runAllProbed hsteps hprobe ss hss hnames.2)

end

/-- Where the steps of a run keep a property, the run with a probe that is idle at points with the
property is the run without it, and where the run ends or fails the property holds. -/
theorem Program.runProbed_eq (hsteps : StepsKeep env Allowed Named I V) (hprobe : probe.IdleUnder env I)
    {p : Program} (h : ∀ t ∈ p.allStatements, Allowed t) (hnames : ∀ name ∈ p.mentions, Named name)
    {σ : Store} (hstart : I [] σ) :
    p.runProbed probe env σ = p.run env σ ∧ AtState I (p.lastState env σ) := by
  obtain ⟨hsame, hkept⟩ :=
    Stmt.sameUnder_runAllProbed hsteps hprobe p.statements h hnames ⟨σ, []⟩ hstart
  rw [Program.runProbed, Program.run, Program.lastState, hsame]
  cases hresult : Stmt.runAll env p.statements ⟨σ, []⟩ with
  | ok u s =>
      rw [hresult] at hkept
      exact ⟨rfl, hkept.2⟩
  | error fault s =>
      rw [hresult] at hkept
      exact ⟨rfl, hkept⟩

/-- A property that holds where a run starts and is kept by its steps holds at every point that the
run passes, and where it ends or fails. -/
theorem StepsKeep.holds_throughout (hsteps : StepsKeep env Allowed Named I V) {p : Program}
    (h : ∀ t ∈ p.allStatements, Allowed t) (hnames : ∀ name ∈ p.mentions, Named name) (σ : Store)
    (hstart : I [] σ) :
    (∀ locals τ, p.Passes env σ locals τ → I locals τ) ∧ AtState I (p.lastState env σ) := by
  have hidle : Probe.IdleUnder (fun _ _ => pure ()) env I := fun _ _ _ => rfl
  refine ⟨fun locals τ ⟨probe, helsewhere, hdiffers⟩ => Classical.byContradiction fun hnot => ?_,
    (Program.runProbed_eq hsteps hidle h hnames hstart).2⟩
  have hprobe : probe.IdleUnder env I := fun locals' τ' hI =>
    helsewhere locals' τ' fun heq => by
      obtain ⟨rfl, rfl⟩ := Prod.mk.inj heq
      exact hnot hI
  exact hdiffers (Program.runProbed_eq hsteps hprobe h hnames hstart).1

end

end Rubric.Script
