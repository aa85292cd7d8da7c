import Rubric.Proofs.Script.Faults

/-!
# Scripts step by step

A script is run in steps by a machine that knows which statements are under way and what is left to do.
Each step evaluates the parts of one statement: nothing is known of the elements of a loop before it comes
to them, the collection is looked at again in every round.  Where a step fails, the machine stops with the
fault as it was raised, and with the statements that were under way then.

* `Machine`, `Machine.step` : the machine and its steps;
* `Machine.mem_of_started` : all that a machine starts are statements of its script;
* `Machine.Does` : what a machine comes to, given what a run does.
-/

namespace Rubric.Script

/-! ## Faults of the parts of a statement -/

/-- Whether a part of a run raises only faults that a statement raises outside its blocks. -/
def Stmt.Covers (env : Environment) (s : Stmt) {α : Type} (action : Exec α) : Prop :=
  ∀ u fault t, action u = .error fault t → s.Raises env t.locals fault

section

variable {env : Environment} {s : Stmt} {α β : Type}

/-- Parts in a row raise what either does. -/
theorem Stmt.Covers.bind {first : Exec α} {second : α → Exec β} (hfirst : s.Covers env first)
    (hsecond : ∀ a, s.Covers env (second a)) : s.Covers env (first >>= second) := by
  intro u fault t h
  rcases bind_error.mp h with h | ⟨a, v, -, h⟩
  · exact hfirst u fault t h
  · exact hsecond a v fault t h

/-- Answering raises nothing. -/
theorem Stmt.covers_pure (a : α) : s.Covers env (pure a : Exec α) := by
  intro u fault t h
  cases h

/-- A part that looks at the state raises what it raises for each. -/
theorem Stmt.covers_get_bind {f : RunState → Exec β} (h : ∀ u, s.Covers env (f u)) :
    s.Covers env (get >>= f) := fun u fault t herror => h u u fault t herror

/-- An action on values keeps the local variables, and raises what it does with them. -/
theorem Stmt.covers_ofEval {action : Locals → Eval α}
    (h : ∀ locals, RaisesOnly (s.Raises env locals) (action locals)) : s.Covers env (Exec.ofEval action) := by
  intro u fault t herror
  unfold Exec.ofEval at herror
  cases hresult : action u.locals u.store with
  | ok a σ =>
      rw [hresult] at herror
      cases herror
  | error fault' σ =>
      rw [hresult] at herror
      cases herror
      exact h u.locals u.store _ σ hresult

theorem Stmt.covers_evaluate {e : Expr} (he : e ∈ s.expressions) : s.Covers env (evaluate env e) :=
  Stmt.covers_ofEval fun _ => raises_evalOf he

theorem Stmt.covers_conditionHolds {condition : Expr} (h : condition ∈ s.expressions) :
    s.Covers env (conditionHolds env condition) :=
  (Stmt.covers_evaluate h).bind fun _ => Stmt.covers_get_bind fun _ => Stmt.covers_pure _

theorem Stmt.covers_assignVar (line : Nat) (var : String) (value : Expr) (v : Value) :
    (Stmt.assign line var [] value).Covers env (assignVar env ("$" ++ var) v) := by
  refine Stmt.covers_get_bind fun s => ?_
  split
  · rename_i binding _ hbound
    exact Stmt.covers_ofEval fun _ => raises_assignBound hbound v
  · intro u fault t herror
    cases herror

end

/-! ## Machines -/

/-- What is left to do. -/
inductive Task where
  | start (s : Stmt)
  /-- The next condition of a conditional is due. -/
  | choose (rest : Alternatives)
  /-- The next round of a loop is due, by the position of its element. -/
  | round (name : String) (body : List Stmt) (collection : Value) (entries : Option Nat) (position : Nat)
  /-- The innermost statement under way is over. -/
  | finish

/-- The tasks of a block: its statements, one after the other. -/
def blockTasks (body : List Stmt) : List Task := body.map Task.start

/-- A start of the body of a loop: how many statements are under way then, that loop the last of them, and
what the variable of the loop holds. -/
structure Round where
  depth : Nat
  element : Option Value

/-- A script under way: the statements that were started and are not over, the innermost first, what is left
to do, the rounds of loops that were begun, and the fault that was raised, if one was. -/
structure Machine where
  state : RunState
  active : List Stmt
  tasks : List Task
  rounds : List Round
  raised : Option Fault

namespace Machine

/-- The machine goes on as a part of a run says, or stops with the fault that it raises. -/
def perform {α : Type} (m : Machine) (action : Exec α) (next : α → Machine → Machine) : Machine :=
  match action m.state with
  | .ok a s => next a { m with state := s }
  | .error fault s => { m with state := s, raised := some fault }

/-- The machine with more to do first. -/
def push (tasks : List Task) (m : Machine) : Machine := { m with tasks := tasks ++ m.tasks }

/-- A round begins: the variable of the loop holds the element. -/
def beginRound (name : String) (element : Value) (m : Machine) : Machine :=
  let locals := Value.setNamed name element m.state.locals
  { m with
    state := { m.state with locals := locals }
    rounds := m.rounds ++ [⟨m.active.length, locals.lookup name⟩] }

/-- A round begins where there is an element, and the next round is due after it; where there is none, the
loop is over. -/
def goOn (name : String) (body : List Stmt) (collection : Value) (entries : Option Nat) (position : Nat)
    (element? : Option Value) (m : Machine) : Machine :=
  match element? with
  | none => m
  | some element =>
    (m.beginRound name element).push
      (blockTasks body ++ [.round name body collection entries (position + 1)])

/-- A loop begins with its first round, unless there is nothing to run over. -/
def beginLoop (name : String) (body : List Stmt) (run : Value × Option Nat × List Value) (m : Machine) :
    Machine :=
  if run.2.2.isEmpty then m else m.push [.round name body run.1 run.2.1 0]

/-- The innermost statement begins. -/
def begin (env : Environment) (s : Stmt) (m : Machine) : Machine :=
  match s with
  | .assign _ var [] value =>
    m.perform (do assignVar env ("$" ++ var) (← evaluate env value)) fun _ m => m
  | .assign _ var (name :: path) value =>
    m.perform (Exec.ofEval fun locals => assignField env locals ("$" ++ var) (name :: path) value)
      fun _ m => m
  | .branch _ condition body rest =>
    m.perform (conditionHolds env condition) fun holds m =>
      m.push (if holds then blockTasks body else [.choose rest])
  | .foreach _ var collection body =>
    let name := "$" ++ var
    if env.binder.contains name then { m with raised := some (.name (.shadowing name)) }
    else
      m.perform (Exec.ofEval (loopElements env collection)) (beginLoop name body)
  | .call _ function args => m.perform (evaluate env (.call function args)) fun _ m => m

end Machine

/-- The element at a position of a collection as it is now; a collection that lost or gained entries is
refused. -/
def elementAt (collection : Value) (entries : Option Nat) (position : Nat) : Exec (Option Value) := do
  checkEntries collection entries
  Exec.ofEval fun _ => do return (← Eval.ofExcept (collection.items (← get)))[position]?

namespace Machine

/-- What the machine does next. -/
def step (env : Environment) (m : Machine) : Machine :=
  match m.raised, m.tasks with
  | none, .start s :: tasks => begin env s { m with active := s :: m.active, tasks := .finish :: tasks }
  | none, .choose .done :: tasks => { m with tasks := tasks }
  | none, .choose (.otherwise body) :: tasks => push (blockTasks body) { m with tasks := tasks }
  | none, .choose (.elif condition body rest) :: tasks =>
    perform { m with tasks := tasks } (conditionHolds env condition) fun holds m =>
      m.push (if holds then blockTasks body else [.choose rest])
  | none, .round name body collection entries position :: tasks =>
    perform { m with tasks := tasks } (elementAt collection entries position)
      (goOn name body collection entries position)
  | none, .finish :: tasks => { m with active := m.active.tail, tasks := tasks }
  | _, _ => m

/-- The machine after some steps. -/
def after (env : Environment) (m : Machine) : Nat → Machine
  | 0 => m
  | n + 1 => (m.step env).after env n

/-- Whether nothing is left to do, or a fault was raised. -/
def Halted (m : Machine) : Prop := m.tasks = [] ∨ m.raised.isSome

/-- The machine before a script. -/
def start (p : Program) (σ : Store) : Machine := ⟨⟨σ, []⟩, [], blockTasks p.statements, [], none⟩

/-- Steps after steps. -/
theorem after_add (env : Environment) (m : Machine) (n k : Nat) :
    m.after env (n + k) = (m.after env n).after env k := by
  induction n generalizing m with
  | zero => rw [Nat.zero_add, after]
  | succ n ih => rw [Nat.succ_add, after, after, ih]

end Machine

/-! ## What is started -/

/-- The statements that are started while a task is done. -/
def Task.statements : Task → List Stmt
  | .start s => s.walk
  | .choose rest => rest.walk
  | .round _ body _ _ _ => Stmt.walkAll body
  | .finish => []

/-- The statements that a machine may start. -/
def Machine.startable (m : Machine) : List Stmt := m.tasks.flatMap Task.statements

namespace Machine

variable {env : Environment} {m : Machine} {ss : List Stmt}

/-- The statements of a block. -/
theorem startable_push {first : List Task} (hfirst : first.flatMap Task.statements ⊆ ss)
    (hm : m.startable ⊆ ss) :
    (m.push first).startable ⊆ ss := by
  rw [startable, push, List.flatMap_append]
  exact List.append_subset.mpr ⟨hfirst, hm⟩

theorem statements_blockTasks (body : List Stmt) :
    (blockTasks body).flatMap Task.statements = Stmt.walkAll body := by
  induction body with
  | nil => rfl
  | cons s body ih =>
      rw [blockTasks, List.map_cons, List.flatMap_cons]
      exact congrArg (s.walk ++ ·) ih

/-- Going on starts nothing else, where what comes next does not. -/
theorem startable_perform {α : Type} {action : Exec α} {next : α → Machine → Machine} (hm : m.startable ⊆ ss)
    (hnext : ∀ a r, r.startable ⊆ ss → (next a r).startable ⊆ ss) :
    (m.perform action next).startable ⊆ ss := by
  unfold perform
  split
  · exact hnext _ _ hm
  · exact hm

theorem startable_branch {holds : Bool} {body : List Stmt} {rest : Alternatives}
    (h : Stmt.walkAll body ++ rest.walk ⊆ ss) (hm : m.startable ⊆ ss) :
    (m.push (if holds then blockTasks body else [.choose rest])).startable ⊆ ss := by
  rw [List.append_subset] at h
  refine startable_push ?_ hm
  cases holds with
  | true => exact (statements_blockTasks body).symm ▸ h.1
  | false => simpa [Task.statements] using h.2

theorem startable_begin {s : Stmt} (hs : s.walk ⊆ ss) (hm : m.startable ⊆ ss) :
    (Machine.begin env s m).startable ⊆ ss := by
  cases s with
  | assign line var path value => cases path <;> exact startable_perform hm fun _ _ => id
  | branch line condition body rest =>
      rw [Stmt.walk] at hs
      exact startable_perform hm fun holds r => startable_branch (List.cons_subset.mp hs).2
  | foreach line var collection body =>
      rw [Stmt.walk] at hs
      rw [Machine.begin]
      split
      · exact hm
      · refine startable_perform hm fun run r hr => ?_
        unfold beginLoop
        split
        · exact hr
        · exact startable_push (by simpa [Task.statements] using (List.cons_subset.mp hs).2) hr
  | call line function args => exact startable_perform hm fun _ _ => id

/-- A machine starts nothing but what it had to do before. -/
theorem startable_step : (m.step env).startable ⊆ m.startable := by
  obtain ⟨state, active, tasks, rounds, raised⟩ := m
  cases raised with
  | some fault => exact List.Subset.refl _
  | none =>
  cases tasks with
  | nil => exact List.Subset.refl _
  | cons task tasks =>
      have hrest : tasks.flatMap Task.statements ⊆ task.statements ++ tasks.flatMap Task.statements :=
        List.subset_append_right _ _
      have hfirst : task.statements ⊆ task.statements ++ tasks.flatMap Task.statements :=
        List.subset_append_left _ _
      -- the statements of a task are those that doing it may start
      cases task with
      | start s => exact startable_begin hfirst hrest
      | choose rest =>
          cases rest with
          | done => exact hrest
          | otherwise body => exact startable_push ((statements_blockTasks body).symm ▸ hfirst) hrest
          | elif condition body rest =>
              rw [Task.statements, Alternatives.walk] at hfirst
              exact startable_perform (m := ⟨state, active, tasks, rounds, none⟩) hrest
                fun holds r => startable_branch hfirst
      | round name body collection entries position =>
          refine startable_perform (m := ⟨state, active, tasks, rounds, none⟩) hrest fun element? r hr => ?_
          cases element? with
          | none => exact hr
          | some element =>
              refine startable_push ?_ hr
              rw [List.flatMap_append, statements_blockTasks, List.flatMap_singleton]
              exact List.append_subset.mpr ⟨hfirst, hfirst⟩
      | finish => exact hrest

/-- All that a script starts are its statements. -/
theorem mem_of_started {p : Program} {σ : Store} {n : Nat} {s : Stmt} {tasks : List Task}
    (h : ((start p σ).after env n).tasks = .start s :: tasks) : s ∈ p.allStatements := by
  have hall : ∀ (m : Machine) (n : Nat), (m.after env n).startable ⊆ m.startable := by
    intro m n
    induction n generalizing m with
    | zero => exact List.Subset.refl _
    | succ n ih => exact List.Subset.trans (ih (m.step env)) startable_step
  have hs : s ∈ ((start p σ).after env n).startable := by
    rw [startable, h, List.flatMap_cons]
    refine List.mem_append_left _ ?_
    cases s <;> exact List.mem_cons_self
  have hstart := hall _ n hs
  rwa [startable, start, statements_blockTasks] at hstart

end Machine

namespace Machine

/-! ## What machines come to -/

/-- What a machine comes to that does what a run does: where the run ends, to other tasks in the state that
the run leaves, and where it fails, to a fault of the innermost statement under way, which the run reports
with the line of that statement.  The rounds that were begun have a property. -/
def Does (env : Environment) (m : Machine) (active : List Stmt) (tasks : List Task) (rounds : List Round)
    (locate : Fault → Fault) (Begun : Bool → List Round → Prop) :
    EStateM.Result Fault RunState Unit → Prop
  | .ok _ s => ∃ n begun, Begun true begun ∧ m.after env n = ⟨s, active, tasks, rounds ++ begun, none⟩
  | .error fault s => ∃ n begun, Begun false begun ∧ ∃ inner outer left cause,
      m.after env n = ⟨s, inner :: outer, left, rounds ++ begun, some cause⟩ ∧
        inner.Raises env s.locals cause ∧ locate fault = .atLine inner.line cause

variable {env : Environment} {m : Machine} {active : List Stmt} {tasks : List Task} {rounds : List Round}
  {locate : Fault → Fault} {Begun : Bool → List Round → Prop} {result : EStateM.Result Fault RunState Unit}

/-- A machine comes to what it comes to after a step. -/
theorem Does.of_step (h : Does env (m.step env) active tasks rounds locate Begun result) :
    Does env m active tasks rounds locate Begun result := by
  cases result with
  | ok u s =>
      obtain ⟨n, begun, hbegun, hafter⟩ := h
      exact ⟨n + 1, begun, hbegun, hafter⟩
  | error fault s =>
      obtain ⟨n, begun, hbegun, inner, outer, left, cause, hafter, hcause⟩ := h
      exact ⟨n + 1, begun, hbegun, inner, outer, left, cause, hafter, hcause⟩

/-- A machine that is there comes to where it is. -/
theorem does_here (hbegun : Begun true []) (s : RunState) :
    Does env ⟨s, active, tasks, rounds, none⟩ active tasks rounds locate Begun (.ok () s) := by
  refine ⟨0, [], hbegun, ?_⟩
  rw [after, List.append_nil]

/-- A machine that stopped comes to the fault that it stopped with. -/
theorem does_raised {s : Stmt} {outer : List Stmt} {cause : Fault} (hbegun : Begun false [])
    {t : RunState} (hcause : s.Raises env t.locals cause) (left : List Task) :
    Does env ⟨t, s :: outer, left, rounds, some cause⟩ active tasks rounds (Fault.located s.line) Begun
      (.error cause t) := by
  refine ⟨0, [], hbegun, s, outer, left, cause, ?_, hcause, hcause.located s.line⟩
  rw [after, List.append_nil]

/-- Other properties of rounds. -/
theorem Does.imp {Begun' : Bool → List Round → Prop}
    (h : Does env m active tasks rounds locate Begun result)
    (himp : ∀ ended begun, Begun ended begun → Begun' ended begun) :
    Does env m active tasks rounds locate Begun' result := by
  cases result with
  | ok u s =>
      obtain ⟨n, begun, hbegun, hafter⟩ := h
      exact ⟨n, begun, himp _ _ hbegun, hafter⟩
  | error fault s =>
      obtain ⟨n, begun, hbegun, hrest⟩ := h
      exact ⟨n, begun, himp _ _ hbegun, hrest⟩

/-- Rounds that were begun before are begun by now. -/
theorem Does.early (early : List Round)
    (h : Does env m active tasks (rounds ++ early) locate (fun ended more => Begun ended (early ++ more)) result) :
    Does env m active tasks rounds locate Begun result := by
  cases result with
  | ok u s =>
      obtain ⟨n, more, hmore, hafter⟩ := h
      exact ⟨n, early ++ more, hmore, by rw [hafter, List.append_assoc]⟩
  | error fault s =>
      obtain ⟨n, more, hmore, inner, outer, left, cause, hafter, hcause⟩ := h
      exact ⟨n, early ++ more, hmore, inner, outer, left, cause, by rw [hafter, List.append_assoc], hcause⟩

/-- A fault that names its line keeps it. -/
theorem Does.located (h : Does env m active tasks rounds id Begun result) (line : Nat) :
    Does env m active tasks rounds (Fault.located line) Begun result := by
  cases result with
  | ok u s => exact h
  | error fault s =>
      obtain ⟨n, begun, hbegun, inner, outer, left, cause, hafter, hcause, hfault⟩ := h
      refine ⟨n, begun, hbegun, inner, outer, left, cause, hafter, hcause, ?_⟩
      rw [show fault = .atLine inner.line cause from hfault]
      rfl

/-- A statement reports the faults of its parts with its line. -/
theorem Does.atLine {line : Nat} {action : Exec Unit} {s : RunState}
    (h : Does env m active tasks rounds (Fault.located line) Begun (action s)) :
    Does env m active tasks rounds id Begun (Exec.atLine line action s) := by
  unfold Exec.atLine
  cases hresult : action s with
  | ok u t | error fault t =>
      rw [hresult] at h
      exact h

/-- A statement that is over is no longer under way. -/
theorem Does.finish (s : Stmt)
    (h : Does env m (s :: active) (.finish :: tasks) rounds locate Begun result) :
    Does env m active tasks rounds locate Begun result := by
  cases result with
  | ok u t =>
      obtain ⟨n, begun, hbegun, hafter⟩ := h
      refine ⟨n + 1, begun, hbegun, ?_⟩
      rw [after_add, hafter]
      rfl
  | error fault t => exact h

/-- A statement is under way while its parts are done. -/
theorem does_start {s : Stmt} {u : RunState} {part : Exec Unit}
    (h : Does env (begin env s ⟨u, s :: active, .finish :: tasks, rounds, none⟩) (s :: active)
      (.finish :: tasks) rounds (Fault.located s.line) Begun (part u)) :
    Does env ⟨u, active, .start s :: tasks, rounds, none⟩ active tasks rounds id Begun
      (Exec.atLine s.line part u) :=
  Does.of_step (Does.finish s (Does.atLine h))

/-- A machine that comes to a middle goes on from there. -/
theorem Does.bind {middle : List Stmt} {due : List Task} {first : Exec Unit} {second : Unit → Exec Unit}
    {s : RunState} {Early : Bool → List Round → Prop}
    (hfirst : Does env m middle due rounds locate Early (first s))
    (hfail : ∀ begun, Early false begun → Begun false begun)
    (hsecond : ∀ t begun, first s = .ok () t → Early true begun →
      Does env ⟨t, middle, due, rounds ++ begun, none⟩ active tasks (rounds ++ begun) locate
        (fun ended more => Begun ended (begun ++ more)) (second () t)) :
    Does env m active tasks rounds locate Begun ((first >>= second) s) := by
  cases hresult : first s with
  | error fault t =>
      rw [hresult] at hfirst
      rw [bind_of_error hresult]
      obtain ⟨n, begun, hbegun, hstopped⟩ := hfirst
      exact ⟨n, begun, hfail begun hbegun, hstopped⟩
  | ok u t =>
      rw [hresult] at hfirst
      rw [bind_of_ok hresult]
      obtain ⟨n, begun, hbegun, hafter⟩ := hfirst
      have hnext := (hsecond t begun hresult hbegun).early begun
      cases hend : second () t with
      | ok u t' =>
          rw [hend] at hnext
          obtain ⟨k, more, hmore, hafter'⟩ := hnext
          exact ⟨n + k, more, hmore, by rw [after_add, hafter, hafter']⟩
      | error fault t' =>
          rw [hend] at hnext
          obtain ⟨k, more, hmore, inner, outer, left, cause, hafter', hcause⟩ := hnext
          exact ⟨n + k, more, hmore, inner, outer, left, cause, by rw [after_add, hafter, hafter'], hcause⟩

/-- A statement under way evaluates one of its parts and goes on, or fails. -/
theorem does_perform {α : Type} {action : Exec α} {next : α → Machine → Machine}
    {rest : α → Exec Unit} {s : Stmt} {outer : List Stmt} {u : RunState} {due : List Task}
    (hbegun : Begun false []) (hraises : s.Covers env action)
    (hnext : ∀ a t, action u = .ok a t →
      Does env (next a ⟨t, s :: outer, due, rounds, none⟩) active tasks rounds (Fault.located s.line) Begun
        (rest a t)) :
    Does env (perform ⟨u, s :: outer, due, rounds, none⟩ action next) active tasks rounds
      (Fault.located s.line) Begun ((action >>= rest) u) := by
  unfold perform
  dsimp only
  cases hresult : action u with
  | ok a t =>
      rw [bind_of_ok hresult]
      exact hnext a t hresult
  | error fault t =>
      rw [bind_of_error hresult]
      exact does_raised hbegun (hraises u fault t hresult) due

/-- A statement under way has nothing to do after its last part. -/
theorem does_last {action : Exec Unit} {s : Stmt} {outer : List Stmt} {u : RunState}
    (hended : Begun true []) (hbegun : Begun false []) (hraises : s.Covers env action) :
    Does env (perform ⟨u, s :: outer, tasks, rounds, none⟩ action fun _ m => m) (s :: outer) tasks rounds
      (Fault.located s.line) Begun (action u) := by
  have h : Does env (perform ⟨u, s :: outer, tasks, rounds, none⟩ action fun _ m => m) (s :: outer) tasks
      rounds (Fault.located s.line) Begun ((action >>= fun _ => pure ()) u) :=
    does_perform hbegun hraises fun _ t _ => does_here hended t
  rwa [bind_pure_unit] at h

end Machine

end Rubric.Script
