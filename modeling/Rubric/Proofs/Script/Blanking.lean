import Rubric.Proofs.Script.MachineRuns
import Rubric.Proofs.Script.Mentions
import Rubric.Proofs.Script.RenamedExpressions

/-!
# Scripts without the values of a variable

A script that never reads a variable does the same where nothing but null is assigned to it.  The two
scripts are run side by side, step by step: what they have left to do is the same but for the values that
are blanked, and their states are the same but for what the variable holds, and for the tags that are not
given out where no value is computed.

* `Program.blank` : a script with null for the values that it assigns to a variable;
* `Machine.Matches` : machines whose states and tasks are alike but for a variable and a renaming of tags;
* `Machine.Matches.step` : such machines stay alike in every step that does not assign the variable.
-/

namespace Rubric.Script

/-! ## Blanking a variable -/

mutual

/-- A statement with null for the values that it assigns to a variable, at any depth. -/
def Stmt.blank (name : String) : Stmt → Stmt
  | .assign line var [] value => .assign line var [] (if "$" ++ var = name then .null else value)
  | .assign line var (field :: path) value => .assign line var (field :: path) value
  | .branch line condition body rest => .branch line condition (Stmt.blankAll name body) (rest.blank name)
  | .foreach line var collection body => .foreach line var collection (Stmt.blankAll name body)
  | .call line function args => .call line function args

/-- Alternatives with null for the values that they assign to a variable. -/
def Alternatives.blank (name : String) : Alternatives → Alternatives
  | .done => .done
  | .otherwise body => .otherwise (Stmt.blankAll name body)
  | .elif condition body rest => .elif condition (Stmt.blankAll name body) (rest.blank name)

/-- Statements with null for the values that they assign to a variable. -/
def Stmt.blankAll (name : String) : List Stmt → List Stmt
  | [] => []
  | s :: ss => s.blank name :: Stmt.blankAll name ss

end

/-- A script with null for the values that it assigns to a variable. -/
def Program.blank (name : String) (p : Program) : Program :=
  { p with statements := Stmt.blankAll name p.statements }

/-! ## The elements of a loop -/

/-- Refusing a collection that lost or gained entries, as an action on values. -/
def keepsEntries (collection : Value) (entries : Option Nat) : Eval Unit := do
  if entryCount? (← get) collection ≠ entries then throw (.access .changedDuringIteration)

/-- The element at a position of a collection, as an action on values. -/
def elementIn (collection : Value) (entries : Option Nat) (position : Nat) (_ : Locals) :
    Eval (Option Value) := do
  keepsEntries collection entries
  return (← Eval.ofExcept (collection.items (← get)))[position]?

theorem elementAt_eq_ofEval (collection : Value) (entries : Option Nat) (position : Nat) :
    elementAt collection entries position = Exec.ofEval (elementIn collection entries position) := by
  have hcheck : checkEntries collection entries = Exec.ofEval fun _ => keepsEntries collection entries := by
    funext s
    by_cases hsame : entryCount? s.store collection ≠ entries
    · simp only [checkEntries, Exec.ofEval, keepsEntries, bind_of_ok (get_ok _), if_pos hsame]
      rfl
    · simp only [checkEntries, Exec.ofEval, keepsEntries, bind_of_ok (get_ok _), if_neg hsame]
      rfl
  rw [elementAt, hcheck]
  exact ofEval_bind _ _

theorem renames_elementIn {ρ : Tag → Tag} (collection : Value) (entries : Option Nat) (position : Nat)
    (locals locals' : Locals) :
    Renames ρ (Option.map (Value.retag ρ)) (elementIn collection entries position locals)
      (elementIn (collection.retag ρ) entries position locals') := by
  have hkeeps : Renames ρ id (keepsEntries collection entries)
      (keepsEntries (collection.retag ρ) entries) := by
    refine renames_look fun σ next => ?_
    rw [entryCount?_retag]
    split
    · exact renames_throw _
    · exact renames_pure ()
  refine hkeeps.bind fun _ => (renames_items collection).bind fun elements => ?_
  rw [List.getElem?_map]
  exact renames_pure _

/-! ## States that differ by a variable -/

section

variable (ρ : Tag → Tag) (name : String)

/-- Whether local variables have the same names and, but for one, the same values up to a renaming of
tags. -/
inductive LocalsMatch : Locals → Locals → Prop where
  | nil : LocalsMatch [] []
  | cons {other : String} {v v' : Value} {locals locals' : Locals} (value_eq : other ≠ name → v' = v.retag ρ)
      (rest : LocalsMatch locals locals') : LocalsMatch ((other, v) :: locals) ((other, v') :: locals')

/-- Whether states of runs are the same up to a renaming of tags, but for the value of a variable. -/
structure RunState.Matches (s s' : RunState) : Prop where
  store_eq : s'.store = s.store.retag ρ s'.store.nextTag
  locals : LocalsMatch ρ name s.locals s'.locals

end

namespace LocalsMatch

variable {ρ : Tag → Tag} {name : String} {locals locals' : Locals}

/-- Other variables have the same values. -/
theorem lookup (h : LocalsMatch ρ name locals locals') {other : String} (hother : other ≠ name) :
    locals'.lookup other = (locals.lookup other).map (Value.retag ρ) := by
  induction h with
  | nil => rfl
  | @cons n v v' locals locals' value_eq rest ih =>
      by_cases hname : other = n
      · subst hname
        rw [List.lookup_cons, List.lookup_cons, beq_self_eq_true, value_eq hother]
        rfl
      · rw [List.lookup_cons, List.lookup_cons, beq_false_of_ne hname]
        exact ih

/-- A variable is set to the same value, or is the one that may differ. -/
theorem setNamed (h : LocalsMatch ρ name locals locals') {other : String} {v v' : Value}
    (hvalue : other ≠ name → v' = v.retag ρ) :
    LocalsMatch ρ name (Value.setNamed other v locals) (Value.setNamed other v' locals') := by
  induction h with
  | nil => exact .cons hvalue .nil
  | @cons n w w' locals locals' value_eq rest ih =>
      rw [Value.setNamed, Value.setNamed]
      split
      · rename_i heq
        exact .cons (fun hne => hvalue (heq ▸ hne)) rest
      · exact .cons value_eq ih

end LocalsMatch

/-! ## Machines that differ by a variable -/

/-- Whether none of some statements reads a variable. -/
def Unread (name : String) (ss : List Stmt) : Prop := ∀ s ∈ ss, name ∉ s.reads

/-- Whether none of some expressions reads a variable. -/
def UnreadBy (name : String) (es : List Expr) : Prop := name ∉ (Expr.walkAll es).filterMap Expr.readVar?

section

variable (ρ : Tag → Tag) (name : String)

/-- Whether what is left to do is the same up to a renaming of tags, but for blanked values of a variable
that is not read. -/
inductive TasksMatch : List Task → List Task → Prop where
  | nil : TasksMatch [] []
  | start {s : Stmt} {tasks tasks' : List Task} (unread : Unread name s.walk)
      (rest : TasksMatch tasks tasks') : TasksMatch (.start (s.blank name) :: tasks) (.start s :: tasks')
  | choose {rest : Alternatives} {tasks tasks' : List Task} (unread : Unread name rest.walk)
      (conditions : UnreadBy name rest.conditions) (others : TasksMatch tasks tasks') :
      TasksMatch (.choose (rest.blank name) :: tasks) (.choose rest :: tasks')
  | round {var : String} {body : List Stmt} {collection : Value} {entries : Option Nat} {position : Nat}
      {tasks tasks' : List Task} (unread : Unread name (Stmt.walkAll body)) (rest : TasksMatch tasks tasks') :
      TasksMatch (.round var (Stmt.blankAll name body) collection entries position :: tasks)
        (.round var body (collection.retag ρ) entries position :: tasks')
  | finish {tasks tasks' : List Task} (rest : TasksMatch tasks tasks') :
      TasksMatch (.finish :: tasks) (.finish :: tasks')

/-- Whether machines are in states that match, with tasks that match, and stopped with the same fault if
they did. -/
structure Machine.Matches (m m' : Machine) : Prop where
  state : m.state.Matches ρ name m'.state
  tasks : TasksMatch ρ name m.tasks m'.tasks
  raised_eq : m'.raised = m.raised

end

/-- The tag that a machine gives out next. -/
def Machine.nextTag (m : Machine) : Tag := m.state.store.nextTag

/-- Whether machines that gave out tags since others match, where a renaming takes those that the one gave
out to those that the other did. -/
def Machine.Stays (ρ : Tag → Tag) (name : String) (next next' : Tag) (m m' : Machine) : Prop :=
  ∃ k, m.nextTag = next.advance k ∧
    (LinesUp ρ next next' k → m.Matches ρ name m' ∧ m'.nextTag = next'.advance k)

section

variable {ρ : Tag → Tag} {name : String}

/-- The tasks of a block. -/
theorem TasksMatch.block {tasks tasks' : List Task} (h : TasksMatch ρ name tasks tasks') {body : List Stmt}
    (hunread : Unread name (Stmt.walkAll body)) :
    TasksMatch ρ name (blockTasks (Stmt.blankAll name body) ++ tasks) (blockTasks body ++ tasks') := by
  induction body with
  | nil => exact h
  | cons s body ih =>
      rw [Unread, Stmt.walkAll, List.forall_mem_append] at hunread
      exact .start hunread.1 (ih hunread.2)

/-- What is left to do after the first. -/
theorem TasksMatch.tail {task task' : Task} {tasks tasks' : List Task}
    (h : TasksMatch ρ name (task :: tasks) (task' :: tasks')) : TasksMatch ρ name tasks tasks' := by
  cases h <;> assumption

/-- Where nothing is left to do of the one, nothing is of the other. -/
theorem TasksMatch.eq_nil {tasks : List Task} (h : TasksMatch ρ name tasks []) : tasks = [] := by
  cases h
  rfl

namespace Machine

/-- Machines that match match after both have more to do first. -/
theorem Matches.push {m m' : Machine} (h : m.Matches ρ name m') {first first' : List Task}
    (hfirst : TasksMatch ρ name m.tasks m'.tasks →
      TasksMatch ρ name (first ++ m.tasks) (first' ++ m'.tasks)) :
    (m.push first).Matches ρ name (m'.push first') :=
  ⟨h.state, hfirst h.tasks, h.raised_eq⟩

/-- Whether machines that match go on to machines that match, without giving out tags. -/
def GoOn {α β : Type} (ρ : Tag → Tag) (name : String) (f : α → β) (next : α → Machine → Machine)
    (next' : β → Machine → Machine) : Prop :=
  ∀ a m m', m.Matches ρ name m' → (next a m).Matches ρ name (next' (f a) m') ∧
    (next a m).nextTag = m.nextTag ∧ (next' (f a) m').nextTag = m'.nextTag

/-- Machines that do what is the same up to a renaming of tags stay alike. -/
theorem Matches.perform {m m' : Machine} (h : m.Matches ρ name m') {α β : Type} {f : α → β}
    {action : Locals → Eval α} {action' : Locals → Eval β} {next : α → Machine → Machine}
    {next' : β → Machine → Machine}
    (hrenames : Renames ρ f (action m.state.locals) (action' m'.state.locals))
    (hnext : GoOn ρ name f next next') :
    Stays ρ name m.nextTag m'.nextTag (m.perform (Exec.ofEval action) next)
      (m'.perform (Exec.ofEval action') next') := by
  obtain ⟨k, hk, hrenamed⟩ := hrenames m.state.store
  have hother (hlines : LinesUp ρ m.nextTag m'.nextTag k) : action' m'.state.locals m'.state.store
      = retagResult ρ (m'.nextTag.advance k) f (action m.state.locals m.state.store) := by
    have hrenamed := hrenamed m'.nextTag hlines
    rwa [show m.state.store.retag ρ m'.nextTag = m'.state.store from h.state.store_eq.symm] at hrenamed
  have hmatch (σ : Store) (n : Tag) : Matches ρ name { m with state := { m.state with store := σ } }
      { m' with state := { m'.state with store := σ.retag ρ n } } :=
    ⟨⟨rfl, h.state.locals⟩, h.tasks, h.raised_eq⟩
  unfold Machine.perform Exec.ofEval
  cases hresult : action m.state.locals m.state.store with
  | ok a σ =>
      rw [hresult] at hk hother
      have hgo (n : Tag) := hnext a _ _ (hmatch σ n)
      refine ⟨k, (hgo m'.nextTag).2.1.trans hk, fun hlines => ?_⟩
      rw [hother hlines]
      exact ⟨(hgo _).1, (hgo _).2.2⟩
  | error fault σ =>
      rw [hresult] at hk hother
      refine ⟨k, hk, fun hlines => ?_⟩
      rw [hother hlines]
      exact ⟨⟨(hmatch σ _).state, h.tasks, rfl⟩, rfl⟩

/-- Machines that give out no tag stay alike where they match. -/
theorem Matches.stays {m m' r r' : Machine} (h : r.Matches ρ name r') (hr : r.nextTag = m.nextTag)
    (hr' : r'.nextTag = m'.nextTag) : Stays ρ name m.nextTag m'.nextTag r r' :=
  ⟨0, hr, fun _ => ⟨h, hr'⟩⟩

/-! ## Going on -/

/-- Doing no more. -/
theorem goOn_nothing {α β : Type} {f : α → β} : GoOn ρ name f (fun _ m => m) fun _ m => m :=
  fun _ _ _ h => ⟨h, rfl, rfl⟩

/-- One of two blocks, by a condition. -/
theorem goOn_branch {body : List Stmt} {rest : Alternatives} (hbody : Unread name (Stmt.walkAll body))
    (hrest : Unread name rest.walk) (hconditions : UnreadBy name rest.conditions) :
    GoOn ρ name id
      (fun (holds : Bool) m =>
        m.push (if holds then blockTasks (Stmt.blankAll name body) else [.choose (rest.blank name)]))
      (fun (holds : Bool) m => m.push (if holds then blockTasks body else [.choose rest])) := by
  intro holds m m' h
  refine ⟨h.push fun htasks => ?_, rfl, rfl⟩
  cases holds with
  | true => exact htasks.block hbody
  | false => exact .choose hrest hconditions htasks

/-- Setting a local variable. -/
theorem goOn_setLocal (var : String) : GoOn ρ name (Value.retag ρ)
    (fun v m => { m with state := { m.state with locals := Value.setNamed var v m.state.locals } })
    (fun v m => { m with state := { m.state with locals := Value.setNamed var v m.state.locals } }) :=
  fun _ _ _ h => ⟨⟨⟨h.state.store_eq, h.state.locals.setNamed fun _ => rfl⟩, h.tasks, h.raised_eq⟩, rfl, rfl⟩

/-- Beginning a loop. -/
theorem goOn_beginLoop (var : String) {body : List Stmt} (hbody : Unread name (Stmt.walkAll body)) :
    GoOn ρ name (retagRun ρ) (beginLoop var (Stmt.blankAll name body)) (beginLoop var body) := by
  intro run m m' h
  obtain ⟨collection, entries, elements⟩ := run
  cases elements with
  | nil => exact ⟨h, rfl, rfl⟩
  | cons element elements => exact ⟨h.push fun htasks => .round hbody htasks, rfl, rfl⟩

/-- Going on with a loop. -/
theorem goOn_goOn (var : String) {body : List Stmt} (hbody : Unread name (Stmt.walkAll body))
    (collection : Value) (entries : Option Nat) (position : Nat) :
    GoOn ρ name (Option.map (Value.retag ρ)) (goOn var (Stmt.blankAll name body) collection entries position)
      (goOn var body (collection.retag ρ) entries position) := by
  intro element? m m' h
  cases element? with
  | none => exact ⟨h, rfl, rfl⟩
  | some element =>
      refine ⟨⟨⟨h.state.store_eq, h.state.locals.setNamed fun _ => rfl⟩, ?_, h.raised_eq⟩, rfl, rfl⟩
      show TasksMatch ρ name (blockTasks (Stmt.blankAll name body) ++ [_] ++ m.tasks)
        (blockTasks body ++ [_] ++ m'.tasks)
      rw [List.append_assoc, List.append_assoc]
      exact TasksMatch.block (.round hbody h.tasks) hbody

/-! ## Steps -/

end Machine

/-- A statement that does not read a variable has no expression that does. -/
theorem Unread.expressions {s : Stmt} (h : Unread name s.walk) : UnreadBy name s.expressions := fun hmem =>
  h s s.self_mem_walk (List.mem_append_left _ hmem)

/-- Expressions that do not read a variable, but for the first. -/
theorem UnreadBy.tail {e : Expr} {es : List Expr} (h : UnreadBy name (e :: es)) : UnreadBy name es :=
  fun hmem => h (List.filterMap_subset _ (List.subset_append_right _ _) hmem)

/-- The variables that are read hold the same values, where the one that may differ is not read. -/
theorem LocalsMatch.lookup_of_unread {locals locals' : Locals} (h : LocalsMatch ρ name locals locals')
    {es : List Expr} (hunread : UnreadBy name es) {e : Expr} (he : e ∈ es) :
    ∀ other ∈ e.walk.filterMap Expr.readVar?,
      locals'.lookup other = (locals.lookup other).map (Value.retag ρ) := by
  refine fun other hother => h.lookup fun hname => hunread ?_
  obtain ⟨part, hpart, hread⟩ := List.mem_filterMap.mp hother
  exact List.mem_filterMap.mpr ⟨part, mem_walkAll.mpr ⟨e, he, hpart⟩, hname ▸ hread⟩

namespace Machine

/-- Assigning a variable that is local or not bound sets it. -/
theorem perform_assign_local {env : Environment} {m : Machine} {var : String} {value : Expr}
    (h : (∃ v, m.state.locals.lookup var = some v) ∨ env.binder.get? var = none) :
    m.perform (do assignVar env var (← evaluate env value)) (fun _ m => m)
      = m.perform (Exec.ofEval fun locals => value.eval env locals) fun v m =>
          { m with state := { m.state with locals := Value.setNamed var v m.state.locals } } := by
  have hassign (v : Value) (σ : Store) : assignVar env var v { m.state with store := σ }
      = .ok () ⟨σ, Value.setNamed var v m.state.locals⟩ := by
    unfold assignVar
    rw [bind_of_ok (get_ok _)]
    rcases h with ⟨w, hlocal⟩ | hfree
    · simp only [hlocal]
      rfl
    · cases m.state.locals.lookup var <;> simp only [hfree] <;> rfl
  unfold perform
  cases hresult : Exec.ofEval (fun locals => value.eval env locals) m.state with
  | ok v t =>
      obtain ⟨σ, -, rfl⟩ := ofEval_ok hresult
      have hvalue : evaluate env value m.state = .ok v { m.state with store := σ } := hresult
      rw [bind_of_ok hvalue, hassign]
  | error fault t =>
      have hvalue : evaluate env value m.state = .error fault t := hresult
      rw [bind_of_error hvalue]

/-- Assigning a bound variable that is not local writes the field. -/
theorem perform_assign_bound {env : Environment} {m : Machine} {var : String} {value : Expr}
    {binding : Binding}
    (hlocal : m.state.locals.lookup var = none) (hbound : env.binder.get? var = some binding) :
    m.perform (do assignVar env var (← evaluate env value)) (fun _ m => m)
      = m.perform (Exec.ofEval fun locals => value.eval env locals >>= assignBound env binding)
          fun _ m => m := by
  have hassign : (evaluate env value >>= assignVar env var) m.state
      = (evaluate env value >>= fun v => Exec.ofEval fun _ => assignBound env binding v) m.state := by
    refine bind_congr_of_ok fun v t hvalue => ?_
    obtain ⟨σ, -, rfl⟩ := ofEval_ok hvalue
    unfold assignVar
    rw [bind_of_ok (get_ok _)]
    simp only [hlocal, hbound]
  rw [← ofEval_bind (fun locals => value.eval env locals) fun v _ => assignBound env binding v]
  unfold perform
  rw [← show _ = Exec.ofEval (fun locals => value.eval env locals) from rfl, hassign]
  rfl

variable {env : Environment} (hρ : Function.Injective ρ) (hkeeps : env.Keeps ρ)

include hρ hkeeps

/-- Assigning another variable. -/
theorem Matches.assign {m m' : Machine} (h : m.Matches ρ name m') (var : String) {value : Expr}
    (hother : "$" ++ var ≠ name) (hunread : UnreadBy name [value]) :
    Stays ρ name m.nextTag m'.nextTag
      (m.perform (do assignVar env ("$" ++ var) (← evaluate env value)) fun _ m => m)
      (m'.perform (do assignVar env ("$" ++ var) (← evaluate env value)) fun _ m => m) := by
  have heval := Expr.renames_eval hρ hkeeps value
    (h.state.locals.lookup_of_unread hunread (List.mem_singleton_self value))
  have hlookup := h.state.locals.lookup hother
  cases hbound : env.binder.get? ("$" ++ var) with
  | none =>
      rw [perform_assign_local (.inr hbound), perform_assign_local (.inr hbound)]
      exact h.perform heval (goOn_setLocal _)
  | some binding =>
      cases hlocal : m.state.locals.lookup ("$" ++ var) with
      | none =>
          rw [hlocal] at hlookup
          rw [perform_assign_bound hlocal hbound, perform_assign_bound hlookup hbound]
          exact h.perform (heval.bind fun v => renames_assignBound hρ hkeeps (hkeeps.get? hbound) v)
            goOn_nothing
      | some v =>
          rw [hlocal] at hlookup
          rw [perform_assign_local (.inl ⟨_, hlocal⟩), perform_assign_local (.inl ⟨_, hlookup⟩)]
          exact h.perform heval (goOn_setLocal _)

/-- Machines that begin a statement that assigns another variable stay alike. -/
theorem Matches.begin {m m' : Machine} (h : m.Matches ρ name m') {s : Stmt} (hunread : Unread name s.walk)
    (hother : ∀ line var value, s = .assign line var [] value → "$" ++ var ≠ name) :
    Stays ρ name m.nextTag m'.nextTag (Machine.begin env (s.blank name) m) (Machine.begin env s m') := by
  -- the expressions of the statement do not read the variable, so they are evaluated alike
  have hlookup := fun e he => h.state.locals.lookup_of_unread hunread.expressions (e := e) he
  cases s with
  | assign line var path value =>
      have hvalue := hlookup value (List.mem_singleton_self value)
      cases path with
      | nil =>
          have hne := hother line var value rfl
          rw [Stmt.blank, if_neg hne]
          exact h.assign hρ hkeeps var hne hunread.expressions
      | cons field path =>
          -- whose field is set is read as well
          have howner : "$" ++ var ≠ name := fun heq =>
            hunread _ (Stmt.self_mem_walk _) (List.mem_append_right _ (by simp [Stmt.fieldOwner?, heq]))
          exact h.perform (renames_assignField hρ hkeeps (h.state.locals.lookup howner) hvalue) goOn_nothing
  | branch line condition body rest =>
      have hcondition := hlookup condition List.mem_cons_self
      have hconditions : UnreadBy name rest.conditions := hunread.expressions.tail
      rw [Unread, Stmt.walk, List.forall_mem_cons, List.forall_mem_append] at hunread
      rw [Stmt.blank, Machine.begin, Machine.begin, conditionHolds_eq]
      exact h.perform (renames_truthOf hρ hkeeps hcondition)
        (goOn_branch hunread.2.1 hunread.2.2 hconditions)
  | foreach line var collection body =>
      have hcollection := hlookup collection (List.mem_singleton_self collection)
      rw [Unread, Stmt.walk, List.forall_mem_cons] at hunread
      rw [Stmt.blank, Machine.begin, Machine.begin]
      split
      · exact Matches.stays ⟨h.state, h.tasks, rfl⟩ rfl rfl
      · exact h.perform (renames_loopElements hρ hkeeps hcollection) (goOn_beginLoop _ hunread.2)
  | call line function args =>
      exact h.perform (Expr.renames_eval hρ hkeeps _ (hlookup _ List.mem_cons_self)) goOn_nothing

/-- Machines that match stay alike in a step that does not assign the variable. -/
theorem Matches.step {m m' : Machine} (h : m.Matches ρ name m')
    (hother : ∀ line var value tasks, m'.tasks = .start (.assign line var [] value) :: tasks →
      "$" ++ var ≠ name) :
    Stays ρ name m.nextTag m'.nextTag (m.step env) (m'.step env) := by
  obtain ⟨state, active, tasks, rounds, raised⟩ := m
  obtain ⟨state', active', tasks', rounds', raised'⟩ := m'
  obtain ⟨hstate, htasks, hraised⟩ := h
  dsimp only at hstate htasks hraised hother
  subst hraised
  cases raised' with
  | some fault => exact Matches.stays ⟨hstate, htasks, rfl⟩ rfl rfl
  | none =>
      -- one case for each task that can come next
      cases htasks with
      | nil => exact Matches.stays ⟨hstate, .nil, rfl⟩ rfl rfl
      | @start s tasks tasks' unread rest =>
          have hmatch : Matches ρ name ⟨state, s.blank name :: active, _, rounds, none⟩
              ⟨state', s :: active', _, rounds', none⟩ := ⟨hstate, .finish rest, rfl⟩
          exact hmatch.begin hρ hkeeps unread fun line var value hs =>
            hother line var value tasks' (congrArg (Task.start · :: tasks') hs)
      | choose unread conditions others =>
          rename_i alternatives tasks tasks'
          cases alternatives with
          | done => exact Matches.stays ⟨hstate, others, rfl⟩ rfl rfl
          | otherwise body => exact Matches.stays ⟨hstate, others.block unread, rfl⟩ rfl rfl
          | elif condition body rest =>
              have hcondition := hstate.locals.lookup_of_unread conditions List.mem_cons_self
              rw [Unread, Alternatives.walk, List.forall_mem_append] at unread
              have hmatch : Matches ρ name ⟨state, active, _, rounds, none⟩
                  ⟨state', active', _, rounds', none⟩ := ⟨hstate, others, rfl⟩
              have hstays := hmatch.perform (renames_truthOf hρ hkeeps hcondition)
                (goOn_branch unread.1 unread.2 conditions.tail)
              rwa [← conditionHolds_eq] at hstays
      | @round var body collection entries position tasks tasks' unread rest =>
          have hmatch : Matches ρ name ⟨state, active, _, rounds, none⟩
              ⟨state', active', _, rounds', none⟩ := ⟨hstate, rest, rfl⟩
          have hstays := hmatch.perform (renames_elementIn collection entries position _ _)
            (goOn_goOn var unread collection entries position)
          rwa [← elementAt_eq_ofEval, ← elementAt_eq_ofEval] at hstays
      | finish rest => exact Matches.stays ⟨hstate, rest, rfl⟩ rfl rfl

end Machine

end

end Rubric.Script
