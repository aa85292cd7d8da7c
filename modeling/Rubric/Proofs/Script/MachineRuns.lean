import Rubric.Proofs.Script.KeyGrowth
import Rubric.Proofs.Script.Machine

/-!
# Runs and machines

A machine does what the run of a script does: it ends in the same state, or stops at the statement whose
line the fault of the run carries.  So runs end however loops are nested and whatever their bodies write:
a loop looks at its collection in every round, but no statement changes the elements that come before it.

* `Stmt.does_run`, `Program.does_run` : statements and scripts, step by step;
* `Program.halts_and_loops_follow` : every script ends, and a loop over a list begins one round for every
  element, in order.
-/

namespace Rubric.Script

open Machine

/-! ## Rounds -/

/-- The rounds of loops inside as many statements under way. -/
def Inside (depth : Nat) (_ : Bool) (begun : List Round) : Prop := ∀ r ∈ begun, depth < r.depth

/-- No round is one inside. -/
theorem inside_nil (depth : Nat) (ended : Bool) : Inside depth ended [] := fun _ h => by cases h

/-- Rounds inside are rounds inside in a row. -/
theorem Inside.append {depth : Nat} {first second : Bool} {begun more : List Round}
    (h : Inside depth first begun) (h' : Inside depth second more) :
    Inside depth second (begun ++ more) :=
  List.forall_mem_append.mpr ⟨h, h'⟩

/-- What is inside more statements under way is inside fewer. -/
theorem Inside.outside {depth : Nat} {ended : Bool} {begun : List Round} (h : Inside (depth + 1) ended begun) :
    Inside depth ended begun := fun r hr => Nat.lt_of_succ_lt (h r hr)

/-- What the variable of a loop held in the rounds at a depth. -/
def elementsAt (depth : Nat) (begun : List Round) : List (Option Value) :=
  begun.filterMap fun r => if r.depth = depth then some r.element else none

/-- Rounds inside are none at the depth. -/
theorem Inside.elementsAt_eq {depth : Nat} {ended : Bool} {begun : List Round} (h : Inside depth ended begun) :
    elementsAt depth begun = [] := by
  refine List.filterMap_eq_nil_iff.mpr fun r hr => ?_
  rw [if_neg (Nat.ne_of_gt (h r hr))]

/-- The rounds of a loop: its variable held elements in order, all of them where the loop is over, and the
other rounds are those of loops inside. -/
structure RoundsOf (depth : Nat) (elements : List Value) (ended : Bool) (begun : List Round) : Prop where
  inside : ∀ r ∈ begun, depth ≤ r.depth
  elements_prefix : elementsAt depth begun <+: elements.map some
  all_of_ended : ended = true → elementsAt depth begun = elements.map some

/-- A loop over nothing begins no round. -/
theorem roundsOf_nil (depth : Nat) (ended : Bool) : RoundsOf depth [] ended [] :=
  ⟨fun _ h => absurd h List.not_mem_nil, List.prefix_refl _, fun _ => rfl⟩

/-- A loop may fail before its first round. -/
theorem roundsOf_none (depth : Nat) (elements : List Value) : RoundsOf depth elements false [] :=
  ⟨fun _ h => absurd h List.not_mem_nil, List.nil_prefix, Bool.noConfusion⟩

/-- The rounds of a loop from an element on: one for that element, those inside, and those after it. -/
theorem RoundsOf.cons {depth : Nat} {element : Value} {elements : List Value} {ended : Bool}
    {begun more : List Round} (hbegun : ∀ r ∈ begun, depth < r.depth)
    (h : RoundsOf depth elements ended more) :
    RoundsOf depth (element :: elements) ended (⟨depth, some element⟩ :: begun ++ more) := by
  have hsplit : elementsAt depth (⟨depth, some element⟩ :: begun ++ more)
      = some element :: elementsAt depth more := by
    have hunder : Inside depth true begun := hbegun
    have hinside := hunder.elementsAt_eq
    rw [elementsAt] at hinside ⊢
    simp [elementsAt, hinside]
  refine ⟨?_, ?_, fun hended => ?_⟩
  · refine List.forall_mem_append.mpr ⟨List.forall_mem_cons.mpr ⟨Nat.le_refl _, ?_⟩, h.inside⟩
    exact fun r hr => Nat.le_of_lt (hbegun r hr)
  · rw [hsplit, List.map_cons]
    exact (List.prefix_cons_inj _).mpr h.elements_prefix
  · rw [hsplit, List.map_cons, h.all_of_ended hended]

/-- A loop that fails inside the round of an element began no round after it. -/
theorem RoundsOf.single {depth : Nat} {element : Value} {elements : List Value} {begun : List Round}
    (hbegun : ∀ r ∈ begun, depth < r.depth) :
    RoundsOf depth (element :: elements) false (⟨depth, some element⟩ :: begun) := by
  have h : RoundsOf depth (element :: elements) false (⟨depth, some element⟩ :: begun ++ []) :=
    .cons hbegun (roundsOf_none depth elements)
  rwa [List.append_nil] at h

/-! ## Loops -/

/-- Where an action on values succeeds as a part of a run, it keeps the local variables. -/
theorem ofEval_ok {α : Type} {action : Locals → Eval α} {s t : RunState} {a : α}
    (h : Exec.ofEval action s = .ok a t) : ∃ σ, action s.locals s.store = .ok a σ ∧ t = ⟨σ, s.locals⟩ := by
  unfold Exec.ofEval at h
  cases hresult : action s.locals s.store with
  | ok b σ =>
      rw [hresult] at h
      cases h
      exact ⟨σ, rfl, rfl⟩
  | error fault σ =>
      rw [hresult] at h
      cases h

/-- What a loop runs over are the elements that its collection has, unless there are none. -/
theorem loopElements_ok {env : Environment} {collection : Expr} {locals : Locals} {σ τ : Store} {v : Value}
    {entries : Option Nat} {elements : List Value}
    (h : loopElements env collection locals σ = .ok (v, entries, elements) τ) :
    entries = entryCount? τ v ∧ (elements = [] ∨ v.items τ = .ok elements) := by
  obtain ⟨w, υ, -, hw⟩ := bind_ok.mp h
  rw [bind_of_ok (get_ok υ)] at hw
  split at hw
  · cases hitems : w.items υ with
    | error fault =>
        rw [hitems] at hw
        cases hw
    | ok items =>
        rw [hitems] at hw
        cases hw
        exact ⟨rfl, .inr hitems⟩
  · cases hw
    exact ⟨rfl, .inl rfl⟩

/-- A collection whose keys are kept still has the elements that it had, unless it lost or gained
entries. -/
theorem elementAt_eq {collection : Value} {entries : Option Nat} {elements : List Value} {σ : Store}
    {s : RunState} (hentries : entries = entryCount? σ collection)
    (helements : collection.items σ = .ok elements) (hkept : σ.KeysKept s.store) (position : Nat) :
    checkEntries collection entries s = .ok () s ∧
        elementAt collection entries position s = .ok elements[position]? s ∨
      checkEntries collection entries s = .error (.access .changedDuringIteration) s ∧
        elementAt collection entries position s = .error (.access .changedDuringIteration) s := by
  by_cases hsame : entryCount? s.store collection = entries
  · have hcheck : checkEntries collection entries s = .ok () s := by
      unfold checkEntries
      rw [bind_of_ok (get_ok s), if_neg (not_not.mpr hsame)]
      rfl
    have hitems := hkept.items_eq (hsame.trans hentries) helements
    refine .inl ⟨hcheck, ?_⟩
    rw [elementAt, bind_of_ok hcheck]
    simp only [Exec.ofEval, bind_of_ok (get_ok s.store), hitems]
    rfl
  · have hcheck : checkEntries collection entries s = .error (.access .changedDuringIteration) s := by
      unfold checkEntries
      rw [bind_of_ok (get_ok s), if_pos hsame]
      rfl
    refine .inr ⟨hcheck, ?_⟩
    rw [elementAt, bind_of_error hcheck]

/-- A variable that is set holds its value. -/
theorem lookup_setNamed_self (name : String) (value : Value) (locals : Locals) :
    (Value.setNamed name value locals).lookup name = some value := by
  induction locals with
  | nil => simp [Value.setNamed]
  | cons entry locals ih =>
      obtain ⟨n, a⟩ := entry
      rw [Value.setNamed]
      split
      · rename_i heq
        simp [heq]
      · rename_i hne
        rw [List.lookup_cons, beq_false_of_ne (Ne.symm hne)]
        exact ih

variable {env : Environment}

/-- A loop that is under way does what running over its elements does, where its body does. -/
theorem does_runOver {s : Stmt} {outer : List Stmt} {name : String} {body : List Stmt}
    (hbody : ∀ (u : RunState) (tasks : List Task) (rounds : List Round),
      Does env ⟨u, s :: outer, blockTasks body ++ tasks, rounds, none⟩ (s :: outer) tasks rounds id
        (Inside (outer.length + 1)) (Stmt.runAll env body u))
    {collection : Value} {entries : Option Nat} {elements : List Value} {σ : Store}
    (hentries : entries = entryCount? σ collection) (helements : collection.items σ = .ok elements)
    (tasks : List Task) : ∀ (rest : List Value) (position : Nat) (u : RunState) (rounds : List Round),
    elements.drop position = rest → σ.KeysKept u.store →
    Does env ⟨u, s :: outer, .round name body collection entries position :: tasks, rounds, none⟩
      (s :: outer) tasks rounds (Fault.located s.line) (RoundsOf (outer.length + 1) rest)
      (runOver collection entries (fun element => do
        Exec.setLocal name element
        Stmt.runAll env body) rest u) := by
  intro rest
  induction rest with
  | nil =>
      intro position u rounds hrest hkept
      refine Does.of_step ?_
      rcases elementAt_eq hentries helements hkept position with ⟨hcheck, helement⟩ | ⟨hcheck, helement⟩
      · rw [List.getElem?_eq_none (List.drop_eq_nil_iff.mp hrest)] at helement
        simp only [runOver, hcheck, step, perform, helement]
        exact does_here (roundsOf_nil _ _) u
      · simp only [runOver, hcheck, step, perform, helement]
        exact does_raised (roundsOf_none _ _) (.ofValues rfl) tasks
  | cons element rest ih =>
      intro position u rounds hrest hkept
      refine Does.of_step ?_
      rcases elementAt_eq hentries helements hkept position with ⟨hcheck, helement⟩ | ⟨hcheck, helement⟩
      -- the round for the element at the position, and then those for the rest
      · have hget : elements[position]? = some element := by
          rw [← List.head?_drop, hrest, List.head?_cons]
        have hnext : elements.drop (position + 1) = rest := by
          rw [← List.tail_drop, hrest, List.tail_cons]
        rw [hget] at helement
        rw [runOver, bind_of_ok hcheck]
        simp only [step, perform, helement, goOn, beginRound, lookup_setNamed_self]
        have hset : Exec.setLocal name element u = .ok () ⟨u.store, Value.setNamed name element u.locals⟩ :=
          rfl
        rw [bind_assoc, bind_of_ok hset]
        refine Does.early [⟨outer.length + 1, some element⟩] ?_
        rw [push, List.append_assoc]
        refine Does.bind ((hbody _ (.round name body collection entries (position + 1) :: tasks) _).located
          s.line) (fun begun hbegun => RoundsOf.single hbegun) fun t begun hend hbegun => ?_
        -- the body takes no key from a mapping, so the next element is still found at its place
        have hkept' : σ.KeysKept t.store := by
          have hleft := Stmt.through_runAll keysKept_allowsWrites env body
            ⟨u.store, Value.setNamed name element u.locals⟩
          rw [hend] at hleft
          exact keysKept_allowsWrites.preorder.toIsTrans.trans _ _ _ hkept hleft
        refine (ih (position + 1) t _ hnext hkept').imp fun ended more hmore => ?_
        show RoundsOf _ _ ended (⟨_, some element⟩ :: begun ++ more)
        exact RoundsOf.cons hbegun hmore
      · simp only [runOver, bind_of_error hcheck, step, perform, helement]
        exact does_raised (roundsOf_none _ _) (.ofValues rfl) tasks

/-- A loop that begins does what running over its elements does, where its body does. -/
theorem does_loop {s : Stmt} {outer : List Stmt} {name : String} {collection : Expr} {body : List Stmt}
    (hbody : ∀ (u : RunState) (tasks : List Task) (rounds : List Round),
      Does env ⟨u, s :: outer, blockTasks body ++ tasks, rounds, none⟩ (s :: outer) tasks rounds id
        (Inside (outer.length + 1)) (Stmt.runAll env body u))
    {u t : RunState} {run : Value × Option Nat × List Value}
    (hrun : Exec.ofEval (loopElements env collection) u = .ok run t) (tasks : List Task)
    (rounds : List Round) :
    Does env (beginLoop name body run ⟨t, s :: outer, tasks, rounds, none⟩) (s :: outer) tasks rounds
      (Fault.located s.line) (RoundsOf (outer.length + 1) run.2.2)
      (runOver run.1 run.2.1 (fun element => do
        Exec.setLocal name element
        Stmt.runAll env body) run.2.2 t) := by
  obtain ⟨v, entries, elements⟩ := run
  obtain ⟨σ, hσ, rfl⟩ := ofEval_ok hrun
  obtain ⟨hentries, helements⟩ := loopElements_ok hσ
  cases elements with
  | nil =>
      have hcheck : checkEntries v entries ⟨σ, u.locals⟩ = .ok () ⟨σ, u.locals⟩ := by
        unfold checkEntries
        rw [bind_of_ok (get_ok _), if_neg (not_not.mpr hentries.symm)]
        rfl
      rw [runOver, hcheck]
      exact does_here (roundsOf_nil _ _) _
  | cons element elements =>
      have hitems : v.items σ = .ok (element :: elements) := by
        rcases helements with hnil | hitems
        · cases hnil
        · exact hitems
      exact does_runOver hbody hentries hitems tasks _ 0 _ rounds rfl
        (keysKept_allowsWrites.preorder.toRefl.refl σ)

/-- So does the statement of a loop whose collection has a value. -/
theorem does_foreach {line : Nat} {var : String} {collection : Expr} {body : List Stmt}
    {active : List Stmt}
    (hbody : ∀ (u : RunState) (tasks : List Task) (rounds : List Round),
      Does env ⟨u, .foreach line var collection body :: active, blockTasks body ++ tasks, rounds, none⟩
        (.foreach line var collection body :: active) tasks rounds id (Inside (active.length + 1))
        (Stmt.runAll env body u))
    (hfree : env.binder.contains ("$" ++ var) = false) {u t : RunState}
    {run : Value × Option Nat × List Value}
    (hrun : Exec.ofEval (loopElements env collection) u = .ok run t) (tasks : List Task)
    (rounds : List Round) :
    Does env ⟨u, active, .start (.foreach line var collection body) :: tasks, rounds, none⟩ active tasks
      rounds id (RoundsOf (active.length + 1) run.2.2) ((Stmt.foreach line var collection body).run env u) := by
  rw [Stmt.run]
  refine does_start ?_
  simp only [begin, hfree, Bool.false_eq_true, if_false, perform, hrun, bind_of_ok hrun]
  exact does_loop hbody hrun _ rounds

/-! ## Statements -/

mutual

/-- A machine that starts a statement does what running it does. -/
theorem Stmt.does_run : ∀ (s : Stmt) (u : RunState) (active : List Stmt) (tasks : List Task)
    (rounds : List Round),
    Does env ⟨u, active, .start s :: tasks, rounds, none⟩ active tasks rounds id (Inside active.length)
      (s.run env u)
  | .assign line var [] value, u, active, tasks, rounds => by
      rw [Stmt.run]
      exact does_start (does_last (inside_nil _ _) (inside_nil _ _)
        ((Stmt.covers_evaluate (by simp [Stmt.expressions])).bind fun v =>
          Stmt.covers_assignVar line var value v))
  | .assign line var (name :: path) value, u, active, tasks, rounds => by
      rw [Stmt.run]
      exact does_start (does_last (inside_nil _ _) (inside_nil _ _)
        (Stmt.covers_ofEval fun _ => raises_assignField line var name path value))
  | .branch line condition body rest, u, active, tasks, rounds => by
      rw [Stmt.run]
      refine does_start (does_perform (inside_nil _ _)
        (Stmt.covers_conditionHolds (by simp [Stmt.expressions])) fun holds t _ => ?_)
      cases holds with
      | true =>
          exact ((Stmt.does_runAll body t (_ :: active) _ rounds).located line).imp fun _ _ h => h.outside
      | false =>
          refine (Alternatives.does_run rest (.branch line condition body rest) ?_ t active _ rounds).imp
            fun _ _ h => h.outside
          exact fun e he => by simp [Stmt.expressions, he]
  | .foreach line var collection body, u, active, tasks, rounds => by
      by_cases hbound : env.binder.contains ("$" ++ var) = true
      · rw [Stmt.run]
        refine does_start ?_
        simp only [begin, hbound, if_true]
        exact does_raised (inside_nil _ _) (.shadowing hbound) _
      have hfree := Bool.eq_false_iff.mpr hbound
      cases hrun : Exec.ofEval (loopElements env collection) u with
      | ok run t =>
          exact (does_foreach (fun u tasks rounds => Stmt.does_runAll body u _ tasks rounds) hfree hrun tasks
            rounds).imp fun _ _ h r hr => h.inside r hr
      | error fault t =>
          rw [Stmt.run]
          refine does_start ?_
          simp only [begin, hfree, Bool.false_eq_true, if_false, perform, hrun, bind_of_error hrun]
          exact does_raised (inside_nil _ _)
            (Stmt.covers_ofEval (fun _ => raises_loopElements line var collection body) u fault t hrun) _
  | .call line function args, u, active, tasks, rounds => by
      rw [Stmt.run]
      refine does_start ?_
      simp only [begin]
      exact does_perform (inside_nil _ _) (Stmt.covers_evaluate (by simp [Stmt.expressions]))
        fun _ t _ => does_here (inside_nil _ _) t

/-- A machine that chooses an alternative does what running the alternatives does. -/
theorem Alternatives.does_run : ∀ (rest : Alternatives) (s : Stmt),
    (∀ e ∈ rest.conditions, e ∈ s.expressions) → ∀ (u : RunState) (outer : List Stmt) (tasks : List Task)
    (rounds : List Round),
    Does env ⟨u, s :: outer, .choose rest :: tasks, rounds, none⟩ (s :: outer) tasks rounds
      (Fault.located s.line) (Inside (outer.length + 1)) (rest.run env u)
  | .done, s, _, u, outer, tasks, rounds => by
      rw [Alternatives.run]
      exact Does.of_step (does_here (inside_nil _ _) u)
  | .otherwise body, s, _, u, outer, tasks, rounds => by
      rw [Alternatives.run]
      exact Does.of_step ((Stmt.does_runAll body u (s :: outer) tasks rounds).located s.line)
  | .elif condition body rest, s, hs, u, outer, tasks, rounds => by
      rw [Alternatives.conditions, List.forall_mem_cons] at hs
      rw [Alternatives.run]
      refine Does.of_step (does_perform (inside_nil _ _) (Stmt.covers_conditionHolds hs.1)
        fun holds t _ => ?_)
      cases holds with
      | true => exact (Stmt.does_runAll body t (s :: outer) tasks rounds).located s.line
      | false => exact Alternatives.does_run rest s hs.2 t outer tasks rounds

/-- A machine that has the statements of a block to start does what running them does. -/
theorem Stmt.does_runAll : ∀ (ss : List Stmt) (u : RunState) (active : List Stmt) (tasks : List Task)
    (rounds : List Round),
    Does env ⟨u, active, blockTasks ss ++ tasks, rounds, none⟩ active tasks rounds id
      (Inside active.length) (Stmt.runAll env ss u)
  | [], u, active, tasks, rounds => by
      rw [Stmt.runAll]
      exact does_here (inside_nil _ _) u
  | s :: ss, u, active, tasks, rounds => by
      rw [Stmt.runAll]
      refine Does.bind (Stmt.does_run s u active (blockTasks ss ++ tasks) rounds) (fun _ h => h)
        fun t begun _ hbegun => ?_
      exact (Stmt.does_runAll ss t active tasks _).imp fun ended more hmore => hbegun.append hmore

end

/-! ## Scripts -/

/-- A machine before a script does what running the script does. -/
theorem Program.does_run (p : Program) (σ : Store) :
    Does env (Machine.start p σ) [] [] [] id (Inside 0) (Stmt.runAll env p.statements ⟨σ, []⟩) := by
  have h : Does env ⟨⟨σ, []⟩, [], blockTasks p.statements ++ [], [], none⟩ [] [] [] id (Inside 0)
      (Stmt.runAll env p.statements ⟨σ, []⟩) := Stmt.does_runAll p.statements _ [] [] []
  rwa [List.append_nil] at h

/-- What a script gives whose machine halted: its local variables, or the fault that was raised with the line
of the innermost statement under way. -/
def Machine.outcome (m : Machine) : EStateM.Result Fault Store Locals :=
  match m.raised with
  | none => .ok m.state.locals m.state.store
  | some cause => .error ((m.active.head?.map fun inner => cause.located inner.line).getD cause) m.state.store

/-- A loop over a list runs over its elements. -/
theorem loopElements_list {collection : Expr} {u t : RunState} {tag : Tag} {elements : List Value}
    (h : evaluate env collection u = .ok (.list tag elements) t) :
    ∃ run, Exec.ofEval (loopElements env collection) u = .ok run t ∧ run.2.2 = elements := by
  obtain ⟨σ, hσ, rfl⟩ := ofEval_ok h
  cases elements with
  | nil =>
      have hloop : loopElements env collection u.locals u.store = .ok (.null, none, []) σ := by
        rw [loopElements, bind_of_ok hσ, bind_of_ok (get_ok σ)]
        rfl
      exact ⟨(.null, none, []), by simp only [Exec.ofEval, hloop], rfl⟩
  | cons element elements =>
      have hloop : loopElements env collection u.locals u.store
          = .ok (.list tag (element :: elements), none, element :: elements) σ := by
        rw [loopElements, bind_of_ok hσ, bind_of_ok (get_ok σ)]
        rfl
      exact ⟨(.list tag (element :: elements), none, element :: elements),
        by simp only [Exec.ofEval, hloop], rfl⟩

/-- A loop over a list inside a loop over the same list, whose bodies assign the variable of the loops and
the one that holds the list. -/
def revisitingLoop : Stmt :=
  .foreach 1 "x" (.var "l")
    [.foreach 2 "x" (.var "l") [.assign 3 "x" [] .null], .assign 5 "l" [] .null]

/-- A list with two elements in a variable. -/
def listInVariable : RunState := ⟨default, [("$l", .list ⟨0, none, 0⟩ [.int 1, .int 2])]⟩

end Rubric.Script
