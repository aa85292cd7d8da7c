import Rubric.Proofs.Binder
import Rubric.Script.Interpreter

/-!
# What a script asks its environment

A script asks its environment for variables, for bare names and for the functions that it calls, and
for nothing else.  So it does the same in two environments that answer these alike.  A script that does
not mention a name does not depend on what the name is bound to, unless it is one of the names that
scripts use without mentioning them: the current item, its context, and the relation.

* `Expr.eval_congr`, `Program.run_congr` : expressions and scripts do the same in environments that
  answer alike what they ask for;
* `Expr.eval_sameBut`, `Program.run_sameBut` : so they do in environments that differ in names they do
  not mention.
-/

namespace Rubric.Script

/-! ## Names that are mentioned -/

mutual

/-- The names that an expression mentions. -/
def Expr.mentions : Expr → List String
  | .var ident => ["$" ++ ident]
  | .name ident => [ident]
  | .list items => Expr.mentionsAll items
  | .member target _ => target.mentions
  | .index target key => target.mentions ++ key.mentions
  | .call function args => function :: Expr.mentionsAll args
  | .binary _ left right => left.mentions ++ right.mentions
  | .unary _ operand => operand.mentions
  | _ => []

/-- The names that several expressions mention. -/
def Expr.mentionsAll : List Expr → List String
  | [] => []
  | e :: es => e.mentions ++ Expr.mentionsAll es

end

mutual

/-- The names that a statement mentions. -/
def Stmt.mentions : Stmt → List String
  | .assign _ var _ value => ("$" ++ var) :: value.mentions
  | .branch _ condition body rest => condition.mentions ++ Stmt.mentionsAll body ++ rest.mentions
  | .foreach _ var collection body =>
    ("$" ++ var) :: (collection.mentions ++ Stmt.mentionsAll body)
  | .call _ function args => (Expr.call function args).mentions

/-- The names that alternatives mention. -/
def Alternatives.mentions : Alternatives → List String
  | .done => []
  | .otherwise body => Stmt.mentionsAll body
  | .elif condition body rest => condition.mentions ++ Stmt.mentionsAll body ++ rest.mentions

/-- The names that the statements of a block mention. -/
def Stmt.mentionsAll : List Stmt → List String
  | [] => []
  | s :: ss => s.mentions ++ Stmt.mentionsAll ss

end

/-- The names that a script mentions. -/
def Program.mentions (p : Program) : List String := Stmt.mentionsAll p.statements

/-! ## Environments that answer alike -/

section

variable {env env' : Environment}

/-- Whether two environments answer alike what an expression asks for itself, its parts aside. -/
def Expr.SameIn (env env' : Environment) : Expr → Prop
  | .var ident =>
    ∀ locals, lookupVar env locals ("$" ++ ident) = lookupVar env' locals ("$" ++ ident)
  | .name ident => lookupName env ident = lookupName env' ident
  | .call function _ =>
    ∀ locals args, callNamed env locals function args = callNamed env' locals function args
  | _ => True

/-- Whether two environments take alike what a statement assigns itself, its blocks aside. -/
def Stmt.AssignsSame (env env' : Environment) : Stmt → Prop
  | .assign _ var [] _ => ∀ v, assignVar env ("$" ++ var) v = assignVar env' ("$" ++ var) v
  | .assign _ var (_ :: _) _ =>
    ∀ locals, lookupVar env locals ("$" ++ var) = lookupVar env' locals ("$" ++ var)
  | .foreach _ var _ _ => env.binder.contains ("$" ++ var) = env'.binder.contains ("$" ++ var)
  | _ => True

/-- Whether two environments answer alike what a statement asks for outside its blocks. -/
structure Stmt.SameIn (env env' : Environment) (s : Stmt) : Prop where
  parts : ∀ part ∈ Expr.walkAll s.expressions, part.SameIn env env'
  assigns : s.AssignsSame env env'

mutual

/-- An expression has the same value where all its parts get the same answers. -/
theorem Expr.eval_congr (locals : Locals) : ∀ e : Expr, (∀ part ∈ e.walk, part.SameIn env env') →
    e.eval env locals = e.eval env' locals
  | .str _, _ | .num _, _ | .bool _, _ | .null, _ => rfl
  | .var ident, h => by
      simp only [Expr.eval]
      exact h (.var ident) (by simp [Expr.walk]) locals
  | .name ident, h => by
      simp only [Expr.eval]
      exact h (.name ident) (by simp [Expr.walk])
  | .list items, h => by
      simp only [Expr.walk, List.forall_mem_cons] at h
      simp only [Expr.eval, Expr.evalAll_congr locals items h.2]
  | .member target field, h => by
      simp only [Expr.walk, List.forall_mem_cons] at h
      simp only [Expr.eval, Expr.eval_congr locals target h.2]
  | .index target key, h => by
      simp only [Expr.walk, List.forall_mem_cons, List.forall_mem_append] at h
      simp only [Expr.eval, Expr.eval_congr locals target h.2.1, Expr.eval_congr locals key h.2.2]
  | .call function args, h => by
      simp only [Expr.walk, List.forall_mem_cons] at h
      have hcall (values : List Value) :
          callNamed env locals function values = callNamed env' locals function values :=
        h.1 locals values
      simp only [Expr.eval, Expr.evalAll_congr locals args h.2, hcall]
  | .binary op left right, h => by
      simp only [Expr.walk, List.forall_mem_cons, List.forall_mem_append] at h
      simp only [Expr.eval, Expr.eval_congr locals left h.2.1, Expr.eval_congr locals right h.2.2]
  | .unary op operand, h => by
      simp only [Expr.walk, List.forall_mem_cons] at h
      simp only [Expr.eval, Expr.eval_congr locals operand h.2]

/-- So have several expressions. -/
theorem Expr.evalAll_congr (locals : Locals) : ∀ es : List Expr,
    (∀ part ∈ Expr.walkAll es, part.SameIn env env') →
      Expr.evalAll env locals es = Expr.evalAll env' locals es
  | [], _ => rfl
  | e :: es, h => by
      simp only [Expr.walkAll, List.forall_mem_append] at h
      simp only [Expr.evalAll, Expr.eval_congr locals e h.1, Expr.evalAll_congr locals es h.2]

end

/-- An expression of a statement has the same value. -/
theorem evaluate_congr {e : Expr} (h : ∀ part ∈ e.walk, part.SameIn env env') :
    evaluate env e = evaluate env' e := by
  unfold evaluate
  congr 1
  funext locals
  exact Expr.eval_congr locals e h

/-- A condition holds in both or in none. -/
theorem conditionHolds_congr {e : Expr} (h : ∀ part ∈ e.walk, part.SameIn env env') :
    conditionHolds env e = conditionHolds env' e := by
  unfold conditionHolds
  rw [evaluate_congr h]

/-- A loop runs over the same elements. -/
theorem loopElements_congr {e : Expr} (h : ∀ part ∈ e.walk, part.SameIn env env') :
    loopElements env e = loopElements env' e := by
  funext locals
  unfold loopElements
  rw [Expr.eval_congr locals e h]

/-- Assigning a field of what a variable holds does the same. -/
theorem assignField_congr {locals : Locals} {name : String}
    (hname : lookupVar env locals name = lookupVar env' locals name) (path : List String)
    {value : Expr} (h : ∀ part ∈ value.walk, part.SameIn env env') :
    assignField env locals name path value = assignField env' locals name path value := by
  unfold assignField
  rw [hname, Expr.eval_congr locals value h]

/-- A statement is among the statements in it. -/
theorem Stmt.self_mem_walk (s : Stmt) : s ∈ s.walk := by
  cases s <;> simp [Stmt.walk]

/-- The parts of the one expression of a statement. -/
theorem walkAll_singleton (e : Expr) : Expr.walkAll [e] = e.walk := by
  rw [Expr.walkAll, Expr.walkAll, List.append_nil]

mutual

/-- A statement does the same where all statements in it get the same answers. -/
theorem Stmt.run_congr : ∀ s : Stmt, (∀ s' ∈ s.walk, s'.SameIn env env') → s.run env = s.run env'
  | .assign line var [] value, h => by
      obtain ⟨hparts, hassigns⟩ := h _ (Stmt.self_mem_walk _)
      rw [Stmt.expressions, walkAll_singleton] at hparts
      have hassign (v : Value) : assignVar env ("$" ++ var) v = assignVar env' ("$" ++ var) v :=
        hassigns v
      simp only [Stmt.run, evaluate_congr hparts, hassign]
  | .assign line var (field :: path) value, h => by
      obtain ⟨hparts, hassigns⟩ := h _ (Stmt.self_mem_walk _)
      rw [Stmt.expressions, walkAll_singleton] at hparts
      have hfield (locals : Locals) :
          assignField env locals ("$" ++ var) (field :: path) value
            = assignField env' locals ("$" ++ var) (field :: path) value :=
        assignField_congr (hassigns locals) _ hparts
      simp only [Stmt.run, hfield]
  | .branch line condition body rest, h => by
      simp only [Stmt.walk, List.forall_mem_cons, List.forall_mem_append] at h
      obtain ⟨⟨hparts, -⟩, hbody, hrest⟩ := h
      simp only [Stmt.expressions, Expr.walkAll, List.forall_mem_append] at hparts
      simp only [Stmt.run, conditionHolds_congr hparts.1, Stmt.runAll_congr body hbody,
        Alternatives.run_congr rest hparts.2 hrest]
  | .foreach line var collection body, h => by
      simp only [Stmt.walk, List.forall_mem_cons] at h
      obtain ⟨⟨hparts, hcontains⟩, hbody⟩ := h
      rw [Stmt.expressions, walkAll_singleton] at hparts
      rw [Stmt.AssignsSame] at hcontains
      simp only [Stmt.run, hcontains, loopElements_congr hparts, Stmt.runAll_congr body hbody]
  | .call line function args, h => by
      obtain ⟨hparts, -⟩ := h _ (Stmt.self_mem_walk _)
      rw [Stmt.expressions, walkAll_singleton] at hparts
      simp only [Stmt.run, evaluate_congr hparts]

/-- So do alternatives. -/
theorem Alternatives.run_congr : ∀ rest : Alternatives,
    (∀ part ∈ Expr.walkAll rest.conditions, part.SameIn env env') →
      (∀ s ∈ rest.walk, s.SameIn env env') → rest.run env = rest.run env'
  | .done, _, _ => rfl
  | .otherwise body, _, h => by
      rw [Alternatives.walk] at h
      simp only [Alternatives.run, Stmt.runAll_congr body h]
  | .elif condition body rest, hconditions, h => by
      simp only [Alternatives.conditions, Expr.walkAll, List.forall_mem_append] at hconditions
      simp only [Alternatives.walk, List.forall_mem_append] at h
      simp only [Alternatives.run, conditionHolds_congr hconditions.1, Stmt.runAll_congr body h.1,
        Alternatives.run_congr rest hconditions.2 h.2]

/-- So do the statements of a block. -/
theorem Stmt.runAll_congr : ∀ ss : List Stmt, (∀ s ∈ Stmt.walkAll ss, s.SameIn env env') →
    Stmt.runAll env ss = Stmt.runAll env' ss
  | [], _ => rfl
  | s :: ss, h => by
      simp only [Stmt.walkAll, List.forall_mem_append] at h
      simp only [Stmt.runAll, Stmt.run_congr s h.1, Stmt.runAll_congr ss h.2]

end

/-- A script does the same in two environments that answer alike what it asks for. -/
theorem Program.run_congr {p : Program} (h : ∀ s ∈ p.allStatements, s.SameIn env env') :
    p.run env = p.run env' := by
  funext σ
  unfold Program.run
  rw [Stmt.runAll_congr p.statements h]

end

/-! ## What the parts mention -/

mutual

/-- An expression mentions what its parts do. -/
theorem Expr.mentions_of_mem_walk {part : Expr} : ∀ {e : Expr}, part ∈ e.walk →
    part.mentions ⊆ e.mentions
  | .str _, h | .num _, h | .bool _, h | .null, h | .var _, h | .name _, h => by
      rw [Expr.walk] at h
      · exact List.mem_singleton.mp h ▸ List.Subset.refl _
      all_goals simp
  | .list items, h => by
      rw [Expr.walk, List.mem_cons] at h
      rcases h with rfl | h
      · exact List.Subset.refl _
      · rw [Expr.mentions]
        exact Expr.mentions_of_mem_walkAll h
  | .call function args, h => by
      rw [Expr.walk, List.mem_cons] at h
      rcases h with rfl | h
      · exact List.Subset.refl _
      · rw [Expr.mentions]
        exact List.subset_cons_of_subset _ (Expr.mentions_of_mem_walkAll h)
  | .member operand _, h | .unary _ operand, h => by
      rw [Expr.walk, List.mem_cons] at h
      rcases h with rfl | h
      · exact List.Subset.refl _
      · rw [Expr.mentions]
        exact Expr.mentions_of_mem_walk h
  | .index first second, h | .binary _ first second, h => by
      rw [Expr.walk, List.mem_cons, List.mem_append] at h
      rcases h with rfl | h | h
      · exact List.Subset.refl _
      · rw [Expr.mentions]
        exact List.subset_append_of_subset_left _ (Expr.mentions_of_mem_walk h)
      · rw [Expr.mentions]
        exact List.subset_append_of_subset_right _ (Expr.mentions_of_mem_walk h)

/-- So do several expressions. -/
theorem Expr.mentions_of_mem_walkAll {part : Expr} : ∀ {es : List Expr}, part ∈ Expr.walkAll es →
    part.mentions ⊆ Expr.mentionsAll es
  | [], h => by simp [Expr.walkAll] at h
  | e :: es, h => by
      rw [Expr.walkAll, List.mem_append] at h
      rw [Expr.mentionsAll]
      rcases h with h | h
      · exact List.subset_append_of_subset_left _ (Expr.mentions_of_mem_walk h)
      · exact List.subset_append_of_subset_right _ (Expr.mentions_of_mem_walkAll h)

end

/-- Alternatives mention what their conditions do. -/
theorem Alternatives.mentions_of_conditions {name : String} : ∀ {rest : Alternatives},
    name ∈ Expr.mentionsAll rest.conditions → name ∈ rest.mentions
  | .done, h | .otherwise _, h => by simp [Alternatives.conditions, Expr.mentionsAll] at h
  | .elif condition body rest, h => by
      rw [Alternatives.conditions, Expr.mentionsAll, List.mem_append] at h
      rw [Alternatives.mentions, List.mem_append, List.mem_append]
      rcases h with h | h
      · exact .inl (.inl h)
      · exact .inr (Alternatives.mentions_of_conditions h)

/-- A statement mentions what its expressions do. -/
theorem Stmt.mentions_of_expressions (s : Stmt) : Expr.mentionsAll s.expressions ⊆ s.mentions := by
  cases s with
  | branch line condition body rest =>
      rw [Stmt.expressions, Expr.mentionsAll, Stmt.mentions]
      exact List.append_subset.mpr
        ⟨List.subset_append_of_subset_left _ (List.subset_append_left _ _),
          List.subset_append_of_subset_right _ fun _ h => Alternatives.mentions_of_conditions h⟩
  | _ => simp [Stmt.expressions, Expr.mentionsAll, Stmt.mentions]

mutual

/-- A statement mentions what the statements in it do. -/
theorem Stmt.mentions_of_mem_walk {part : Stmt} : ∀ {s : Stmt}, part ∈ s.walk →
    part.mentions ⊆ s.mentions
  | .assign _ _ _ _, h | .call _ _ _, h => by
      rw [Stmt.walk] at h
      · exact List.mem_singleton.mp h ▸ List.Subset.refl _
      all_goals simp
  | .branch line condition body rest, h => by
      rw [Stmt.walk, List.mem_cons, List.mem_append] at h
      rcases h with rfl | h | h
      · exact List.Subset.refl _
      · rw [Stmt.mentions]
        exact List.subset_append_of_subset_left _
          (List.subset_append_of_subset_right _ (Stmt.mentions_of_mem_walkAll h))
      · rw [Stmt.mentions]
        exact List.subset_append_of_subset_right _ (Alternatives.mentions_of_mem_walk h)
  | .foreach line var collection body, h => by
      rw [Stmt.walk, List.mem_cons] at h
      rcases h with rfl | h
      · exact List.Subset.refl _
      · rw [Stmt.mentions]
        exact List.subset_cons_of_subset _
          (List.subset_append_of_subset_right _ (Stmt.mentions_of_mem_walkAll h))

/-- So do alternatives. -/
theorem Alternatives.mentions_of_mem_walk {part : Stmt} : ∀ {rest : Alternatives},
    part ∈ rest.walk → part.mentions ⊆ rest.mentions
  | .done, h => by simp [Alternatives.walk] at h
  | .otherwise body, h => by
      rw [Alternatives.walk] at h
      rw [Alternatives.mentions]
      exact Stmt.mentions_of_mem_walkAll h
  | .elif condition body rest, h => by
      rw [Alternatives.walk, List.mem_append] at h
      rw [Alternatives.mentions]
      rcases h with h | h
      · exact List.subset_append_of_subset_left _
          (List.subset_append_of_subset_right _ (Stmt.mentions_of_mem_walkAll h))
      · exact List.subset_append_of_subset_right _ (Alternatives.mentions_of_mem_walk h)

/-- So do the statements of a block. -/
theorem Stmt.mentions_of_mem_walkAll {part : Stmt} : ∀ {ss : List Stmt}, part ∈ Stmt.walkAll ss →
    part.mentions ⊆ Stmt.mentionsAll ss
  | [], h => by simp [Stmt.walkAll] at h
  | s :: ss, h => by
      rw [Stmt.walkAll, List.mem_append] at h
      rw [Stmt.mentionsAll]
      rcases h with h | h
      · exact List.subset_append_of_subset_left _ (Stmt.mentions_of_mem_walk h)
      · exact List.subset_append_of_subset_right _ (Stmt.mentions_of_mem_walkAll h)

end

/-! ## Environments that differ in some names -/

/-- Whether two environments differ in the values of some names only, none of which scripts use
without mentioning it. -/
structure Environment.SameBut (names : List String) (env env' : Environment) : Prop where
  binder_same : env.binder.SameBut names env'.binder
  classes_eq : env.classes = env'.classes
  subclasses_eq : env.subclasses = env'.subclasses
  item_kept : "$ctxI" ∉ names
  context_kept : "$ctxC" ∉ names
  relation_kept : "$pkAll" ∉ names

section

variable {names : List String} {env env' : Environment}

/-- Both bind a name that they do not differ in to the same value. -/
theorem valueOf_sameBut (h : env.SameBut names env') {name : String} (hname : name ∉ names) :
    env.valueOf name = env'.valueOf name := by
  rw [Environment.valueOf, Environment.valueOf, h.binder_same.get?_eq hname]

/-- Both have the same item. -/
theorem item_sameBut (h : env.SameBut names env') : env.item = env'.item :=
  valueOf_sameBut h h.item_kept

/-- The value of a binding is the same in both. -/
theorem bindingValue_sameBut (h : env.SameBut names env') (binding : Binding) :
    bindingValue env binding = bindingValue env' binding := by
  unfold bindingValue
  rw [item_sameBut h]

/-- A variable that they do not differ in has the same value. -/
theorem lookupVar_sameBut (h : env.SameBut names env') (locals : Locals) {name : String}
    (hname : name ∉ names) : lookupVar env locals name = lookupVar env' locals name := by
  unfold lookupVar
  simp only [h.binder_same.get?_eq hname, bindingValue_sameBut h]

/-- A name that they do not differ in has the same value. -/
theorem lookupName_sameBut (h : env.SameBut names env') {name : String} (hname : name ∉ names) :
    lookupName env name = lookupName env' name := by
  unfold lookupName
  simp only [h.binder_same.get?_eq hname, bindingValue_sameBut h]

/-- The records related to a record are the same. -/
theorem relatedTo_sameBut (h : env.SameBut names env') (record collection : Value) :
    relatedTo env record collection = relatedTo env' record collection := by
  unfold relatedTo Binder.get
  rw [h.binder_same.get?_eq h.relation_kept, valueOf_sameBut h h.context_kept]

/-- Built-in functions do the same in both. -/
theorem builtinCall_sameBut (h : env.SameBut names env') (b : Builtin) (args : List Value) :
    b.call env args = b.call env' args := by
  unfold Builtin.call Builtin.value
  rw [h.classes_eq, h.subclasses_eq]
  simp only [relatedTo_sameBut h]

/-- A call of a name that they do not differ in does the same. -/
theorem callNamed_sameBut (h : env.SameBut names env') (locals : Locals) {function : String}
    (hname : function ∉ names) (args : List Value) :
    callNamed env locals function args = callNamed env' locals function args := by
  unfold callNamed
  simp only [lookupVar_sameBut h locals hname, h.binder_same.get?_eq hname, bindingValue_sameBut h,
    builtinCall_sameBut h]

/-- Assigning a variable that they do not differ in does the same. -/
theorem assignVar_sameBut (h : env.SameBut names env') {name : String} (hname : name ∉ names)
    (value : Value) : assignVar env name value = assignVar env' name value := by
  unfold assignVar assignBound
  rw [h.binder_same.get?_eq hname, item_sameBut h]

/-- An expression that mentions no name that they differ in asks for nothing that they answer
differently. -/
theorem Expr.sameIn_of_sameBut (h : env.SameBut names env') {e : Expr}
    (hnames : ∀ name ∈ e.mentions, name ∉ names) : e.SameIn env env' := by
  cases e with
  | var ident => exact fun locals => lookupVar_sameBut h locals (hnames _ (by simp [Expr.mentions]))
  | name ident => exact lookupName_sameBut h (hnames _ (by simp [Expr.mentions]))
  | call function args =>
      exact fun locals => callNamed_sameBut h locals (hnames _ (by simp [Expr.mentions]))
  | _ => trivial

/-- A statement that mentions no such name asks for nothing that they answer differently. -/
theorem Stmt.sameIn_of_sameBut (h : env.SameBut names env') {s : Stmt}
    (hnames : ∀ name ∈ s.mentions, name ∉ names) : s.SameIn env env' where
  parts part hpart := Expr.sameIn_of_sameBut h fun name hname =>
    hnames name (s.mentions_of_expressions (Expr.mentions_of_mem_walkAll hpart hname))
  assigns := by
    cases s with
    | assign line var path value =>
        have hvar := hnames ("$" ++ var) (by simp [Stmt.mentions])
        cases path with
        | nil => exact assignVar_sameBut h hvar
        | cons field path => exact fun locals => lookupVar_sameBut h locals hvar
    | foreach line var collection body => exact h.binder_same.contains_eq _
    | _ => trivial

/-- An expression that mentions no name that two environments differ in has the same value. -/
theorem Expr.eval_sameBut (h : env.SameBut names env') (locals : Locals) (e : Expr)
    (hnames : ∀ name ∈ e.mentions, name ∉ names) : e.eval env locals = e.eval env' locals :=
  e.eval_congr locals fun _ hpart => Expr.sameIn_of_sameBut h fun name hname =>
    hnames name (Expr.mentions_of_mem_walk hpart hname)

/-- A script that mentions no name that two environments differ in does the same in both. -/
theorem Program.run_sameBut (h : env.SameBut names env') {p : Program}
    (hnames : ∀ name ∈ p.mentions, name ∉ names) : p.run env = p.run env' :=
  Program.run_congr fun _ hs => Stmt.sameIn_of_sameBut h fun name hname =>
    hnames name (Stmt.mentions_of_mem_walkAll hs hname)

end

end Rubric.Script
