import Mathlib.Data.List.Induction
import Mathlib.Data.List.Nodup
import Rubric.Proofs.Binder
import Rubric.Proofs.Classification

/-!
# Binders after calls

Whatever calls were made on a new binder, and whichever of them failed, the table that they leave is known
from those that succeeded: a name stands where it was added, with the value that the last of them gave it, and
of the last kind that was given for it, or else of the kind of the value that it was added with.

* `Call`, `afterCalls` : calls on a binder, and what they leave;
* `succeeding` : those of them that succeed;
* `IsTableOf.call` : one more call keeps the table what the calls say;
* `table_of_calls` : so the table is what all calls say, in each of its views.
-/

namespace Rubric

namespace Binder

/-! ## Calls -/

/-- A call on a binder: a name is added or set, with a value and perhaps a kind. -/
inductive Call where
  | add (name : String) (value : Value) (kind : Option BindingKind)
  | set (name : String) (value : Value) (kind : Option BindingKind)

namespace Call

/-- The name that a call is about. -/
def name : Call → String
  | add name _ _ => name
  | set name _ _ => name

/-- The value that a call gives. -/
def value : Call → Value
  | add _ value _ => value
  | set _ value _ => value

/-- The kind that a call gives, if it gives one. -/
def kind? : Call → Option BindingKind
  | add _ _ kind => kind
  | set _ _ kind => kind

/-- The name that a call adds, if it adds one. -/
def added? : Call → Option String
  | add name _ _ => some name
  | set _ _ _ => none

/-- What a call comes to: the changed binder, or its fault. -/
def on (b : Binder) : Call → Except Fault Binder
  | add name value kind => b.add name value kind
  | set name value kind => b.set name value kind

/-- What a call leaves: where it fails, the binder as it was. -/
def left (b : Binder) (call : Call) : Binder :=
  match call.on b with
  | .ok b' => b'
  | .error _ => b

end Call

/-- A new binder after some calls, made one after the other. -/
def afterCalls (calls : List Call) : Binder := calls.foldl Call.left .empty

/-- Those of some calls that succeed, made one after the other. -/
def succeedingFrom (b : Binder) : List Call → List Call
  | [] => []
  | call :: rest =>
    match call.on b with
    | .ok b' => call :: succeedingFrom b' rest
    | .error _ => succeedingFrom b rest

/-- Those of some calls that succeed on a new binder. -/
def succeeding (calls : List Call) : List Call := succeedingFrom .empty calls

/-- A further call acts on what those before it left. -/
theorem afterCalls_append_singleton (calls : List Call) (call : Call) :
    afterCalls (calls ++ [call]) = call.left (afterCalls calls) := by
  rw [afterCalls, List.foldl_append]
  rfl

/-- Calls that are followed by others succeed as they do alone. -/
theorem succeedingFrom_append (calls others : List Call) : ∀ b : Binder,
    succeedingFrom b (calls ++ others)
      = succeedingFrom b calls ++ succeedingFrom (calls.foldl Call.left b) others := by
  induction calls with
  | nil => exact fun b => rfl
  | cons call calls ih =>
      intro b
      rw [List.cons_append, succeedingFrom, succeedingFrom, List.foldl_cons, Call.left]
      cases call.on b with
      | ok b' => exact congrArg (call :: ·) (ih b')
      | error fault => exact ih b

/-- A further call counts where it succeeds. -/
theorem succeeding_append_singleton (calls : List Call) (call : Call) :
    succeeding (calls ++ [call])
      = succeeding calls ++ match call.on (afterCalls calls) with
        | .ok _ => [call]
        | .error _ => [] := by
  rw [succeeding, succeedingFrom_append]
  rfl

/-! ## What calls say -/

/-- The names that some calls add, in order. -/
def addedNames (calls : List Call) : List String := calls.filterMap Call.added?

/-- The calls about a name. -/
def about (calls : List Call) (name : String) : List Call := calls.filter fun call => call.name == name

/-- The value that the last of some calls about a name gives it. -/
def lastValue (calls : List Call) (name : String) : Value :=
  ((about calls name).getLast?.map Call.value).getD .null

/-- The value that a name is added with. -/
def addedValue (calls : List Call) (name : String) : Value :=
  (((about calls name).find? fun call => call.added?.isSome).map Call.value).getD .null

/-- The kind that the last of some calls gives a name that gives it one, and where none does, that of the
value that it is added with. -/
def lastKind (calls : List Call) (name : String) : BindingKind :=
  ((about calls name).filterMap Call.kind?).getLast?.getD (.infer (addedValue calls name))

/-- What calls say that a name is bound to. -/
def bindingOf (calls : List Call) (name : String) : Binding :=
  ⟨name, lastValue calls name, lastKind calls name⟩

section

variable {done : List Call} {call : Call} {name : String}

/-- A further call is one of those about its name. -/
theorem about_append_self (h : call.name = name) : about (done ++ [call]) name = about done name ++ [call] := by
  simp [about, h]

/-- It is none of those about another name. -/
theorem about_append_ne (h : call.name ≠ name) : about (done ++ [call]) name = about done name := by
  simp [about, h]

/-- So it does not change what another name is bound to. -/
theorem bindingOf_append_ne (h : call.name ≠ name) : bindingOf (done ++ [call]) name = bindingOf done name := by
  simp only [bindingOf, lastValue, lastKind, addedValue, about_append_ne h]

/-- A name that no call was about yet is bound to what it is added with. -/
theorem bindingOf_append_add {value : Value} {kind : Option BindingKind} (h : about done name = []) :
    bindingOf (done ++ [.add name value kind]) name = ⟨name, value, kind.getD (.infer value)⟩ := by
  have hown : about (done ++ [.add name value kind]) name = about done name ++ [.add name value kind] :=
    about_append_self rfl
  rw [h, List.nil_append] at hown
  simp only [bindingOf, lastValue, lastKind, addedValue, hown]
  cases kind <;> rfl

/-- A name that is set takes the value, and the kind where one is given. -/
theorem bindingOf_append_set {value : Value} {kind : Option BindingKind} :
    bindingOf (done ++ [.set name value kind]) name
      = { bindingOf done name with value := value, kind := kind.getD (bindingOf done name).kind } := by
  have hown : about (done ++ [.set name value kind]) name = about done name ++ [.set name value kind] :=
    about_append_self rfl
  have hadded : addedValue (done ++ [.set name value kind]) name = addedValue done name := by
    simp [addedValue, hown, List.find?_append, Call.added?]
  have hvalue : lastValue (done ++ [.set name value kind]) name = value := by
    rw [lastValue, hown, List.getLast?_concat]
    rfl
  simp only [bindingOf, hvalue, lastKind, hadded, hown, List.filterMap_append]
  cases kind with
  | none => simp [Call.kind?]
  | some kind => simp [Call.kind?]

end

/-! ## The table -/

/-- Whether a binder is the table of some calls: it lists what they add, bound as they say, each name once,
and they are about the names that it lists. -/
structure IsTableOf (b : Binder) (done : List Call) : Prop where
  bindings_eq : b.bindings = (addedNames done).map (bindingOf done)
  nodup : (addedNames done).Nodup
  mem_names : ∀ call ∈ done, call.name ∈ addedNames done

section

variable {b : Binder} {done : List Call} {name : String}

/-- The table lists the names that are added. -/
theorem IsTableOf.names_eq (h : b.IsTableOf done) : b.names = addedNames done := by
  rw [names, h.bindings_eq, List.map_map]
  exact List.map_id _

/-- A name is bound where the table lists it. -/
theorem contains_iff : b.contains name = true ↔ name ∈ b.names := by
  simp [contains, get?, names, List.find?_isSome]

/-- Adding a new name puts it at the end of the table. -/
theorem IsTableOf.add (h : b.IsTableOf done) (hname : name ∉ b.names) (value : Value)
    (kind : Option BindingKind) :
    (⟨b.bindings ++ [⟨name, value, kind.getD (.infer value)⟩]⟩ : Binder).IsTableOf
      (done ++ [.add name value kind]) := by
  rw [h.names_eq] at hname
  have hnames : addedNames (done ++ [.add name value kind]) = addedNames done ++ [name] :=
    List.filterMap_append
  have hnone : about done name = [] := by
    refine List.filter_eq_nil_iff.mpr fun call hcall heq => hname ?_
    exact eq_of_beq heq ▸ h.mem_names call hcall
  have hothers : ∀ other ∈ addedNames done,
      bindingOf (done ++ [.add name value kind]) other = bindingOf done other := by
    intro other hother
    refine bindingOf_append_ne fun heq => hname ?_
    rwa [show name = other from heq]
  refine ⟨?_, ?_, ?_⟩
  · rw [hnames, List.map_append, List.map_singleton, bindingOf_append_add hnone, h.bindings_eq,
      List.map_congr_left hothers]
  · rw [hnames, ← List.concat_eq_append]
    exact h.nodup.concat hname
  · intro call hcall
    rw [hnames, List.mem_append]
    rcases List.mem_append.mp hcall with hcall | hcall
    · exact .inl (h.mem_names call hcall)
    · rw [List.mem_singleton.mp hcall]
      exact .inr (List.mem_singleton_self name)

/-- Setting a listed name leaves it in its place. -/
theorem IsTableOf.set (h : b.IsTableOf done) (hname : name ∈ b.names) (value : Value)
    (kind : Option BindingKind) :
    (b.rebind name value kind).IsTableOf (done ++ [.set name value kind]) := by
  rw [h.names_eq] at hname
  have hnames : addedNames (done ++ [.set name value kind]) = addedNames done := by
    simp [addedNames, Call.added?]
  refine ⟨?_, ?_, ?_⟩
  · simp only [rebind, h.bindings_eq, hnames, List.map_map]
    refine List.map_congr_left fun other _ => ?_
    by_cases heq : other = name
    · subst heq
      rw [bindingOf_append_set]
      exact if_pos rfl
    · have hother : (Call.set name value kind).name ≠ other := fun h => heq h.symm
      rw [bindingOf_append_ne hother]
      exact if_neg heq
  · rw [hnames]
    exact h.nodup
  · intro call hcall
    rw [hnames]
    rcases List.mem_append.mp hcall with hcall | hcall
    · exact h.mem_names call hcall
    · rw [List.mem_singleton.mp hcall]
      exact hname

end

/-- Adding a name that is bound fails; any other is added. -/
theorem add_eq (b : Binder) (name : String) (value : Value) (kind : Option BindingKind) :
    b.add name value kind = if name ∈ b.names then .error (.duplicateBinding name)
      else .ok ⟨b.bindings ++ [⟨name, value, kind.getD (.infer value)⟩]⟩ := by
  simp only [add, contains_iff]

/-- Setting a name that is bound changes it; any other is refused. -/
theorem set_eq (b : Binder) (name : String) (value : Value) (kind : Option BindingKind) :
    b.set name value kind = if name ∈ b.names then .ok (b.rebind name value kind)
      else .error (.unknownBinding name) := by
  simp only [set, contains_iff]

/-- One more call keeps a binder the table of the calls that succeed. -/
theorem IsTableOf.call {b : Binder} {done : List Call} (h : b.IsTableOf done) (call : Call) :
    (call.left b).IsTableOf (done ++ match call.on b with | .ok _ => [call] | .error _ => []) := by
  cases call with
  | add name value kind =>
      simp only [Call.left, Call.on, add_eq]
      by_cases hname : name ∈ b.names
      · simpa only [if_pos hname, List.append_nil] using h
      · simpa only [if_neg hname] using h.add hname value kind
  | set name value kind =>
      simp only [Call.left, Call.on, set_eq]
      by_cases hname : name ∈ b.names
      · simpa only [if_pos hname] using h.set hname value kind
      · simpa only [if_neg hname, List.append_nil] using h

/-- After any calls a binder is the table of those that succeeded. -/
theorem isTableOf_afterCalls (calls : List Call) : (afterCalls calls).IsTableOf (succeeding calls) := by
  induction calls using List.reverseRecOn with
  | nil => exact ⟨rfl, List.nodup_nil, List.forall_mem_nil _⟩
  | append_singleton calls call ih =>
      rw [afterCalls_append_singleton, succeeding_append_singleton]
      exact ih.call call

/-- The names that are added are those of the calls that add names, each where it first occurs. -/
theorem addedNames_succeeding (calls : List Call) :
    addedNames (succeeding calls) = (addedNames calls).eraseDups := by
  induction calls using List.reverseRecOn with
  | nil => rfl
  | append_singleton calls call ih =>
      have hnames : (afterCalls calls).names = (addedNames calls).eraseDups :=
        (isTableOf_afterCalls calls).names_eq.trans ih
      rw [succeeding_append_singleton]
      cases call with
      | add name value kind =>
          have hmore : addedNames (calls ++ [.add name value kind]) = addedNames calls ++ [name] :=
            List.filterMap_append
          simp only [hmore, eraseDups_append_singleton, Call.on, add_eq, hnames, List.mem_eraseDups]
          by_cases hname : name ∈ addedNames calls
          · simpa only [if_pos hname, List.append_nil] using ih
          · simp only [if_neg hname, ← ih]
            exact List.filterMap_append
      | set name value kind =>
          have hsame : addedNames (calls ++ [.set name value kind]) = addedNames calls := by
            simp [addedNames, Call.added?]
          simp only [hsame, ← ih, Call.on, set_eq]
          by_cases hname : name ∈ (afterCalls calls).names
          · simp [hname, addedNames, Call.added?]
          · simp only [if_neg hname, List.append_nil]

/-- After any calls on a new binder, whichever of them failed: the bindings are those that the calls that
succeeded say, each name once, in the order in which the names were first added, and the names and the snapshot
list the same; a name that is bound cannot be added, one that is not cannot be set, every other call succeeds;
and a call that fails leaves everything as it was. -/
theorem table_of_calls (calls : List Call) :
    let b := afterCalls calls
    let done := succeeding calls
    (b.bindings = (addedNames done).map (bindingOf done) ∧
      b.names = addedNames done ∧
      b.names = (addedNames calls).eraseDups ∧
      b.names.Nodup ∧
      b.snapshot = b.names.map (fun name => (name, lastValue done name)) ∧
      b.bindings.length = b.names.length) ∧
    (∀ name value kind, b.add name value kind
      = if name ∈ b.names then .error (.duplicateBinding name)
        else .ok (afterCalls (calls ++ [.add name value kind]))) ∧
    (∀ name value kind, b.set name value kind
      = if name ∈ b.names then .ok (afterCalls (calls ++ [.set name value kind]))
        else .error (.unknownBinding name)) ∧
    ∀ call fault, call.on b = .error fault → afterCalls (calls ++ [call]) = b := by
  have htable := isTableOf_afterCalls calls
  have hsnapshot : (afterCalls calls).snapshot
      = (addedNames (succeeding calls)).map fun name => (name, lastValue (succeeding calls) name) := by
    rw [snapshot, htable.bindings_eq, List.map_map]
    rfl
  -- a call that succeeds leaves what it comes to
  have hleft : ∀ {call b'}, call.on (afterCalls calls) = .ok b' → b' = afterCalls (calls ++ [call]) := by
    intro call b' hok
    rw [afterCalls_append_singleton, Call.left, hok]
  refine ⟨⟨htable.bindings_eq, htable.names_eq, ?_, ?_, ?_, ?_⟩, ?_, ?_, ?_⟩
  · rw [htable.names_eq, addedNames_succeeding]
  · rw [htable.names_eq]
    exact htable.nodup
  · rw [htable.names_eq, hsnapshot]
  · rw [names, List.length_map]
  · intro name value kind
    have hon := add_eq (afterCalls calls) name value kind
    rw [hon]
    split
    · rfl
    · rename_i hname
      rw [if_neg hname] at hon
      exact congrArg _ (hleft hon)
  · intro name value kind
    have hon := set_eq (afterCalls calls) name value kind
    rw [hon]
    split
    · rename_i hname
      rw [if_pos hname] at hon
      exact congrArg _ (hleft hon)
    · rfl
  · intro call fault hfault
    rw [afterCalls_append_singleton, Call.left, hfault]

/-- A name added twice, the second time in vain, and set to a list; another whose kind is changed. -/
def mixedCalls : List Call :=
  [.add "b" (.int 1) none, .add "a" (.str "x") (some .target), .add "b" (.str "y") none,
    .set "c" .null none, .set "b" (.list ⟨0, none, 0⟩ []) none, .set "a" .null (some .literal)]

/-- The name that is set to a list stays first, and of the kind of the number that it was added with; what
cannot be set or added changes nothing. -/
theorem table_of_calls_mixed :
    (afterCalls mixedCalls).bindings
      = [⟨"b", .list ⟨0, none, 0⟩ [], .literal⟩, ⟨"a", .null, .literal⟩] ∧
    Call.on (afterCalls mixedCalls) (.set "c" .null none) = .error (.unknownBinding "c") ∧
    afterCalls (mixedCalls ++ [.set "c" .null none]) = afterCalls mixedCalls ∧
    Call.on (afterCalls mixedCalls) (.add "b" .null none) = .error (.duplicateBinding "b") ∧
    afterCalls (mixedCalls ++ [.add "b" .null none]) = afterCalls mixedCalls := by
  obtain ⟨⟨hbindings, -⟩, -, -, hfails⟩ := table_of_calls mixedCalls
  exact ⟨hbindings.trans rfl, rfl, hfails _ _ rfl, rfl, hfails _ _ rfl⟩

end Binder

end Rubric
