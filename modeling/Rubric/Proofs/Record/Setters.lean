import Rubric.Proofs.Record.Selectors
import Rubric.Proofs.Record.Slots

/-!
# Setters step by step

A setter writes the ends of its paths one after the other, and refuses a value that is no sequence of as many
items as it has parts.  Where one of these steps fails, those before it have been made and stay.

* `Setter.assign_eq_steps` : assigning is making the steps in their order;
* `Setter.assign_error` : what an assignment that fails leaves;
* `Resolver.compileTarget_iff_compileSetter` : which targets can be written, and what they write.
-/

namespace Rubric

/-! ## The steps of an assignment -/

/-- A step of an assignment: a value for the end of a path, or a value that is refused as it is no sequence
of so many items. -/
inductive AssignStep where
  | write (path : List String) (value : Value)
  | refuse (width : Nat) (value : Value)

/-- Makes a step. -/
def AssignStep.run (record : Value) : AssignStep → Eval Unit
  | .write path value => record.writePath path value
  | .refuse width value => do throw (.name (.compositeWidth width (value.shown (← get))))

mutual

/-- The steps of an assignment through a setter. -/
def Setter.steps : Setter → Value → List AssignStep
  | .path _ names, value => [.write names value]
  | .composite parts, value =>
    match value.sequence? with
    | some items =>
      if items.length = parts.length then Setter.stepsEach parts items
      else [.refuse parts.length value]
    | none => [.refuse parts.length value]

/-- The steps of several assignments in a row. -/
def Setter.stepsEach : List Setter → List Value → List AssignStep
  | part :: parts, value :: values => part.steps value ++ Setter.stepsEach parts values
  | _, _ => []

end

section

variable {ε S ι : Type} {f : ι → EStateM ε S Unit}

/-- Computations in a row fail where one does after those before it succeeded. -/
theorem forM_error {l : List ι} {s t : S} {fault : ε} (h : forM l f s = .error fault t) :
    ∃ before i after u, l = before ++ i :: after ∧ forM before f s = .ok () u ∧
      f i u = .error fault t := by
  induction l generalizing s with
  | nil => cases h
  | cons i l ih =>
      rw [List.forM_cons] at h
      rcases bind_error.mp h with herror | ⟨⟨⟩, u, hok, hrest⟩
      · exact ⟨[], i, l, s, rfl, rfl, herror⟩
      · obtain ⟨before, j, after, w, rfl, hbefore, hj⟩ := ih hrest
        exact ⟨i :: before, j, after, w, rfl, by rw [List.forM_cons, bind_of_ok hok, hbefore], hj⟩

/-- Where computations in a row succeed, each of them does, somewhere on the way. -/
theorem forM_ok {l : List ι} {s t : S} (h : forM l f s = .ok () t) {i : ι} (hi : i ∈ l) :
    ∃ u w, f i u = .ok () w := by
  induction l generalizing s with
  | nil => cases hi
  | cons j l ih =>
      rw [List.forM_cons] at h
      obtain ⟨⟨⟩, u, hok, hrest⟩ := bind_ok.mp h
      rcases List.mem_cons.mp hi with rfl | hi
      · exact ⟨s, u, hok⟩
      · exact ih hrest hi

end

variable {σ τ : Store} {record : Value} {fault : Fault}

namespace AssignStep

/-- A step that fails changes nothing. -/
theorem run_error {step : AssignStep} (h : step.run record σ = .error fault τ) : τ = σ := by
  cases step with
  | write path value => exact Value.writePath_error h
  | refuse width value =>
      cases h
      rfl

/-- Steps that succeed are writes. -/
theorem exists_writes {steps : List AssignStep}
    (h : ∀ step ∈ steps, ∃ σ τ, step.run record σ = .ok () τ) :
    ∃ written : List (List String × Value), steps = written.map fun w => .write w.1 w.2 := by
  induction steps with
  | nil => exact ⟨[], rfl⟩
  | cons step steps ih =>
      obtain ⟨⟨σ, τ, hstep⟩, hsteps⟩ := List.forall_mem_cons.mp h
      obtain ⟨written, rfl⟩ := ih hsteps
      cases step with
      | write path value => exact ⟨(path, value) :: written, rfl⟩
      | refuse width value => cases hstep

end AssignStep

/-! ## A record of two attributes -/

/-- A resolver of records of two attributes. -/
def pairResolver : Resolver where
  shape := ⟨"dict", [⟨"a", []⟩, ⟨"b", []⟩]⟩
  names := [("a", ["a"]), ("b", ["b"])]

/-- What names and paths compile to there. -/
theorem pairResolver_path : pairResolver.path "a" = .ok ["a"] ∧ pairResolver.path "b" = .ok ["b"] ∧
    pairResolver.path "b.c" = .ok ["b", "c"] := by
  decide +kernel

/-- Such a record, without a value for the second. -/
def pairStore : Store where
  mappings := #[[(.str "a", .int 1), (.str "b", .null)]]
  objects := #[]
  runs := 0
  nextTag := ⟨0, none, 0⟩

/-! ## Assignments that fail -/

namespace Setter

variable {s : Setter} {value : Value}

mutual

/-- Assigning is making the steps in their order. -/
theorem assign_eq_steps (record : Value) : ∀ (s : Setter) (value : Value),
    s.assign record value = forM (s.steps value) (AssignStep.run record)
  | .path _ names, value => bind_pure_unit.symm
  | .composite parts, value => by
      rw [assign, steps]
      cases value.sequence? with
      | none => exact bind_pure_unit.symm
      | some items =>
          simp only
          split
          · exact assignEach_eq_steps record parts items
          · exact bind_pure_unit.symm

/-- So it is for several assignments. -/
theorem assignEach_eq_steps (record : Value) : ∀ (parts : List Setter) (values : List Value),
    Setter.assignEach parts record values = forM (stepsEach parts values) (AssignStep.run record)
  | part :: parts, value :: values => by
      rw [assignEach, stepsEach, List.forM_append, assign_eq_steps record part value,
        assignEach_eq_steps record parts values]
  | [], _ | _ :: _, [] => by
      rw [stepsEach, assignEach]
      all_goals simp

end

/-- A setter of one path makes one step, and so does a composite one for a value that it refuses. -/
theorem steps_single (hone : (∃ text names, s = .path text names) ∨
    ∃ parts, s = .composite parts ∧ value.sequence?.map List.length ≠ some parts.length) :
    ∃ step, s.steps value = [step] := by
  rcases hone with ⟨text, names, rfl⟩ | ⟨parts, rfl, hlength⟩
  · exact ⟨_, rfl⟩
  · rw [steps]
    cases hitems : value.sequence? with
    | none => exact ⟨_, rfl⟩
    | some items =>
        rw [hitems, Option.map_some, ne_eq, Option.some.injEq] at hlength
        exact ⟨_, if_neg hlength⟩

/-- An assignment that fails leaves what the writes before the failing step left, each of which succeeded.
Through one path, or with a value that the setter refuses, it leaves everything. -/
theorem assign_error (h : s.assign record value σ = .error fault τ) :
    (∃ (written : List (List String × Value)) (step : AssignStep) (rest : List AssignStep),
      s.steps value = written.map (fun w => .write w.1 w.2) ++ step :: rest ∧
        forM written (fun w => record.writePath w.1 w.2) σ = .ok () τ ∧
        step.run record τ = .error fault τ) ∧
      ((∃ text names, s = .path text names) ∨
        (∃ parts, s = .composite parts ∧ value.sequence?.map List.length ≠ some parts.length) →
        τ = σ) := by
  rw [assign_eq_steps] at h
  obtain ⟨before, step, rest, υ, hsteps, hbefore, hstep⟩ := forM_error h
  obtain rfl := AssignStep.run_error hstep
  obtain ⟨written, rfl⟩ := AssignStep.exists_writes fun step hstep => forM_ok hbefore hstep
  refine ⟨⟨written, step, rest, hsteps, by rwa [List.forM_map] at hbefore, hstep⟩, fun hone => ?_⟩
  obtain ⟨only, honly⟩ := steps_single hone
  cases written with
  | nil =>
      cases hbefore
      rfl
  | cons w written =>
      rw [honly] at hsteps
      simp at hsteps

/-- The setter of the first attribute and of one of the second. -/
def pairSetter : Setter := .composite [.path "a" ["a"], .path "b.c" ["b", "c"]]

/-- What a setter leaves that fails at its second path. -/
theorem assign_error_pair : ∃ fault τ,
    pairSetter.assign (.mapping 0) (.tuple [.int 2, .int 3]) pairStore = .error fault τ ∧
      ∃ (written : List (List String × Value)) (step : AssignStep) (rest : List AssignStep),
        pairSetter.steps (.tuple [.int 2, .int 3])
            = written.map (fun w => .write w.1 w.2) ++ step :: rest ∧
          forM written (fun w => (Value.mapping 0).writePath w.1 w.2) pairStore = .ok () τ ∧
          step.run (.mapping 0) τ = .error fault τ := by
  have herror : ∃ fault τ, pairSetter.assign (.mapping 0) (.tuple [.int 2, .int 3]) pairStore
      = .error fault τ := ⟨_, _, rfl⟩
  obtain ⟨fault, τ, herror⟩ := herror
  exact ⟨fault, τ, herror, (assign_error herror).1⟩

/-- A setter that fails at its second path has written the first. -/
theorem not_all_or_nothing : ¬ ∀ (r : Resolver) (ρ σ τ : Store) (expression record value : Value)
    (s : Setter) (fault : Fault), r.compileSetter ρ expression = .ok s →
      s.assign record value σ = .error fault τ →
        ∀ name, record.readAttribute τ name = record.readAttribute σ name := by
  intro hall
  have hs : pairResolver.compileSetter pairStore (.tuple [.str "a", .str "b.c"]) = .ok pairSetter := by
    obtain ⟨ha, -, hc⟩ := pairResolver_path
    simp [Resolver.compileSetter, Resolver.compileSetterParts, Resolver.compileSetters, ha, hc,
      pairSetter, Except.map]
  have herror : ∃ fault τ, pairSetter.assign (.mapping 0) (.tuple [.int 2, .int 3]) pairStore
      = .error fault τ ∧ (Value.mapping 0).readAttribute τ "a" = .ok (.int 2) := ⟨_, _, rfl, rfl⟩
  obtain ⟨fault, τ, herror, hread⟩ := herror
  have hsame := hall _ _ _ _ _ _ _ _ _ hs herror "a"
  rw [hread] at hsame
  cases hsame

end Setter

/-! ## Which targets can be written -/

section

variable {ε α β : Type}

/-- An answer that is no fault. -/
theorem toOption_eq_some {answer : Except ε α} {a : α} : answer.toOption = some a ↔ answer = .ok a := by
  cases answer <;> simp [Except.toOption]

/-- An answer that is changed. -/
theorem toOption_map (f : α → β) (answer : Except ε α) :
    (answer.map f).toOption = answer.toOption.map f := by
  cases answer <;> rfl

end

namespace Selector

/-- Whether a selector has parts. -/
def isComposite : Selector → Bool
  | composite _ => true
  | _ => false

/-- Whether no part of a selector has parts. -/
def IsFlat (s : Selector) : Prop := ∀ part ∈ s.parts, part.isComposite = false

/-- The setter of a selector without parts is that of its path. -/
theorem setter_ok_iff_of_single {s : Selector} (hs : s.isComposite = false) :
    (∃ assign, Resolver.setterOfSelector s = .ok assign) ↔ s.path?.isSome := by
  cases hpath : s.path? with
  | none =>
      have hrefused : Resolver.setterOfSelector s
          = .error (.selector (.computedTarget (Text.quoted s.expression))) := by
        cases s with
        | composite parts => cases hs
        | _ =>
            rw [Resolver.setterOfSelector, hpath]
            simp
      simp [hrefused]
  | some names =>
      have hgranted : Resolver.setterOfSelector s = .ok (.path s.expression names) := by
        cases s with
        | composite parts => cases hs
        | _ =>
            rw [Resolver.setterOfSelector, hpath]
            simp
      simp [hgranted]

/-- Several selectors have setters where each of them has. -/
theorem setters_ok_iff {parts : List Selector} :
    (∃ assigns, Resolver.settersOfSelectors parts = .ok assigns) ↔
      ∀ part ∈ parts, ∃ assign, Resolver.setterOfSelector part = .ok assign := by
  induction parts with
  | nil => simp [Resolver.settersOfSelectors]
  | cons part parts ih =>
      rw [List.forall_mem_cons, ← ih, Resolver.settersOfSelectors]
      cases Resolver.setterOfSelector part with
      | error fault => simp
      | ok assign => cases Resolver.settersOfSelectors parts <;> simp [Except.map]

/-- A selector can be written through where it has a setter and no part of it has parts. -/
theorem isAssignable_iff {s : Selector} : Resolver.isAssignable s ↔
    s.IsFlat ∧ ∃ assign, Resolver.setterOfSelector s = .ok assign := by
  cases s with
  | composite parts =>
      have hmap : (∃ assign, Resolver.setterOfSelector (composite parts) = .ok assign) ↔
          ∃ assigns, Resolver.settersOfSelectors parts = .ok assigns := by
        rw [Resolver.setterOfSelector]
        cases Resolver.settersOfSelectors parts <;> simp [Except.map]
      rw [hmap, setters_ok_iff, Resolver.isAssignable, List.all_eq_true]
      constructor
      · intro h
        have hsingle : ∀ part ∈ parts, part.isComposite = false := fun part hpart => by
          have hpath := h part hpart
          cases part with
          | composite _ => cases hpath
          | _ => rfl
        exact ⟨hsingle, fun part hpart =>
          (setter_ok_iff_of_single (hsingle part hpart)).mpr (h part hpart)⟩
      · rintro ⟨hsingle, h⟩ part hpart
        exact (setter_ok_iff_of_single (hsingle part hpart)).mp (h part hpart)
  | path _ _ | computed _ _ | display _ | key _ =>
      rw [setter_ok_iff_of_single rfl]
      exact (and_iff_right (List.forall_mem_nil _)).symm

end Selector

/-- What selector expressions are built from: texts, functions, compiled selectors and setters, and sequences
of expressions. -/
inductive Value.IsExpression : Value → Prop where
  | text (text : String) : IsExpression (.str text)
  | function (tag : Tag) (body : Function) : IsExpression (.function tag body)
  | compiled (s : Selector) : IsExpression (.selector s)
  | setter (s : Setter) : IsExpression (.setter s)
  | sequence {v : Value} {items : List Value} (hitems : v.sequence? = some items)
      (h : ∀ w ∈ items, IsExpression w) : IsExpression v

/-- Whether an expression is a setter or has one among its parts. -/
inductive Value.HoldsSetter : Value → Prop where
  | here (s : Setter) : HoldsSetter (.setter s)
  | part {v w : Value} {items : List Value} (hitems : v.sequence? = some items) (hw : w ∈ items)
      (h : HoldsSetter w) : HoldsSetter v

namespace Resolver

variable {r : Resolver} {ρ : Store} {expression : Value} {items : List Value} {s : Selector}
  {parts : List Selector}

/-- A sequence compiles as its items do. -/
theorem compile_sequence (h : expression.sequence? = some items) :
    r.compile ρ expression = r.compileParts ρ items := by
  cases expression with
  | list _ items | tuple items | row _ _ items => rw [compile, Option.some.inj h]
  | _ => cases h

/-- So does it for a setter. -/
theorem compileSetter_sequence (h : expression.sequence? = some items) :
    r.compileSetter ρ expression = r.compileSetterParts ρ items := by
  cases expression with
  | list _ items | tuple items | row _ _ items => rw [compileSetter, Option.some.inj h]
  | _ => cases h

/-- Of several expressions each compiles to one of their selectors. -/
theorem exists_part {w : Value} (h : r.compileAll ρ items = .ok parts) (hw : w ∈ items) :
    ∃ part ∈ parts, r.compile ρ w = .ok part := by
  induction items generalizing parts with
  | nil => cases hw
  | cons v items ih =>
      rw [compileAll] at h
      split at h
      · cases h
      · rename_i s hs
        obtain ⟨others, hothers, rfl⟩ := ok_of_map h
        rcases List.mem_cons.mp hw with rfl | hw
        · exact ⟨s, List.mem_cons_self, hs⟩
        · obtain ⟨part, hpart, hok⟩ := ih hothers hw
          exact ⟨part, .tail _ hpart, hok⟩

/-- A setter is called like any function where it stands in an expression, so that its selector has none. -/
theorem not_setter_of_holdsSetter (he : expression.HoldsSetter) (h : r.compile ρ expression = .ok s) :
    ¬ ∃ assign, setterOfSelector s = .ok assign := by
  induction he generalizing s with
  | here assign =>
      rw [compile] at h
      cases h
      rintro ⟨assign', hok⟩
      cases hok
  | part hitems hw _ ih =>
      rw [compile_sequence hitems, compileParts] at h
      split at h
      · cases h
      · obtain ⟨parts, hparts, rfl⟩ := ok_of_map h
        obtain ⟨part, hpart, hok⟩ := exists_part hparts hw
        rintro ⟨assign, hassign⟩
        rw [setterOfSelector] at hassign
        obtain ⟨assigns, hassigns, -⟩ := ok_of_map hassign
        exact ih hok (Selector.setters_ok_iff.mp ⟨assigns, hassigns⟩ part hpart)

/-- Several expressions compile to the setters of their selectors, where each does. -/
theorem toOption_compileSetters
    (hitems : ∀ w ∈ items, ∀ {s}, r.compile ρ w = .ok s →
      (r.compileSetter ρ w).toOption = (setterOfSelector s).toOption)
    (h : r.compileAll ρ items = .ok parts) :
    (r.compileSetters ρ items).toOption = (settersOfSelectors parts).toOption := by
  induction items generalizing parts with
  | nil =>
      rw [compileAll] at h
      cases h
      rw [compileSetters, settersOfSelectors]
  | cons w items ih =>
      obtain ⟨hitem, hrest⟩ := List.forall_mem_cons.mp hitems
      rw [compileAll] at h
      split at h
      · cases h
      · rename_i s hs
        obtain ⟨others, hothers, rfl⟩ := ok_of_map h
        have hfirst := hitem hs
        rw [compileSetters, settersOfSelectors]
        cases hw : r.compileSetter ρ w with
        | error fault =>
            cases hs' : setterOfSelector s with
            | error fault' => rfl
            | ok assign =>
                rw [hw, hs'] at hfirst
                cases hfirst
        | ok assign =>
            rw [hw] at hfirst
            rw [toOption_eq_some.mp hfirst.symm]
            show ((r.compileSetters ρ items).map _).toOption = ((settersOfSelectors others).map _).toOption
            rw [toOption_map, toOption_map, ih hrest hothers]

/-- An expression without setters compiles to the setter of its selector, or neither compiles; the faults may
differ. -/
theorem toOption_compileSetter (he : expression.IsExpression) (hfree : ¬ expression.HoldsSetter)
    (h : r.compile ρ expression = .ok s) :
    (r.compileSetter ρ expression).toOption = (setterOfSelector s).toOption := by
  induction he generalizing s with
  | text text =>
      rw [compile] at h
      obtain ⟨names, hnames, rfl⟩ := ok_of_map h
      rw [compileSetter, hnames]
      rfl
  | function tag body =>
      rw [compile] at h
      cases h
      rw [compileSetter]
      · rfl
      all_goals simp
  | compiled s' =>
      rw [compile] at h
      cases h
      rw [compileSetter]
  | setter assign => exact absurd (.here assign) hfree
  | sequence hitems _ ih =>
      rw [compile_sequence hitems, compileParts] at h
      rw [compileSetter_sequence hitems, compileSetterParts]
      split at h
      · cases h
      · rename_i hne
        obtain ⟨parts, hparts, rfl⟩ := ok_of_map h
        rw [if_neg hne, setterOfSelector, toOption_map, toOption_map,
          toOption_compileSetters
            (fun w hw {s} hs => ih w hw (fun hpart => hfree (.part hitems hw hpart)) hs) hparts]

/-- A target can be written where its expression compiles to a setter, without setters in it, and no part of
it has parts; then writing through the target is assigning through the setter. -/
theorem compileTarget_iff_compileSetter {t : Target} (he : expression.IsExpression)
    (ht : r.compileTarget ρ expression = .ok t) :
    (t.isAssignable ↔ t.selector.IsFlat ∧ ¬ expression.HoldsSetter ∧
      ∃ assign, r.compileSetter ρ expression = .ok assign) ∧
      ∀ assign, t.isAssignable → r.compileSetter ρ expression = .ok assign →
        ∀ record value, t.write record value = assign.assign record value := by
  have hs := compile_of_compileTarget ht
  obtain ⟨s, setter⟩ := t
  -- without setters in it, the expression compiles to the setter that its selector has
  have hsame (hfree : ¬ expression.HoldsSetter) (assign : Setter) :
      r.compileSetter ρ expression = .ok assign ↔ setterOfSelector s = .ok assign := by
    rw [← toOption_eq_some, ← toOption_eq_some, toOption_compileSetter he hfree hs]
  have hiff : isAssignable s ↔ s.IsFlat ∧ ¬ expression.HoldsSetter ∧
      ∃ assign, r.compileSetter ρ expression = .ok assign := by
    rw [Selector.isAssignable_iff]
    constructor
    · rintro ⟨hflat, assign, hok⟩
      have hfree : ¬ expression.HoldsSetter := fun hholds =>
        not_setter_of_holdsSetter hholds hs ⟨assign, hok⟩
      exact ⟨hflat, hfree, assign, (hsame hfree assign).mpr hok⟩
    · rintro ⟨hflat, hfree, assign, hok⟩
      exact ⟨hflat, assign, (hsame hfree assign).mp hok⟩
  rw [compileTarget, hs] at ht
  by_cases hassignable : isAssignable s
  · simp only [hassignable, if_true] at ht
    obtain ⟨setter', hsetter, heq⟩ := ok_of_map ht
    cases heq
    obtain ⟨-, hfree, -⟩ := hiff.mp hassignable
    refine ⟨iff_of_true rfl (hiff.mp hassignable), fun assign _ hok record value => ?_⟩
    obtain rfl := Except.ok.inj (hsetter.symm.trans ((hsame hfree assign).mp hok))
    rfl
  · simp only [hassignable] at ht
    cases ht
    exact ⟨iff_of_false (by simp [Target.isAssignable]) (hiff.not.mp hassignable),
      fun assign hwritable => by cases hwritable⟩

/-- A target of two paths can be written, and writes what the setter of the paths does. -/
theorem compileTarget_iff_compileSetter_pair : ∃ t assign,
    pairResolver.compileTarget pairStore (.tuple [.str "a", .str "b"]) = .ok t ∧ t.isAssignable ∧
      pairResolver.compileSetter pairStore (.tuple [.str "a", .str "b"]) = .ok assign ∧
      ∀ record value, t.write record value = assign.assign record value := by
  obtain ⟨ha, hb, -⟩ := pairResolver_path
  have he : (Value.tuple [.str "a", .str "b"]).IsExpression :=
    .sequence rfl (List.forall_mem_cons.mpr ⟨.text "a", List.forall_mem_singleton.mpr (.text "b")⟩)
  have hs : pairResolver.compileSetter pairStore (.tuple [.str "a", .str "b"])
      = .ok (.composite [.path "a" ["a"], .path "b" ["b"]]) := by
    simp [compileSetter, compileSetterParts, compileSetters, ha, hb, Except.map]
  have ht : pairResolver.compileTarget pairStore (.tuple [.str "a", .str "b"])
      = .ok ⟨.composite [.path "a" ["a"], .path "b" ["b"]],
        some (.composite [.path "a" ["a"], .path "b" ["b"]])⟩ := by
    simp [compileTarget, compile, compileParts, compileAll, ha, hb, Except.map, isAssignable,
      Selector.path?, setterOfSelector, settersOfSelectors, Selector.expression]
  have hflat : (Selector.composite [.path "a" ["a"], .path "b" ["b"]]).IsFlat :=
    List.forall_mem_cons.mpr ⟨rfl, List.forall_mem_singleton.mpr rfl⟩
  have hfree : ¬ (Value.tuple [.str "a", .str "b"]).HoldsSetter := by
    rintro (_ | ⟨hitems, hw, h⟩)
    cases hitems
    rcases List.mem_pair.mp hw with rfl | rfl
    · rcases h with _ | ⟨hitems, -, -⟩
      cases hitems
    · rcases h with _ | ⟨hitems, -, -⟩
      cases hitems
  obtain ⟨hiff, hwrite⟩ := compileTarget_iff_compileSetter he ht
  have hassignable := hiff.mpr ⟨hflat, hfree, _, hs⟩
  exact ⟨_, _, ht, hassignable, hs, hwrite _ hassignable hs⟩

/-- A composite of which a part is composite is no target that can be written, though it has a setter. -/
theorem not_assignable_of_compileSetter : ¬ ∀ (r : Resolver) (ρ : Store) (expression : Value) (t : Target),
    expression.IsExpression → r.compileTarget ρ expression = .ok t →
      (t.isAssignable ↔ ∃ assign, r.compileSetter ρ expression = .ok assign) := by
  intro hall
  obtain ⟨ha, hb, -⟩ := pairResolver_path
  have he : (Value.tuple [.tuple [.str "a"], .str "b"]).IsExpression := by
    refine .sequence rfl (List.forall_mem_cons.mpr ⟨?_, List.forall_mem_singleton.mpr (.text "b")⟩)
    exact .sequence rfl (List.forall_mem_singleton.mpr (.text "a"))
  have hs : pairResolver.compileSetter pairStore (.tuple [.tuple [.str "a"], .str "b"])
      = .ok (.composite [.composite [.path "a" ["a"]], .path "b" ["b"]]) := by
    simp [compileSetter, compileSetterParts, compileSetters, ha, hb, Except.map]
  have ht : pairResolver.compileTarget pairStore (.tuple [.tuple [.str "a"], .str "b"])
      = .ok ⟨.composite [.composite [.path "a" ["a"]], .path "b" ["b"]], none⟩ := by
    simp [compileTarget, compile, compileParts, compileAll, ha, hb, Except.map, isAssignable,
      Selector.path?]
  have hassignable := (hall _ _ _ _ he ht).mpr ⟨_, hs⟩
  cases hassignable

end Resolver

end Rubric
