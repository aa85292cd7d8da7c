import Mathlib.Data.List.Forall2
import Rubric.Value.Basic

/-!
# Computations in a row

What two computations in a row do, where the first succeeds and where it fails, and which faults they
raise.
-/

namespace Rubric

variable {ε σ α β : Type} {first : EStateM ε σ α} {second : α → EStateM ε σ β}

/-- Looking at the state. -/
theorem get_ok (s : σ) : (get : EStateM ε σ σ) s = .ok s s := rfl

/-- Two computations in a row succeed where both do. -/
theorem bind_ok {s s' : σ} {b : β} :
    (first >>= second) s = .ok b s' ↔ ∃ a t, first s = .ok a t ∧ second a t = .ok b s' := by
  show EStateM.bind first second s = _ ↔ _
  unfold EStateM.bind
  cases first s with
  | error fault t => simp
  | ok a t =>
      constructor
      · intro h
        exact ⟨a, t, rfl, h⟩
      · rintro ⟨_, _, hfirst, h⟩
        cases hfirst
        exact h

/-- A step of a sequence that succeeds. -/
theorem bind_of_ok {s t : σ} {a : α} (h : first s = .ok a t) :
    (first >>= second) s = second a t := by
  show EStateM.bind first second s = _
  rw [EStateM.bind, h]

/-- A step of a sequence that fails. -/
theorem bind_of_error {s t : σ} {fault : ε} (h : first s = .error fault t) :
    (first >>= second) s = .error fault t := by
  show EStateM.bind first second s = _
  rw [EStateM.bind, h]

/-- Computations in a row do the same where the first is the same and the second is after it. -/
theorem bind_congr_of_ok {second' : α → EStateM ε σ β} {s : σ}
    (h : ∀ a t, first s = .ok a t → second a t = second' a t) :
    (first >>= second) s = (first >>= second') s := by
  cases hfirst : first s with
  | ok a t => rw [bind_of_ok hfirst, bind_of_ok hfirst, h a t hfirst]
  | error fault t => rw [bind_of_error hfirst, bind_of_error hfirst]

/-- Two computations in a row fail where the first does, or the second after it. -/
theorem bind_error {s s' : σ} {fault : ε} :
    (first >>= second) s = .error fault s' ↔
      first s = .error fault s' ∨ ∃ a t, first s = .ok a t ∧ second a t = .error fault s' := by
  cases hfirst : first s with
  | error other t => simp [bind_of_error hfirst]
  | ok a t =>
      rw [bind_of_ok hfirst]
      constructor
      · intro h
        exact .inr ⟨a, t, rfl, h⟩
      · rintro (h | ⟨_, _, hok, h⟩)
        · cases h
        · cases hok
          exact h

/-! ## What a computation leaves -/

/-- The state that a computation leaves, whether it succeeds or fails. -/
def stateLeft : EStateM.Result ε σ α → σ
  | .ok _ t => t
  | .error _ t => t

/-! ## Faults with a property -/

/-- Whether a computation raises faults with a property only. -/
def RaisesOnly (P : ε → Prop) (action : EStateM ε σ α) : Prop :=
  ∀ s fault s', action s = .error fault s' → P fault

variable {P : ε → Prop}

/-- Faults with a property have every weaker one. -/
theorem RaisesOnly.imp {Q : ε → Prop} {action : EStateM ε σ α} (h : RaisesOnly P action)
    (himp : ∀ fault, P fault → Q fault) : RaisesOnly Q action :=
  fun s fault s' herror => himp fault (h s fault s' herror)

/-- Answering raises nothing. -/
theorem raisesOnly_pure (a : α) : RaisesOnly P (pure a : EStateM ε σ α) := by
  intro s fault s' h
  cases h

/-- Failing raises its fault. -/
theorem raisesOnly_throw {fault : ε} (h : P fault) :
    RaisesOnly P (throw fault : EStateM ε σ α) := by
  intro s fault' s' herror
  cases herror
  exact h

/-- Two computations in a row raise what either does. -/
theorem RaisesOnly.bind (hfirst : RaisesOnly P first) (hsecond : ∀ a, RaisesOnly P (second a)) :
    RaisesOnly P (first >>= second) := by
  intro s fault s' h
  rcases bind_error.mp h with h | ⟨a, t, -, h⟩
  · exact hfirst s fault s' h
  · exact hsecond a t fault s' h

/-- A computation that looks at the state raises what it raises for each. -/
theorem raisesOnly_get_bind {f : σ → EStateM ε σ β} (h : ∀ s, RaisesOnly P (f s)) :
    RaisesOnly P (get >>= f) := fun s fault s' herror => h s s fault s' herror

/-- A computation for every member of a list raises what each does. -/
theorem raisesOnly_mapM {f : α → EStateM ε σ β} (h : ∀ a, RaisesOnly P (f a)) (as : List α) :
    RaisesOnly P (as.mapM f) := by
  induction as with
  | nil => exact raisesOnly_pure []
  | cons a as ih =>
      rw [List.mapM_cons]
      exact (h a).bind fun b => ih.bind fun bs => raisesOnly_pure (b :: bs)

/-- Going through a list raises what every step does. -/
theorem raisesOnly_foldlM {f : β → α → EStateM ε σ β} (h : ∀ b a, RaisesOnly P (f b a))
    (as : List α) : ∀ b, RaisesOnly P (as.foldlM f b) := by
  induction as with
  | nil => exact fun b => raisesOnly_pure b
  | cons a as ih =>
      intro b
      rw [List.foldlM_cons]
      exact (h b a).bind ih

/-! ## Computations that are alike -/

/-- Whether a computation does what another does wherever that one does not fail in a certain way. -/
def AlikeBut (P : ε → Prop) (watched other : EStateM ε σ α) : Prop :=
  ∀ s, (∃ fault s', watched s = .error fault s' ∧ P fault) ∨ other s = watched s

theorem AlikeBut.refl (action : EStateM ε σ α) : AlikeBut P action action := fun _ => .inr rfl

/-- Where a computation fails so, it is like any other. -/
theorem alikeBut_throw {fault : ε} (h : P fault) (other : EStateM ε σ α) :
    AlikeBut P (throw fault) other := fun s => .inl ⟨fault, s, rfl, h⟩

/-- Computations in a row are alike where they are step by step. -/
theorem AlikeBut.bind {first' : EStateM ε σ α} {second' : α → EStateM ε σ β}
    (hfirst : AlikeBut P first first') (hsecond : ∀ a, AlikeBut P (second a) (second' a)) :
    AlikeBut P (first >>= second) (first' >>= second') := by
  intro s
  rcases hfirst s with ⟨fault, s', herror, hfault⟩ | hsame
  · exact .inl ⟨fault, s', bind_of_error herror, hfault⟩
  · cases hresult : first s with
    | error fault t =>
        rw [hresult] at hsame
        exact .inr ((bind_of_error hsame).trans (bind_of_error hresult).symm)
    | ok a t =>
        rw [hresult] at hsame
        rw [bind_of_ok hresult, bind_of_ok hsame]
        exact hsecond a t

theorem alikeBut_get_bind {f f' : σ → EStateM ε σ β} (h : ∀ s, AlikeBut P (f s) (f' s)) :
    AlikeBut P (get >>= f) (get >>= f') := fun s => h s s

theorem alikeBut_mapM {f f' : α → EStateM ε σ β} (h : ∀ a, AlikeBut P (f a) (f' a))
    (as : List α) : AlikeBut P (as.mapM f) (as.mapM f') := by
  induction as with
  | nil => exact .refl _
  | cons a as ih =>
      rw [List.mapM_cons, List.mapM_cons]
      exact (h a).bind fun b => ih.bind fun bs => .refl _

/-! ## Answers for the members of a list -/

section

variable {f : α → Except ε β} {as before : List α}

/-- What is computed for every member of a list, where none fails. -/
theorem forall₂_of_mapM : ∀ {bs : List β}, as.mapM f = .ok bs → List.Forall₂ (fun a b => f a = .ok b) as bs := by
  induction as with
  | nil =>
      intro bs h
      cases h
      exact .nil
  | cons a as ih =>
      intro bs h
      rw [List.mapM_cons] at h
      cases hfirst : f a with
      | error fault => rw [hfirst] at h; cases h
      | ok b =>
          rw [hfirst] at h
          cases hrest : as.mapM f with
          | error fault => rw [hrest] at h; cases h
          | ok bs' =>
              rw [hrest] at h
              cases h
              exact .cons hfirst (ih hrest)

/-- The first member that fails decides. -/
theorem mapM_of_first_error {a : α} {after : List α} {fault : ε} (hbefore : ∀ a ∈ before, ∃ b, f a = .ok b)
    (h : f a = .error fault) : (before ++ a :: after).mapM f = .error fault := by
  induction before with
  | nil =>
      rw [List.nil_append, List.mapM_cons, h]
      rfl
  | cons a' before ih =>
      obtain ⟨⟨b, hb⟩, hrest⟩ := List.forall_mem_cons.mp hbefore
      rw [List.cons_append, List.mapM_cons, hb, ih hrest]
      rfl

/-- Either there are answers for all members, or one of them is the first that fails. -/
theorem mapM_outcome (f : α → Except ε β) (as : List α) :
    (∃ bs, as.mapM f = .ok bs ∧ List.Forall₂ (fun a b => f a = .ok b) as bs) ∨
      ∃ before a after fault, as = before ++ a :: after ∧ (∀ a ∈ before, ∃ b, f a = .ok b) ∧
        f a = .error fault ∧ as.mapM f = .error fault := by
  induction as with
  | nil => exact .inl ⟨[], rfl, .nil⟩
  | cons a as ih =>
      cases hfirst : f a with
      | error fault =>
          have hbefore : ∀ a ∈ ([] : List α), ∃ b, f a = .ok b := by simp
          exact .inr ⟨[], a, as, fault, rfl, hbefore, hfirst, mapM_of_first_error hbefore hfirst⟩
      | ok b =>
          obtain ⟨bs, hbs, hrelated⟩ | ⟨before, a', after, fault, rfl, hbefore, ha', -⟩ := ih
          · refine .inl ⟨b :: bs, ?_, .cons hfirst hrelated⟩
            rw [List.mapM_cons, hfirst, hbs]
            rfl
          · have hbefore' : ∀ a' ∈ a :: before, ∃ b, f a' = .ok b :=
              List.forall_mem_cons.mpr ⟨⟨b, hfirst⟩, hbefore⟩
            exact .inr ⟨a :: before, a', after, fault, rfl, hbefore', ha', mapM_of_first_error hbefore' ha'⟩

/-- A question that never fails selects members as its answers do. -/
theorem filterM_ok {p : α → Except ε Bool} {q : α → Bool} (h : ∀ a, p a = .ok (q a)) (as : List α) :
    as.filterM p = .ok (as.filter q) := by
  -- the members selected so far are carried along in reverse order
  have hselected : ∀ selected, as.filterAuxM p selected = .ok ((as.filter q).reverse ++ selected) := by
    induction as with
    | nil => exact fun selected => rfl
    | cons a as ih =>
        intro selected
        rw [List.filterAuxM, h]
        refine (ih _).trans ?_
        cases ha : q a with
        | true => simp [ha]
        | false => simp [ha]
  rw [List.filterM, hselected]
  simp [bind, Except.bind, pure, Except.pure]

end

end Rubric
