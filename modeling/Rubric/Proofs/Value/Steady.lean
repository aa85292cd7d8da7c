import Rubric.Proofs.Value.Quiet
import Rubric.Proofs.Value.RenamedRuns

/-!
# Answers that stay

Looking at values takes tags for new lists, and writes nothing else.  So a computation that is made again later
meets the store that it met before, but for the tag that comes next.  Where every tag in use was given out
already, its answer is the one that it gave before.

* `Store.after`, `Store.GaveOut` : a store some tags later, and the tags that it gave out already;
* `Eval.answerIn` : the answer of a computation in a store;
* `Eval.Gives` : computations that give an answer of some kind, however many tags later;
* `gives_of_renames` : an answer without new tags is given again.
-/

namespace Rubric

/-! ## Stores some tags later -/

namespace Store

/-- A store after some more tags were given out. -/
def after (σ : Store) (k : Nat) : Store := { σ with nextTag := σ.nextTag.advance k }

/-- Whether the tags that a store contains, and some others, were given out already. -/
def GaveOut (σ : Store) (tags : List Tag) : Prop := ∀ tag ∈ σ.tags ++ tags, ¬σ.nextTag.ToCome tag

instance (σ : Store) (tags : List Tag) : Decidable (σ.GaveOut tags) :=
  inferInstanceAs (Decidable (∀ tag ∈ σ.tags ++ tags, ¬σ.nextTag.ToCome tag))

variable {σ : Store} {ρ : Tag → Tag}

/-- Whether a renaming keeps every tag that was given out. -/
def KeepsGiven (σ : Store) (ρ : Tag → Tag) : Prop := ∀ tag, ¬σ.nextTag.ToCome tag → ρ tag = tag

/-- Fewer tags were given out, too. -/
theorem GaveOut.mono {tags more : List Tag} (h : σ.GaveOut more) (hsubset : tags ⊆ more) : σ.GaveOut tags := by
  obtain ⟨hstore, hmore⟩ := List.forall_mem_append.mp h
  exact List.forall_mem_append.mpr ⟨hstore, fun tag htag => hmore tag (hsubset htag)⟩

/-- The tags in a store are kept. -/
theorem GaveOut.retag_store {tags : List Tag} (h : σ.GaveOut tags) (hρ : σ.KeepsGiven ρ) :
    σ.retag ρ σ.nextTag = σ :=
  retag_of_kept fun tag htag => hρ tag (h tag (List.mem_append_left _ htag))

/-- Whether renamings that keep every tag that was given out keep a value. -/
def Knows (σ : Store) (v : Value) : Prop := ∀ ρ, σ.KeepsGiven ρ → v.retag ρ = v

/-- A value is known if its tags were given out. -/
theorem GaveOut.knows {v : Value} (h : σ.GaveOut v.tags) : σ.Knows v := fun _ hρ =>
  Value.retag_of_kept v fun tag htag => hρ tag (h tag (List.mem_append_right _ htag))

end Store

/-! ## Answers of some kind -/

/-- The answer of a computation in a store, or else a given one. -/
def Eval.answerIn {α : Type} (σ : Store) (action : Eval α) (default : α) : α :=
  match action σ with
  | .ok a _ => a
  | .error _ _ => default

/-- Whether a computation that begins in a store, or in the store some tags later, gives an answer of some kind,
and writes nothing. -/
def Eval.Gives {α : Type} (σ : Store) (action : Eval α) (P : α → Prop) : Prop :=
  ∀ k, ∃ a i, action (σ.after k) = .ok a (σ.after i) ∧ P a

section

variable {α β : Type} {σ : Store} {P : α → Prop} {Q : β → Prop} {action : Eval α}

open Eval (Gives)

/-- The answer of a computation that succeeds. -/
theorem answerIn_of_ok {a default : α} {τ : Store} (h : action σ = .ok a τ) : action.answerIn σ default = a := by
  rw [Eval.answerIn, h]

/-- It succeeds in the store itself. -/
theorem Eval.Gives.ok (h : Gives σ action P) : ∃ a τ, action σ = .ok a τ ∧ P a := by
  obtain ⟨a, i, haction, ha⟩ := h 0
  exact ⟨a, _, haction, ha⟩

theorem gives_pure {a : α} (ha : P a) : Gives σ (pure a) P := fun k => ⟨a, k, rfl, ha⟩

theorem Eval.Gives.bind {second : α → Eval β} (h : Gives σ action P)
    (hsecond : ∀ a, P a → Gives σ (second a) Q) : Gives σ (action >>= second) Q := by
  intro k
  obtain ⟨a, i, haction, ha⟩ := h k
  obtain ⟨b, j, hb⟩ := hsecond a ha i
  exact ⟨b, j, (bind_of_ok haction).trans hb.1, hb.2⟩

theorem gives_look {look : Store → Eval α} (h : ∀ k, Gives σ (look (σ.after k)) P) : Gives σ (get >>= look) P :=
  fun k => h k k

theorem gives_ofExcept {answer : Except Fault α} {a : α} (h : answer = .ok a) (ha : P a) :
    Gives σ (Eval.ofExcept answer) P := by
  subst h
  exact gives_pure ha

/-- A new list has a tag of its own. -/
theorem gives_newList (items : List Value) :
    Gives σ (Eval.newList items) fun v => ∃ tag, v = .list tag items :=
  fun k => ⟨_, k + 1, congrArg (EStateM.Result.ok _) (congrArg _ (Tag.advance_advance _ k 1)), _, rfl⟩

/-- A computation for every member of a list. -/
theorem gives_mapM {f : α → Eval β} {g : α → β} {as : List α} (h : ∀ a ∈ as, Gives σ (f a) (· = g a)) :
    Gives σ (as.mapM f) (· = as.map g) := by
  induction as with
  | nil => exact gives_pure rfl
  | cons a as ih =>
      obtain ⟨ha, has⟩ := List.forall_mem_cons.mp h
      rw [List.mapM_cons]
      refine ha.bind fun b hb => (ih has).bind fun bs hbs => gives_pure ?_
      rw [hb, hbs, List.map_cons]

/-- An answer that a renaming of the tags to come does not change is given again some tags later, if nothing is
written. -/
theorem gives_of_renames {f : (Tag → Tag) → α → α} {a : α} {τ : Store} (hgave : σ.GaveOut [])
    (hquiet : action.IsQuiet)
    (hrenames : ∀ ρ, Function.Injective ρ → σ.KeepsGiven ρ → Renames ρ (f ρ) action action ∧ f ρ a = a)
    (h : action σ = .ok a τ) : Gives σ action (· = a) := by
  intro k
  have hkeeps : σ.KeepsGiven (σ.nextTag.later k) := fun tag htag => Tag.later_of_not htag k
  obtain ⟨hrenames, ha⟩ := hrenames _ (Tag.later_injective σ.nextTag k) hkeeps
  obtain ⟨i, hnext, hlater⟩ := hrenames σ
  have hlines : LinesUp (σ.nextTag.later k) σ.nextTag (σ.nextTag.advance k) i := fun n _ => by
    rw [Tag.later_advance, Tag.advance_advance]
  have hstore : ∀ next, σ.retag (σ.nextTag.later k) next = { σ with nextTag := next } := fun next =>
    congrArg (fun τ : Store => { τ with nextTag := next }) (hgave.retag_store hkeeps)
  have hleft : σ.SameContents τ := by
    have hleft := hquiet σ
    rwa [h] at hleft
  have hτ : τ.retag (σ.nextTag.later k) ((σ.nextTag.advance k).advance i) = σ.after (k + i) := by
    rw [Store.SameContents.eq hleft, Tag.advance_advance]
    exact hstore _
  have hresult := hlater _ hlines
  rw [hstore, h] at hresult
  exact ⟨a, k + i, hresult.trans (by rw [retagResult, ha, hτ]), rfl⟩

end

/-! ## Collections -/

namespace Value

variable {σ : Store} (k : Nat) (v : Value)

/-- Whether a value counts as true does not change. -/
theorem truthy_after : v.truthy (σ.after k) = v.truthy σ := by cases v <;> rfl

/-- The items of a collection do not change. -/
theorem items_after : v.items (σ.after k) = v.items σ := by cases v <;> rfl

end Value

/-- The items of a known collection are known. -/
theorem Store.Knows.items {σ : Store} {v : Value} {items : List Value} (hv : σ.Knows v) (hgave : σ.GaveOut [])
    (h : v.items σ = .ok items) : ∀ item ∈ items, σ.Knows item := by
  intro item hitem ρ hρ
  have hretag : (v.retag ρ).items (σ.retag ρ σ.nextTag) = (v.items σ).map (List.map (Value.retag ρ)) :=
    Value.items_retag v
  rw [hv ρ hρ, hgave.retag_store hρ, h] at hretag
  have hmap : items.map (Value.retag ρ) = items := (Except.ok.inj hretag).symm
  exact List.map_inj_left.mp (hmap.trans (List.map_id items).symm) item hitem

end Rubric
