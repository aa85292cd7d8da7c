import Rubric.Value.Key

/-!
# Tags to come

The next tag that a store hands out is no part of what the values in it are.  So their forms, their digests
and their equality are the same whatever tag comes next.
-/

namespace Rubric

open Value (Place)

variable (σ : Store) (tag : Tag)

namespace Store

/-- Equality of places. -/
theorem placesEqual_withTag (fuel : Nat) :
    ({ σ with nextTag := tag } : Store).placesEqual fuel = σ.placesEqual fuel := by
  induction fuel with
  | zero => rfl
  | succ fuel ih =>
      funext p q
      cases p <;> cases q <;> simp only [placesEqual, ih] <;> rfl

/-- Equality of places with all that they may visit. -/
theorem samePlace_withTag : ({ σ with nextTag := tag } : Store).samePlace = σ.samePlace :=
  placesEqual_withTag σ tag _

/-- The shown form of a place. -/
theorem shownPlace_withTag (fuel : Nat) :
    ({ σ with nextTag := tag } : Store).shownPlace fuel = σ.shownPlace fuel := by
  induction fuel with
  | zero => rfl
  | succ fuel ih =>
      funext around e
      cases e <;> simp only [shownPlace, ih] <;> rfl

end Store

namespace Value

/-- The shown form of a value. -/
theorem shown_withTag (v : Value) : v.shown { σ with nextTag := tag } = v.shown σ := by
  rw [shown, shown, Store.shownPlace_withTag]
  rfl

/-- The label of a value. -/
theorem label_withTag (v : Value) : v.label { σ with nextTag := tag } = v.label σ := by
  cases v <;> first | rfl | exact shown_withTag σ tag _

/-- The key form of a mapping. -/
theorem mappingKeyForm_withTag (fuel : Nat) :
    mappingKeyForm { σ with nextTag := tag } fuel = mappingKeyForm σ fuel := by
  induction fuel with
  | zero => rfl
  | succ fuel ih =>
      funext address
      simp only [mappingKeyForm, ih, shown_withTag]
      rfl

/-- The key form of a value. -/
theorem keyForm_withTag (v : Value) : v.keyForm { σ with nextTag := tag } = v.keyForm σ := by
  rw [keyForm, keyForm, mappingKeyForm_withTag]
  rfl

/-- The digest of an object. -/
theorem objectDigest_withTag (fuel : Nat) :
    objectDigest { σ with nextTag := tag } fuel = objectDigest σ fuel := by
  induction fuel with
  | zero => rfl
  | succ fuel ih =>
      funext address
      simp only [objectDigest, ih]
      rfl

/-- The digest of a value. -/
theorem digest_withTag (v : Value) : v.digest { σ with nextTag := tag } = v.digest σ := by
  rw [digest, digest, objectDigest_withTag]
  rfl

/-- What keeps an object from being looked up. -/
theorem unhashableObject_withTag (fuel : Nat) :
    unhashableObject { σ with nextTag := tag } fuel = unhashableObject σ fuel := by
  induction fuel with
  | zero => rfl
  | succ fuel ih =>
      funext address
      simp only [unhashableObject, ih]
      rfl

/-- What keeps a value from being looked up. -/
theorem unhashable?_withTag (v : Value) :
    v.unhashable? { σ with nextTag := tag } = v.unhashable? σ := by
  rw [unhashable?, unhashable?, unhashableObject_withTag]
  rfl

end Value

end Rubric
