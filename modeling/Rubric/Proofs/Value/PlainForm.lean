import Rubric.Value.Equality

/-!
# Values compared by what they show

Numbers, texts and tuples of such are compared without going through the store: each has a form, and two
of them are found in each other's place where their forms are the same.  So among them equality is an
equivalence, and it never lacks an answer.

* `plainForm?` : the form of a plain value;
* `matchWith_of_plain` : plain values are found in each other's place where they have one form.
-/

namespace Rubric

open Rubric.Number

/-! ## Numbers -/

/-- How much a double is: an infinity by its sign, or a number of units. -/
def Number.Binary64.measure : Binary64 → Bool ⊕ Int
  | .finite negative units => .inr (signedUnits negative units)
  | .infinite negative => .inl negative

/-- How much an integer is, in the same units. -/
def Number.Binary64.measureInt (n : Int) : Bool ⊕ Int := .inr (n * unitsPerOne)

/-- There are units in one. -/
theorem Number.Binary64.unitsPerOne_pos : 0 < unitsPerOne := Nat.two_pow_pos 1074

/-- Integers that measure the same are the same. -/
theorem Number.Binary64.measureInt_inj {n m : Int} : measureInt n = measureInt m ↔ n = m := by
  have hunits : (unitsPerOne : Int) ≠ 0 :=
    Int.natCast_ne_zero.mpr (Nat.ne_of_gt unitsPerOne_pos)
  rw [measureInt, measureInt, Sum.inr.injEq, Int.mul_eq_mul_right_iff hunits]

/-- Doubles compare as equal where they measure the same. -/
theorem Number.Binary64.compare_eq_iff (x y : Binary64) : x.compare y = .eq ↔ x.measure = y.measure := by
  cases x with
  | finite n u =>
      cases y with
      | finite n' u' => simp [compare, measure]
      | infinite n' => cases n' <;> simp [compare, measure]
  | infinite n =>
      cases y with
      | finite n' u' => cases n <;> simp [compare, measure]
      | infinite n' => cases n <;> cases n' <;> simp [compare, measure]

/-- So does an integer with a double. -/
theorem Number.Binary64.compareInt_eq_iff (n : Int) (x : Binary64) :
    compareInt n x = .eq ↔ measureInt n = x.measure := by
  cases x with
  | finite n' u => rw [compareInt, Std.compare_eq_iff_eq, measureInt, measure, Sum.inr.injEq]
  | infinite n' => exact iff_of_false (fun h => by cases n' <;> cases h) Sum.inr_ne_inl

namespace Value

/-- How much a number is. -/
def NumberView.measure? : NumberView → Option (Bool ⊕ Int)
  | .int n => some (Binary64.measureInt n)
  | .float x => some x.measure
  | .nan => none

/-- Numbers are equal where they measure the same. -/
theorem NumberView.equal_iff {a b : NumberView} {m m' : Bool ⊕ Int} (ha : a.measure? = some m)
    (hb : b.measure? = some m') : a.equal b = true ↔ m = m' := by
  cases a <;> cases b <;> cases ha <;> cases hb
  · simp [equal, compare?, Binary64.measureInt_inj]
  · simp [equal, compare?, Binary64.compareInt_eq_iff]
  · rename_i x n
    have hswap : (Binary64.compareInt n x).swap = .eq ↔ Binary64.compareInt n x = .eq := by
      cases Binary64.compareInt n x <;> simp
    simp only [equal, compare?, Option.some_beq_some, beq_iff_eq, hswap, Binary64.compareInt_eq_iff]
    exact eq_comm
  · simp [equal, compare?, Binary64.compare_eq_iff]

/-- What is no number equals no number. -/
@[simp]
theorem NumberView.equal_nan (a : NumberView) : a.equal .nan = false := by
  cases a <;> rfl

/-- No number equals it. -/
@[simp]
theorem NumberView.nan_equal (a : NumberView) : NumberView.nan.equal a = false := by
  cases a <;> rfl

/-! ## Plain values -/

/-- What plain values of one kind are compared by. -/
inductive PlainForm where
  | null
  | number (measure : Bool ⊕ Int)
  | nan (tag : Tag)
  | str (s : String)
  | tuple (items : List PlainForm)

mutual

/-- The form of a value that is plain: nothing, a number, a text, or a tuple of such. -/
def plainForm? : Value → Option PlainForm
  | null => some .null
  | bool b => some (.number (Binary64.measureInt (if b then 1 else 0)))
  | int n => some (.number (Binary64.measureInt n))
  | float x => some (.number x.measure)
  | nan tag => some (.nan tag)
  | str s => some (.str s)
  | tuple items => (plainForms? items).map .tuple
  | _ => none

/-- The forms of several values. -/
def plainForms? : List Value → Option (List PlainForm)
  | [] => some []
  | v :: vs => do return (← plainForm? v) :: (← plainForms? vs)

end

/-- The forms of several values, one after the other. -/
theorem plainForms?_cons {v : Value} {vs : List Value} {forms : List PlainForm}
    (h : plainForms? (v :: vs) = some forms) :
    ∃ f, v.plainForm? = some f ∧ ∃ fs, plainForms? vs = some fs ∧ forms = f :: fs := by
  simp only [plainForms?, Option.bind_eq_bind, Option.bind_eq_some_iff, Option.pure_def] at h
  obtain ⟨f, hf, fs, hfs, heq⟩ := h
  exact ⟨f, hf, fs, hfs, (Option.some.inj heq).symm⟩

/-- There are as many. -/
theorem length_plainForms? {vs : List Value} {forms : List PlainForm} (h : plainForms? vs = some forms) :
    forms.length = vs.length := by
  induction vs generalizing forms with
  | nil =>
      cases h
      rfl
  | cons v vs ih =>
      obtain ⟨f, -, fs, hfs, rfl⟩ := plainForms?_cons h
      rw [List.length_cons, List.length_cons, ih hfs]

/-- Whether two values are found in each other's place exactly where their forms are one. -/
def MatchesByForm (places : Place → Place → Option Bool) (a b : Value) : Prop :=
  ∀ f g, a.plainForm? = some f → b.plainForm? = some g →
    ∃ answer, matchWith places a b = some answer ∧ (answer = true ↔ f = g)

variable (places : Place → Place → Option Bool)

/-- Numbers are, beside every plain value. -/
theorem matchesByForm_number {a : Value} {n : NumberView} {m : Bool ⊕ Int} (ha : a.number? = some n)
    (hm : n.measure? = some m) (b : Value) : MatchesByForm places a b := by
  intro f g hf hg
  have hplain {v : Value} {n : NumberView} {m : Bool ⊕ Int} (hv : v.number? = some n)
      (hm : n.measure? = some m) : v.plainForm? = some (.number m) := by
    cases v <;> cases hv <;> cases hm <;> rfl
  have hidentical : identical a b = false := by
    cases a <;> cases ha <;> cases hm <;> rfl
  rw [hplain ha hm] at hf
  cases hf
  simp only [matchWith, hidentical, Bool.false_eq_true, if_false]
  cases hb : b.number? with
  | some n' =>
      have hequal : equalWith places a b = some (n.equal n') := by
        cases a <;> cases ha <;> cases b <;> cases hb <;> rfl
      cases n' with
      | nan =>
          have htag : ∃ tag, b = .nan tag := by
            cases b <;> cases hb
            exact ⟨_, rfl⟩
          obtain ⟨tag, rfl⟩ := htag
          cases hg
          exact ⟨_, hequal, by simp⟩
      | _ =>
          rw [hplain hb rfl] at hg
          cases hg
          exact ⟨_, hequal, by simpa using NumberView.equal_iff hm rfl⟩
  | none =>
      have hequal : equalWith places a b = some false := by
        cases a <;> cases ha <;> cases b <;> cases hb <;> rfl
      have hother : PlainForm.number m ≠ g := by
        rintro rfl
        cases b <;> simp [plainForm?, number?] at hg hb
      exact ⟨false, hequal, by simp [hother]⟩

variable {places} in
/-- Sequences of one length are equal where the first items are found in each other's place and the
others are equal. -/
theorem itemsEqualWith_cons {x y : Value} {xs ys : List Value} (hlength : xs.length = ys.length)
    {first : Bool} (hfirst : matchWith places x y = some first) :
    itemsEqualWith places (x :: xs) (y :: ys)
      = if first then itemsEqualWith places xs ys else some false := by
  rw [itemsEqualWith, if_neg (not_not_intro hlength)]
  unfold matchWith at hfirst
  split at hfirst
  · cases hfirst
    rw [if_pos ‹_›]
    rfl
  · rw [if_neg ‹_›, hfirst]
    cases first <;> rfl

mutual

/-- Plain values are. -/
theorem matchWith_of_plain : ∀ a b : Value, MatchesByForm places a b
  | .bool x, b | .int n, b | .float x, b => matchesByForm_number places rfl rfl b
  | .null, b | .nan tag, b | .str s, b => by
      intro f g hf hg
      cases hf
      cases b <;> simp [plainForm?, matchWith, identical, equalWith, number?] at hg ⊢ <;> grind
  | .tuple xs, b => by
      intro f g hf hg
      obtain ⟨fs, hfs, rfl⟩ := Option.map_eq_some_iff.mp hf
      cases b with
      | tuple ys =>
          obtain ⟨gs, hgs, rfl⟩ := Option.map_eq_some_iff.mp hg
          simpa [matchWith, identical, equalWith] using itemsEqualWith_of_plain xs ys fs gs hfs hgs
      | _ => simp [plainForm?, matchWith, identical, equalWith, number?] at hg ⊢ <;> grind
  | .list _ _, b | .row _ _ _, b | .set _ _, b | .mapping _, b | .object _, b | .function _ _, b
  | .selector _, b | .setter _, b | .target _ _, b => fun _ _ hf => by cases hf

/-- Sequences of them are equal exactly where their forms are one. -/
theorem itemsEqualWith_of_plain : ∀ (xs ys : List Value) (fs gs : List PlainForm),
    plainForms? xs = some fs → plainForms? ys = some gs →
      ∃ answer, itemsEqualWith places xs ys = some answer ∧ (answer = true ↔ fs = gs)
  | [], ys, fs, gs, hf, hg => by
      cases hf
      cases ys with
      | nil =>
          cases hg
          exact ⟨true, rfl, by simp⟩
      | cons y ys =>
          obtain ⟨g, -, gs', -, rfl⟩ := plainForms?_cons hg
          exact ⟨false, rfl, by simp⟩
  | x :: xs, [], fs, gs, hf, hg => by
      obtain ⟨f, -, fs', -, rfl⟩ := plainForms?_cons hf
      cases hg
      exact ⟨false, rfl, by simp⟩
  | x :: xs, y :: ys, fs, gs, hf, hg => by
      obtain ⟨f, hx, fs', hxs, rfl⟩ := plainForms?_cons hf
      obtain ⟨g, hy, gs', hys, rfl⟩ := plainForms?_cons hg
      obtain ⟨first, hfirst, hiff⟩ := matchWith_of_plain x y f g hx hy
      obtain ⟨rest, hrest, hiff'⟩ := itemsEqualWith_of_plain xs ys fs' gs' hxs hys
      by_cases hlength : xs.length = ys.length
      · rw [itemsEqualWith_cons hlength hfirst]
        cases first with
        | true => exact ⟨rest, hrest, by simp [hiff', hiff.mp rfl]⟩
        | false =>
            have hne : f ≠ g := fun h => Bool.false_ne_true (hiff.mpr h)
            exact ⟨false, rfl, by simp [hne]⟩
      · have hforms : fs' ≠ gs' := by
          rintro rfl
          exact hlength (length_plainForms? hxs ▸ length_plainForms? hys)
        exact ⟨false, by rw [itemsEqualWith, if_pos hlength], by simp [hforms]⟩

end

end Value
end Rubric
