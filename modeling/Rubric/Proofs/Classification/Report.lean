import Rubric.Classification
import Rubric.Proofs.Sequencing
import Rubric.Proofs.Value.PlainForm

/-!
# What a report lists

A share is the quotient of two doubles.  Where the total, if it is not zero, and a hundred times each count are
in the range of doubles, every label has a share, and the report lists the labels one after the other, each
with its count and its share.

* `percentage_int` : the share of a count in a total;
* `shares_int` : the labels with their counts and shares;
* `report_int` : the text of a report;
* `report_of_out_of_range` : nothing is reported in a total beyond that range.
-/

namespace Rubric

open Rubric.Number Rubric.Text

/-! ## Doubles of integers -/

namespace Number.Binary64

/-- The distance between neighbouring doubles is no more than the magnitude. -/
theorem spacing_le {n : Nat} (hn : n ≠ 0) : spacing n ≤ n :=
  Nat.le_trans (Nat.pow_le_pow_right Nat.two_pos (Nat.sub_le _ _)) (Nat.log2_self_le hn)

/-- No magnitude of a unit and more is rounded to zero. -/
theorem roundUnits_ne_zero {n : Nat} (hn : n ≠ 0) : roundUnits n 1 ≠ 0 := by
  have hstep : 0 < spacing n := Nat.two_pow_pos _
  have hquotient : 1 ≤ roundDiv n (1 * spacing n) := by
    refine Nat.le_trans ?_ (div_le_roundDiv n (1 * spacing n))
    rw [Nat.one_mul]
    exact (Nat.one_le_div_iff hstep).mpr (spacing_le hn)
  rw [roundUnits, Nat.div_one]
  exact Nat.mul_ne_zero (by omega) (by omega)

/-- A finite double has the units that were rounded to. -/
theorem finite_of_ofUnits {negative sign : Bool} {num den units : Nat}
    (h : ofUnits negative num den = finite sign units) : units = roundUnits num den := by
  unfold ofUnits at h
  dsimp only at h
  split at h
  · cases h
    rfl
  · cases h

/-- What is kept of a double is the double itself, and finite. -/
theorem eq_of_finite? {x y : Binary64} (h : x.finite? = some y) :
    x = y ∧ ∃ sign units, y = finite sign units := by
  cases x with
  | finite sign units =>
      cases h
      exact ⟨rfl, sign, units, rfl⟩
  | infinite sign => cases h

/-- The double of an integer is finite, and zero for zero only. -/
theorem finite_of_ofInt? {n : Int} {x : Binary64} (hx : ofInt? n = some x) :
    ∃ sign units, x = finite sign units ∧ (n ≠ 0 → units ≠ 0) := by
  obtain ⟨hratio, sign, units, rfl⟩ := eq_of_finite? (x := ofRatio (n < 0) n.natAbs 1) hx
  refine ⟨sign, units, rfl, fun hn => ?_⟩
  rw [ofRatio] at hratio
  rw [finite_of_ofUnits hratio]
  exact roundUnits_ne_zero (Nat.mul_ne_zero (Int.natAbs_ne_zero.mpr hn) (Nat.ne_of_gt unitsPerOne_pos))

end Number.Binary64

/-! ## Shares -/

/-- Whether an integer is in the range of doubles. -/
def InDoubleRange (n : Int) : Prop := (Binary64.ofInt? n).isSome

instance (n : Int) : Decidable (InDoubleRange n) := inferInstanceAs (Decidable (_ = true))

/-- The share of a count in a total, in percent: the quotient of doubles, where both are in their range. -/
def percentOf (count : Nat) (total : Int) : Binary64 :=
  ((Binary64.ofInt? (count * 100)).bind fun x =>
    (Binary64.ofInt? total).bind fun y => Binary64.div? x y).getD .zero

section

variable {total : Int} {σ : Store}

/-- A double that is finite and not zero does not equal zero. -/
theorem equalsZero_finite {sign : Bool} {units : Nat} (h : units ≠ 0) :
    (Value.float (.finite sign units)).equalsZero = false := by
  have hunits : Binary64.signedUnits sign units ≠ 0 := by
    unfold Binary64.signedUnits
    split <;> omega
  have hcompare : Binary64.compareInt 0 (.finite sign units) ≠ .eq := by
    rw [Binary64.compareInt, Int.zero_mul]
    exact fun heq => hunits (Int.compare_eq_eq.mp heq).symm
  show (some (Binary64.compareInt 0 (.finite sign units)).swap == some .eq) = false
  cases hresult : Binary64.compareInt 0 (.finite sign units) with
  | eq => exact absurd hresult hcompare
  | lt => rfl
  | gt => rfl

/-- An integer other than zero does not equal zero. -/
theorem equalsZero_int {n : Int} (h : n ≠ 0) : (Value.int n).equalsZero = false := by
  have hcompare : compare n 0 ≠ .eq := fun heq => h (Int.compare_eq_eq.mp heq)
  show (some (compare n 0) == some .eq) = false
  cases hresult : compare n 0 with
  | eq => exact absurd hresult hcompare
  | lt => rfl
  | gt => rfl

/-- An operation on two numbers that are doubles, or have one each. -/
theorem onDoubles_ok {op : Binary64 → Binary64 → Option Binary64} {a b : Value.NumberView} {x y z : Binary64}
    (ha : a.toDouble = .ok (some x)) (hb : b.toDouble = .ok (some y)) (hz : op x y = some z) :
    Value.onDoubles op a b σ = .ok (.float z) σ := by
  rw [Value.onDoubles, ha, hb]
  show Eval.ofFloat (op x y) σ = _
  rw [hz]
  rfl

/-- The double of an integer in their range. -/
theorem toDouble_int {n : Int} {x : Binary64} (hx : Binary64.ofInt? n = some x) :
    (Value.NumberView.int n).toDouble = .ok (some x) := by
  rw [Value.NumberView.toDouble, hx]
  rfl

/-- An integer as a decimal is its double. -/
theorem toDecimal_int (n : Int) : (Value.int n).toDecimal σ = (Value.NumberView.int n).toDouble := by
  rw [Value.toDecimal, Value.number?]
  exact fun s h => by cases h

/-- An integer divided by a double other than zero. -/
theorem div_int_float {n : Int} {x y z : Binary64} (hzero : (Value.float y).equalsZero = false)
    (hx : Binary64.ofInt? n = some x) (hz : Binary64.div? x y = some z) :
    (Value.int n).div (.float y) σ = .ok (.float z) σ := by
  rw [Value.div, hzero]
  simp only [Bool.false_eq_true, if_false, Value.number?, Value.onNumbers]
  exact onDoubles_ok (toDouble_int hx) rfl hz

/-- Finite doubles have a quotient, unless the divisor is zero. -/
theorem div?_finite (sign sign' : Bool) (units : Nat) {units' : Nat} (hunits : units' ≠ 0) :
    ∃ z, Binary64.div? (.finite sign units) (.finite sign' units') = some z := by
  rw [Binary64.div?, if_neg hunits]
  exact ⟨_, rfl⟩

/-- The share is that quotient. -/
theorem percentOf_of_div? {count : Nat} {x y z : Binary64} (hx : Binary64.ofInt? (count * 100) = some x)
    (hy : Binary64.ofInt? total = some y) (hz : Binary64.div? x y = some z) : percentOf count total = z := by
  rw [percentOf, hx, hy, Option.bind_some, Option.bind_some, hz, Option.getD_some]

/-- The share of a count in a total whose double is known. -/
theorem percentage_of_double {count : Nat} {x y z : Binary64} (htotal : total ≠ 0) (hzero : y.isZero = false)
    (hequals : (Value.float y).equalsZero = false) (hx : Binary64.ofInt? (count * 100) = some x)
    (hy : Binary64.ofInt? total = some y) (hz : Binary64.div? x y = some z) :
    percentage (.int count) (.int total) σ = .ok (.float z) σ := by
  have hscaled : (Value.int count).mul (.int 100) σ = .ok (.int (count * 100)) σ := rfl
  rw [percentage, equalsZero_int htotal]
  simp only [Bool.false_eq_true, if_false]
  refine (bind_of_ok hscaled).trans ?_
  refine (bind_of_ok (get_ok σ)).trans ?_
  rw [toDecimal_int, toDouble_int hy]
  refine (bind_of_ok (a := some y) (t := σ) rfl).trans ?_
  show shareOf (.int (count * 100)) y σ = _
  rw [shareOf, hzero]
  exact div_int_float hequals hx hz

/-- The share of a count in a total other than zero. -/
theorem percentage_int {count : Nat} (htotal : total ≠ 0) (hrange : InDoubleRange total)
    (hcount : InDoubleRange (count * 100)) :
    percentage (.int count) (.int total) σ = .ok (.float (percentOf count total)) σ := by
  obtain ⟨x, hx⟩ := Option.isSome_iff_exists.mp hcount
  obtain ⟨y, hy⟩ := Option.isSome_iff_exists.mp hrange
  obtain ⟨sign, units, rfl, -⟩ := Binary64.finite_of_ofInt? hx
  obtain ⟨sign', units', rfl, hunits⟩ := Binary64.finite_of_ofInt? hy
  have hunits := hunits htotal
  have hzero : (Binary64.finite sign' units').isZero = false := beq_eq_false_iff_ne.mpr hunits
  obtain ⟨z, hz⟩ := div?_finite sign sign' units hunits
  rw [percentOf_of_div? hx hy hz]
  exact percentage_of_double htotal hzero (equalsZero_finite hunits) hx hy hz

/-- The labels with their counts and shares. -/
theorem shares_int {counts : List (String × Nat)} (htotal : total ≠ 0) (hrange : InDoubleRange total)
    (hcounts : ∀ entry ∈ counts, InDoubleRange (entry.2 * 100)) :
    shares (.int total) counts σ
      = .ok (counts.map fun entry => ⟨entry.1, entry.2, some (.float (percentOf entry.2 total))⟩) σ := by
  induction counts with
  | nil => rfl
  | cons entry counts ih =>
      obtain ⟨label, count⟩ := entry
      obtain ⟨hcount, hcounts⟩ := List.forall_mem_cons.mp hcounts
      rw [shares, equalsZero_int htotal]
      simp only [Bool.false_eq_true, if_false, pure_bind]
      refine (bind_of_ok (percentage_int htotal hrange hcount)).trans ?_
      refine (bind_of_ok (ih hcounts)).trans ?_
      rfl

/-- There is no share in a total that is no double. -/
theorem percentage_of_out_of_range {count : Nat} (htotal : total ≠ 0) (hrange : ¬ InDoubleRange total) :
    percentage (.int count) (.int total) σ = .error (.number .integerTooLarge) σ := by
  have hscaled : (Value.int count).mul (.int 100) σ = .ok (.int (count * 100)) σ := rfl
  have hnone : Binary64.ofInt? total = none := Option.not_isSome_iff_eq_none.mp hrange
  rw [percentage, equalsZero_int htotal]
  simp only [Bool.false_eq_true, if_false]
  refine (bind_of_ok hscaled).trans ?_
  refine (bind_of_ok (get_ok σ)).trans ?_
  rw [toDecimal_int, Value.NumberView.toDouble, hnone]
  exact bind_of_error (s := σ) (t := σ) rfl

/-- So no label has one. -/
theorem shares_of_out_of_range {counts : List (String × Nat)} (htotal : total ≠ 0)
    (hrange : ¬ InDoubleRange total) (hcounts : counts ≠ []) :
    shares (.int total) counts σ = .error (.number .integerTooLarge) σ := by
  cases counts with
  | nil => exact absurd rfl hcounts
  | cons entry counts =>
      rw [shares, equalsZero_int htotal]
      simp only [Bool.false_eq_true, if_false, pure_bind]
      exact bind_of_error (percentage_of_out_of_range htotal hrange)

end

/-! ## Reports -/

/-- Lines that are joined and closed are lines that are closed each. -/
theorem join_append_separator (separator : String) (parts : List String) : ∀ first : String,
    join separator (first :: parts) ++ separator
      = String.join ((first :: parts).map fun part => part ++ separator) := by
  induction parts with
  | nil => simp [join]
  | cons part parts ih =>
      intro first
      have hcons : join separator (first :: part :: parts)
          = first ++ separator ++ join separator (part :: parts) := by simp [join]
      rw [hcons, String.append_assoc, ih, List.map_cons, List.map_cons, List.map_cons, String.join_cons,
        String.join_cons, String.join_cons, String.append_assoc]

/-- What a report says about a label. -/
def reportedLine (total : Int) (places : Int) (entry : String × Nat) : String :=
  s!"  {entry.1}:{entry.2} -> {(percentOf entry.2 total).toFixed places.toNat} %"

/-- The line of a report for a label that has a share. -/
theorem line_share {total places : Int} (hplaces : 0 ≤ places) (entry : String × Nat) :
    BucketShare.line places ⟨entry.1, entry.2, some (.float (percentOf entry.2 total))⟩
      = .ok (reportedLine total places entry) := by
  show (fixedText places (.float (percentOf entry.2 total))).map _ = _
  rw [fixedText, if_neg (Int.not_lt.mpr hplaces)]
  rfl

/-- Every line of a report is followed by an empty one, and so is the total. -/
theorem join_reported (total : Int) (listed : List String) :
    join "\n" ("" :: ("  Total -> " ++ intText total) :: listed.flatMap fun line => ["", line]) ++ "\n"
      = "\n  Total -> " ++ intText total ++ "\n" ++ String.join (listed.map fun line => "\n" ++ line ++ "\n") := by
  have hlisted : String.join ((listed.flatMap fun line => ["", line]).map fun part => part ++ "\n")
      = String.join (listed.map fun line => "\n" ++ line ++ "\n") := by
    induction listed with
    | nil => rfl
    | cons line listed ih =>
        simp only [List.flatMap_cons, List.cons_append, List.nil_append, List.map_cons, String.join_cons, ih,
          String.empty_append, String.append_assoc]
  rw [join_append_separator, List.map_cons, List.map_cons, String.join_cons, String.join_cons, hlisted,
    String.empty_append, ← String.append_assoc, ← String.append_assoc]
  rfl

/-- The lines of a report for labels that have shares. -/
theorem mapM_line_shares {total places : Int} (hplaces : 0 ≤ places) (counts : List (String × Nat)) :
    (counts.map fun entry =>
        (⟨entry.1, entry.2, some (.float (percentOf entry.2 total))⟩ : BucketShare)).mapM
          (BucketShare.line places)
      = .ok (counts.map (reportedLine total places)) := by
  induction counts with
  | nil => rfl
  | cons entry counts ih =>
      rw [List.map_cons, List.mapM_cons, line_share hplaces entry, ih]
      rfl

/-- The text of a report: the total, and each label with its count and its share. -/
theorem report_int {α : Type} {c : Classification α} {total places : Int} {σ : Store} (htotal : total ≠ 0)
    (hrange : InDoubleRange total) (hcounts : ∀ entry ∈ c.counts, InDoubleRange (entry.2 * 100))
    (hplaces : 0 ≤ places) :
    c.report (.int total) places σ
      = .ok ("\n  Total -> " ++ intText total ++ "\n"
          ++ String.join (c.counts.map fun entry => "\n" ++ reportedLine total places entry ++ "\n")) σ := by
  have hjoined := join_reported total (c.counts.map (reportedLine total places))
  rw [List.map_map] at hjoined
  rw [Classification.report]
  refine (bind_of_ok (shares_int htotal hrange hcounts)).trans ?_
  refine (bind_of_ok (get_ok σ)).trans ?_
  rw [reportText, mapM_line_shares hplaces, equalsZero_int htotal]
  exact congrArg (EStateM.Result.ok · σ) hjoined

/-- Nothing is reported of labels in a total that is no double. -/
theorem report_of_out_of_range {α : Type} {c : Classification α} {total places : Int} {σ : Store}
    (htotal : total ≠ 0) (hrange : ¬ InDoubleRange total) (hcounts : c.counts ≠ []) :
    c.report (.int total) places σ = .error (.number .integerTooLarge) σ :=
  bind_of_error (shares_of_out_of_range htotal hrange hcounts)

end Rubric
