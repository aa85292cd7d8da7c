import Mathlib.Data.List.TakeWhile
import Rubric.Text.Basic

/-!
# Texts without outer blanks

Trimming takes the blanks at both ends off a text and keeps what has none there.

* `HasNoOuterBlank` : texts that trimming keeps;
* `exists_outer_blanks`, `trim_between_blanks` : what stands between outer blanks is what trimming leaves.
-/

namespace Rubric.Text

/-- Whether a text neither begins nor ends with a blank. -/
structure HasNoOuterBlank (cs : List Char) : Prop where
  head : ∀ c ∈ cs.head?, isBlank c = false
  last : ∀ c ∈ cs.getLast?, isBlank c = false

/-- A text without blanks has none at its ends. -/
theorem hasNoOuterBlank_of_forall {cs : List Char} (h : ∀ c ∈ cs, isBlank c = false) : HasNoOuterBlank cs where
  head c hc := h c (List.mem_of_mem_head? hc)
  last c hc := h c (List.mem_of_getLast? hc)

/-- Where characters are dropped up to one that is no blank, the rest begins with it. -/
theorem head?_dropWhile_isBlank (cs : List Char) :
    ∀ c ∈ (cs.dropWhile isBlank).head?, isBlank c = false := by
  intro c hc
  have h := List.head?_dropWhile_not isBlank cs
  rw [Option.mem_def.mp hc] at h
  exact h

/-- What begins with no blank has none to drop. -/
theorem dropWhile_isBlank_eq_self {cs : List Char} (h : ∀ c ∈ cs.head?, isBlank c = false) :
    cs.dropWhile isBlank = cs := by
  cases cs with
  | nil => rfl
  | cons c cs => rw [List.dropWhile_cons_of_neg (by simp [h c rfl])]

/-- A text without outer blanks is kept by trimming. -/
theorem HasNoOuterBlank.trim_eq {cs : List Char} (h : HasNoOuterBlank cs) : trim cs = cs := by
  rw [trim, trimLeft, dropWhile_isBlank_eq_self h.head, trimRight, dropTrailing,
    dropWhile_isBlank_eq_self (by simpa using h.last), List.reverse_reverse]

/-- What is left without trailing blanks does not end with one. -/
theorem getLast?_trimRight (cs : List Char) : ∀ c ∈ (trimRight cs).getLast?, isBlank c = false := by
  intro c hc
  rw [trimRight, dropTrailing, List.getLast?_reverse] at hc
  exact head?_dropWhile_isBlank _ c hc

/-- What trimming leaves has none. -/
theorem hasNoOuterBlank_trim (cs : List Char) : HasNoOuterBlank (trim cs) where
  head c hc := by
    refine head?_dropWhile_isBlank cs c ?_
    have hprefix : trim cs <+: trimLeft cs := ⟨_, trimRight_append_trailingBlanks _⟩
    obtain ⟨rest, hrest⟩ := hprefix
    rw [← trimLeft, ← hrest, List.head?_append, Option.mem_def.mp hc]
    rfl
  last := getLast?_trimRight (trimLeft cs)

/-- A text without outer blanks may be followed by one that does not end with a blank. -/
theorem HasNoOuterBlank.append {first second : List Char} (h : HasNoOuterBlank first) (hne : first ≠ [])
    (hsecond : ∀ c ∈ second.getLast?, isBlank c = false) : HasNoOuterBlank (first ++ second) where
  head c hc := by
    obtain ⟨d, more, rfl⟩ := List.exists_cons_of_ne_nil hne
    exact h.head c hc
  last c hc := by
    rw [List.getLast?_append] at hc
    cases hlast : second.getLast? with
    | none =>
        rw [hlast, Option.none_or] at hc
        exact h.last c hc
    | some last =>
        rw [hlast, Option.some_or] at hc
        exact hsecond c (hlast ▸ hc)

/-- So trimming keeps exactly the texts without outer blanks. -/
theorem trimmed_eq_iff {s : String} : trimmed s = s ↔ HasNoOuterBlank s.toList := by
  constructor
  · intro h
    have htrim : trim s.toList = s.toList := by
      rw [trimmed] at h
      rw [← String.toList_ofList (l := trim s.toList), h]
    exact htrim ▸ hasNoOuterBlank_trim _
  · intro h
    rw [trimmed, h.trim_eq, String.ofList_toList]

/-- What was trimmed is kept. -/
theorem trimmed_trimmed (s : String) : trimmed (trimmed s) = trimmed s := by
  rw [trimmed_eq_iff, trimmed, String.toList_ofList]
  exact hasNoOuterBlank_trim _

/-- Names that have no outer blanks give a flattened name without such. -/
theorem trimmed_joined {parent child : String} (hparent : trimmed parent = parent)
    (hchild : trimmed child = child) : trimmed (parent ++ "_" ++ child) = parent ++ "_" ++ child := by
  have hparent := trimmed_eq_iff.mp hparent
  have hchild := trimmed_eq_iff.mp hchild
  have hunderscore : HasNoOuterBlank ['_'] :=
    hasNoOuterBlank_of_forall (List.forall_mem_singleton.mpr (by decide))
  have htail : HasNoOuterBlank (['_'] ++ child.toList) := hunderscore.append (by decide) hchild.last
  rw [trimmed_eq_iff, String.toList_append, String.toList_append, List.append_assoc]
  by_cases hne : parent.toList = []
  · rw [hne]
    exact htail
  · exact hparent.append hne htail.last

/-- What stands between blanks, without outer blanks of its own, is what trimming leaves. -/
theorem HasNoOuterBlank.trim_between_blanks {before cs after : List Char} (h : HasNoOuterBlank cs)
    (hbefore : ∀ c ∈ before, isBlank c = true) (hafter : ∀ c ∈ after, isBlank c = true) :
    trim (before ++ cs ++ after) = cs := by
  have hleft : ∀ (blanks rest : List Char), (∀ c ∈ blanks, isBlank c = true) →
      (blanks ++ rest).dropWhile isBlank = rest.dropWhile isBlank := by
    intro blanks rest hblanks
    rw [List.dropWhile_append_of_pos hblanks]
  have hafter' : ∀ c ∈ after.reverse, isBlank c = true := fun c hc => hafter c (List.mem_reverse.mp hc)
  rw [trim, trimLeft, List.append_assoc, hleft _ _ hbefore]
  cases cs with
  | nil =>
      have hnone := hleft after [] hafter
      rw [List.append_nil] at hnone
      rw [List.nil_append, hnone]
      rfl
  | cons c cs =>
      rw [dropWhile_isBlank_eq_self (by simpa using h.head), trimRight, dropTrailing,
        List.reverse_append, hleft _ _ hafter',
        dropWhile_isBlank_eq_self (by rw [List.head?_reverse]; exact h.last), List.reverse_reverse]

/-- Every text is what trimming leaves, between blanks. -/
theorem exists_outer_blanks (cs : List Char) :
    ∃ before after, cs = before ++ trim cs ++ after ∧ (∀ c ∈ before, isBlank c = true) ∧
      ∀ c ∈ after, isBlank c = true := by
  refine ⟨leadingBlanks cs, trailingBlanks (trimLeft cs), ?_, fun c hc => List.mem_takeWhile_imp hc,
    fun c hc => List.mem_takeWhile_imp (List.mem_reverse.mp hc)⟩
  rw [List.append_assoc, trim, trimRight_append_trailingBlanks, leadingBlanks_append_trimLeft]

end Rubric.Text
