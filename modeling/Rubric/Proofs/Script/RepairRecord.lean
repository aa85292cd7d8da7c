import Rubric.Proofs.Script.RepairedText

/-!
# Recorded repairs

Passes edit a text and record their repairs apart from that.  A pass that records none keeps the text, so
the same is true of all passes together.  The other way round, a text that the passes give back as it was
has all that they bring about, so none of them had anything to repair: what one pass changes, the later
ones do not put back.

* `Accounts` : a pass that makes no change without recording a repair;
* `accounts_withPasses` : all passes account for their changes;
* `wasModified_iff` : repairs are recorded exactly where the text is changed.
-/

namespace Rubric.Script

open Rubric.Text

/-! ## Passes that account for their changes -/

/-- Whether a pass keeps every text for which it records no repair. -/
def Accounts (pass : List Char → Repaired) : Prop := ∀ cs, (pass cs).repairs = [] → (pass cs).text = cs

/-- One pass after another records no repair exactly where neither does. -/
theorem Repaired.repairs_andThen_eq_nil_iff (r : Repaired) (pass : List Char → Repaired) :
    (r.andThen pass).repairs = [] ↔ r.repairs = [] ∧ (pass r.text).repairs = [] :=
  List.append_eq_nil_iff

/-- Passes that account for their changes do so one after the other. -/
theorem Accounts.andThen {first second : List Char → Repaired} (hfirst : Accounts first)
    (hsecond : Accounts second) : Accounts fun cs => (first cs).andThen second := by
  intro cs h
  obtain ⟨hbefore, hafter⟩ := (Repaired.repairs_andThen_eq_nil_iff _ _).mp h
  calc ((first cs).andThen second).text = (first cs).text := hsecond _ hafter
    _ = cs := hfirst cs hbefore

/-- Replacing line ends and tabs is recorded. -/
theorem accounts_repairWhitespace : Accounts repairWhitespace := by
  intro cs h
  unfold repairWhitespace at h ⊢
  dsimp only at h ⊢
  split
  · rfl
  · rename_i hchanged
    rw [if_neg hchanged] at h
    cases h

/-- So is taking a fence off. -/
theorem accounts_repairFence : Accounts repairFence := by
  intro cs h
  unfold repairFence at h ⊢
  cases hfence : fenced? cs with
  | none => rfl
  | some inside =>
      rw [hfence] at h
      cases h

/-- So is putting keywords into their spelling and case. -/
theorem accounts_repairKeywords : Accounts repairKeywords := by
  intro cs h
  have hsettled : ∀ line ∈ lines cs, IsSettled line := isSettled_of_repairLines 1 h
  exact congrArg Repaired.text ((repairKeywords_eq_iff cs).mpr hsettled)

/-- So is removing orphans. -/
theorem accounts_repairOrphans : Accounts repairOrphans := by
  intro cs h
  show unlines (removeOrphans 1 0 (lines cs)).1 = cs
  rw [removeOrphans_kept h, unlines_lines]

/-- So is closing blocks, which takes at least one closing line. -/
theorem accounts_repairBlocks : Accounts repairBlocks := by
  intro cs h
  unfold repairBlocks at h ⊢
  dsimp only at h ⊢
  cases hopen : openBlocks (lines cs) with
  | nil => rfl
  | cons opener outer =>
      rw [hopen] at h
      cases h

/-- So is ending the last line. -/
theorem accounts_repairEnd : Accounts repairEnd := by
  intro cs h
  unfold repairEnd at h ⊢
  split
  · rfl
  · rename_i last hlast
    rw [hlast] at h
    dsimp only at h ⊢
    split
    · rfl
    · rename_i hfeed
      rw [if_neg hfeed] at h
      cases h

/-! ## All passes -/

/-- All passes one after the other, those for blocks on request. -/
def withPasses (blocks : Bool) (cs : List Char) : Repaired :=
  let spelled := ((repairWhitespace cs).andThen repairFence).andThen repairKeywords
  (if blocks then (spelled.andThen repairOrphans).andThen repairBlocks else spelled).andThen repairEnd

/-- A text is repaired by all passes. -/
theorem lint_eq (text : String) (blocks : Bool) :
    lint text blocks
      = ⟨String.ofList (withPasses blocks text.toList).text, (withPasses blocks text.toList).repairs⟩ := rfl

/-- All passes together account for their changes. -/
theorem accounts_withPasses (blocks : Bool) : Accounts (withPasses blocks) := by
  have hspelled := (accounts_repairWhitespace.andThen accounts_repairFence).andThen accounts_repairKeywords
  cases blocks with
  | false => exact hspelled.andThen accounts_repairEnd
  | true =>
      have hblocks := (hspelled.andThen accounts_repairOrphans).andThen accounts_repairBlocks
      exact hblocks.andThen accounts_repairEnd

/-- Where no repair is recorded, the text is given back as it was. -/
theorem text_of_changes_eq_nil {text : String} {blocks : Bool} (h : (lint text blocks).changes = []) :
    (lint text blocks).text = text := by
  rw [lint_eq] at h ⊢
  dsimp only at h ⊢
  rw [accounts_withPasses blocks _ h, String.ofList_toList]

/-- Where the text is given back as it was, no repair is recorded. -/
theorem changes_of_text_eq {text : String} {blocks : Bool} (h : (lint text blocks).text = text) :
    (lint text blocks).changes = [] := by
  -- the text is its own repaired form, so it has all that the passes bring about
  have hrepaired := isRepaired_lint text blocks
  rw [h] at hrepaired
  rw [lint_of_isRepaired hrepaired (fenced?_eq_none_of_lint h)]

/-- Repairs are recorded exactly where the text is changed, with and without the repair of blocks. -/
theorem wasModified_iff (text : String) (blocks : Bool) :
    (lint text blocks).wasModified = true ↔ (lint text blocks).text ≠ text := by
  have hrecord : (lint text blocks).wasModified = true ↔ (lint text blocks).changes ≠ [] := by
    rw [LintResult.wasModified, Bool.not_eq_true', Bool.eq_false_iff, ne_eq, List.isEmpty_iff]
  rw [hrecord]
  constructor
  · intro hchanges hkept
    exact hchanges (changes_of_text_eq hkept)
  · intro hchanged hnone
    exact hchanged (text_of_changes_eq_nil hnone)

end Rubric.Script
