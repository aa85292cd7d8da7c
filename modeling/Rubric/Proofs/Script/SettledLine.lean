import Rubric.Proofs.Script.KeywordPass

/-!
# Lines without a keyword to repair

The keyword pass goes over a text line by line, so a text is kept where each of its lines is.  Lines
are looked at from where a text goes on with them, and those that a line end takes along are blank or
comments.

* `repairKeywords_eq_iff` : a text is kept if and only if all its lines are settled;
* `filterMap_margin` : the lines that a line end takes along add nothing to what is collected line by line;
* `isSettled_margin` : the lines that a line end takes along are settled.
-/

namespace Rubric.Script

open Rubric.Text

/-! ## Lines that are kept -/

/-- Whether the keywords of a line are in their spelling and case. -/
def IsSettled (line : List Char) : Prop :=
  canonicalCode (trim (splitComment line).1) = trim (splitComment line).1

/-- Settled lines are not repaired. -/
theorem repairLine_of_isSettled (number : Nat) {line : List Char} (h : IsSettled line) :
    repairLine number line = (line, []) := if_pos h

/-- Only settled lines need no repair. -/
theorem isSettled_of_repairLine {number : Nat} {line : List Char}
    (h : (repairLine number line).2 = []) : IsSettled line := by
  by_contra hnot
  have hrepair : repairLine number line = _ := if_neg hnot
  rw [hrepair] at h
  exact absurd h (List.cons_ne_nil _ _)

/-- Settled lines are kept. -/
theorem repairLines_of_isSettled (number : Nat) {ls : List (List Char)}
    (h : ∀ line ∈ ls, IsSettled line) : repairLines number ls = (ls, []) := by
  induction ls generalizing number with
  | nil => rfl
  | cons line ls ih =>
      rw [List.forall_mem_cons] at h
      rw [repairLines, repairLine_of_isSettled number h.1, ih (number + 1) h.2]
      rfl

/-- Lines that need no repair are settled. -/
theorem isSettled_of_repairLines (number : Nat) {ls : List (List Char)}
    (h : (repairLines number ls).2 = []) : ∀ line ∈ ls, IsSettled line := by
  induction ls generalizing number with
  | nil => simp
  | cons line ls ih =>
      have hboth : (repairLine number line).2 ++ (repairLines (number + 1) ls).2 = [] := h
      rw [List.append_eq_nil_iff] at hboth
      exact List.forall_mem_cons.mpr ⟨isSettled_of_repairLine hboth.1, ih (number + 1) hboth.2⟩

/-- A text is kept without a repair if and only if all its lines are settled. -/
theorem repairKeywords_eq_iff (cs : List Char) :
    repairKeywords cs = ⟨cs, []⟩ ↔ ∀ line ∈ lines cs, IsSettled line := by
  constructor
  · intro h
    exact isSettled_of_repairLines 1 (congrArg Repaired.repairs h)
  · intro h
    rw [repairKeywords, repairLines_of_isSettled 1 h]
    exact congrArg (Repaired.mk · []) (unlines_lines cs)

/-! ## Blanks, comments and tokens on a line -/

/-- A line without code is settled. -/
theorem isSettled_of_code {line : List Char} (h : trim (splitComment line).1 = []) :
    IsSettled line := by
  unfold IsSettled
  rw [h]
  show upperKeywords false [] = []
  rw [upperKeywords]

/-- A gap at the start of a line does not matter. -/
theorem isSettled_cons {c : Char} (hc : IsGap c) (line : List Char) :
    IsSettled (c :: line) ↔ IsSettled line := by
  have htrim : trim (c :: (splitComment line).1) = trim (splitComment line).1 := by
    rw [trim, trimLeft, List.dropWhile_cons_of_pos hc.isBlank]
    rfl
  unfold IsSettled
  rw [hc.isCode.splitComment_cons, htrim]

/-- A line that starts with a token is settled if and only if its code is kept. -/
theorem isSettled_append {t : List Char} (ht : Solid t) (cs : List Char) :
    IsSettled (openLine (t ++ cs)) ↔ canonicalCode (t ++ openCode cs) = t ++ openCode cs := by
  have htrim : trim (splitComment (openLine (t ++ cs))).1 = t ++ openCode cs := by
    obtain ⟨c, more, rfl⟩ := List.exists_cons_of_ne_nil ht.ne_nil
    rw [← ht.openCode_append, openCode, trim, openLine_append ht.newline_notMem, ht.code,
      List.cons_append, trimLeft, List.dropWhile_cons_of_neg (by simp [ht.head c rfl])]
  unfold IsSettled
  rw [htrim]

/-- A line without code is settled. -/
theorem HasNoCode.isSettled {cs : List Char} (h : HasNoCode cs) : IsSettled (openLine cs) := by
  apply isSettled_of_code
  rw [trim, trimLeft, List.dropWhile_eq_nil_iff.mpr h]
  rfl

/-- All lines of a text are settled if the line that it goes on with is, and those after it. -/
theorem forall_lines {P : List Char → Prop} (cs : List Char) :
    (∀ line ∈ lines cs, P line) ↔ P (openLine cs) ∧ ∀ line ∈ (lines cs).tail, P line := by
  rw [lines_eq cs, List.forall_mem_cons, List.tail_cons]

/-- The lines that a line end takes along add nothing where lines without code add nothing and gaps at
the start of a line do not matter. -/
theorem filterMap_margin {β : Type} {f : List Char → Option β}
    (hnone : ∀ cs, HasNoCode cs → f (openLine cs) = none)
    (hgap : ∀ {c : Char}, IsGap c → ∀ line, f (c :: line) = f line) (cs : List Char) :
    (lines cs).filterMap f = (lines (cs.drop (marginLength false cs))).filterMap f := by
  have hnil : f [] = none := hnone [] hasNoCode_nil
  induction cs using margin_induction with
  | nil => rfl
  | blank c rest hc ih =>
      rw [marginLength_cons hc, List.drop_succ_cons, ← ih]
      rcases hc with rfl | hc
      · rw [lines_newline, List.filterMap_cons_none hnil]
      · have hfeed : '\n' ∉ [c] := IsGap.newline_notMem hc
        have hline : openLine (c :: rest) = c :: openLine rest := openLine_append hfeed rest
        have htail : (lines (c :: rest)).tail = (lines rest).tail := tail_lines_append hfeed rest
        rw [lines_eq (c :: rest), hline, htail, lines_eq rest, List.tail_cons, List.filterMap_cons,
          List.filterMap_cons, hgap hc]
  | comment comment rest hfeed hrest ih =>
      -- the line of the comment adds nothing, nor does its end
      have hopen : openLine rest = [] := openLine_of_head hrest
      have htail : (lines ('#' :: comment ++ rest)).tail = (lines rest).tail :=
        tail_lines_append (by simpa using hfeed) rest
      rw [marginLength_comment hfeed hrest, List.drop_length_add_append, ← ih, lines_eq rest, hopen,
        List.filterMap_cons_none hnil, lines_eq ('#' :: comment ++ rest), htail, List.cons_append,
        List.filterMap_cons_none (hnone _ (hasNoCode_comment (comment ++ rest)))]
  | crlf rest ih =>
      have hreturn : f ['\r'] = none := hnone _ (hasNoCode_crlf rest)
      have hlines : lines ('\r' :: '\n' :: rest) = ['\r'] :: lines rest := rfl
      rw [marginLength_crlf, List.drop_succ_cons, List.drop_succ_cons, ← ih, hlines,
        List.filterMap_cons_none hreturn]
  | stop c rest hblank hhash hreturn =>
      rw [marginLength_eq_zero hblank hhash hreturn, List.drop_zero]

/-- The lines that a line end takes along are settled; those after them are looked at next. -/
theorem isSettled_margin (cs : List Char) :
    (∀ line ∈ lines cs, IsSettled line) ↔
      ∀ line ∈ lines (cs.drop (marginLength false cs)), IsSettled line := by
  classical
  -- the lines that are not settled are counted
  have hall : ∀ ls : List (List Char), (∀ line ∈ ls, IsSettled line) ↔
      ls.filterMap (fun line => if IsSettled line then none else some ()) = [] := by
    intro ls
    simp [List.filterMap_eq_nil_iff]
  rw [hall, hall, filterMap_margin]
  · exact fun cs hcs => if_pos hcs.isSettled
  · intro c hc line
    simp only [isSettled_cons hc]

end Rubric.Script
