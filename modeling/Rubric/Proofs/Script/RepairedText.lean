import Rubric.Proofs.Script.BlockClosing
import Rubric.Proofs.Script.CanonicalCode

/-!
# Repaired texts need no repair

What the passes bring about is a property of the lines of a text, of the words that they start with, and
of its end.  Each pass leaves what those before it brought about, so a repaired text has all of it, and a
text that has it is kept by every pass, unless it stands in a fence.

* `IsRepaired` : what the passes bring about;
* `isRepaired_lint` : a repaired text has it;
* `lint_of_isRepaired` : a text that has it needs no repair;
* `fenced?_eq_none_of_lint` : a text that is its own repaired form stands in no fence;
* `lint_lint` : so a repaired text is kept.
-/

namespace Rubric.Script

open Rubric.Text

/-! ## What passes bring about -/

/-- Whether a line has no foreign line end, no tab and no keyword to repair. -/
structure IsCleanLine (line : List Char) : Prop where
  return_notMem : '\r' ∉ line
  tab_notMem : '\t' ∉ line
  settled : IsSettled line

/-- What the passes bring about in a text, those for blocks on request. -/
structure IsRepaired (blocks : Bool) (cs : List Char) : Prop where
  clean : ∀ line ∈ lines cs, IsCleanLine line
  orphanFree : blocks = true → isOrphanFree ((lines cs).filterMap leadingKeyword?) = true
  closed : blocks = true → openBlocks (lines cs) = []
  ended : ∀ c ∈ cs.getLast?, c = '\n'

/-- Lines that are joined are the lines of the text, but for one empty line where there were none. -/
theorem mem_lines_unlines {ls : List (List Char)} (h : ∀ line ∈ ls, '\n' ∉ line) {line : List Char}
    (hline : line ∈ lines (unlines ls)) : line ∈ ls ∨ line = [] := by
  by_cases hne : ls = []
  · subst hne
    exact .inr (List.mem_singleton.mp hline)
  · rw [lines_unlines hne h] at hline
    exact .inl hline

/-- An empty line needs no repair. -/
theorem isCleanLine_nil : IsCleanLine [] where
  return_notMem := List.not_mem_nil
  tab_notMem := List.not_mem_nil
  settled := hasNoCode_nil.isSettled

/-- Nor does a line that closes a block. -/
theorem isCleanLine_closer (kind : BlockKind) : IsCleanLine kind.closer.text.toList where
  return_notMem hmem := absurd (isIdentRest_of_mem (isIdentifier_text _) _ hmem) (by decide)
  tab_notMem hmem := absurd (isIdentRest_of_mem (isIdentifier_text _) _ hmem) (by decide)
  settled := by
    unfold IsSettled
    cases kind <;> decide +kernel

/-! ## Line ends and tabs -/

/-- Line feeds are the only line ends. -/
theorem return_notMem_unixLineEnds (cs : List Char) : '\r' ∉ unixLineEnds cs := by
  fun_induction unixLineEnds cs with
  | case1 => exact List.not_mem_nil
  | case2 rest ih => exact List.not_mem_cons_of_ne_of_not_mem (by decide) ih
  | case3 rest hfeed ih => exact List.not_mem_cons_of_ne_of_not_mem (by decide) ih
  | case4 c rest hboth hreturn ih =>
      exact List.not_mem_cons_of_ne_of_not_mem (fun heq => hreturn heq.symm) ih

/-- Expanding tabs leaves none and adds spaces. -/
theorem mem_expandTabsFrom {stop column : Nat} {cs : List Char} {c : Char}
    (h : c ∈ expandTabsFrom stop column cs) : c ≠ '\t' ∧ (c ∈ cs ∨ c = ' ') := by
  fun_induction expandTabsFrom stop column cs with
  | case1 => cases h
  | case2 column rest width ih =>
      rcases List.mem_append.mp h with hspace | hrest
      · obtain rfl := (List.mem_replicate.mp hspace).2
        exact ⟨by decide, .inr rfl⟩
      · exact (ih hrest).imp_right (Or.imp_left (List.mem_cons_of_mem _))
  | case3 column rest ih =>
      rcases List.mem_cons.mp h with rfl | hrest
      · exact ⟨by decide, .inl List.mem_cons_self⟩
      · exact (ih hrest).imp_right (Or.imp_left (List.mem_cons_of_mem _))
  | case4 column d rest htab hfeed ih =>
      rcases List.mem_cons.mp h with rfl | hrest
      · exact ⟨htab, .inl List.mem_cons_self⟩
      · exact (ih hrest).imp_right (Or.imp_left (List.mem_cons_of_mem _))

/-- Plain blanks have neither tabs nor carriage returns. -/
theorem mem_plainWhitespace {cs : List Char} {c : Char} (h : c ∈ plainWhitespace cs) :
    c ≠ '\r' ∧ c ≠ '\t' := by
  obtain ⟨htab, hmem⟩ := mem_expandTabsFrom h
  refine ⟨?_, htab⟩
  rintro rfl
  rcases hmem with hmem | hspace
  · exact return_notMem_unixLineEnds cs hmem
  · exact absurd hspace (by decide)

/-- A text without foreign line ends is kept. -/
theorem unixLineEnds_eq_self {cs : List Char} (h : '\r' ∉ cs) : unixLineEnds cs = cs := by
  fun_induction unixLineEnds cs with
  | case1 => rfl
  | case2 rest => exact absurd List.mem_cons_self h
  | case3 rest => exact absurd List.mem_cons_self h
  | case4 c rest _ _ ih => rw [ih (List.not_mem_of_not_mem_cons h)]

/-- A text without tabs is kept. -/
theorem expandTabsFrom_eq_self {stop column : Nat} {cs : List Char} (h : '\t' ∉ cs) :
    expandTabsFrom stop column cs = cs := by
  fun_induction expandTabsFrom stop column cs with
  | case1 => rfl
  | case2 column rest => exact absurd List.mem_cons_self h
  | case3 column rest ih => rw [ih (List.not_mem_of_not_mem_cons h)]
  | case4 column c rest _ _ ih => rw [ih (List.not_mem_of_not_mem_cons h)]

/-- A text without foreign line ends and tabs has plain blanks. -/
theorem plainWhitespace_eq_self {cs : List Char} (hreturn : '\r' ∉ cs) (htab : '\t' ∉ cs) :
    plainWhitespace cs = cs := by
  rw [plainWhitespace, unixLineEnds_eq_self hreturn, expandTabs, expandTabsFrom_eq_self htab]

/-- Clean lines make up such a text. -/
theorem notMem_of_clean {cs : List Char} (h : ∀ line ∈ lines cs, IsCleanLine line) :
    '\r' ∉ cs ∧ '\t' ∉ cs := by
  constructor
  · rw [mem_iff_mem_lines (by decide)]
    rintro ⟨line, hline, hmem⟩
    exact (h line hline).return_notMem hmem
  · rw [mem_iff_mem_lines (by decide)]
    rintro ⟨line, hline, hmem⟩
    exact (h line hline).tab_notMem hmem

/-! ## Fences and keywords -/

/-- A fence is taken off without anything being added. -/
theorem mem_repairFence {cs : List Char} {c : Char} (h : c ∈ (repairFence cs).text) : c ∈ cs := by
  unfold repairFence at h
  split at h
  · rename_i inside hfenced
    obtain ⟨before, after, rfl, -⟩ := exists_around_of_fenced hfenced
    have hinside : c ∈ inside := h
    simp [hinside]
  · exact h

/-- The keyword pass makes the lines of a plain text clean. -/
theorem isCleanLine_repairKeywords {cs : List Char} (h : ∀ c ∈ cs, c ≠ '\r' ∧ c ≠ '\t') :
    ∀ line ∈ lines (repairKeywords cs).text, IsCleanLine line := by
  rw [lines_repairKeywords, List.forall_mem_map]
  intro line hline
  have hmem : ∀ {c : Char}, c ≠ '\n' → isIdentRest c = false → c ∈ (repairLine 0 line).1 → c ∈ cs := by
    intro c hfeed hletter hc
    rcases mem_repairLine hc with hc | hc
    · exact (mem_iff_mem_lines hfeed).mpr ⟨line, hline, hc⟩
    · rw [hletter] at hc
      cases hc
  refine ⟨fun hreturn => ?_, fun htab => ?_, isSettled_repairLine 0 line⟩
  · exact (h '\r' (hmem (by decide) (by decide) hreturn)).1 rfl
  · exact (h '\t' (hmem (by decide) (by decide) htab)).2 rfl

/-! ## Orphans -/

/-- The lines that are left were there. -/
theorem removeOrphans_sublist (number depth : Nat) (ls : List (List Char)) :
    (removeOrphans number depth ls).1.Sublist ls := by
  induction ls generalizing number depth with
  | nil => exact .slnil
  | cons line ls ih =>
      have hrest := ih (number + 1) (depthAfter depth (leadingKeyword? line))
      rw [removeOrphans]
      cases orphan? depth line with
      | some word => exact hrest.cons line
      | none => exact hrest.cons_cons line

/-- Orphans are removed from inside no conditional, and open none. -/
theorem eq_zero_of_orphan {depth : Nat} {line : List Char} {word : Keyword}
    (h : orphan? depth line = some word) :
    depth = 0 ∧ depthAfter depth (leadingKeyword? line) = depth := by
  obtain ⟨hdepth, hbranch⟩ := Option.ite_none_right_eq_some.mp h
  refine ⟨hdepth, ?_⟩
  cases hword : leadingKeyword? line with
  | none => rfl
  | some k => cases k <;> first | rfl | (rw [hword] at hbranch; cases hbranch)

/-- A line that is no orphan keeps the count of open conditionals. -/
theorem depthAfter?_of_kept {depth : Nat} {line : List Char} {word : Keyword}
    (h : orphan? depth line = none) (hword : leadingKeyword? line = some word) :
    depthAfter? (some depth) word = some (depthAfter depth (some word)) := by
  rw [orphan?, hword] at h
  rw [depthAfter?]
  by_cases hdepth : depth = 0
  · rw [if_pos hdepth] at h
    rw [h]
    simp
  · simp [hdepth]

/-- No orphans are left. -/
theorem isSome_depth_removeOrphans (number depth : Nat) (ls : List (List Char)) :
    (((removeOrphans number depth ls).1.filterMap leadingKeyword?).foldl depthAfter? (some depth)).isSome
      = true := by
  induction ls generalizing number depth with
  | nil => rfl
  | cons line ls ih =>
      have hrest := ih (number + 1) (depthAfter depth (leadingKeyword? line))
      rw [removeOrphans]
      cases horphan : orphan? depth line with
      | some word =>
          rw [(eq_zero_of_orphan horphan).2] at hrest ⊢
          exact hrest
      | none =>
          dsimp only
          cases hword : leadingKeyword? line with
          | none =>
              rw [hword] at hrest
              rw [List.filterMap_cons_none hword]
              exact hrest
          | some word =>
              rw [hword] at hrest
              rw [List.filterMap_cons_some hword, List.foldl_cons, depthAfter?_of_kept horphan hword]
              exact hrest

/-- The lines of a text without its orphans are lines of the text, but for one empty line where none are
left. -/
theorem mem_lines_repairOrphans {cs line : List Char} (h : line ∈ lines (repairOrphans cs).text) :
    line ∈ lines cs ∨ line = [] := by
  have hsublist := removeOrphans_sublist 1 0 (lines cs)
  have hfeed : ∀ line ∈ (removeOrphans 1 0 (lines cs)).1, '\n' ∉ line := fun line hline =>
    newline_notMem_of_mem_lines (hsublist.subset hline)
  exact (mem_lines_unlines hfeed h).imp_left fun hmem => hsublist.subset hmem

/-- A text without its orphans has none. -/
theorem isOrphanFree_repairOrphans (cs : List Char) :
    isOrphanFree ((lines (repairOrphans cs).text).filterMap leadingKeyword?) = true := by
  have hkept := isSome_depth_removeOrphans 1 0 (lines cs)
  have hfeed : ∀ line ∈ (removeOrphans 1 0 (lines cs)).1, '\n' ∉ line := fun line hline =>
    newline_notMem_of_mem_lines ((removeOrphans_sublist 1 0 (lines cs)).subset hline)
  show isOrphanFree ((lines (unlines (removeOrphans 1 0 (lines cs)).1)).filterMap leadingKeyword?) = true
  by_cases hne : (removeOrphans 1 0 (lines cs)).1 = []
  · have hline : lines (unlines []) = [[]] := rfl
    rw [hne, hline, List.filterMap_cons_none leadingKeyword?_nil]
    rfl
  · rw [lines_unlines hne hfeed]
    exact hkept

/-! ## Blocks -/

/-- The repair has blocks of the known kinds open. -/
theorem exists_opened (words : List Keyword) :
    ∃ opened : List BlockKind, words.foldl openAfter [] = opened.map BlockKind.opener := by
  have hstep : ∀ (opened : List BlockKind) (word : Keyword),
      ∃ opened' : List BlockKind, openAfter (opened.map BlockKind.opener) word = opened'.map BlockKind.opener := by
    intro opened word
    have herase : ∀ k : Keyword, ∃ opened' : List BlockKind,
        (opened.map BlockKind.opener).erase k = opened'.map BlockKind.opener := by
      intro k
      obtain ⟨opened', -, heq⟩ := List.sublist_map_iff.mp (List.erase_sublist (a := k))
      exact ⟨opened', heq⟩
    cases word with
    | branch => exact ⟨.branch :: opened, rfl⟩
    | foreach => exact ⟨.foreach :: opened, rfl⟩
    | endBranch => exact herase .branch
    | endForeach => exact herase .foreach
    | _ => exact ⟨opened, rfl⟩
  have hrun : ∀ opened : List BlockKind, ∃ opened' : List BlockKind,
      words.foldl openAfter (opened.map BlockKind.opener) = opened'.map BlockKind.opener := by
    induction words with
    | nil => exact fun opened => ⟨opened, rfl⟩
    | cons word words ih =>
        intro opened
        obtain ⟨next, hnext⟩ := hstep opened word
        rw [List.foldl_cons, hnext]
        exact ih next
  exact hrun []

/-- The closing words of open blocks, the innermost first, close them all. -/
theorem foldl_openAfter_closers (opened : List BlockKind) :
    (opened.map BlockKind.closer).foldl openAfter (opened.map BlockKind.opener) = [] := by
  induction opened with
  | nil => rfl
  | cons kind opened ih =>
      rw [List.map_cons, List.map_cons, List.foldl_cons, kind.openAfter_closer]
      exact ih

/-- The words of a text with its blocks closed are those of the text, and closing words for the blocks that
were open. -/
theorem filterMap_repairBlocks (cs : List Char) :
    ∃ opened : List BlockKind, openBlocks (lines cs) = opened.map BlockKind.opener ∧
      (lines (repairBlocks cs).text).filterMap leadingKeyword?
        = (lines cs).filterMap leadingKeyword? ++ opened.map BlockKind.closer := by
  obtain ⟨opened, hopened⟩ := exists_opened ((lines cs).filterMap leadingKeyword?)
  rw [← openBlocks_eq] at hopened
  refine ⟨opened, hopened, ?_⟩
  rw [repairBlocks_of_open hopened]
  split
  · rename_i hnil
    rw [hnil, List.map_nil, List.append_nil]
  · exact filterMap_closed cs opened

/-- Then no block is open. -/
theorem openBlocks_repairBlocks (cs : List Char) : openBlocks (lines (repairBlocks cs).text) = [] := by
  obtain ⟨opened, hopened, hwords⟩ := filterMap_repairBlocks cs
  rw [openBlocks_eq, hwords, List.foldl_append, ← openBlocks_eq, hopened, foldl_openAfter_closers]

/-- Closing blocks makes no orphans. -/
theorem isOrphanFree_repairBlocks {cs : List Char}
    (h : isOrphanFree ((lines cs).filterMap leadingKeyword?) = true) :
    isOrphanFree ((lines (repairBlocks cs).text).filterMap leadingKeyword?) = true := by
  obtain ⟨opened, -, hwords⟩ := filterMap_repairBlocks cs
  have hclosers : ∀ depth : Nat,
      ((opened.map BlockKind.closer).foldl depthAfter? (some depth)).isSome = true := by
    clear hwords
    induction opened with
    | nil => exact fun depth => rfl
    | cons kind opened ih =>
        intro depth
        have hcloser : depthAfter? (some depth) kind.closer = some (depthAfter depth (some kind.closer)) := by
          cases kind <;> simp [depthAfter?, BlockKind.closer, furtherBranch?]
        rw [List.map_cons, List.foldl_cons, hcloser]
        exact ih _
  obtain ⟨depth, hdepth⟩ := Option.isSome_iff_exists.mp h
  rw [hwords, isOrphanFree, List.foldl_append, hdepth]
  exact hclosers depth

/-- The lines of a text with its blocks closed are lines of the text, closing words, and an empty line. -/
theorem mem_lines_repairBlocks {cs line : List Char} (h : line ∈ lines (repairBlocks cs).text) :
    line ∈ lines cs ∨ line = [] ∨ ∃ kind : BlockKind, line = kind.closer.text.toList := by
  obtain ⟨opened, hopened, -⟩ := filterMap_repairBlocks cs
  rw [repairBlocks_of_open hopened] at h
  split at h
  · exact .inl h
  · obtain ⟨n, hlines⟩ := exists_lines_eq cs
    have hmem : line ∈ lines (withoutFinalFeeds cs) ++ lines (closingText opened) := by
      rw [← lines_append_newline]
      exact h
    rw [lines_closingText, List.mem_append, List.mem_append, List.mem_singleton] at hmem
    rcases hmem with hbefore | hcloser | hempty
    · rw [hlines]
      exact .inl (List.mem_append_left _ hbefore)
    · obtain ⟨kind, -, rfl⟩ := List.mem_map.mp hcloser
      exact .inr (.inr ⟨kind, rfl⟩)
    · exact .inr (.inl hempty)

/-! ## The end of a text -/

/-- Ending the last line adds at most an empty line. -/
theorem lines_repairEnd (cs : List Char) :
    lines (repairEnd cs).text = lines cs ∨ lines (repairEnd cs).text = lines cs ++ [[]] := by
  unfold repairEnd
  split
  · exact .inl rfl
  · split
    · exact .inl rfl
    · exact .inr (lines_append_newline cs [])

/-- So the lines start with the same words. -/
theorem filterMap_repairEnd (cs : List Char) :
    (lines (repairEnd cs).text).filterMap leadingKeyword? = (lines cs).filterMap leadingKeyword? := by
  rcases lines_repairEnd cs with hlines | hlines
  · rw [hlines]
  · rw [hlines, List.filterMap_append, List.filterMap_cons_none leadingKeyword?_nil, List.filterMap_nil,
      List.append_nil]

/-- The last line is ended. -/
theorem ended_repairEnd (cs : List Char) : ∀ c ∈ (repairEnd cs).text.getLast?, c = '\n' := by
  intro c hc
  unfold repairEnd at hc
  split at hc
  · rename_i hnone
    rw [hnone] at hc
    cases hc
  · rename_i last hlast
    split at hc
    · rename_i hfeed
      rw [hlast] at hc
      exact (Option.some.inj hc).symm.trans hfeed
    · rw [List.getLast?_concat] at hc
      exact (Option.some.inj hc).symm

/-- A text whose last line is ended is kept. -/
theorem repairEnd_of_ended {cs : List Char} (h : ∀ c ∈ cs.getLast?, c = '\n') :
    repairEnd cs = ⟨cs, []⟩ := by
  unfold repairEnd
  split
  · rfl
  · rename_i c hc
    rw [if_pos (h c hc)]

/-! ## All passes -/

/-- The passes for blocks leave lines clean. -/
theorem isCleanLine_withBlocks (blocks : Bool) {cs : List Char} (h : ∀ line ∈ lines cs, IsCleanLine line) :
    ∀ line ∈ lines (withBlocks blocks cs), IsCleanLine line := by
  cases blocks with
  | false => exact h
  | true =>
      intro line hline
      rcases mem_lines_repairBlocks hline with hkept | rfl | ⟨kind, rfl⟩
      · rcases mem_lines_repairOrphans hkept with hkept | rfl
        · exact h line hkept
        · exact isCleanLine_nil
      · exact isCleanLine_nil
      · exact isCleanLine_closer kind

/-- A repaired text has what the passes bring about. -/
theorem isRepaired_lint (text : String) (blocks : Bool) : IsRepaired blocks (lint text blocks).text.toList := by
  rw [toList_lint]
  generalize hspelled : repairKeywords (repairFence (plainWhitespace text.toList)).text = spelled
  have hclean : ∀ line ∈ lines (withBlocks blocks spelled.text), IsCleanLine line := by
    refine isCleanLine_withBlocks blocks ?_
    rw [← hspelled]
    exact isCleanLine_repairKeywords fun c hc => mem_plainWhitespace (mem_repairFence hc)
  constructor
  · intro line hline
    rcases lines_repairEnd (withBlocks blocks spelled.text) with hlines | hlines
    · rw [hlines] at hline
      exact hclean line hline
    · rw [hlines, List.mem_append, List.mem_singleton] at hline
      rcases hline with hline | rfl
      · exact hclean line hline
      · exact isCleanLine_nil
  · rintro rfl
    rw [filterMap_repairEnd]
    exact isOrphanFree_repairBlocks (isOrphanFree_repairOrphans spelled.text)
  · rintro rfl
    rw [openBlocks_eq, filterMap_repairEnd, ← openBlocks_eq]
    exact openBlocks_repairBlocks _
  · exact ended_repairEnd _

/-- A text with all that the passes bring about needs no repair, unless it stands in a fence. -/
theorem lint_of_isRepaired {text : String} {blocks : Bool} (h : IsRepaired blocks text.toList)
    (hfence : fenced? text.toList = none) : lint text blocks = ⟨text, []⟩ := by
  obtain ⟨hreturn, htab⟩ := notMem_of_clean h.clean
  have hplain : repairWhitespace text.toList = ⟨text.toList, []⟩ :=
    if_pos (plainWhitespace_eq_self hreturn htab)
  have hunfenced : repairFence text.toList = ⟨text.toList, []⟩ := by
    rw [repairFence, hfence]
  have hspelled : repairKeywords text.toList = ⟨text.toList, []⟩ :=
    (repairKeywords_eq_iff text.toList).mpr fun line hline => (h.clean line hline).settled
  have hended := repairEnd_of_ended h.ended
  cases blocks with
  | false =>
      simp only [lint, Repaired.andThen, hplain, hunfenced, hspelled, Bool.false_eq_true, if_false, hended,
        List.append_nil, String.ofList_toList]
  | true =>
      have horphans := (repairOrphans_eq_iff text.toList).mpr (h.orphanFree rfl)
      have hblocks : repairBlocks text.toList = ⟨text.toList, []⟩ := by
        rw [repairBlocks, h.closed rfl]
      simp only [lint, Repaired.andThen, hplain, hunfenced, hspelled, horphans, hblocks, if_true, hended,
        List.append_nil, String.ofList_toList]

/-- A text whose last line is ended has a line feed after the mark of a fence. -/
theorem newline_mem_of_ended {before after : List Char}
    (h : ∀ c ∈ (before ++ fenceMark ++ after).getLast?, c = '\n') : '\n' ∈ after := by
  rw [List.getLast?_append] at h
  cases hlast : after.getLast? with
  | none =>
      rw [hlast, Option.none_or, List.getLast?_append] at h
      exact absurd (h '`' rfl) (by decide)
  | some last =>
      obtain rfl := h last (by rw [hlast]; rfl)
      exact List.mem_of_getLast? hlast

/-- Removing orphans leaves no more lines than there were. -/
theorem length_lines_repairOrphans_le (cs : List Char) :
    (lines (repairOrphans cs).text).length ≤ (lines cs).length := by
  have hsublist := removeOrphans_sublist 1 0 (lines cs)
  have hfeed : ∀ line ∈ (removeOrphans 1 0 (lines cs)).1, '\n' ∉ line := fun line hline =>
    newline_notMem_of_mem_lines (hsublist.subset hline)
  show (lines (unlines (removeOrphans 1 0 (lines cs)).1)).length ≤ (lines cs).length
  by_cases hne : (removeOrphans 1 0 (lines cs)).1 = []
  · -- one empty line stands for none
    have hline : lines (unlines []) = [[]] := rfl
    rw [hne, hline, lines_eq cs]
    simp only [List.length_cons, List.length_nil]
    omega
  · rw [lines_unlines hne hfeed]
    exact hsublist.length_le

/-- Where blocks are repaired, a text has no more lines than before or ends with one that closes a block. -/
theorem withBlocks_cases (blocks : Bool) (cs : List Char) :
    (lines (withBlocks blocks cs)).length ≤ (lines cs).length ∨
      ∃ (before : List Char) (kind : BlockKind),
        withBlocks blocks cs = before ++ kind.closer.text.toList ++ ['\n'] := by
  cases blocks with
  | false => exact .inl (Nat.le_refl _)
  | true =>
      obtain ⟨opened, hopened, -⟩ := filterMap_repairBlocks (repairOrphans cs).text
      rw [withBlocks, if_pos rfl, repairBlocks_of_open hopened]
      split
      · exact .inl (length_lines_repairOrphans_le cs)
      · rename_i hne
        right
        obtain ⟨inner, outermost, rfl⟩ := (List.eq_nil_or_concat opened).resolve_left hne
        refine ⟨withoutFinalFeeds (repairOrphans cs).text ++ '\n' :: closingText inner, outermost, ?_⟩
        simp only [closingText, List.concat_eq_append, List.flatMap_append, List.flatMap_singleton,
          List.append_assoc, List.cons_append]

/-- Trailing blanks left out, a text in a fence ends with its mark. -/
theorem getLast?_trimRight_of_fenced {cs inside : List Char} (h : fenced? cs = some inside) :
    (trimRight cs).getLast? = some '`' := by
  obtain ⟨word, gap, hcs, -, -, -⟩ := exists_parts_of_fenced h
  have hsplit : ∃ first, cs = first ++ ['`'] ++ trailingBlanks (trimLeft cs) :=
    ⟨leadingBlanks cs ++ (fenceMark ++ (word ++ gap)) ++ '\n' :: (inside ++ ['`', '`']), by
      conv_lhs => rw [hcs]
      simp [fenceMark]⟩
  obtain ⟨first, hfirst⟩ := hsplit
  have hblank : trimRight (trailingBlanks (trimLeft cs)) = [] := by
    rw [trimRight, dropTrailing, List.reverse_eq_nil_iff, List.dropWhile_eq_nil_iff]
    exact fun c hc => List.mem_takeWhile_imp (List.mem_reverse.mp (List.mem_reverse.mp hc))
  rw [hfirst, trimRight_append, if_pos hblank, trimRight_eq_self, List.getLast?_concat]
  intro c hc
  rw [List.getLast?_concat] at hc
  obtain rfl := Option.some.inj hc
  decide

/-- So it does not end with a line that closes a block. -/
theorem fenced?_closer (before : List Char) (kind : BlockKind) :
    fenced? (before ++ kind.closer.text.toList ++ ['\n']) = none := by
  cases hfence : fenced? (before ++ kind.closer.text.toList ++ ['\n']) with
  | none => rfl
  | some inside =>
      have hlast := getLast?_trimRight_of_fenced hfence
      have hfeed : trimRight ['\n'] = [] := rfl
      obtain ⟨last, hend, hink, hmark⟩ : ∃ last, kind.closer.text.toList.getLast? = some last ∧
          isBlank last = false ∧ last ≠ '`' := by
        cases kind with
        | branch => exact ⟨'F', by decide⟩
        | foreach => exact ⟨'H', by decide⟩
      have hcloser : (before ++ kind.closer.text.toList).getLast? = some last := by
        rw [List.getLast?_append, hend, Option.some_or]
      have hkept : trimRight (before ++ kind.closer.text.toList) = before ++ kind.closer.text.toList :=
        trimRight_eq_self fun c hc => by
          rw [hcloser] at hc
          exact Option.some.inj hc ▸ hink
      rw [trimRight_append, if_pos hfeed, hkept, hcloser] at hlast
      exact absurd (Option.some.inj hlast) hmark

/-- A text that is kept stands in no fence, which would be taken off. -/
theorem fenced?_eq_none_of_lint {text : String} {blocks : Bool} (h : (lint text blocks).text = text) :
    fenced? text.toList = none := by
  have hrepaired := isRepaired_lint text blocks
  rw [h] at hrepaired
  obtain ⟨hreturn, htab⟩ := notMem_of_clean hrepaired.clean
  cases hfence : fenced? text.toList with
  | none => rfl
  | some inside =>
      exfalso
      have htext : text.toList = (repairEnd (withBlocks blocks (repairKeywords inside).text)).text := by
        have hlint := toList_lint text blocks
        rw [h, plainWhitespace_eq_self hreturn htab] at hlint
        rw [hlint, repairFence, hfence]
      rcases withBlocks_cases blocks (repairKeywords inside).text with hfewer | ⟨before, kind, hcloser⟩
      · -- the fence takes two line ends along, and at most one is added
        obtain ⟨before, after, hsplit, -⟩ := exists_around_of_fenced hfence
        have hafter : '\n' ∈ after := by
          refine @newline_mem_of_ended (before ++ '\n' :: inside) after fun c hc => hrepaired.ended c ?_
          rw [hsplit]
          simpa only [List.append_assoc, List.cons_append] using hc
        have hmost : (lines text.toList).length ≤ (lines inside).length + 1 := by
          rw [lines_repairKeywords, List.length_map] at hfewer
          rw [htext]
          rcases lines_repairEnd (withBlocks blocks (repairKeywords inside).text) with hlines | hlines
          · rw [hlines]
            omega
          · rw [hlines, List.length_append, List.length_singleton]
            omega
        have hmore := List.count_pos_iff.mpr hafter
        rw [length_lines, length_lines, hsplit] at hmost
        simp only [List.count_append, List.count_cons_self] at hmost
        omega
      · -- a text that ends with a closing word does not end with the mark
        have hended : repairEnd (before ++ kind.closer.text.toList ++ ['\n']) = ⟨_, []⟩ :=
          repairEnd_of_ended fun c hc => by
            rw [List.getLast?_concat] at hc
            exact (Option.some.inj hc).symm
        rw [hcloser, hended] at htext
        rw [htext, fenced?_closer] at hfence
        cases hfence

/-- A repaired text needs no repair, unless it stands in a fence. -/
theorem lint_lint (text : String) (blocks : Bool) (h : fenced? (lint text blocks).text.toList = none) :
    lint (lint text blocks).text blocks = ⟨(lint text blocks).text, []⟩ :=
  lint_of_isRepaired (isRepaired_lint text blocks) h

/-- A fenced text with tabs, misspelled keywords, an orphan and open blocks. -/
theorem lint_lint_fenced :
    (lint "```evalscript\r\nelse\r\nfor  each $a IN $b\n\tif $a == 'else if' # if\n```" true).text
      = "FOREACH $a IN $b\n  IF $a == 'else if' # if\nENDIF\nENDFOREACH\n" ∧
    fenced? "FOREACH $a IN $b\n  IF $a == 'else if' # if\nENDIF\nENDFOREACH\n".toList = none ∧
    lint "FOREACH $a IN $b\n  IF $a == 'else if' # if\nENDIF\nENDFOREACH\n" true
      = ⟨"FOREACH $a IN $b\n  IF $a == 'else if' # if\nENDIF\nENDFOREACH\n", []⟩ := by
  have htext : (lint "```evalscript\r\nelse\r\nfor  each $a IN $b\n\tif $a == 'else if' # if\n```" true).text
      = "FOREACH $a IN $b\n  IF $a == 'else if' # if\nENDIF\nENDFOREACH\n" := by
    decide +kernel
  have hfence : fenced? "FOREACH $a IN $b\n  IF $a == 'else if' # if\nENDIF\nENDFOREACH\n".toList = none := by
    decide +kernel
  have htwice := lint_lint "```evalscript\r\nelse\r\nfor  each $a IN $b\n\tif $a == 'else if' # if\n```" true
    (by rw [htext]; exact hfence)
  rw [htext] at htwice
  exact ⟨htext, hfence, htwice⟩

end Rubric.Script
