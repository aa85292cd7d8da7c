import Mathlib.Data.List.Induction
import Mathlib.Data.List.Infix
import Rubric.Proofs.Script.LineNumbers
import Rubric.Proofs.Script.Seam
import Rubric.Script.Interpreter

/-!
# Lines of the script text

Before a script is parsed its text may be repaired.  Line ends, tabs and keywords are put right line by
line, so each line stays in its place; a fence around the script is taken off together with the lines
before it, and all lines move up.

* `textLines` : the lines of a script text, however they end;
* `fenceLines` : how many lines stand before a script inside a fence;
* `getElem?_lines_lint` : from which line of the text a line of the repaired one is made;
* `lines_of_compileText` : on which line of the text a statement stands.
-/

namespace Rubric.Script

open Rubric.Text

/-! ## Lines of texts in a row -/

/-- A line feed between two texts keeps their lines apart. -/
theorem lines_append_newline (a b : List Char) : lines (a ++ '\n' :: b) = lines a ++ lines b := by
  induction a with
  | nil => rfl
  | cons c a ih =>
      by_cases hc : c = '\n'
      · subst hc
        rw [List.cons_append, lines_newline, lines_newline, ih]
        rfl
      · rw [List.cons_append, lines_cons hc, lines_cons hc, ih, lines_eq a]
        rfl

/-- There is one line more than line feeds. -/
theorem length_lines (cs : List Char) : (lines cs).length = cs.count '\n' + 1 := by
  induction cs with
  | nil => rfl
  | cons c cs ih =>
      by_cases hc : c = '\n'
      · subst hc
        rw [lines_newline, List.length_cons, ih, List.count_cons_self]
      · rw [List.count_cons_of_ne hc, ← ih, lines_cons hc, lines_eq cs]
        rfl

/-- Characters of a line are one. -/
theorem lines_of_notMem {t : List Char} (h : '\n' ∉ t) : lines t = [t] := by
  have hopen := openLine_append h []
  have htail := tail_lines_append h []
  rw [List.append_nil] at hopen htail
  rw [lines_eq t, hopen, htail]
  exact congrArg (· :: []) (List.append_nil t)

/-- Lines have no line feeds. -/
theorem newline_notMem_of_mem_lines {cs line : List Char} (h : line ∈ lines cs) : '\n' ∉ line := by
  induction cs generalizing line with
  | nil =>
      rw [List.mem_singleton.mp h]
      exact List.not_mem_nil
  | cons c cs ih =>
      by_cases hc : c = '\n'
      · subst hc
        rw [lines_newline] at h
        rcases List.mem_cons.mp h with rfl | hlater
        · exact List.not_mem_nil
        · exact ih hlater
      · rw [lines_cons hc] at h
        rcases List.mem_cons.mp h with rfl | hlater
        · have hhead : '\n' ∉ (lines cs).headD [] := ih (by rw [lines_eq cs]; exact List.mem_cons_self ..)
          exact List.not_mem_cons_of_ne_of_not_mem (Ne.symm hc) hhead
        · exact ih (List.mem_of_mem_tail hlater)

/-- The characters of a text are those of its lines, and line feeds. -/
theorem mem_iff_mem_lines {cs : List Char} {c : Char} (hc : c ≠ '\n') :
    c ∈ cs ↔ ∃ line ∈ lines cs, c ∈ line := by
  induction cs with
  | nil => simp [lines, splitOn]
  | cons d cs ih =>
      by_cases hd : d = '\n'
      · subst hd
        rw [lines_newline, List.mem_cons, ih]
        simp [hc]
      · rw [lines_cons hd, List.mem_cons, ih, lines_eq cs]
        simp [or_assoc]

/-- What stands on a line stands in the text. -/
theorem mem_of_mem_lines {cs line : List Char} {c : Char} (h : line ∈ lines cs) (hc : c ∈ line) : c ∈ cs := by
  have hne : c ≠ '\n' := by
    rintro rfl
    exact newline_notMem_of_mem_lines h hc
  exact (mem_iff_mem_lines hne).mpr ⟨line, h, hc⟩

/-- Lines that are joined are the lines of the text. -/
theorem lines_unlines {ls : List (List Char)} (hne : ls ≠ []) (h : ∀ line ∈ ls, '\n' ∉ line) :
    lines (unlines ls) = ls := by
  induction ls with
  | nil => exact absurd rfl hne
  | cons line ls ih =>
      obtain ⟨hline, hrest⟩ := List.forall_mem_cons.mp h
      cases ls with
      | nil => exact lines_of_notMem hline
      | cons next ls =>
          have hsplit : unlines (line :: next :: ls) = line ++ '\n' :: unlines (next :: ls) := by
            simp [unlines, joinWith]
          rw [hsplit, lines_append_newline, lines_of_notMem hline, ih (List.cons_ne_nil _ _) hrest]
          rfl

/-- The lines of a text stay in place where another follows, which may go on with the last. -/
theorem getElem?_lines_append {a line : List Char} {i : Nat} (h : (lines a)[i]? = some line)
    (b : List Char) :
    ∃ more, (lines (a ++ b))[i]? = some (line ++ more) ∧ (more = [] ∨ more = openLine b) := by
  induction a generalizing i line with
  | nil =>
      cases i with
      | zero =>
          obtain rfl := Option.some.inj h
          exact ⟨openLine b, by rw [List.nil_append, lines_eq b]; rfl, .inr rfl⟩
      | succ i => cases h
  | cons c a ih =>
      by_cases hc : c = '\n'
      · subst hc
        rw [List.cons_append, lines_newline]
        cases i with
        | zero => exact ⟨[], by rw [← Option.some.inj h]; rfl, .inl rfl⟩
        | succ i => exact ih h
      · rw [lines_cons hc] at h
        rw [List.cons_append, lines_cons hc]
        cases i with
        | zero =>
            obtain ⟨more, hmore, hlast⟩ := @ih _ 0 (by rw [lines_eq a]; rfl)
            rw [lines_eq (a ++ b)] at hmore
            rw [lines_eq (a ++ b), ← Option.some.inj h]
            refine ⟨more, ?_, hlast⟩
            rw [List.headD_cons, Option.some.inj hmore, lines_eq a]
            rfl
        | succ i =>
            rw [lines_eq a] at h ih
            rw [lines_eq (a ++ b)] at ih ⊢
            exact @ih line (i + 1) h

/-! ## Line ends and tabs -/

/-- The lines of a text, each ended by a line feed, a carriage return or both. -/
def textLines : List Char → List (List Char)
  | [] => [[]]
  | '\r' :: '\n' :: rest => [] :: textLines rest
  | '\r' :: rest => [] :: textLines rest
  | '\n' :: rest => [] :: textLines rest
  | c :: rest =>
    match textLines rest with
    | [] => [[c]]
    | line :: ls => (c :: line) :: ls

/-- They are the lines of the text with line feeds as line ends. -/
theorem textLines_eq (cs : List Char) : textLines cs = lines (unixLineEnds cs) := by
  fun_induction textLines cs with
  | case1 => rfl
  | case2 rest ih => rw [unixLineEnds, lines_newline, ih]
  | case3 rest hnot ih =>
      rw [unixLineEnds, lines_newline, ih]
      exact hnot
  | case4 rest ih => rw [unixLineEnds, lines_newline, ih] <;> simp
  | case5 c rest _ _ _ hnil ih => exact absurd (ih.symm.trans hnil) (splitOn_ne_nil _ _)
  | case6 c rest hboth hreturn hfeed line ls heq ih =>
      rw [unixLineEnds, lines_cons hfeed, ← ih, heq]
      · rfl
      · exact hboth
      · exact hreturn

/-- Columns start again on each line. -/
theorem lines_expandTabsFrom (stop column : Nat) (cs : List Char) :
    lines (expandTabsFrom stop column cs)
      = expandTabsFrom stop column (openLine cs) :: (lines cs).tail.map (expandTabs stop) := by
  fun_induction expandTabsFrom stop column cs with
  | case1 => rfl
  | case2 column rest width ih =>
      have hopen : openLine ('\t' :: rest) = '\t' :: openLine rest := rfl
      have htail : (lines ('\t' :: rest)).tail = (lines rest).tail := by rw [lines_cons (by decide)]; rfl
      have hspaces : '\n' ∉ List.replicate width ' ' := by simp
      rw [lines_eq, openLine_append hspaces, tail_lines_append hspaces, hopen, htail, expandTabsFrom]
      rw [lines_eq] at ih
      obtain ⟨hline, hlines⟩ := List.cons.inj ih
      rw [hline, hlines]
  | case3 column rest ih =>
      have hopen : openLine ('\n' :: rest) = [] := rfl
      rw [lines_newline, lines_newline, hopen, ih, lines_eq rest]
      rfl
  | case4 column c rest htab hfeed ih =>
      have hopen : openLine (c :: rest) = c :: openLine rest := by
        rw [openLine, List.takeWhile_cons_of_pos (by simpa using hfeed)]
        rfl
      have hexpand : expandTabsFrom stop column (c :: openLine rest)
          = c :: expandTabsFrom stop (column + 1) (openLine rest) := by
        rw [expandTabsFrom] <;> assumption
      rw [lines_cons hfeed, lines_cons hfeed, hopen, hexpand, ih]
      rfl

/-- The lines of a text with plain blanks are its lines, the tabs of each expanded. -/
theorem lines_plainWhitespace (cs : List Char) :
    lines (plainWhitespace cs) = (textLines cs).map (expandTabs tabStop) := by
  rw [plainWhitespace, expandTabs, lines_expandTabsFrom, textLines_eq, lines_eq (unixLineEnds cs)]
  rfl

/-! ## Fences -/

/-- How many lines stand before the script inside a fence; none where there is no fence. -/
def fenceLines (cs : List Char) : Nat :=
  match fenced? cs with
  | none => 0
  | some _ =>
    let afterWord := ((trim cs).drop fenceMark.length).dropWhile isWord
    (leadingBlanks cs).count '\n' + (leadingBlanks afterWord).count '\n'

/-- A run of blanks with a line feed ends with a line, which has the blanks after the last one. -/
theorem exists_before_of_afterLastLineFeed {run indent : List Char}
    (h : afterLastLineFeed run = some indent) :
    ∃ before, run = before ++ '\n' :: indent ∧ '\n' ∉ indent := by
  unfold afterLastLineFeed at h
  split at h
  · rename_i hmem
    obtain rfl := Option.some.inj h
    have hmem' : '\n' ∈ run.reverse := by simpa using hmem
    obtain ⟨last, rest, hsplit, hlast⟩ := List.eq_append_cons_of_mem hmem'
    have htake : run.reverse.takeWhile (· != '\n') = last := by
      rw [hsplit]
      refine takeWhile_append_stop (fun c hc => ?_) (by simp)
      rw [bne_iff_ne]
      rintro rfl
      exact hlast hc
    refine ⟨rest.reverse, ?_, by rwa [htake, List.mem_reverse]⟩
    rw [htake, ← List.reverse_reverse run, hsplit]
    simp
  · cases h

/-- A fence is the mark and perhaps a word, blanks with a line end, the script, and the mark, between
blanks. -/
theorem exists_parts_of_fenced {cs inside : List Char} (h : fenced? cs = some inside) :
    ∃ word gap, cs = leadingBlanks cs ++ (fenceMark ++ (word ++ gap)) ++
        '\n' :: (inside ++ fenceMark ++ trailingBlanks (trimLeft cs)) ∧
      (∀ c ∈ word, isWord c = true) ∧ (∀ c ∈ gap, isBlank c = true) ∧
      fenceLines cs = (leadingBlanks cs).count '\n' + (gap.count '\n' + 1) := by
  have hlines : fenceLines cs = (leadingBlanks cs).count '\n'
      + (leadingBlanks (((trim cs).drop fenceMark.length).dropWhile isWord)).count '\n' := by
    rw [fenceLines, h]
  unfold fenced? at h
  dsimp only at h
  split at h
  · rename_i hmark
    obtain ⟨opened, hopened⟩ := List.isPrefixOf_iff_prefix.mp hmark
    rw [← hopened, List.drop_left] at h hlines
    split at h
    · cases h
    · rename_i indent hindent
      -- the blanks after the word, up to the last line end among them
      obtain ⟨run, hrun, hfeed⟩ := exists_before_of_afterLastLineFeed hindent
      have hblank : ∀ c ∈ run, isBlank c = true := by
        intro c hc
        have hmem : c ∈ leadingBlanks (opened.dropWhile isWord) := hrun ▸ List.mem_append_left _ hc
        exact List.mem_takeWhile_imp hmem
      split at h
      · rename_i hclosed
        obtain ⟨body, hbody⟩ := List.isSuffixOf_iff_suffix.mp hclosed
        rw [← hbody, List.length_append, Nat.add_sub_cancel, List.take_left] at h
        obtain rfl := Option.some.inj h
        refine ⟨opened.takeWhile isWord, run, ?_, fun c hc => List.mem_takeWhile_imp hc, hblank, ?_⟩
        · calc cs = leadingBlanks cs ++ (trim cs ++ trailingBlanks (trimLeft cs)) := by
                rw [trim, trimRight_append_trailingBlanks, leadingBlanks_append_trimLeft]
            _ = leadingBlanks cs ++ (fenceMark ++ (opened.takeWhile isWord ++
                  (run ++ '\n' :: indent ++ trimLeft (opened.dropWhile isWord)))
                  ++ trailingBlanks (trimLeft cs)) := by
                rw [← hrun, leadingBlanks_append_trimLeft, List.takeWhile_append_dropWhile, hopened]
            _ = _ := by
                rw [hbody]
                simp only [List.append_assoc, List.cons_append]
        · have hindent : indent.count '\n' = 0 := List.count_eq_zero.mpr hfeed
          rw [hlines, hrun, List.count_append, List.count_cons_self, hindent]
      · cases h
  · cases h

/-- A fence is taken off a script that stands after whole lines and before the closing mark. -/
theorem exists_around_of_fenced {cs inside : List Char} (h : fenced? cs = some inside) :
    ∃ before after, cs = before ++ '\n' :: (inside ++ fenceMark ++ after) ∧
      fenceLines cs = before.count '\n' + 1 := by
  obtain ⟨word, gap, hcs, hword, -, hlines⟩ := exists_parts_of_fenced h
  have hmark : fenceMark.count '\n' = 0 := by decide
  have hfeed : word.count '\n' = 0 :=
    List.count_eq_zero.mpr fun hmem => absurd (hword _ hmem) (by decide)
  refine ⟨_, _, hcs, ?_⟩
  rw [hlines]
  simp only [List.count_append, hmark, hfeed]
  omega

/-! ## Keywords -/

/-- What follows letters is the end of the text. -/
theorem suffix_of_afterLetters {letters cs rest : List Char} (h : afterLetters letters cs = some rest) :
    rest <:+ cs := by
  induction letters generalizing cs with
  | nil =>
      obtain rfl := Option.some.inj h
      exact List.suffix_refl _
  | cons letter letters ih =>
      cases cs with
      | nil => cases h
      | cons c cs =>
          rw [afterLetters] at h
          split at h
          · exact (ih h).trans (List.suffix_cons _ _)
          · cases h

/-- What follows parts of a spelling is the end of the text. -/
theorem suffix_of_parts {parts : List SpellingPart} {cs rest : List Char}
    (h : parts.foldlM (fun rest part => part.rest? rest) cs = some rest) : rest <:+ cs := by
  induction parts generalizing cs with
  | nil =>
      obtain rfl := Option.some.inj h
      exact List.suffix_refl _
  | cons part parts ih =>
      rw [List.foldlM_cons] at h
      obtain ⟨next, hpart, hparts⟩ := Option.bind_eq_some_iff.mp h
      refine (ih hparts).trans ?_
      cases part with
      | letters word => exact suffix_of_afterLetters hpart
      | blanks least =>
          obtain ⟨-, heq⟩ := Option.ite_none_right_eq_some.mp hpart
          obtain rfl := Option.some.inj heq
          exact List.dropWhile_suffix _

/-- What follows a spelling follows its parts. -/
theorem foldlM_of_afterSpelling {parts : List SpellingPart} {cs rest : List Char}
    (h : afterSpelling parts cs = some rest) :
    parts.foldlM (fun rest part => part.rest? rest) cs = some rest := by
  unfold afterSpelling at h
  split at h
  · rename_i c more hparts
    split at h
    · cases h
    · rw [hparts]
      exact h
  · exact h

/-- The texts of reserved words have no line feed. -/
theorem newline_notMem_text (k : Keyword) : '\n' ∉ k.text.toList := fun hmem =>
  absurd (isIdentRest_of_mem (isIdentifier_text k) _ hmem) (by decide)

/-- Replacing a spelling adds nothing but letters. -/
theorem mem_respell {spelling : List SpellingPart × Keyword} {cs : List Char} {c : Char}
    (h : c ∈ respell spelling cs) : c ∈ cs ∨ isIdentRest c = true := by
  unfold respell at h
  split at h
  · rename_i rest hrest
    have hsuffix : rest <:+ cs := suffix_of_parts (foldlM_of_afterSpelling hrest)
    rcases List.mem_append.mp h with hword | hrest
    · exact .inr (isIdentRest_of_mem (isIdentifier_text spelling.2) c hword)
    · exact .inl (hsuffix.subset hrest)
  · exact .inl h

/-- So does replacing all of them. -/
theorem mem_respellAll {cs : List Char} {c : Char} (h : c ∈ respellAll cs) :
    c ∈ cs ∨ isIdentRest c = true := by
  unfold respellAll at h
  generalize spellings = all at h
  induction all generalizing cs with
  | nil => exact .inl h
  | cons spelling all ih =>
      rcases ih h with hrespelled | hletter
      · exact mem_respell hrespelled
      · exact .inr hletter

/-- And putting a word into its case. -/
theorem mem_keywordCase {word : List Char} {c : Char} (h : c ∈ keywordCase word) :
    c ∈ word ∨ isIdentRest c = true := by
  unfold keywordCase at h
  dsimp only at h
  split at h
  · rename_i hkeyword
    obtain ⟨k, hk⟩ := Option.isSome_iff_exists.mp hkeyword
    have hupper := congrArg String.toList (text_of_ofText? hk)
    rw [String.toList_ofList] at hupper
    rw [← hupper] at h
    exact .inr (isIdentRest_of_mem (isIdentifier_text k) c h)
  · exact .inl h

/-- And the words of a text. -/
theorem mem_upperKeywords {glued : Bool} {cs : List Char} {c : Char} (h : c ∈ upperKeywords glued cs) :
    c ∈ cs ∨ isIdentRest c = true := by
  induction glued, cs using upperKeywords_induction with
  | nil glued =>
      rw [upperKeywords] at h
      exact .inl h
  | literal glued d rest n hliteral ih =>
      rw [upperKeywords_literal hliteral] at h
      rcases List.mem_append.mp h with hstring | hrest
      · exact .inl (@List.mem_of_mem_take _ (n - 1 + 1) _ _ hstring)
      · exact (ih hrest).imp_left fun hmem => List.mem_cons_of_mem d (List.mem_of_mem_drop hmem)
  | word word rest hword hstop ih =>
      rw [upperKeywords_word hword hstop] at h
      rcases List.mem_append.mp h with hrun | hrest
      · exact (mem_keywordCase hrun).imp_left (List.mem_append_left rest)
      · exact (ih hrest).imp_left (List.mem_append_right word)
  | char glued d rest hliteral hkept ih =>
      rw [upperKeywords_char hliteral hkept] at h
      rcases List.mem_cons.mp h with rfl | hrest
      · exact .inl List.mem_cons_self
      · exact (ih hrest).imp_left (List.mem_cons_of_mem d)

/-- Repairing a line adds nothing but letters. -/
theorem mem_repairLine {number : Nat} {line : List Char} {c : Char}
    (h : c ∈ (repairLine number line).1) : c ∈ line ∨ isIdentRest c = true := by
  have hsplit := splitComment_append line
  have hcode : ∀ d ∈ (splitComment line).1, d ∈ line := fun d hd => by
    rw [← hsplit]
    exact List.mem_append_left _ hd
  have hbody : ∀ d ∈ trim (splitComment line).1, d ∈ line := fun d hd => hcode d (by
    rw [← leadingBlanks_append_trimLeft (splitComment line).1,
      ← trimRight_append_trailingBlanks (trimLeft _)]
    exact List.mem_append_right _ (List.mem_append_left _ hd))
  unfold repairLine at h
  dsimp only at h
  split at h
  · exact .inl h
  · simp only [List.mem_append] at h
    rcases h with ((hleading | hfixed) | htrailing) | hcomment
    · exact .inl (hcode c ((List.takeWhile_prefix _).subset hleading))
    · rcases mem_upperKeywords hfixed with hrespelled | hletter
      · exact (mem_respellAll hrespelled).imp_left (hbody c)
      · exact .inr hletter
    · refine .inl (hcode c (List.mem_reverse.mp ?_))
      exact (List.takeWhile_prefix _).subset (List.mem_reverse.mp htrailing)
    · rw [← hsplit]
      exact .inl (List.mem_append_right _ hcomment)

/-- A line that is repaired stays one. -/
theorem newline_notMem_repairLine (number : Nat) {line : List Char} (h : '\n' ∉ line) :
    '\n' ∉ (repairLine number line).1 := by
  intro hmem
  rcases mem_repairLine hmem with hline | hletter
  · exact h hline
  · exact absurd hletter (by decide)

/-- The repaired line does not depend on its number. -/
theorem repairLine_fst (number : Nat) (line : List Char) :
    (repairLine number line).1 = (repairLine 0 line).1 := by
  unfold repairLine
  dsimp only
  split <;> rfl

/-- Lines are repaired one by one. -/
theorem repairLines_fst (number : Nat) (ls : List (List Char)) :
    (repairLines number ls).1 = ls.map fun line => (repairLine 0 line).1 := by
  induction ls generalizing number with
  | nil => rfl
  | cons line ls ih =>
      rw [List.map_cons, ← ih (number + 1), ← repairLine_fst number line]
      rfl

/-- The lines of a text with its keywords put right are its lines, each repaired. -/
theorem lines_repairKeywords (cs : List Char) :
    lines (repairKeywords cs).text = (lines cs).map fun line => (repairLine 0 line).1 := by
  have htext : (repairKeywords cs).text = unlines (repairLines 1 (lines cs)).1 := rfl
  rw [htext, repairLines_fst, lines_unlines]
  · exact mt List.map_eq_nil_iff.mp (splitOn_ne_nil '\n' cs)
  · intro line hline
    obtain ⟨line, hmem, rfl⟩ := List.mem_map.mp hline
    exact newline_notMem_repairLine 0 (newline_notMem_of_mem_lines hmem)

/-! ## Repaired texts -/

/-- Whether a line of a repaired text is made from a line of the script text: from the tabs of that line
expanded, up to the mark of a closing fence, its keywords are put right. -/
def MadeFrom (line whole : List Char) : Prop :=
  ∃ part more, expandTabs tabStop whole = part ++ more ∧ (more = [] ∨ fenceMark <+: more) ∧
    line = (repairLine 0 part).1

/-- A line of the text inside a fence is the one as many lines further down as stand before. -/
theorem getElem?_lines_repairFence {cs part : List Char} {i : Nat}
    (h : (lines (repairFence cs).text)[i]? = some part) :
    ∃ more, (lines cs)[fenceLines cs + i]? = some (part ++ more) ∧
      (more = [] ∨ fenceMark <+: more) := by
  unfold repairFence at h
  split at h
  · rename_i inside hfenced
    obtain ⟨before, after, hsplit, hlines⟩ := exists_around_of_fenced hfenced
    obtain ⟨more, hmore, hlast⟩ := getElem?_lines_append h (fenceMark ++ after)
    refine ⟨more, ?_, hlast.imp_right ?_⟩
    · rw [hlines, hsplit, lines_append_newline, ← length_lines, List.getElem?_append_right (by omega),
        Nat.add_sub_cancel_left, List.append_assoc]
      exact hmore
    · rintro rfl
      rw [openLine_append (by decide)]
      exact List.prefix_append _ _
  · rename_i hfenced
    refine ⟨[], ?_, .inl rfl⟩
    rw [fenceLines, hfenced, Nat.zero_add, List.append_nil]
    exact h

/-- A line end after the last line leaves all lines in place. -/
theorem getElem?_lines_repairEnd {cs line : List Char} {i : Nat}
    (h : (lines (repairEnd cs).text)[i]? = some line) (hne : line ≠ []) :
    (lines cs)[i]? = some line := by
  unfold repairEnd at h
  split at h
  · exact h
  · split at h
    · exact h
    · have hlines : lines (cs ++ ['\n']) = lines cs ++ [[]] := lines_append_newline cs []
      rw [hlines] at h
      rcases Nat.lt_or_ge i (lines cs).length with hi | hi
      · rwa [List.getElem?_append_left hi] at h
      · rw [List.getElem?_append_right hi] at h
        exact absurd (List.mem_singleton.mp (List.mem_of_getElem? h)) hne

/-- The first pass leaves plain blanks. -/
theorem text_repairWhitespace (cs : List Char) : (repairWhitespace cs).text = plainWhitespace cs := by
  unfold repairWhitespace
  dsimp only
  split
  · rename_i hsame
    exact hsame.symm
  · rfl

/-- A text with its blocks repaired, on request. -/
def withBlocks (blocks : Bool) (cs : List Char) : List Char :=
  if blocks then (repairBlocks (repairOrphans cs).text).text else cs

/-- A repaired text is what the passes make of it one after the other. -/
theorem toList_lint (text : String) (blocks : Bool) :
    (lint text blocks).text.toList = (repairEnd (withBlocks blocks
      (repairKeywords (repairFence (plainWhitespace text.toList)).text).text)).text := by
  cases blocks <;>
    simp only [lint, String.toList_ofList, Repaired.andThen, text_repairWhitespace, withBlocks,
      Bool.false_eq_true, if_false, if_true]

/-- Every line of a repaired text that is not empty is made from the line of the script text that is as
many lines further down as stand before the script in a fence. -/
theorem getElem?_lines_lint {text : String} {i : Nat} {line : List Char}
    (h : (lines (lint text false).text.toList)[i]? = some line) (hne : line ≠ []) :
    ∃ whole, (textLines text.toList)[fenceLines (plainWhitespace text.toList) + i]? = some whole ∧
      MadeFrom line whole := by
  have htext : (lint text false).text.toList
      = (repairEnd (repairKeywords (repairFence (plainWhitespace text.toList)).text).text).text :=
    toList_lint text false
  rw [htext] at h
  have hspelled := getElem?_lines_repairEnd h hne
  rw [lines_repairKeywords, List.getElem?_map, Option.map_eq_some_iff] at hspelled
  obtain ⟨part, hpart, rfl⟩ := hspelled
  obtain ⟨more, hmore, hlast⟩ := getElem?_lines_repairFence hpart
  rw [lines_plainWhitespace, List.getElem?_map, Option.map_eq_some_iff] at hmore
  obtain ⟨whole, hwhole, hexpanded⟩ := hmore
  exact ⟨whole, hwhole, part, more, hexpanded, hlast, rfl⟩

/-! ## Statements -/

/-- Whether a lexeme stands on a line of a script text: in what a repaired line is made from it, at its
column. -/
def Lexeme.StandsOn (text : String) (number : Nat) (lexeme : Lexeme) : Prop :=
  ∃ i whole line before after, number = i + 1 ∧ (textLines text.toList)[i]? = some whole ∧
    MadeFrom line whole ∧ line = before ++ lexeme.text.toList ++ after ∧
    lexeme.position.column = before.length + 1

/-- A text is whole lines and the start of another. -/
theorem exists_lastLine (cs : List Char) :
    ∃ first last, cs = first ++ last ∧ '\n' ∉ last ∧ EndsLine first := by
  induction cs using List.reverseRecOn with
  | nil => exact ⟨[], [], rfl, List.not_mem_nil, by simp [EndsLine]⟩
  | append_singleton cs c ih =>
      by_cases hc : c = '\n'
      · exact ⟨cs ++ [c], [], (List.append_nil _).symm, List.not_mem_nil, by simp [EndsLine, hc]⟩
      · obtain ⟨first, last, rfl, hlast, hfirst⟩ := ih
        exact ⟨first, last ++ [c], List.append_assoc .., by simp [hlast, Ne.symm hc], hfirst⟩

/-- Where a text stands after another, its line has what the other ends in, and its column tells how much
that is. -/
theorem exists_line_at (before after : List Char) :
    ∃ last, (lines (before ++ after))[before.count '\n']? = some (last ++ openLine after) ∧
      (placeAfter ⟨1, 1⟩ before).column = last.length + 1 := by
  obtain ⟨first, last, rfl, hlast, hfirst⟩ := exists_lastLine before
  have hcount : (first ++ last).count '\n' = first.count '\n' := by
    rw [List.count_append, List.count_eq_zero.mpr hlast, Nat.add_zero]
  have hline : (lines (last ++ after))[0]? = some (last ++ openLine after) := by
    rw [lines_eq, openLine_append hlast]
    rfl
  rw [hcount, List.append_assoc, placeAfter_append, column_placeAfter _ hlast]
  refine ⟨last, ?_, ?_⟩
  · by_cases hne : first = []
    · subst hne
      exact hline
    · have hinit : first = first.dropLast ++ ['\n'] := by
        rw [← hfirst _ (List.getLast?_eq_some_getLast hne), List.dropLast_concat_getLast]
      have hplace : first.count '\n' = (lines first.dropLast).length := by
        rw [length_lines]
        conv_lhs => rw [hinit, List.count_append, List.count_singleton_self]
      rw [hplace, hinit, List.append_assoc, List.dropLast_concat]
      show (lines (first.dropLast ++ '\n' :: (last ++ after)))[_]? = _
      rw [lines_append_newline, List.getElem?_append_right (Nat.le_refl _), Nat.sub_self, hline]
  · by_cases hne : first = []
    · subst hne
      exact Nat.add_comm ..
    · rw [hfirst.placeAfter hne]
      exact Nat.add_comm ..

/-- The characters of a token stand together on a line. -/
theorem Scans.solid_text {state : LexState} {p : Position} {cs : List Char} {lexemes : List Lexeme}
    (h : Scans state p cs lexemes) {lexeme : Lexeme} (hmem : lexeme ∈ lexemes)
    (hinline : lexeme.token ≠ .newline) : Solid lexeme.text.toList := by
  induction h with
  | nil => cases hmem
  | blank _ _ ih => exact ih hmem
  | comment _ _ _ ih => exact ih hmem
  | token hreads _ _ ih =>
      rcases List.mem_cons.mp hmem with rfl | hlater
      · rw [String.toList_ofList]
        exact hreads.solid hinline
      · exact ih hlater

/-- An opening starts with a token that begins a statement. -/
theorem opens_of_mem_openings {fresh : Bool} {lexemes opening : List Lexeme} {first : Lexeme}
    (h : opening ∈ openings fresh lexemes) (hfirst : first ∈ opening.head?) :
    first.token.opens = true := by
  induction lexemes generalizing fresh with
  | nil => cases h
  | cons lexeme lexemes ih =>
      rw [openings] at h
      split at h
      · rename_i hopens
        rcases List.mem_cons.mp h with rfl | hlater
        · obtain rfl := Option.some.inj hfirst
          exact (Bool.and_eq_true_iff.mp hopens).2
        · exact ih hlater
      · exact ih h

/-- The statements of a script that is compiled from a text that may be repaired, in the order of the
repaired text, each with its first token: it stands on the line of the script text that is as many lines
further down than its own line number as stand before the script in a fence.  There are none, and the line
numbers are those of the script text, if and only if there is no fence. -/
theorem lines_of_compileText {text : String} {p : Program} (h : compileText true text = .ok p) :
    (∀ i line, (lines p.source.toList)[i]? = some line → line ≠ [] →
      ∃ whole, (textLines text.toList)[fenceLines (plainWhitespace text.toList) + i]? = some whole ∧
        MadeFrom line whole) ∧
    List.Forall₂ (fun opening s => Stmt.OpensAt p.source opening s ∧
        ∀ first ∈ opening.head?,
          first.StandsOn text (fenceLines (plainWhitespace text.toList) + s.line))
      (openings true (tokens p.source.toList).lexemes) p.allStatements ∧
    (fenceLines (plainWhitespace text.toList) = 0 ↔ fenced? (plainWhitespace text.toList) = none) := by
  have hsource : p.source = (lint text false).text := (parse_eq_ok_iff.mp h).2
  have hmade : ∀ i line, (lines p.source.toList)[i]? = some line → line ≠ [] →
      ∃ whole, (textLines text.toList)[fenceLines (plainWhitespace text.toList) + i]? = some whole ∧
        MadeFrom line whole := by
    rw [hsource]
    exact fun i line hline hne => getElem?_lines_lint hline hne
  refine ⟨hmade, ?_, ?_⟩
  · obtain ⟨hopens, -⟩ := lines_of_parse h
    rw [← hsource] at hopens
    have hscans : Scans .initial ⟨1, 1⟩ p.source.toList (tokens p.source.toList).lexemes := by
      rw [hsource]
      exact scans_of_tokensFrom (fault_of_parse h)
    refine ((List.forall₂_and_left _ _).mpr ⟨fun opening hopening => hopening, hopens⟩).imp ?_
    rintro opening s ⟨hopening, hopensAt⟩
    refine ⟨hopensAt, fun first hfirst => ?_⟩
    obtain ⟨first', others, rest, before, after, rfl, -, htext, hplace, hline⟩ := hopensAt
    obtain rfl : first' = first := Option.some.inj hfirst
    have hinline : first'.token ≠ .newline := by
      intro htoken
      have hstarts := opens_of_mem_openings hopening hfirst
      rw [htoken] at hstarts
      cases hstarts
    have hsolid := hscans.solid_text ((suffix_of_mem_openings hopening).subset (by simp)) hinline
    obtain ⟨last, hlast, hcolumn⟩ := exists_line_at before (first'.text.toList ++ after)
    rw [openLine_append hsolid.newline_notMem, ← List.append_assoc before, ← htext] at hlast
    obtain ⟨whole, hwhole, hmadeFrom⟩ := hmade _ _ hlast (by simp [hsolid.ne_nil])
    refine ⟨_, whole, _, last, openLine after, ?_, hwhole, hmadeFrom, ?_, ?_⟩
    · rw [hline]
      omega
    · rw [List.append_assoc]
    · rw [hplace, hcolumn]
  · constructor
    · intro hzero
      cases hfenced : fenced? (plainWhitespace text.toList) with
      | none => rfl
      | some inside =>
          obtain ⟨before, after, -, hlines⟩ := exists_around_of_fenced hfenced
          rw [hzero] at hlines
          cases hlines
    · intro hnone
      rw [fenceLines, hnone]

/-- All kinds of line ends, tabs, and keywords in other cases and spellings. -/
theorem lines_of_compileText_respelled : ∃ p : Program,
    compileText true "if $a\r\n\tset $x = 1\relse if $b\n\t$f()\r\nend if" = .ok p ∧
    p.allStatements.map Stmt.line = [1, 2, 4] ∧
    List.Forall₂ (fun opening s => Stmt.OpensAt p.source opening s ∧ ∀ first ∈ opening.head?,
        first.StandsOn "if $a\r\n\tset $x = 1\relse if $b\n\t$f()\r\nend if" (0 + s.line))
      (openings true (tokens p.source.toList).lexemes) p.allStatements := by
  let text := "if $a\r\n\tset $x = 1\relse if $b\n\t$f()\r\nend if"
  have hlines : (compileText true text).toOption.map (fun p => p.allStatements.map Stmt.line)
      = some [1, 2, 4] := by
    decide +kernel
  have hfence : fenced? (plainWhitespace text.toList) = none := by decide +kernel
  cases hcompile : compileText true text with
  | error fault =>
      rw [hcompile] at hlines
      cases hlines
  | ok p =>
      rw [hcompile] at hlines
      obtain ⟨-, hstands, hzero⟩ := lines_of_compileText hcompile
      rw [hzero.mpr hfence] at hstands
      exact ⟨p, rfl, Option.some.inj hlines, hstands⟩

/-- The line that opens a fence is taken off, so the statement after it has the number of that line. -/
theorem not_standsOn_of_any_compileText :
    ¬ ∀ (text : String) (p : Program), compileText true text = .ok p →
      List.Forall₂ (fun opening s => ∀ first ∈ opening.head?, first.StandsOn text s.line)
        (openings true (tokens p.source.toList).lexemes) p.allStatements := by
  intro hall
  let text := "```\nSET $x = 1\n```\n"
  have hread : (compileText true text).toOption.map
      (fun p => (p.allStatements.map Stmt.line, (openings true (tokens p.source.toList).lexemes).map
        fun opening => opening.head?.map Lexeme.text)) = some ([1], [some "SET"]) := by
    decide +kernel
  have hkept : ∀ part ∈ fenceMark.inits, (repairLine 0 part).1 = part := by decide +kernel
  cases hcompile : compileText true text with
  | error fault =>
      rw [hcompile] at hread
      cases hread
  | ok p =>
      rw [hcompile] at hread
      obtain ⟨hline, hfirst⟩ := Prod.mk.inj (Option.some.inj hread)
      obtain ⟨s, hs, hline⟩ := List.map_eq_singleton_iff.mp hline
      obtain ⟨opening, hopening, hfirst⟩ := List.map_eq_singleton_iff.mp hfirst
      obtain ⟨first, hhead, htext⟩ := Option.map_eq_some_iff.mp hfirst
      have hall := hall text p hcompile
      rw [hs, hopening] at hall
      obtain ⟨i, whole, line, before, after, hi, hwhole, hmade, hsplit, -⟩ :=
        (List.forall₂_cons.mp hall).1 first hhead
      rw [hline] at hi
      obtain rfl : i = 0 := by omega
      have hmark : (textLines text.toList)[0]? = some fenceMark := by decide +kernel
      obtain rfl := Option.some.inj (hmark.symm.trans hwhole)
      -- no part of the mark is repaired, and none has a letter
      obtain ⟨part, more, hexpanded, -, rfl⟩ := hmade
      have hplain : expandTabs tabStop fenceMark = fenceMark := by decide +kernel
      have hpart : part <+: fenceMark := ⟨more, by rw [← hexpanded, hplain]⟩
      rw [hkept part ((List.mem_inits part fenceMark).mpr hpart)] at hsplit
      have hletter : 'S' ∈ part := by
        rw [hsplit, htext]
        exact List.mem_append_left _ (List.mem_append_right _ (by decide))
      exact absurd (hpart.subset hletter) (by decide)

end Rubric.Script
