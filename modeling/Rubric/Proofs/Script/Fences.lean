import Rubric.Proofs.Script.CanonicalCode

/-!
# Fences and keywords

A fence is told from the lines of a text: one that opens it, one further down that closes it, and nothing
but blanks around.  The keyword pass goes over a text line by line, and takes no such line for another, so
a text in a fence is in one still after its keywords are repaired.

* `isSome_fenced?_iff` : the lines of a text in a fence;
* `isSome_fenced?_repairKeywords` : the keyword pass keeps fences.
-/

namespace Rubric.Script

open Rubric.Text

/-! ## The lines of a fence -/

/-- Whether a line opens a fence: the mark and perhaps a word, between blanks. -/
def OpensFence (line : List Char) : Prop :=
  ∃ before word after, line = before ++ (fenceMark ++ word) ++ after ∧
    (∀ c ∈ before, isBlank c = true) ∧ (∀ c ∈ word, isWord c = true) ∧ ∀ c ∈ after, isBlank c = true

/-- Whether a line closes a fence: it ends with the mark, and perhaps blanks. -/
def ClosesFence (line : List Char) : Prop :=
  ∃ before after, line = before ++ (fenceMark ++ after) ∧ ∀ c ∈ after, isBlank c = true

/-- No word has a blank. -/
theorem isWord_of_isBlank {c : Char} (h : isBlank c = true) : isWord c = false := by
  have hglues := (blank_apart h).2.2.2
  simp only [glues, Bool.or_eq_false_iff] at hglues
  exact hglues.2

/-- The mark of a fence is made of backticks. -/
theorem eq_of_mem_fenceMark {c : Char} (h : c ∈ fenceMark) : c = '`' := by
  simpa [fenceMark] using h

/-- It has no blanks. -/
theorem hasNoOuterBlank_fenceMark : HasNoOuterBlank fenceMark := by
  refine hasNoOuterBlank_of_forall fun c hc => ?_
  rw [eq_of_mem_fenceMark hc]
  decide

/-- Nor has it letters. -/
theorem isIdentRest_fenceMark : ∀ c ∈ fenceMark, isIdentRest c = false := by
  intro c hc
  rw [eq_of_mem_fenceMark hc]
  decide

/-- Nor have blanks. -/
theorem isIdentRest_of_isBlank {cs : List Char} (h : ∀ c ∈ cs, isBlank c = true) :
    ∀ c ∈ cs, isIdentRest c = false := fun c hc => (blank_apart (h c hc)).2.1

/-- A line opens a fence in whatever case its letters are. -/
theorem OpensFence.of_sameLetters {line line' : List Char} (h : OpensFence line)
    (hsame : SameLetters line line') : OpensFence line' := by
  obtain ⟨before, word, after, rfl, hbefore, hword, hafter⟩ := h
  obtain ⟨start, after', rfl, hstart, hafter'⟩ := SameLetters.exists_append hsame
  obtain ⟨before', marked, rfl, hbefore', hmarked⟩ := hstart.exists_append
  obtain ⟨mark, word', rfl, hmark, hword'⟩ := hmarked.exists_append
  obtain rfl := hbefore'.eq_of_marks (isIdentRest_of_isBlank hbefore)
  obtain rfl := hmark.eq_of_marks isIdentRest_fenceMark
  obtain rfl := hafter'.eq_of_marks (isIdentRest_of_isBlank hafter)
  exact ⟨before, word', after, rfl, hbefore, hword'.forall_mem isWord_toUpper hword, hafter⟩

/-- And closes one. -/
theorem ClosesFence.of_sameLetters {line line' : List Char} (h : ClosesFence line)
    (hsame : SameLetters line line') : ClosesFence line' := by
  obtain ⟨before, after, rfl, hafter⟩ := h
  obtain ⟨before', marked, rfl, -, hmarked⟩ := SameLetters.exists_append hsame
  obtain ⟨mark, after', rfl, hmark, hafter'⟩ := hmarked.exists_append
  obtain rfl := hmark.eq_of_marks isIdentRest_fenceMark
  obtain rfl := hafter'.eq_of_marks (isIdentRest_of_isBlank hafter)
  exact ⟨before', after, rfl, hafter⟩

/-- What closes a fence does so after anything. -/
theorem ClosesFence.append_left {line : List Char} (h : ClosesFence line) (start : List Char) :
    ClosesFence (start ++ line) := by
  obtain ⟨before, after, rfl, hafter⟩ := h
  exact ⟨start ++ before, after, (List.append_assoc ..).symm, hafter⟩

/-- A line closes a fence after a start without backticks. -/
theorem ClosesFence.of_append {start line : List Char} (h : ClosesFence (start ++ line))
    (hstart : '`' ∉ start) : ClosesFence line := by
  obtain ⟨before, after, hsplit, hafter⟩ := h
  rcases List.append_eq_append_iff.mp hsplit with ⟨more, rfl, hline⟩ | ⟨more, rfl, hline⟩
  · exact ⟨more, after, hline, hafter⟩
  · -- the start does not reach into the mark
    cases more with
    | nil => exact ⟨[], after, hline.symm, hafter⟩
    | cons c more =>
        obtain ⟨hc, -⟩ := List.cons.inj hline
        exact absurd (List.mem_append_right before (List.mem_cons.mpr (.inl hc))) hstart

/-! ## Texts in a fence -/

/-- The characters before and in a line that more is put in front of come from there. -/
theorem exists_lines_append (first second : List Char) :
    ∃ above start, lines (first ++ second) = above ++ (start ++ openLine second) :: (lines second).tail ∧
      (∀ line ∈ above, line ⊆ first) ∧ start ⊆ first := by
  induction first with
  | nil => exact ⟨[], [], lines_eq second, by simp, List.Subset.refl _⟩
  | cons c first ih =>
      obtain ⟨above, start, hlines, habove, hstart⟩ := ih
      have hweaken : ∀ {line : List Char}, line ⊆ first → line ⊆ c :: first := fun hline =>
        List.subset_cons_of_subset c hline
      by_cases hc : c = '\n'
      · subst hc
        refine ⟨[] :: above, start, ?_, ?_, hweaken hstart⟩
        · rw [List.cons_append, lines_newline, hlines, List.cons_append]
        · exact List.forall_mem_cons.mpr ⟨List.nil_subset _, fun line hline => hweaken (habove line hline)⟩
      · rw [List.cons_append, lines_cons hc, hlines]
        cases above with
        | nil => exact ⟨[], c :: start, rfl, by simp, List.cons_subset_cons c hstart⟩
        | cons line above =>
            obtain ⟨hline, habove⟩ := List.forall_mem_cons.mp habove
            refine ⟨(c :: line) :: above, start, rfl, ?_, hweaken hstart⟩
            exact List.forall_mem_cons.mpr
              ⟨List.cons_subset_cons c hline, fun other hother => hweaken (habove other hother)⟩

/-- A line that others follow is ended by a line feed. -/
theorem unlines_cons {ls : List (List Char)} (hne : ls ≠ []) (line : List Char) :
    unlines (line :: ls) = line ++ '\n' :: unlines ls := by
  obtain ⟨next, ls, rfl⟩ := List.exists_cons_of_ne_nil hne
  simp [unlines, joinWith]

/-- So are all lines above one. -/
theorem unlines_append_cons (above below : List (List Char)) (line : List Char) :
    unlines (above ++ line :: below)
      = above.flatMap (fun other => other ++ ['\n']) ++ unlines (line :: below) := by
  induction above with
  | nil => rfl
  | cons first above ih =>
      rw [List.cons_append, unlines_cons (by simp), ih, List.flatMap_cons]
      simp only [List.append_assoc, List.cons_append, List.nil_append]

/-- All lines below one are started by line feeds. -/
theorem unlines_eq_append_flatMap (line : List Char) (below : List (List Char)) :
    unlines (line :: below) = line ++ below.flatMap ('\n' :: ·) := by
  induction below generalizing line with
  | nil => exact (List.append_nil line).symm
  | cons next below ih =>
      rw [unlines_cons (List.cons_ne_nil next below), ih next, List.flatMap_cons, List.cons_append]

/-- The mark and perhaps a word, blanks with a line end, a script, and the mark, between blanks, are a
fence. -/
theorem isSome_fenced? {before word gap inside after : List Char} (hbefore : ∀ c ∈ before, isBlank c = true)
    (hword : ∀ c ∈ word, isWord c = true) (hgap : ∀ c ∈ gap, isBlank c = true)
    (hafter : ∀ c ∈ after, isBlank c = true) :
    (fenced? (before ++ (fenceMark ++ (word ++ (gap ++ '\n' :: inside ++ fenceMark))) ++ after)).isSome
      = true := by
  -- the blanks around it are taken off first
  have houter : HasNoOuterBlank (fenceMark ++ (word ++ (gap ++ '\n' :: inside ++ fenceMark))) := by
    refine hasNoOuterBlank_fenceMark.append (by decide) fun c hc => ?_
    rw [← List.append_assoc, List.getLast?_append] at hc
    exact hasNoOuterBlank_fenceMark.last c hc
  have htrim := houter.trim_between_blanks hbefore hafter
  have hdrop : (word ++ (gap ++ '\n' :: inside ++ fenceMark)).dropWhile isWord
      = gap ++ '\n' :: inside ++ fenceMark := by
    rw [List.dropWhile_append_of_pos hword]
    cases gap with
    | nil => rfl
    | cons c gap =>
        have hc := isWord_of_isBlank (hgap c List.mem_cons_self)
        rw [List.cons_append, List.cons_append, List.dropWhile_cons_of_neg (by simp [hc])]
  -- the line end is one of the blanks after the word
  have hfeed : (leadingBlanks (gap ++ '\n' :: inside ++ fenceMark)).contains '\n' = true := by
    have hblank : isBlank '\n' = true := by decide
    rw [leadingBlanks, List.append_assoc, List.takeWhile_append_of_pos hgap, List.cons_append,
      List.takeWhile_cons_of_pos hblank, List.contains_iff_mem]
    exact List.mem_append_right _ List.mem_cons_self
  -- the blanks before the script do not reach into the mark after it
  have hclosed : fenceMark <:+ trimLeft (gap ++ '\n' :: inside ++ fenceMark) := by
    rw [trimLeft, List.dropWhile_append]
    split
    · exact List.suffix_refl _
    · exact List.suffix_append _ _
  rw [fenced?]
  dsimp only
  rw [htrim, if_pos (List.isPrefixOf_iff_prefix.mpr (List.prefix_append _ _)), List.drop_left, hdrop,
    afterLastLineFeed, if_pos hfeed]
  dsimp only
  rw [if_pos (List.isSuffixOf_iff_suffix.mpr (hclosed.trans (List.suffix_append _ _)))]
  rfl

/-- Blanks with a line end have a first one. -/
theorem exists_first_feed {gap : List Char} (hgap : ∀ c ∈ gap, isBlank c = true) (cs : List Char) :
    ∃ rest more, gap ++ '\n' :: cs = rest ++ '\n' :: more ∧ '\n' ∉ rest ∧ ∀ c ∈ rest, isBlank c = true := by
  by_cases hmem : '\n' ∈ gap
  · obtain ⟨rest, more, rfl, hfeed⟩ := List.eq_append_cons_of_mem hmem
    exact ⟨rest, more ++ '\n' :: cs, by simp, hfeed, (List.forall_mem_append.mp hgap).1⟩
  · exact ⟨gap, cs, rfl, hmem, hgap⟩

/-- A text in a fence has a line that opens it and one that closes it, the lines above and below being
blank. -/
theorem exists_lines_of_fenced {cs : List Char} (h : (fenced? cs).isSome = true) :
    ∃ above opening inside closing below, lines cs = above ++ opening :: (inside ++ closing :: below) ∧
      (∀ line ∈ above ++ below, ∀ c ∈ line, isBlank c = true) ∧ OpensFence opening ∧
      ClosesFence closing := by
  obtain ⟨script, hscript⟩ := Option.isSome_iff_exists.mp h
  obtain ⟨word, gap, hcs, hword, hgap, -⟩ := exists_parts_of_fenced hscript
  have hbefore : ∀ c ∈ leadingBlanks cs, isBlank c = true := fun c hc => List.mem_takeWhile_imp hc
  have hafter : ∀ c ∈ trailingBlanks (trimLeft cs), isBlank c = true := fun c hc =>
    List.mem_takeWhile_imp (List.mem_reverse.mp hc)
  generalize leadingBlanks cs = before at hcs hbefore
  generalize trailingBlanks (trimLeft cs) = after at hcs hafter
  -- the opening line goes as far as the first line end after the word
  obtain ⟨rest, more, hsplit, hfeed, hrest⟩ := exists_first_feed hgap script
  have hcut : cs = (before ++ (fenceMark ++ (word ++ rest))) ++ '\n' :: (more ++ (fenceMark ++ after)) := by
    calc cs = before ++ (fenceMark ++ (word ++ ((gap ++ '\n' :: script) ++ (fenceMark ++ after)))) := by
          rw [hcs]
          simp only [List.append_assoc, List.cons_append]
      _ = _ := by
          rw [hsplit]
          simp only [List.append_assoc, List.cons_append]
  have hinline : '\n' ∉ fenceMark ++ (word ++ rest) := by
    have hmark : '\n' ∉ fenceMark := by decide
    have hletters : '\n' ∉ word := fun hmem => absurd (hword _ hmem) (by decide)
    simp [hmark, hletters, hfeed]
  obtain ⟨above, start, habove, hblank, hstart⟩ := exists_lines_append before (fenceMark ++ (word ++ rest))
  obtain ⟨inside, last, hinside, -, -⟩ := exists_lines_append more (fenceMark ++ after)
  obtain ⟨hopen, hnone⟩ := List.cons.inj ((lines_of_notMem hinline).symm.trans (lines_eq _))
  rw [← hopen, ← hnone] at habove
  rw [openLine_append (by decide), tail_lines_append (by decide)] at hinside
  refine ⟨above, start ++ (fenceMark ++ (word ++ rest)), inside, last ++ (fenceMark ++ openLine after),
    (lines after).tail, ?_, ?_, ?_, ?_⟩
  · rw [hcut, lines_append_newline, habove, hinside, List.append_assoc, List.singleton_append]
  · refine List.forall_mem_append.mpr ⟨fun line hline c hc => hbefore c (hblank line hline hc), ?_⟩
    intro line hline c hc
    exact hafter c (mem_of_mem_lines (List.mem_of_mem_tail hline) hc)
  · exact ⟨start, word, rest, by simp only [List.append_assoc], fun c hc => hbefore c (hstart hc), hword,
      hrest⟩
  · exact ⟨last, openLine after, rfl, fun c hc => hafter c ((List.takeWhile_sublist _).subset hc)⟩

/-- A text is in a fence if and only if one of its lines opens a fence, a later one closes it, and the
lines above and below are blank. -/
theorem isSome_fenced?_iff {cs : List Char} :
    (fenced? cs).isSome = true ↔ ∃ above opening inside closing below,
      lines cs = above ++ opening :: (inside ++ closing :: below) ∧
      (∀ line ∈ above ++ below, ∀ c ∈ line, isBlank c = true) ∧ OpensFence opening ∧
      ClosesFence closing := by
  refine ⟨exists_lines_of_fenced, ?_⟩
  rintro ⟨above, opening, inside, closing, below, hlines, hblank, hopening, hclosing⟩
  obtain ⟨habove, hbelow⟩ := List.forall_mem_append.mp hblank
  obtain ⟨before, word, gap, rfl, hbefore, hword, hgap⟩ := hopening
  obtain ⟨last, after, rfl, hafter⟩ := hclosing
  have hcs : cs = (above.flatMap (fun line => line ++ ['\n']) ++ before) ++
      (fenceMark ++ (word ++ (gap ++ '\n' :: (inside.flatMap (fun line => line ++ ['\n']) ++ last)
        ++ fenceMark))) ++ (after ++ below.flatMap ('\n' :: ·)) := by
    rw [← unlines_lines cs, hlines, unlines_append_cons, unlines_cons (by simp), unlines_append_cons,
      unlines_eq_append_flatMap]
    simp only [List.append_assoc, List.cons_append]
  have hfeed : isBlank '\n' = true := by decide
  rw [hcs]
  refine isSome_fenced? ?_ hword hgap ?_
  · refine List.forall_mem_append.mpr ⟨List.forall_mem_flatMap.mpr fun line hline => ?_, hbefore⟩
    exact List.forall_mem_append.mpr ⟨habove line hline, List.forall_mem_singleton.mpr hfeed⟩
  · refine List.forall_mem_append.mpr ⟨hafter, List.forall_mem_flatMap.mpr fun line hline => ?_⟩
    exact List.forall_mem_cons.mpr ⟨hfeed, hbelow line hline⟩

/-! ## Repaired lines of a fence -/

/-- A blank line is kept. -/
theorem repairLine_of_isBlank (number : Nat) {line : List Char} (h : ∀ c ∈ line, isBlank c = true) :
    (repairLine number line).1 = line := by
  have hcode := splitComment_of_isCode fun c hc => (blank_apart (h c hc)).1
  have hnone : trim line = [] := by
    rw [trim, trimLeft, List.dropWhile_eq_nil_iff.mpr h]
    rfl
  rw [repairLine_of_isSettled number (isSettled_of_code (by rw [hcode]; exact hnone))]

/-- No spelling starts with a backtick. -/
theorem afterSpelling_backtick (cs : List Char) :
    ∀ spelling ∈ spellings, afterSpelling spelling.1 ('`' :: cs) = none := by
  intro spelling hspelling
  simp only [spellings, List.mem_cons, List.not_mem_nil, or_false] at hspelling
  rcases hspelling with rfl | rfl | rfl | rfl | rfl <;> rfl

/-- A repaired line opens a fence where the line does. -/
theorem opensFence_repairLine {line : List Char} (h : OpensFence line) (number : Nat) :
    OpensFence (repairLine number line).1 := by
  have hline := h
  obtain ⟨before, word, after, rfl, hbefore, hword, hafter⟩ := h
  have hcode : ∀ c ∈ before ++ (fenceMark ++ word) ++ after, IsCode c := by
    refine List.forall_mem_append.mpr ⟨List.forall_mem_append.mpr ⟨fun c hc => ?_,
      List.forall_mem_append.mpr ⟨fun c hc => ?_, fun c hc => ?_⟩⟩, fun c hc => ?_⟩
    · exact isCode_of_isWord_or_isBlank (.inr (hbefore c hc))
    · rw [eq_of_mem_fenceMark hc]
      decide
    · exact isCode_of_isWord_or_isBlank (.inl (hword c hc))
    · exact isCode_of_isWord_or_isBlank (.inr (hafter c hc))
  have hbody : HasNoOuterBlank (fenceMark ++ word) := by
    refine hasNoOuterBlank_fenceMark.append (by decide) fun c hc => ?_
    have hc := hword c (List.mem_of_getLast? hc)
    rw [Bool.eq_false_iff]
    intro hblank
    rw [isWord_of_isBlank hblank] at hc
    cases hc
  have hkept : respellAll (fenceMark ++ word) = fenceMark ++ word :=
    respellAll_eq_self (afterSpelling_backtick _)
  have hsame := (recased_upperKeywords false (fenceMark ++ word)).sameLetters
  rw [repairLine_between number (splitComment_of_isCode hcode) hbody hbefore hafter, canonicalCode, hkept,
    List.append_nil]
  exact hline.of_sameLetters (((SameLetters.refl before).append hsame).append (.refl after))

/-- A repaired line closes a fence where the line does. -/
theorem closesFence_repairLine {line : List Char} (h : ClosesFence line) (number : Nat) :
    ClosesFence (repairLine number line).1 := by
  obtain ⟨before, after, hcode, hbefore, hafter⟩ := exists_outer_blanks (splitComment line).1
  have hsplit : splitComment line
      = (before ++ trim (splitComment line).1 ++ after, (splitComment line).2) := by
    rw [← hcode]
  have hbody := hasNoOuterBlank_trim (splitComment line).1
  have hline := splitComment_append line
  rw [repairLine_between number hsplit hbody hbefore hafter]
  generalize trim (splitComment line).1 = body at hcode hsplit
  generalize (splitComment line).2 = comment at hsplit hline
  rw [hcode] at hline
  have hsame := (recased_upperKeywords false (respellAll body)).sameLetters
  have hall : SameLetters (before ++ respellAll body ++ after ++ comment)
      (before ++ canonicalCode body ++ after ++ comment) :=
    (((SameLetters.refl before).append hsame).append (.refl after)).append (.refl comment)
  refine ClosesFence.of_sameLetters ?_ hall
  rcases respellAll_cases body with ⟨-, hkept⟩ | ⟨spelling, hspelling, rest, hafter', hrespelled⟩
  · rwa [hkept, hline]
  · -- no spelling has a backtick
    obtain ⟨start, rfl, hstart⟩ := exists_start_of_afterSpelling hspelling hafter'
    have hstart' : '`' ∉ before ++ start := by
      intro hmem
      rcases List.mem_append.mp hmem with hmem | hmem
      · exact absurd (hbefore _ hmem) (by decide)
      · exact absurd (hstart _ hmem) (by decide)
    have hclosed : ClosesFence ((before ++ start) ++ (rest ++ after ++ comment)) := by
      rw [← hline] at h
      simpa only [List.append_assoc] using h
    rw [hrespelled]
    simpa only [List.append_assoc] using
      (hclosed.of_append hstart').append_left (before ++ spelling.2.text.toList)

/-- A text in a fence is in one after its keywords are repaired. -/
theorem isSome_fenced?_repairKeywords {cs : List Char} (h : (fenced? cs).isSome = true) :
    (fenced? (repairKeywords cs).text).isSome = true := by
  obtain ⟨above, opening, inside, closing, below, hlines, hblank, hopening, hclosing⟩ :=
    isSome_fenced?_iff.mp h
  rw [isSome_fenced?_iff, lines_repairKeywords, hlines]
  refine ⟨above.map fun line => (repairLine 0 line).1, (repairLine 0 opening).1,
    inside.map fun line => (repairLine 0 line).1, (repairLine 0 closing).1,
    below.map fun line => (repairLine 0 line).1, by simp, ?_, opensFence_repairLine hopening 0,
    closesFence_repairLine hclosing 0⟩
  rw [← List.map_append, List.forall_mem_map]
  intro line hline
  rw [repairLine_of_isBlank 0 (hblank line hline)]
  exact hblank line hline

end Rubric.Script
