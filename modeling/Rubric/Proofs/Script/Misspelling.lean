import Rubric.Proofs.Script.Fences
import Rubric.Proofs.Script.RepairedText

/-!
# Misspelled keywords

A text that needs no repair is misspelled: some of its keywords are put into other cases, and some that a
line starts with are written in several words, or in one that is not theirs.  Repairing the text gives back
the one that was misspelled.

* `wordings`, `IsWording` : how keywords are misspelled at the start of a line;
* `Misspelt`, `Misspelling` : misspelled lines and texts;
* `repairLine_of_misspelt` : a misspelled line is put right;
* `lint_of_misspelling` : so is a misspelled text.
-/

namespace Rubric.Script

open Rubric.Text

/-! ## Wordings -/

/-- The other ways to write keywords at the start of a line: in several words, or in one. -/
def wordings : List (Keyword × List String) :=
  [(.endBranch, ["END", "IF"]), (.elif, ["ELSE", "IF"]), (.elif, ["ELSEIF"]), (.foreach, ["FOR", "EACH"]),
    (.endForeach, ["END", "FOREACH"]), (.endForeach, ["END", "FOR", "EACH"])]

/-- Words with spaces between neighbours, at least one. -/
inductive Phrase : List String → List Char → Prop where
  | last (word : String) : Phrase [word] word.toList
  | more (word : String) (spaces : Nat) {next : String} {words : List String} {rest : List Char}
      (hrest : Phrase (next :: words) rest) :
      Phrase (word :: next :: words) (word.toList ++ (List.replicate (spaces + 1) ' ' ++ rest))

/-- Whether a text is a keyword in one of its other wordings, in whatever case. -/
def IsWording (k : Keyword) (cs : List Char) : Prop :=
  ∃ words plain, (k, words) ∈ wordings ∧ Phrase words plain ∧ SameLetters plain cs

/-- Wordings are made of letters. -/
theorem all_isIdentRest_of_wording : ∀ wording ∈ wordings, ∀ word ∈ wording.2,
    word.toList ≠ [] ∧ word.toList.all isIdentRest = true := by
  decide

/-- Words of letters have no outer blanks, nor have phrases of them, in which there are only letters and
spaces. -/
theorem Phrase.outer {words : List String} {plain : List Char} (h : Phrase words plain)
    (hwords : ∀ word ∈ words, word.toList ≠ [] ∧ word.toList.all isIdentRest = true) :
    HasNoOuterBlank plain ∧ plain ≠ [] ∧ ∀ c ∈ plain, (isIdentRest c || c == ' ') = true := by
  have hword : ∀ cs : List Char, cs.all isIdentRest = true →
      HasNoOuterBlank cs ∧ ∀ c ∈ cs, (isIdentRest c || c == ' ') = true := by
    intro cs hcs
    rw [List.all_eq_true] at hcs
    exact ⟨hasNoOuterBlank_of_forall fun c hc => (isPlain_of_isIdentRest (hcs c hc)).1,
      fun c hc => by rw [hcs c hc, Bool.true_or]⟩
  induction h with
  | last word =>
      obtain ⟨hne, hletters⟩ := hwords word List.mem_cons_self
      exact ⟨(hword _ hletters).1, hne, (hword _ hletters).2⟩
  | more word spaces _ ih =>
      obtain ⟨⟨hne, hletters⟩, hothers⟩ := List.forall_mem_cons.mp hwords
      obtain ⟨houter, hrest, hplain⟩ := ih hothers
      refine ⟨(hword _ hletters).1.append hne ?_, by simp [hne], ?_⟩
      · intro c hc
        rw [List.getLast?_append_of_ne_nil _ hrest] at hc
        exact houter.last c hc
      · refine List.forall_mem_append.mpr ⟨(hword _ hletters).2, List.forall_mem_append.mpr ⟨?_, hplain⟩⟩
        intro c hc
        rw [(List.mem_replicate.mp hc).2]
        rfl

/-- So it is with a keyword in another wording. -/
theorem IsWording.outer {k : Keyword} {cs : List Char} (h : IsWording k cs) :
    HasNoOuterBlank cs ∧ cs ≠ [] ∧ ∀ c ∈ cs, (isIdentRest c || c == ' ') = true := by
  obtain ⟨words, plain, hwords, hplain, hsame⟩ := h
  obtain ⟨houter, hne, hletters⟩ := hplain.outer (all_isIdentRest_of_wording _ hwords)
  have hcase : ∀ c : Char, (isIdentRest c.toUpper || c.toUpper == ' ') = (isIdentRest c || c == ' ') :=
    @apply_toUpper Bool (fun c => isIdentRest c || c == ' ') (by decide)
  refine ⟨SameLetters.hasNoOuterBlank hsame houter, ?_, SameLetters.forall_mem hsame hcase hletters⟩
  rintro rfl
  exact hne (List.map_eq_nil_iff.mp hsame)

/-! ## Wordings as spellings -/

/-- What follows letters. -/
theorem rest?_letters (word : String) (cs : List Char) :
    (SpellingPart.letters word).rest? cs = afterLetters word.toList cs := rfl

/-- Spaces are skipped where at least so many blanks may stand. -/
theorem rest?_blanks {least spaces : Nat} {c : Char} (hc : isBlank c = false) (h : least ≤ spaces)
    (cs : List Char) :
    (SpellingPart.blanks least).rest? (List.replicate spaces ' ' ++ c :: cs) = some (c :: cs) := by
  have hspaces : ∀ d ∈ List.replicate spaces ' ', isBlank d = true := by
    intro d hd
    rw [(List.mem_replicate.mp hd).2]
    decide
  have hlead : leadingBlanks (List.replicate spaces ' ' ++ c :: cs) = List.replicate spaces ' ' :=
    takeWhile_append_stop hspaces (by simp [hc])
  rw [SpellingPart.rest?, hlead, List.length_replicate, if_pos h, trimLeft,
    List.dropWhile_append_of_pos hspaces, List.dropWhile_cons_of_neg (by simp [hc])]

/-- Where no blank stands none may have to. -/
theorem rest?_blanks_cons {least : Nat} {c : Char} (hc : isBlank c = false) (cs : List Char) :
    (SpellingPart.blanks least).rest? (c :: cs) = if least = 0 then some (c :: cs) else none := by
  simp [SpellingPart.rest?, leadingBlanks, trimLeft, hc]

/-- Spaces are no letters. -/
theorem afterLetters_spaces {letter : Char} (h : isLetter letter ' ' = false) (letters : List Char)
    (spaces : Nat) (cs : List Char) :
    afterLetters (letter :: letters) (List.replicate (spaces + 1) ' ' ++ cs) = none := by
  rw [List.replicate_succ, List.cons_append, afterLetters, h]
  rfl

/-- A text that goes on after a keyword in another wording starts with a spelling of that keyword and with
no others. -/
theorem afterSpelling_phrase {k : Keyword} {words : List String} {plain rest : List Char}
    (hwords : (k, words) ∈ wordings) (h : Phrase words plain) (hrest : ∀ c ∈ rest.head?, isWord c = false) :
    (∃ spelling ∈ spellings, afterSpelling spelling.1 (plain ++ rest) = some rest) ∧
      ∀ spelling ∈ spellings, afterSpelling spelling.1 (plain ++ rest) = none ∨
        spelling.2 = k ∧ afterSpelling spelling.1 (plain ++ rest) = some rest := by
  have hE : isBlank 'E' = false := by decide
  have hF : isBlank 'F' = false := by decide
  have hI : isBlank 'I' = false := by decide
  simp only [wordings, List.mem_cons, Prod.mk.injEq, List.not_mem_nil, or_false] at hwords
  rcases hwords with ⟨rfl, rfl⟩ | ⟨rfl, rfl⟩ | ⟨rfl, rfl⟩ | ⟨rfl, rfl⟩ | ⟨rfl, rfl⟩ | ⟨rfl, rfl⟩
  all_goals rcases h with _ | ⟨_, _, _ | ⟨_, _, _ | _⟩⟩
  -- each spelling is followed letter by letter, and over the spaces at once
  all_goals
    cases rest with
    | nil =>
        simp [spellings, afterSpelling, rest?_letters, afterLetters, isLetter, rest?_blanks, rest?_blanks_cons,
          afterLetters_spaces, hE, hF, hI]
    | cons c rest =>
        simp [spellings, afterSpelling, rest?_letters, afterLetters, isLetter, rest?_blanks, rest?_blanks_cons,
          afterLetters_spaces, hE, hF, hI, hrest c rfl]

/-- A keyword in another wording is replaced by the keyword. -/
theorem respellAll_wording {k : Keyword} {word rest : List Char} (h : IsWording k word)
    (hrest : ∀ c ∈ rest.head?, isWord c = false) : respellAll (word ++ rest) = k.text.toList ++ rest := by
  obtain ⟨words, plain, hwords, hplain, hsame⟩ := h
  obtain ⟨⟨own, hown, hfound⟩, hall⟩ := afterSpelling_phrase hwords hplain hrest
  have hsame' : SameLetters (plain ++ rest) (word ++ rest) := SameLetters.append hsame (.refl rest)
  rcases respellAll_cases (word ++ rest) with ⟨hnone, -⟩ | ⟨spelling, hspelling, found, hafter, hrespelled⟩
  · have hmap := hsame'.map_afterSpelling hown
    rw [hfound, hnone own hown] at hmap
    cases hmap
  · have hmap := hsame'.map_afterSpelling hspelling
    rw [hafter] at hmap
    rcases hall spelling hspelling with hnone | ⟨hk, hsome⟩
    · rw [hnone] at hmap
      cases hmap
    · -- what follows has the length of the rest, and ends the same text
      rw [hsome] at hmap
      have hlength : rest.length = found.length := by
        simpa using congrArg List.length (Option.some.inj hmap)
      obtain ⟨start, hsplit, -⟩ := exists_start_of_afterSpelling hspelling hafter
      obtain ⟨-, rfl⟩ := List.append_inj' hsplit hlength
      rw [hrespelled, hk]

/-! ## Misspelled lines -/

/-- A line and the same line with some of its keywords in other cases, and the one that it starts with
perhaps in another wording. -/
inductive Misspelt (line : List Char) : List Char → Prop where
  | recased {code : List Char} (hcode : Recased false (splitComment line).1 code) :
      Misspelt line (code ++ (splitComment line).2)
  | respelled {k : Keyword} {indent word rest : List Char}
      (hcode : Recased false (splitComment line).1 (indent ++ k.text.toList ++ rest))
      (hindent : ∀ c ∈ indent, isBlank c = true) (hrest : ∀ c ∈ rest.head?, isWord c = false)
      (hword : IsWording k word) : Misspelt line (indent ++ word ++ rest ++ (splitComment line).2)

/-- The code of a settled line has its keywords in upper case. -/
theorem upperKeywords_of_isSettled {line : List Char} (h : IsSettled line) :
    upperKeywords false (splitComment line).1 = (splitComment line).1 := by
  obtain ⟨before, after, hcode, hbefore, hafter⟩ := exists_outer_blanks (splitComment line).1
  have hbody : upperKeywords false (trim (splitComment line).1) = trim (splitComment line).1 := by
    have hkept := respellAll_of_kept h
    rw [IsSettled, canonicalCode, hkept] at h
    exact h
  calc upperKeywords false (splitComment line).1
      = upperKeywords false (before ++ trim (splitComment line).1 ++ after) := by rw [← hcode]
    _ = before ++ trim (splitComment line).1 ++ after := by
        rw [upperKeywords_between hbefore hafter, hbody]
    _ = (splitComment line).1 := hcode.symm

/-- A settled line with keywords in other cases is put right. -/
theorem repairLine_of_recased (number : Nat) {line code : List Char} (hline : IsSettled line)
    (hcode : Recased false (splitComment line).1 code) :
    (repairLine number (code ++ (splitComment line).2)).1 = line := by
  have hsplit : splitComment (code ++ (splitComment line).2) = (code, (splitComment line).2) :=
    splitComment_of_sameLetters rfl hcode.sameLetters
  -- no spelling starts the code, in whatever case
  have hkept : respellAll (trim code) = trim code := by
    refine respellAll_eq_self fun spelling hspelling => ?_
    refine hcode.sameLetters.trim.afterSpelling_eq_none hspelling ?_
    rw [← respellAll_of_kept hline]
    exact afterSpelling_respellAll _ spelling hspelling
  obtain ⟨before, after, hbody, hbefore, hafter⟩ := exists_outer_blanks code
  have hbetween : splitComment (code ++ (splitComment line).2)
      = (before ++ trim code ++ after, (splitComment line).2) := by
    rw [← hbody]
    exact hsplit
  rw [repairLine_between number hbetween (hasNoOuterBlank_trim code) hbefore hafter, canonicalCode, hkept,
    ← upperKeywords_between hbefore hafter, ← hbody, upperKeywords_of_recased hcode,
    upperKeywords_of_isSettled hline, splitComment_append]

/-- A line keeps its comment where the keyword that it starts with is in another wording. -/
theorem splitComment_wording {line indent word rest : List Char} {k : Keyword}
    (hcode : Recased false (splitComment line).1 (indent ++ k.text.toList ++ rest))
    (hindent : ∀ c ∈ indent, isBlank c = true) (hword : IsWording k word) :
    splitComment (indent ++ word ++ rest ++ (splitComment line).2)
      = (indent ++ word ++ rest, (splitComment line).2) := by
  obtain ⟨-, -, hletters⟩ := hword.outer
  have hblank : ∀ c ∈ indent, IsCode c := fun c hc => (blank_apart (hindent c hc)).1
  have hkeyword : ∀ c ∈ indent ++ k.text.toList, IsCode c := by
    refine List.forall_mem_append.mpr ⟨hblank, fun c hc => ?_⟩
    exact (isPlain_of_isIdentRest (isIdentRest_of_mem (isIdentifier_text k) c hc)).2
  have hwording : ∀ c ∈ indent ++ word, IsCode c := by
    refine List.forall_mem_append.mpr ⟨hblank, fun c hc => ?_⟩
    rcases Bool.or_eq_true_iff.mp (hletters c hc) with hletter | hspace
    · exact (isPlain_of_isIdentRest hletter).2
    · rw [eq_of_beq hspace]
      decide
  rw [List.append_assoc (indent ++ word)]
  refine splitComment_replace hkeyword hwording ?_
  rw [← List.append_assoc]
  exact splitComment_of_sameLetters rfl hcode.sameLetters

/-- So is a settled line whose first keyword is in another wording. -/
theorem repairLine_of_respelled (number : Nat) {line indent word rest : List Char} {k : Keyword}
    (hline : IsSettled line)
    (hcode : Recased false (splitComment line).1 (indent ++ k.text.toList ++ rest))
    (hindent : ∀ c ∈ indent, isBlank c = true) (hrest : ∀ c ∈ rest.head?, isWord c = false)
    (hword : IsWording k word) :
    (repairLine number (indent ++ word ++ rest ++ (splitComment line).2)).1 = line := by
  obtain ⟨houter, hne, -⟩ := hword.outer
  -- blanks at the end of the code stay there
  have hends := trimRight_append_trailingBlanks rest
  have hinner : ∀ c ∈ (trimRight rest).head?, isWord c = false := by
    intro c hc
    refine hrest c ?_
    rw [← hends, List.head?_append, Option.mem_def.mp hc]
    rfl
  have hbetween : splitComment (indent ++ word ++ rest ++ (splitComment line).2)
      = (indent ++ (word ++ trimRight rest) ++ trailingBlanks rest, (splitComment line).2) := by
    rw [splitComment_wording hcode hindent hword]
    simp only [List.append_assoc, hends]
  have hblanks : ∀ c ∈ trailingBlanks rest, isBlank c = true := fun c hc =>
    List.mem_takeWhile_imp (List.mem_reverse.mp hc)
  rw [repairLine_between number hbetween (houter.append hne (getLast?_trimRight rest)) hindent hblanks,
    canonicalCode, respellAll_wording hword hinner, ← upperKeywords_between hindent hblanks]
  have hwhole : indent ++ (k.text.toList ++ trimRight rest) ++ trailingBlanks rest
      = indent ++ k.text.toList ++ rest := by
    simp only [List.append_assoc, hends]
  rw [hwhole, upperKeywords_of_recased hcode, upperKeywords_of_isSettled hline, splitComment_append]

/-- A misspelled line is put right. -/
theorem repairLine_of_misspelt (number : Nat) {line line' : List Char} (hline : IsSettled line)
    (h : Misspelt line line') : (repairLine number line').1 = line := by
  cases h with
  | recased hcode => exact repairLine_of_recased number hline hcode
  | respelled hcode hindent hrest hword => exact repairLine_of_respelled number hline hcode hindent hrest hword

/-- Misspelling adds nothing but letters and spaces to a line. -/
theorem Misspelt.mem_of_mark {line line' : List Char} {mark : Char} (h : Misspelt line line')
    (hmark : isIdentRest mark = false) (hspace : mark ≠ ' ') (hmem : mark ∈ line') : mark ∈ line := by
  have hline := splitComment_append line
  have hcode : ∀ code, Recased false (splitComment line).1 code → mark ∈ code → mark ∈ line := by
    intro code hrecased hc
    rw [← hline]
    exact List.mem_append_left _ (SameLetters.mem_of_mark (Eq.symm hrecased.sameLetters) hmark hc)
  have hcomment : mark ∈ (splitComment line).2 → mark ∈ line := by
    intro hc
    rw [← hline]
    exact List.mem_append_right _ hc
  cases h with
  | recased hrecased => exact (List.mem_append.mp hmem).elim (hcode _ hrecased) hcomment
  | @respelled k indent word rest hrecased hindent hrest hword =>
      rcases List.mem_append.mp hmem with hmem | hmem
      · refine hcode _ hrecased ?_
        rcases List.mem_append.mp hmem with hmem | hmem
        · rcases List.mem_append.mp hmem with hmem | hmem
          · exact List.mem_append_left _ (List.mem_append_left _ hmem)
          · have hletter := hword.outer.2.2 mark hmem
            rw [hmark, Bool.false_or, beq_iff_eq] at hletter
            exact absurd hletter hspace
        · exact List.mem_append_right _ hmem
      · exact hcomment hmem

/-! ## Misspelled texts -/

/-- Whether the lines of a text are misspelled lines of another. -/
def Misspelling (cs cs' : List Char) : Prop := List.Forall₂ Misspelt (lines cs) (lines cs')

/-- Misspelling adds no foreign line ends and tabs to a text. -/
theorem Misspelling.mem_of_mark {cs cs' : List Char} {mark : Char} (h : Misspelling cs cs')
    (hmark : isIdentRest mark = false) (hspace : mark ≠ ' ') (hfeed : mark ≠ '\n') (hmem : mark ∈ cs') :
    mark ∈ cs := by
  rw [mem_iff_mem_lines hfeed] at hmem ⊢
  unfold Misspelling at h
  generalize lines cs = ls at h
  generalize lines cs' = ls' at h hmem
  induction h with
  | nil => exact hmem
  | cons hline _ ih =>
      rw [List.exists_mem_cons_iff] at hmem ⊢
      exact hmem.imp (hline.mem_of_mark hmark hspace) ih

/-- The keywords of a misspelled text are put right. -/
theorem repairKeywords_of_misspelling {cs cs' : List Char} (hcs : ∀ line ∈ lines cs, IsSettled line)
    (h : Misspelling cs cs') : (repairKeywords cs').text = cs := by
  have hlines : lines (repairKeywords cs').text = lines cs := by
    rw [lines_repairKeywords]
    unfold Misspelling at h
    generalize lines cs = ls at h hcs
    generalize lines cs' = ls' at h
    induction h with
    | nil => rfl
    | cons hline _ ih =>
        obtain ⟨hsettled, hothers⟩ := List.forall_mem_cons.mp hcs
        rw [List.map_cons, repairLine_of_misspelt 0 hsettled hline, ih hothers]
  rw [← unlines_lines (repairKeywords cs').text, hlines, unlines_lines]

/-- A text that is kept is got back from every misspelling of it. -/
theorem lint_of_misspelling {text misspelled : String} (htext : (lint text false).text = text)
    (h : Misspelling text.toList misspelled.toList) : (lint misspelled false).text = text := by
  have hrepaired := isRepaired_lint text false
  rw [htext] at hrepaired
  have hspelled : (repairKeywords misspelled.toList).text = text.toList :=
    repairKeywords_of_misspelling (fun line hline => (hrepaired.clean line hline).settled) h
  -- nothing is to be done before keywords are repaired
  obtain ⟨hreturn, htab⟩ := notMem_of_clean hrepaired.clean
  have hplain : plainWhitespace misspelled.toList = misspelled.toList := by
    refine plainWhitespace_eq_self (fun hmem => hreturn ?_) fun hmem => htab ?_
    · exact h.mem_of_mark (by decide) (by decide) (by decide) hmem
    · exact h.mem_of_mark (by decide) (by decide) (by decide) hmem
  have hfence : fenced? misspelled.toList = none := by
    rw [← Option.not_isSome_iff_eq_none]
    intro hfenced
    have hkept := isSome_fenced?_repairKeywords hfenced
    rw [hspelled, fenced?_eq_none_of_lint htext] at hkept
    cases hkept
  -- and nothing after it
  have hlint : (lint misspelled false).text.toList = text.toList := by
    rw [toList_lint, hplain, repairFence, hfence]
    show (repairEnd (repairKeywords misspelled.toList).text).text = _
    rw [hspelled, repairEnd_of_ended hrepaired.ended]
  rw [← String.ofList_toList (s := text), ← hlint, String.ofList_toList]

/-- A keyword in two words, one in another case, and a variable and a comment that are none. -/
theorem lint_of_misspelling_elif :
    (lint "  ELIF NOT $in # or\n" false).text = "  ELIF NOT $in # or\n" ∧
    Misspelling "  ELIF NOT $in # or\n".toList "  Else  if not $in # or\n".toList ∧
    (lint "  Else  if not $in # or\n" false).text = "  ELIF NOT $in # or\n" := by
  have htext : (lint "  ELIF NOT $in # or\n" false).text = "  ELIF NOT $in # or\n" := by
    decide +kernel
  have helif : Misspelt "  ELIF NOT $in # or".toList "  Else  if not $in # or".toList := by
    have hword : IsWording .elif "Else  if".toList :=
      ⟨_, _, by decide, .more "ELSE" 1 (.last "IF"), by decide⟩
    have hcode : Recased false (splitComment "  ELIF NOT $in # or".toList).1
        ("  ".toList ++ Keyword.elif.text.toList ++ " not $in ".toList) := by
      decide +kernel
    have hline : "  Else  if not $in # or".toList = "  ".toList ++ "Else  if".toList ++ " not $in ".toList ++
        (splitComment "  ELIF NOT $in # or".toList).2 := by
      decide +kernel
    have hindent : ("  ".toList.all isBlank) = true := by decide
    have hnext : " not $in ".toList.head? = some ' ' := by decide
    rw [hline]
    refine .respelled hcode (List.all_eq_true.mp hindent) ?_ hword
    rw [hnext]
    rintro _ ⟨⟩
    decide
  have hnil : Misspelt [] [] := by
    have hcomment : (splitComment []).2 = [] := by decide +kernel
    have hrecased := @Misspelt.recased [] [] (by decide +kernel)
    rwa [hcomment] at hrecased
  have hmisspelling : Misspelling "  ELIF NOT $in # or\n".toList "  Else  if not $in # or\n".toList := by
    have hlines : lines "  ELIF NOT $in # or\n".toList = ["  ELIF NOT $in # or".toList, []] := by decide +kernel
    have hlines' : lines "  Else  if not $in # or\n".toList = ["  Else  if not $in # or".toList, []] := by
      decide +kernel
    rw [Misspelling, hlines, hlines']
    exact .cons helif (.cons hnil .nil)
  exact ⟨htext, hmisspelling, lint_of_misspelling htext hmisspelling⟩

end Rubric.Script
