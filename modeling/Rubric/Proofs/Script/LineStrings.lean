import Rubric.Proofs.Script.CanonicalCode

/-!
# Strings and comments are left alone

Strings are looked for three times: on a whole line, where its comment is looked for, and in its code once
that is trimmed and respelled.  They are the same each time, whatever quotes and number signs the line has.
So the keyword pass changes the code of a line between its strings, and nothing else.

* `literals`, `literals_splitComment` : the strings of a line are those of its code and of its comment;
* `WrittenAs`, `IsOtherSpelling` : keywords in another spelling;
* `Respelt` : code with a keyword spelled otherwise at its start, and with keywords in other cases;
* `KeptLine`, `keptLines_repairKeywords` : each line keeps its strings and its comment.
-/

namespace Rubric.Script

open Rubric.Text

/-! ## Strings -/

/-- The strings of a text from left to right, each one the first that starts after the one before. -/
def literals (cs : List Char) : List (List Char) :=
  match cs with
  | [] => []
  | c :: rest =>
    match literalLength? (c :: rest) with
    | some n => (c :: rest.take (n - 1)) :: literals (rest.drop (n - 1))
    | none => literals rest
  termination_by cs.length
  decreasing_by all_goals simp only [List.length_drop, List.length_cons]; omega

/-- A string is the first one of the text that it starts. -/
theorem literals_literal {c : Char} {rest : List Char} {n : Nat} (h : literalLength? (c :: rest) = some n) :
    literals (c :: rest) = (c :: rest.take (n - 1)) :: literals (rest.drop (n - 1)) := by
  rw [literals, h]

/-- A character that starts no string is passed. -/
theorem literals_char {c : Char} {rest : List Char} (h : literalLength? (c :: rest) = none) :
    literals (c :: rest) = literals rest := by
  rw [literals, h]

/-- Characters of code are passed. -/
theorem literals_append_of_isCode {t : List Char} (h : ∀ c ∈ t, IsCode c) (cs : List Char) :
    literals (t ++ cs) = literals cs := by
  induction t with
  | nil => rfl
  | cons c t ih =>
      obtain ⟨hc, ht⟩ := List.forall_mem_cons.mp h
      rw [List.cons_append, literals_char (hc.literalLength?_eq_none _), ih ht]

/-- A string that starts a text is one of its characters and has its length before any others. -/
theorem literalLength?_take_append {c : Char} {rest : List Char} {n : Nat}
    (h : literalLength? (c :: rest) = some n) (other : List Char) :
    literalLength? (c :: (rest.take (n - 1) ++ other)) = some n := by
  obtain ⟨hquote, hlength⟩ := Option.ite_none_right_eq_some.mp h
  obtain ⟨m, hm, rfl⟩ := Option.map_eq_some_iff.mp hlength
  rw [literalLength?, if_pos hquote, Nat.add_sub_cancel,
    (stringLength?_take (by simpa using hquote) hm).2.2 other]
  rfl

/-- A text that starts with no string does not start with one where its end is cut off. -/
theorem literalLength?_eq_none_of_append {c : Char} {rest other : List Char}
    (h : literalLength? (c :: (rest ++ other)) = none) : literalLength? (c :: rest) = none := by
  cases hliteral : literalLength? (c :: rest) with
  | none => rfl
  | some n =>
      have hwhole := literalLength?_take_append hliteral (rest.drop (n - 1) ++ other)
      rw [← List.append_assoc, List.take_append_drop, h] at hwhole
      cases hwhole

/-- The strings of a line are those of its code and then those of its comment. -/
theorem literals_splitComment (line : List Char) :
    literals line = literals (splitComment line).1 ++ literals (splitComment line).2 := by
  fun_induction splitComment line with
  | case1 => rw [literals, List.append_nil]
  | case2 c rest n hliteral code comment split ih =>
      have hlength : (rest.take (n - 1)).length = n - 1 :=
        List.length_take_of_le (literalLength?_le hliteral)
      rw [split] at ih
      rw [literals_literal hliteral, ih, List.cons_append,
        literals_literal (literalLength?_take_append hliteral code),
        List.take_left' hlength, List.drop_left' hlength, List.cons_append]
  | case3 rest => rw [literals, List.nil_append]
  | case4 c rest hliteral hmark code comment split ih =>
      -- what starts no string on the line starts none in its code
      have hsplit : code ++ comment = rest := by
        have happend := splitComment_append rest
        rwa [split] at happend
      rw [← hsplit] at hliteral
      rw [split] at ih
      dsimp only at ih ⊢
      rw [literals_char (literalLength?_eq_none_of_append hliteral), ← ih, ← hsplit,
        literals_char hliteral]

/-- Code has the same strings with keywords in other cases. -/
theorem Recased.literals_eq {glued : Bool} {cs cs' : List Char} (h : Recased glued cs cs') :
    literals cs' = literals cs := by
  induction h with
  | nil => rfl
  | @literal glued c rest cs' n hliteral hrest ih =>
      have hlength : (rest.take (n - 1)).length = n - 1 :=
        List.length_take_of_le (literalLength?_le hliteral)
      rw [literals_literal hliteral, List.cons_append,
        literals_literal (literalLength?_take_append hliteral cs'), List.take_left' hlength,
        List.drop_left' hlength, ih]
  | @word word word' cs cs' hword hstop hsame hrest ih =>
      have hword' : IsRun word' := by
        rcases hsame with rfl | ⟨-, hletters⟩
        · exact hword
        · exact hword.of_sameLetters hletters
      rw [literals_append_of_isCode fun c hc => (isPlain_of_isIdentRest (hword.1 c hc)).2,
        literals_append_of_isCode fun c hc => (isPlain_of_isIdentRest (hword'.1 c hc)).2, ih]
  | @char glued c cs cs' hliteral hkept hrest ih =>
      have hsame := (Recased.char hliteral hkept hrest).sameLetters
      rw [literals_char hliteral, literals_char (hsame.literalLength?_eq.symm.trans hliteral), ih]

/-! ## Other spellings of keywords -/

/-- Texts that are written as the parts of a spelling say: each letter in any case, and blanks where blanks
stand. -/
inductive WrittenAs : List SpellingPart → List Char → Prop where
  | nil : WrittenAs [] []
  | letters {word : String} {parts : List SpellingPart} {start cs : List Char}
      (hstart : List.Forall₂ (fun letter c => isLetter letter c = true) word.toList start)
      (hrest : WrittenAs parts cs) : WrittenAs (.letters word :: parts) (start ++ cs)
  | blanks {least : Nat} {parts : List SpellingPart} {start cs : List Char}
      (hblank : ∀ c ∈ start, isBlank c = true) (hleast : least ≤ start.length)
      (hrest : WrittenAs parts cs) : WrittenAs (.blanks least :: parts) (start ++ cs)

/-- Whether a text is another spelling of a keyword. -/
def IsOtherSpelling (k : Keyword) (cs : List Char) : Prop := ∃ parts, (parts, k) ∈ spellings ∧ WrittenAs parts cs

/-- Letters are what stands before the text that follows them. -/
theorem exists_forall₂_of_afterLetters {letters cs rest : List Char}
    (h : afterLetters letters cs = some rest) :
    ∃ start, cs = start ++ rest ∧ List.Forall₂ (fun letter c => isLetter letter c = true) letters start := by
  induction letters generalizing cs with
  | nil =>
      obtain rfl := Option.some.inj h
      exact ⟨[], rfl, .nil⟩
  | cons letter letters ih =>
      cases cs with
      | nil => cases h
      | cons c cs =>
          rw [afterLetters] at h
          obtain ⟨hc, hrest⟩ := Option.ite_none_right_eq_some.mp h
          obtain ⟨start, rfl, hstart⟩ := ih hrest
          exact ⟨c :: start, rfl, .cons hc hstart⟩

/-- A spelling is what stands before the text that follows it. -/
theorem exists_writtenAs_of_foldlM {parts : List SpellingPart} {cs rest : List Char}
    (h : parts.foldlM (fun rest part => part.rest? rest) cs = some rest) :
    ∃ written, cs = written ++ rest ∧ WrittenAs parts written := by
  induction parts generalizing cs with
  | nil =>
      obtain rfl := Option.some.inj h
      exact ⟨[], rfl, .nil⟩
  | cons part parts ih =>
      rw [List.foldlM_cons] at h
      obtain ⟨next, hnext, hrest⟩ := Option.bind_eq_some_iff.mp h
      obtain ⟨written, rfl, hwritten⟩ := ih hrest
      cases part with
      | letters word =>
          obtain ⟨start, rfl, hstart⟩ := exists_forall₂_of_afterLetters hnext
          exact ⟨start ++ written, (List.append_assoc ..).symm, .letters hstart hwritten⟩
      | blanks least =>
          obtain ⟨hleast, heq⟩ := Option.ite_none_right_eq_some.mp hnext
          refine ⟨leadingBlanks cs ++ written, ?_,
            .blanks (fun c hc => List.mem_takeWhile_imp hc) hleast hwritten⟩
          rw [List.append_assoc, ← Option.some.inj heq, leadingBlanks_append_trimLeft]

/-- A spelling that is replaced ends where a word ends. -/
theorem stop_of_afterSpelling {parts : List SpellingPart} {cs rest : List Char}
    (h : afterSpelling parts cs = some rest) : ∀ c ∈ rest.head?, isWord c = false := by
  rintro c hc
  cases rest with
  | nil => cases hc
  | cons d rest =>
      obtain rfl : d = c := Option.some.inj hc
      rw [afterSpelling, foldlM_of_afterSpelling h] at h
      exact Bool.eq_false_iff.mpr (Option.ite_none_left_eq_some.mp h).1

/-! ## Respelled code -/

/-- Code and the same code with some keywords in other cases, and perhaps, after the blanks that it starts
with, a keyword in the place of another spelling of it. -/
inductive Respelt : List Char → List Char → Prop where
  | recased {code code' : List Char} (h : Recased false code code') : Respelt code code'
  | respelled {k : Keyword} {before written rest rest' : List Char}
      (hbefore : ∀ c ∈ before, isBlank c = true) (hother : IsOtherSpelling k written)
      (hstop : ∀ c ∈ rest.head?, isWord c = false) (hrest : Recased true rest rest') :
      Respelt (before ++ (written ++ rest)) (before ++ (k.text.toList ++ rest'))

/-- Letters in any case are characters of words. -/
theorem isWord_of_forall₂ {letters start : List Char}
    (h : List.Forall₂ (fun letter c => isLetter letter c = true) letters start)
    (hletters : ∀ letter ∈ letters, letter ∈ spellingLetters) : ∀ c ∈ start, isWord c = true := by
  induction h with
  | nil => simp
  | cons hc _ ih =>
      obtain ⟨hletter, hothers⟩ := List.forall_mem_cons.mp hletters
      exact List.forall_mem_cons.mpr ⟨isWord_of_isLetter hletter hc, ih hothers⟩

/-- Texts that are written as a spelling says are code. -/
theorem WrittenAs.isCode {parts : List SpellingPart} {cs : List Char} (h : WrittenAs parts cs)
    (hletters : ∀ part ∈ parts, ∀ letter ∈ part.chars, letter ∈ spellingLetters) : ∀ c ∈ cs, IsCode c := by
  induction h with
  | nil => simp
  | @letters word parts start cs hstart hrest ih =>
      obtain ⟨hword, hothers⟩ := List.forall_mem_cons.mp hletters
      refine List.forall_mem_append.mpr ⟨fun c hc => ?_, ih hothers⟩
      exact isCode_of_isWord_or_isBlank (.inl (isWord_of_forall₂ hstart hword c hc))
  | blanks hblank _ _ ih =>
      refine List.forall_mem_append.mpr ⟨fun c hc => (blank_apart (hblank c hc)).1, ih ?_⟩
      exact (List.forall_mem_cons.mp hletters).2

/-- Respelled code has the same strings. -/
theorem Respelt.literals_eq {code code' : List Char} (h : Respelt code code') :
    literals code' = literals code := by
  cases h with
  | recased h => exact h.literals_eq
  | @respelled k before written rest rest' hbefore hother hstop hrest =>
      obtain ⟨parts, hparts, hwritten⟩ := hother
      have hblanks : ∀ c ∈ before, IsCode c := fun c hc => (blank_apart (hbefore c hc)).1
      have hkeyword : ∀ c ∈ k.text.toList, IsCode c := fun c hc =>
        (isPlain_of_isIdentRest ((isRun_text k).1 c hc)).2
      rw [literals_append_of_isCode hblanks, literals_append_of_isCode hblanks,
        literals_append_of_isCode hkeyword, hrest.literals_eq,
        literals_append_of_isCode (hwritten.isCode (mem_spellingLetters _ hparts))]

/-- Code in its spelling and case is respelled, between any outer blanks. -/
theorem respelt_canonicalCode {before after : List Char} (hbefore : ∀ c ∈ before, isBlank c = true)
    (hafter : ∀ c ∈ after, isBlank c = true) (body : List Char) :
    Respelt (before ++ body ++ after) (before ++ canonicalCode body ++ after) := by
  rcases respellAll_cases body with ⟨-, hkept⟩ | ⟨spelling, hspelling, rest, hfound, hrespelled⟩
  · rw [canonicalCode, hkept, ← upperKeywords_between hbefore hafter]
    exact .recased (recased_upperKeywords false _)
  · obtain ⟨written, rfl, hwritten⟩ := exists_writtenAs_of_foldlM (foldlM_of_afterSpelling hfound)
    have hstop := stop_of_afterSpelling hfound
    have hend : ∀ c ∈ (rest ++ after).head?, isWord c = false := by
      intro c hc
      cases rest with
      | nil =>
          have hglues := (blank_apart (hafter c (List.mem_of_mem_head? hc))).2.2.2
          exact ((Bool.or_eq_false_iff.mp hglues).2)
      | cons d rest => exact hstop c hc
    -- the keyword is a word of its own, and the words after it are put into upper case as before
    have hword : canonicalCode (written ++ rest) = spelling.2.text.toList ++ upperKeywords true rest := by
      have hrun : ∀ c ∈ rest.head?, isIdentRest c = false := fun c hc =>
        Bool.eq_false_iff.mpr fun hident => Bool.eq_false_iff.mp (hstop c hc) (isWord_of_isIdentRest c hident)
      rw [canonicalCode, hrespelled, upperKeywords_word (isRun_text spelling.2) hrun, keywordCase_text]
    have hrecased : Recased true (rest ++ after) (upperKeywords true rest ++ after) := by
      rw [← upperKeywords_append_blanks hafter]
      exact recased_upperKeywords true _
    rw [hword]
    simpa only [List.append_assoc] using Respelt.respelled hbefore ⟨_, hspelling, hwritten⟩ hend hrecased

/-! ## Lines -/

/-- Whether a line has the strings and the comment of another, and its code but for the case of keywords and
the spelling of one at its start. -/
structure KeptLine (line line' : List Char) : Prop where
  literals_eq : literals line' = literals line
  comment_eq : (splitComment line').2 = (splitComment line).2
  code_literals_eq : literals (splitComment line').1 = literals (splitComment line).1
  respelt : Respelt (splitComment line).1 (splitComment line').1

/-- A line keeps its strings and its comment where its keywords are put into their spelling and case. -/
theorem keptLine_repairLine (number : Nat) (line : List Char) :
    KeptLine line (repairLine number line).1 := by
  obtain ⟨before, after, hcode, hbefore, hafter⟩ := exists_outer_blanks (splitComment line).1
  have hsplit : splitComment line
      = (before ++ trim (splitComment line).1 ++ after, (splitComment line).2) := by
    rw [← hcode]
  have hrespelt := respelt_canonicalCode hbefore hafter (trim (splitComment line).1)
  rw [← hcode] at hrespelt
  have hfixed := splitComment_canonicalCode hsplit hbefore
  rw [repairLine_between number hsplit (hasNoOuterBlank_trim _) hbefore hafter]
  refine ⟨?_, by rw [hfixed], ?_, ?_⟩
  · rw [literals_splitComment, hfixed, literals_splitComment line, hrespelt.literals_eq]
  · rw [hfixed, hrespelt.literals_eq]
  · rwa [hfixed]

/-- The keyword pass keeps the strings and the comment of every line of every text, and the number of
lines. -/
theorem keptLines_repairKeywords (cs : List Char) :
    List.Forall₂ KeptLine (lines cs) (lines (repairKeywords cs).text) := by
  rw [lines_repairKeywords]
  induction lines cs with
  | nil => exact .nil
  | cons line ls ih => exact .cons (keptLine_repairLine 0 line) ih

end Rubric.Script
