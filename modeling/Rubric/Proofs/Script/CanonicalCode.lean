import Rubric.Proofs.Script.LetterCase
import Rubric.Proofs.Script.SourceLines

/-!
# Code in its spelling and case

The code of a line is put into its spelling and case in one go: what comes out is kept by the spellings
and by the case of words, and stands on a line whose strings and comment are where they were.

* `Recased` : code whose keywords are in other cases;
* `recased_iff` : it is one code with its keywords in upper case;
* `canonicalCode_canonicalCode` : code in its spelling and case is kept;
* `repairLine_between`, `isSettled_repairLine` : what a line is repaired to, and that it is kept then.
-/

namespace Rubric.Script

open Rubric.Text

/-! ## Blanks -/

/-- The code points of blanks. -/
theorem toNat_of_isBlank {c : Char} (h : isBlank c = true) :
    c.toNat ∈ List.range' 9 5 ++ List.range' 28 5 ++ [133, 160, 5760] ++ List.range' 8192 11 ++
      [8232, 8233, 8239, 8287, 12288] := by
  simp only [isBlank, inRanges, List.any_cons, List.any_nil, Bool.or_false, Bool.or_eq_true,
    Bool.and_eq_true, decide_eq_true_eq] at h
  simp only [List.mem_append, List.mem_range'_1, List.mem_cons, List.not_mem_nil, or_false]
  omega

/-- Blanks are code that belongs to no word. -/
theorem blank_apart {c : Char} (h : isBlank c = true) :
    IsCode c ∧ isIdentRest c = false ∧ isIdentStart c = false ∧ glues c = false := by
  have hall : ∀ n ∈ List.range' 9 5 ++ List.range' 28 5 ++ [133, 160, 5760] ++ List.range' 8192 11 ++
      [8232, 8233, 8239, 8287, 12288], IsCode (Char.ofNat n) ∧ isIdentRest (Char.ofNat n) = false ∧
        isIdentStart (Char.ofNat n) = false ∧ glues (Char.ofNat n) = false := by
    decide +kernel
  have hc := hall c.toNat (toNat_of_isBlank h)
  rwa [Char.ofNat_toNat] at hc

/-- The blanks before a text without outer blanks are all that the whole starts with. -/
theorem leadingBlanks_between {before cs : List Char} (h : HasNoOuterBlank cs) (hne : cs ≠ [])
    (hbefore : ∀ c ∈ before, isBlank c = true) (after : List Char) :
    leadingBlanks (before ++ cs ++ after) = before := by
  rw [leadingBlanks, List.append_assoc]
  refine takeWhile_append_stop hbefore fun c hc => h.head c ?_
  rwa [List.head?_append_of_ne_nil _ hne] at hc

/-- The blanks after it are all that the whole ends with. -/
theorem trailingBlanks_between {cs after : List Char} (h : HasNoOuterBlank cs) (hne : cs ≠ [])
    (hafter : ∀ c ∈ after, isBlank c = true) (before : List Char) :
    trailingBlanks (before ++ cs ++ after) = after := by
  have hne' : cs.reverse ≠ [] := mt List.reverse_eq_nil_iff.mp hne
  rw [trailingBlanks, List.reverse_append, List.reverse_append, takeWhile_append_stop,
    List.reverse_reverse]
  · exact fun c hc => hafter c (List.mem_reverse.mp hc)
  · intro c hc
    rw [List.head?_append_of_ne_nil _ hne', List.head?_reverse] at hc
    exact h.last c hc

/-! ## Strings -/

/-- A text without the quote of a string does not end it. -/
theorem stringLength?_append_of_notMem {quote : Char} (hquote : quote = '"' ∨ quote = '\'')
    {after : List Char} (h : quote ∉ after) (cs : List Char) :
    stringLength? quote (cs ++ after) = stringLength? quote cs := by
  refine Option.ext fun n => ?_
  rw [stringLength?_iff hquote, stringLength?_iff hquote]
  constructor
  · rintro ⟨inner, rest, hsplit, hinner, rfl⟩
    -- the quote is not behind the text, so it is in it
    rcases List.append_eq_append_iff.mp hsplit with ⟨more, -, hmore⟩ | ⟨more, hcs, hmore⟩
    · exact absurd (hmore ▸ List.mem_append_right more List.mem_cons_self) h
    · cases more with
      | nil =>
          obtain rfl : quote :: rest = after := hmore
          exact absurd List.mem_cons_self h
      | cons c more =>
          obtain ⟨rfl, -⟩ := List.cons.inj hmore
          exact ⟨inner, more, hcs, hinner, rfl⟩
  · rintro ⟨inner, rest, rfl, hinner, rfl⟩
    exact ⟨inner, rest ++ after, by simp, hinner, rfl⟩

/-- Nor does a text without quotes change which string starts a text. -/
theorem literalLength?_append_of_notMem {c : Char} {after : List Char}
    (h : ∀ d ∈ after, d ≠ '"' ∧ d ≠ '\'') (rest : List Char) :
    literalLength? (c :: rest ++ after) = literalLength? (c :: rest) := by
  rw [List.cons_append, literalLength?, literalLength?]
  by_cases hquote : c = '"' ∨ c = '\''
  · have hnot : c ∉ after := by
      intro hmem
      rcases hquote with rfl | rfl
      · exact (h _ hmem).1 rfl
      · exact (h _ hmem).2 rfl
    rw [stringLength?_append_of_notMem hquote hnot]
  · rw [if_neg (by simpa using hquote), if_neg (by simpa using hquote)]

/-- A string that starts a text has at most its length. -/
theorem literalLength?_le {c : Char} {rest : List Char} {n : Nat} (h : literalLength? (c :: rest) = some n) :
    n - 1 ≤ rest.length := by
  obtain ⟨hquote, hlength⟩ := Option.ite_none_right_eq_some.mp h
  obtain ⟨m, hm, rfl⟩ := Option.map_eq_some_iff.mp hlength
  exact stringLength?_le (by simpa using hquote) hm

/-- Characters that start neither a string nor a comment stay code. -/
theorem splitComment_append_of_isCode {t : List Char} (h : ∀ c ∈ t, IsCode c) (cs : List Char) :
    splitComment (t ++ cs) = (t ++ (splitComment cs).1, (splitComment cs).2) := by
  induction t with
  | nil => rfl
  | cons c t ih =>
      obtain ⟨hc, ht⟩ := List.forall_mem_cons.mp h
      rw [List.cons_append, splitComment, hc.literalLength?_eq_none]
      dsimp only
      rw [if_neg hc.2.2, ih ht]
      rfl

/-- Where the comment of a line starts does not depend on the characters that its code starts with, as long
as they start neither a string nor a comment. -/
theorem splitComment_replace {first second cs comment : List Char} (hfirst : ∀ c ∈ first, IsCode c)
    (hsecond : ∀ c ∈ second, IsCode c)
    (h : splitComment (first ++ (cs ++ comment)) = (first ++ cs, comment)) :
    splitComment (second ++ (cs ++ comment)) = (second ++ cs, comment) := by
  rw [splitComment_append_of_isCode hfirst] at h
  obtain ⟨hcode, hcomment⟩ := Prod.mk.inj h
  rw [splitComment_append_of_isCode hsecond, List.append_cancel_left hcode, hcomment]

/-- A line without strings and comments is code. -/
theorem splitComment_of_isCode {line : List Char} (h : ∀ c ∈ line, IsCode c) :
    splitComment line = (line, []) := by
  have hnil : splitComment [] = ([], []) := by rw [splitComment]
  have hsplit := splitComment_append_of_isCode h []
  rwa [hnil, List.append_nil] at hsplit

/-! ## Keywords in other cases -/

/-- Whether a word is a reserved word, in whatever case. -/
def IsKeyword (word : List Char) : Prop := ∃ k : Keyword, word.map Char.toUpper = k.text.toList

/-- A reserved word is put into upper case, and other words are kept. -/
theorem keywordCase_cases (word : List Char) :
    IsKeyword word ∧ keywordCase word = word.map Char.toUpper ∨ keywordCase word = word := by
  unfold keywordCase
  dsimp only
  split
  · rename_i hkeyword
    obtain ⟨k, hk⟩ := Option.isSome_iff_exists.mp hkeyword
    refine .inl ⟨⟨k, ?_⟩, rfl⟩
    rw [text_of_ofText? hk, String.toList_ofList]
  · exact .inr rfl

/-- A reserved word in whatever case is put into upper case. -/
theorem IsKeyword.keywordCase_eq {word : List Char} (h : IsKeyword word) :
    keywordCase word = word.map Char.toUpper := by
  obtain ⟨k, hk⟩ := h
  have hfound : (Keyword.ofText? (String.ofList (word.map Char.toUpper))).isSome = true := by
    rw [hk, String.ofList_toList, ofText?_text]
    rfl
  exact if_pos hfound

/-- Code and the same code with some keywords in other cases: words that stand outside strings and follow
no dollar sign, full stop or word character.  `glued` says whether the code follows one. -/
inductive Recased : Bool → List Char → List Char → Prop where
  | nil {glued : Bool} : Recased glued [] []
  | literal {glued : Bool} {c : Char} {rest cs' : List Char} {n : Nat}
      (hliteral : literalLength? (c :: rest) = some n) (hrest : Recased false (rest.drop (n - 1)) cs') :
      Recased glued (c :: rest) (c :: rest.take (n - 1) ++ cs')
  | word {word word' cs cs' : List Char} (hword : IsRun word)
      (hstop : ∀ c ∈ cs.head?, isIdentRest c = false)
      (hsame : word' = word ∨ IsKeyword word ∧ SameLetters word word') (hrest : Recased true cs cs') :
      Recased false (word ++ cs) (word' ++ cs')
  | char {glued : Bool} {c : Char} {cs cs' : List Char} (hliteral : literalLength? (c :: cs) = none)
      (hkept : glued = true ∨ isIdentStart c = false) (hrest : Recased (glues c) cs cs') :
      Recased glued (c :: cs) (c :: cs')

/-- Only the case of letters changes. -/
theorem Recased.sameLetters {glued : Bool} {cs cs' : List Char} (h : Recased glued cs cs') :
    SameLetters cs cs' := by
  induction h with
  | nil => exact .refl []
  | @literal _ c rest cs' n _ _ ih =>
      have hsplit : c :: rest = c :: rest.take (n - 1) ++ rest.drop (n - 1) := by
        rw [List.cons_append, List.take_append_drop]
      rw [hsplit]
      exact (SameLetters.refl _).append ih
  | word _ _ hsame _ ih =>
      refine SameLetters.append ?_ ih
      rcases hsame with rfl | hsame
      · exact .refl _
      · exact hsame.2
  | @char _ c _ _ _ _ _ ih => exact (SameLetters.refl [c]).append ih

/-- A word is one in whatever case. -/
theorem IsRun.of_sameLetters {word word' : List Char} (h : IsRun word) (hsame : SameLetters word word') :
    IsRun word' := by
  obtain ⟨hrun, c, more, rfl, hstart⟩ := h
  obtain ⟨d, more', rfl, hd, -⟩ := List.map_eq_cons_iff.mp (Eq.symm hsame)
  refine ⟨SameLetters.forall_mem hsame isIdentRest_toUpper hrun, d, more', rfl, ?_⟩
  rw [← isIdentStart_toUpper, hd, isIdentStart_toUpper, hstart]

/-- And a reserved word. -/
theorem IsKeyword.of_sameLetters {word word' : List Char} (h : IsKeyword word)
    (hsame : SameLetters word word') : IsKeyword word' := by
  obtain ⟨k, hk⟩ := h
  exact ⟨k, (Eq.symm hsame).trans hk⟩

/-- The case that keywords are put into does not depend on the case that they are in. -/
theorem upperKeywords_of_recased {glued : Bool} {cs cs' : List Char} (h : Recased glued cs cs') :
    upperKeywords glued cs' = upperKeywords glued cs := by
  induction h with
  | nil => rfl
  | @literal glued c rest cs' n hliteral hrest ih =>
      have hsame := (@Recased.literal glued _ _ _ _ hliteral hrest).sameLetters
      have hliteral' : literalLength? (c :: (rest.take (n - 1) ++ cs')) = some n := by
        rw [← hliteral]
        exact hsame.literalLength?_eq.symm
      have hlength : (rest.take (n - 1)).length = n - 1 :=
        List.length_take_of_le (literalLength?_le hliteral)
      rw [upperKeywords_literal hliteral, List.cons_append, upperKeywords_literal hliteral',
        List.take_append_of_le_length (by omega), List.drop_append_of_le_length (by omega),
        List.take_of_length_le (by omega), List.drop_eq_nil_of_le (by omega), List.nil_append, ih]
  | @word word word' cs cs' hword hstop hsame hrest ih =>
      -- the words are equal, or both are the same keyword
      have hletters : SameLetters word word' := by
        rcases hsame with rfl | hsame
        · exact .refl _
        · exact hsame.2
      have hword' := hword.of_sameLetters hletters
      have hstop' := hrest.sameLetters.head isIdentRest_toUpper hstop
      have hcase : keywordCase word' = keywordCase word := by
        rcases hsame with rfl | ⟨hkeyword, -⟩
        · rfl
        · have hkeyword' : IsKeyword word' := by
            obtain ⟨k, hk⟩ := hkeyword
            exact ⟨k, hletters.symm.trans hk⟩
          rw [hkeyword.keywordCase_eq, hkeyword'.keywordCase_eq]
          exact hletters.symm
      rw [upperKeywords_word hword hstop, upperKeywords_word hword' hstop', hcase, ih]
  | @char glued c cs cs' hliteral hkept hrest ih =>
      have hsame := (Recased.char hliteral hkept hrest).sameLetters
      have hliteral' : literalLength? (c :: cs') = none := by
        rw [← hliteral]
        exact hsame.literalLength?_eq.symm
      rw [upperKeywords_char hliteral hkept, upperKeywords_char hliteral' hkept, ih]

/-- Putting keywords into upper case is putting them into another case. -/
theorem recased_upperKeywords (glued : Bool) (cs : List Char) :
    Recased glued cs (upperKeywords glued cs) := by
  induction glued, cs using upperKeywords_induction with
  | nil glued =>
      rw [upperKeywords]
      exact .nil
  | literal glued c rest n hliteral ih =>
      rw [upperKeywords_literal hliteral]
      exact .literal hliteral ih
  | word word rest hword hstop ih =>
      rw [upperKeywords_word hword hstop]
      refine .word hword hstop ?_ ih
      rcases keywordCase_cases word with ⟨hkeyword, hcase⟩ | hcase
      · refine .inr ⟨hkeyword, ?_⟩
        rw [hcase, SameLetters, List.map_map]
        exact List.map_congr_left fun d _ => (toUpper_toUpper d).symm
      · exact .inl hcase
  | char glued c rest hliteral hkept ih =>
      rw [upperKeywords_char hliteral hkept]
      exact .char hliteral hkept ih

/-- Two codes that are the same but for the case of letters, and the same with their keywords in upper case,
differ in the case of keywords. -/
theorem recased_of_upperKeywords {glued : Bool} {cs cs' : List Char} (hsame : SameLetters cs cs')
    (h : upperKeywords glued cs' = upperKeywords glued cs) : Recased glued cs cs' := by
  induction glued, cs using upperKeywords_induction generalizing cs' with
  | nil glued =>
      rw [← hsame.eq_of_marks (by simp)]
      exact .nil
  | literal glued c rest n hliteral ih =>
      obtain ⟨d, rest', rfl, -, hrest⟩ := List.map_eq_cons_iff.mp (Eq.symm hsame)
      -- a string is not put into another case, so both codes have the same one
      rw [upperKeywords_literal (hsame.literalLength?_eq.symm.trans hliteral),
        upperKeywords_literal hliteral] at h
      obtain ⟨hstring, hothers⟩ := List.append_inj h (by
        simp [SameLetters.length_eq (Eq.symm hrest)])
      obtain ⟨rfl, htake⟩ := List.cons.inj hstring
      have hdrop : SameLetters (rest.drop (n - 1)) (rest'.drop (n - 1)) := by
        rw [SameLetters, List.map_drop, List.map_drop, hrest]
      have hrecased := @Recased.literal glued _ _ _ _ hliteral (ih hdrop hothers)
      rwa [← htake, List.cons_append, List.take_append_drop] at hrecased
  | word word rest hword hstop ih =>
      obtain ⟨word', rest', rfl, hword', hrest'⟩ := hsame.exists_append
      rw [upperKeywords_word (hword.of_sameLetters hword') (hrest'.head isIdentRest_toUpper hstop),
        upperKeywords_word hword hstop] at h
      obtain ⟨hcase, hrest⟩ := List.append_inj h (by
        rw [length_keywordCase, length_keywordCase, hword'.length_eq])
      refine .word hword hstop ?_ (ih hrest' hrest)
      -- the words become one: they are equal unless one of them, and so the other, is a keyword
      rcases keywordCase_cases word with ⟨hkeyword, -⟩ | hkept
      · exact .inr ⟨hkeyword, hword'⟩
      · rcases keywordCase_cases word' with ⟨hkeyword, -⟩ | hkept'
        · exact .inr ⟨hkeyword.of_sameLetters (Eq.symm hword'), hword'⟩
        · exact .inl (by rw [← hkept', hcase, hkept])
  | char glued c rest hliteral hkept ih =>
      obtain ⟨d, rest', rfl, hd, hrest⟩ := List.map_eq_cons_iff.mp (Eq.symm hsame)
      have hstart : isIdentStart d = isIdentStart c := by
        rw [← isIdentStart_toUpper, hd, isIdentStart_toUpper]
      rw [upperKeywords_char (hsame.literalLength?_eq.symm.trans hliteral) (by rwa [hstart]),
        upperKeywords_char hliteral hkept] at h
      obtain ⟨rfl, hothers⟩ := List.cons.inj h
      exact .char hliteral hkept (ih (Eq.symm hrest) hothers)

/-- Code is the same code with some keywords in other cases if and only if the two are one with their
keywords in upper case. -/
theorem recased_iff {glued : Bool} {cs cs' : List Char} :
    Recased glued cs cs' ↔ upperKeywords glued cs' = upperKeywords glued cs := by
  refine ⟨upperKeywords_of_recased, fun h => recased_of_upperKeywords ?_ h⟩
  have hsame := (recased_upperKeywords glued cs).sameLetters
  rw [← h] at hsame
  exact hsame.trans (Eq.symm (recased_upperKeywords glued cs').sameLetters)

instance (glued : Bool) (cs cs' : List Char) : Decidable (Recased glued cs cs') :=
  decidable_of_iff _ recased_iff.symm

/-- Code with its keywords in upper case is kept. -/
theorem upperKeywords_upperKeywords (glued : Bool) (cs : List Char) :
    upperKeywords glued (upperKeywords glued cs) = upperKeywords glued cs :=
  upperKeywords_of_recased (recased_upperKeywords glued cs)

/-- Blanks before code are kept. -/
theorem upperKeywords_blanks_append {before : List Char} (h : ∀ c ∈ before, isBlank c = true)
    (cs : List Char) : upperKeywords false (before ++ cs) = before ++ upperKeywords false cs := by
  induction before with
  | nil => rfl
  | cons c before ih =>
      obtain ⟨hc, hbefore⟩ := List.forall_mem_cons.mp h
      obtain ⟨hcode, -, hstart, hglues⟩ := blank_apart hc
      rw [List.cons_append, upperKeywords_cons hcode (.inr hstart), hglues,
        ih hbefore, List.cons_append]

/-- So are blanks alone, whatever they follow. -/
theorem upperKeywords_of_isBlank {cs : List Char} (h : ∀ c ∈ cs, isBlank c = true) (glued : Bool) :
    upperKeywords glued cs = cs := by
  induction cs generalizing glued with
  | nil => rw [upperKeywords]
  | cons c cs ih =>
      obtain ⟨hc, hcs⟩ := List.forall_mem_cons.mp h
      obtain ⟨hcode, -, hstart, -⟩ := blank_apart hc
      rw [upperKeywords_cons hcode (.inr hstart), ih hcs]

/-- And blanks after code. -/
theorem upperKeywords_append_blanks {after : List Char} (h : ∀ c ∈ after, isBlank c = true)
    (glued : Bool) (cs : List Char) :
    upperKeywords glued (cs ++ after) = upperKeywords glued cs ++ after := by
  have hquotes : ∀ d ∈ after, d ≠ '"' ∧ d ≠ '\'' := fun d hd =>
    let hcode := (blank_apart (h d hd)).1
    ⟨hcode.1, hcode.2.1⟩
  induction glued, cs using upperKeywords_induction with
  | nil glued =>
      rw [List.nil_append, upperKeywords, List.nil_append]
      exact upperKeywords_of_isBlank h glued
  | literal glued c rest n hliteral ih =>
      have hle := literalLength?_le hliteral
      have hliteral' := literalLength?_append_of_notMem (c := c) hquotes rest
      rw [hliteral, List.cons_append] at hliteral'
      rw [List.cons_append, upperKeywords_literal hliteral', List.take_append_of_le_length hle,
        List.drop_append_of_le_length hle, ih, upperKeywords_literal hliteral, List.append_assoc]
  | word word rest hword hstop ih =>
      -- the word does not go on into the blanks
      have hstop' : ∀ d ∈ (rest ++ after).head?, isIdentRest d = false := by
        intro d hd
        cases rest with
        | nil => exact (blank_apart (h d (List.mem_of_mem_head? hd))).2.1
        | cons e rest => exact hstop d hd
      rw [List.append_assoc, upperKeywords_word hword hstop', ih, upperKeywords_word hword hstop,
        List.append_assoc]
  | char glued c rest hliteral hkept ih =>
      have hliteral' := literalLength?_append_of_notMem (c := c) hquotes rest
      rw [hliteral, List.cons_append] at hliteral'
      rw [List.cons_append, upperKeywords_char hliteral' hkept, ih, upperKeywords_char hliteral hkept,
        List.cons_append]

/-- Keywords are put into upper case between outer blanks. -/
theorem upperKeywords_between {before body after : List Char} (hbefore : ∀ c ∈ before, isBlank c = true)
    (hafter : ∀ c ∈ after, isBlank c = true) :
    upperKeywords false (before ++ body ++ after) = before ++ upperKeywords false body ++ after := by
  rw [upperKeywords_append_blanks hafter, upperKeywords_blanks_append hbefore]

/-! ## Spellings -/

/-- A reserved word starts with no spelling but that of a further branch. -/
theorem afterSpelling_text {k : Keyword} (hk : k ≠ .otherwise) (code : List Char) :
    ∀ spelling ∈ spellings, afterSpelling spelling.1 (k.text.toList ++ code) = none := by
  intro spelling hspelling
  simp only [spellings, List.mem_cons, List.not_mem_nil, or_false] at hspelling
  cases k with
  | otherwise => exact absurd rfl hk
  | bool b => cases b <;> rcases hspelling with rfl | rfl | rfl | rfl | rfl <;> rfl
  | _ => rcases hspelling with rfl | rfl | rfl | rfl | rfl <;> rfl

/-- Spellings stand for words that start with no spelling. -/
theorem ne_otherwise_of_spelling : ∀ spelling ∈ spellings, spelling.2 ≠ .otherwise := by
  decide +kernel

/-- At most one spelling is replaced. -/
theorem respellAll_cases (cs : List Char) :
    (∀ spelling ∈ spellings, afterSpelling spelling.1 cs = none) ∧ respellAll cs = cs ∨
      ∃ spelling ∈ spellings, ∃ rest, afterSpelling spelling.1 cs = some rest ∧
        respellAll cs = spelling.2.text.toList ++ rest := by
  by_cases hnone : ∀ spelling ∈ spellings, afterSpelling spelling.1 cs = none
  · exact .inl ⟨hnone, respellAll_eq_self hnone⟩
  · refine .inr ?_
    -- up to the first spelling the text is kept, and after it what replaces the spelling
    have hfirst : ∀ all : List (List SpellingPart × Keyword), all ⊆ spellings →
        (¬ ∀ spelling ∈ all, afterSpelling spelling.1 cs = none) →
        ∃ spelling ∈ spellings, ∃ rest, afterSpelling spelling.1 cs = some rest ∧
          all.foldl (fun cs spelling => respell spelling cs) cs = spelling.2.text.toList ++ rest := by
      intro all hall hsome
      induction all with
      | nil => exact absurd (by simp) hsome
      | cons spelling all ih =>
          obtain ⟨hspelling, hothers⟩ := List.cons_subset.mp hall
          cases hafter : afterSpelling spelling.1 cs with
          | none =>
              have hrest : ¬ ∀ other ∈ all, afterSpelling other.1 cs = none := fun hrest =>
                hsome (List.forall_mem_cons.mpr ⟨hafter, hrest⟩)
              rw [List.foldl_cons, respell, hafter]
              exact ih hothers hrest
          | some rest =>
              refine ⟨spelling, hspelling, rest, hafter, ?_⟩
              have hkept := afterSpelling_text (ne_otherwise_of_spelling spelling hspelling) rest
              rw [List.foldl_cons, respell, hafter]
              exact foldl_respell_eq_self fun other hother => hkept other (hothers hother)
    exact hfirst spellings (List.Subset.refl _) hnone

/-- No spelling starts a text once spellings are replaced. -/
theorem afterSpelling_respellAll (cs : List Char) :
    ∀ spelling ∈ spellings, afterSpelling spelling.1 (respellAll cs) = none := by
  rcases respellAll_cases cs with ⟨hnone, hkept⟩ | ⟨spelling, hspelling, rest, -, hrespelled⟩
  · rwa [hkept]
  · rw [hrespelled]
    exact afterSpelling_text (ne_otherwise_of_spelling spelling hspelling) rest

/-- What stands before the text after letters are characters of words. -/
theorem exists_word_of_afterLetters {letters cs rest : List Char}
    (hletters : ∀ letter ∈ letters, letter ∈ spellingLetters) (h : afterLetters letters cs = some rest) :
    ∃ word, cs = word ++ rest ∧ ∀ c ∈ word, isWord c = true := by
  induction letters generalizing cs with
  | nil =>
      obtain rfl := Option.some.inj h
      exact ⟨[], rfl, by simp⟩
  | cons letter letters ih =>
      obtain ⟨hletter, hothers⟩ := List.forall_mem_cons.mp hletters
      cases cs with
      | nil => cases h
      | cons c cs =>
          rw [afterLetters] at h
          obtain ⟨hc, hrest⟩ := Option.ite_none_right_eq_some.mp h
          obtain ⟨word, rfl, hword⟩ := ih hothers hrest
          refine ⟨c :: word, rfl, ?_⟩
          exact List.forall_mem_cons.mpr ⟨isWord_of_isLetter hletter hc, hword⟩

/-- What stands before the text after a part of a spelling are characters of words, or blanks. -/
theorem exists_start_of_part {part : SpellingPart} {cs rest : List Char}
    (hletters : ∀ letter ∈ part.chars, letter ∈ spellingLetters) (h : part.rest? cs = some rest) :
    ∃ start, cs = start ++ rest ∧ ∀ c ∈ start, isWord c = true ∨ isBlank c = true := by
  cases part with
  | letters word =>
      obtain ⟨start, hsplit, hword⟩ := exists_word_of_afterLetters hletters h
      exact ⟨start, hsplit, fun c hc => .inl (hword c hc)⟩
  | blanks least =>
      obtain ⟨-, heq⟩ := Option.ite_none_right_eq_some.mp h
      refine ⟨leadingBlanks cs, ?_, fun c hc => .inr (List.mem_takeWhile_imp hc)⟩
      rw [← Option.some.inj heq, leadingBlanks_append_trimLeft]

/-- So are the characters that a spelling takes from the start of a text. -/
theorem exists_start_of_afterSpelling {spelling : List SpellingPart × Keyword} {cs rest : List Char}
    (hspelling : spelling ∈ spellings) (h : afterSpelling spelling.1 cs = some rest) :
    ∃ start, cs = start ++ rest ∧ ∀ c ∈ start, isWord c = true ∨ isBlank c = true := by
  have hletters := mem_spellingLetters spelling hspelling
  have hparts := foldlM_of_afterSpelling h
  clear h
  generalize spelling.1 = parts at hletters hparts
  induction parts generalizing cs with
  | nil =>
      obtain rfl := Option.some.inj hparts
      exact ⟨[], rfl, by simp⟩
  | cons part parts ih =>
      obtain ⟨hpart, hothers⟩ := List.forall_mem_cons.mp hletters
      rw [List.foldlM_cons] at hparts
      obtain ⟨next, hnext, hrest⟩ := Option.bind_eq_some_iff.mp hparts
      obtain ⟨first, rfl, hfirst⟩ := exists_start_of_part hpart hnext
      obtain ⟨start, rfl, hstart⟩ := ih hothers hrest
      exact ⟨first ++ start, (List.append_assoc ..).symm, List.forall_mem_append.mpr ⟨hfirst, hstart⟩⟩

/-! ## Code in its spelling and case -/

/-- Code in its spelling and case has no spelling to replace. -/
theorem respellAll_canonicalCode (body : List Char) : respellAll (canonicalCode body) = canonicalCode body := by
  refine respellAll_eq_self fun spelling hspelling => ?_
  have hsame := (recased_upperKeywords false (respellAll body)).sameLetters
  exact hsame.afterSpelling_eq_none hspelling (afterSpelling_respellAll body spelling hspelling)

/-- Code in its spelling and case is kept. -/
theorem canonicalCode_canonicalCode (body : List Char) :
    canonicalCode (canonicalCode body) = canonicalCode body := by
  rw [canonicalCode, respellAll_canonicalCode, canonicalCode, upperKeywords_upperKeywords]

/-- Code that is kept has no spelling to replace. -/
theorem respellAll_of_kept {body : List Char} (h : canonicalCode body = body) : respellAll body = body := by
  rw [← h, respellAll_canonicalCode]

/-- Code without outer blanks has none in its spelling and case. -/
theorem hasNoOuterBlank_canonicalCode {body : List Char} (h : HasNoOuterBlank body) :
    HasNoOuterBlank (canonicalCode body) := by
  refine (recased_upperKeywords false (respellAll body)).sameLetters.hasNoOuterBlank ?_
  rcases respellAll_cases body with ⟨-, hkept⟩ | ⟨spelling, hspelling, rest, hafter, hrespelled⟩
  · rwa [hkept]
  · obtain ⟨start, rfl, -⟩ := exists_start_of_afterSpelling hspelling hafter
    have hletters : ∀ c ∈ spelling.2.text.toList, isBlank c = false := fun c hc =>
      (isPlain_of_isIdentRest (isIdentRest_of_mem (isIdentifier_text spelling.2) c hc)).1
    have hne : spelling.2.text.toList ≠ [] := by
      obtain ⟨c, more, htext, -⟩ := isIdentifier_iff.mp (isIdentifier_text spelling.2)
      rw [htext]
      exact List.cons_ne_nil c more
    rw [hrespelled]
    refine (hasNoOuterBlank_of_forall hletters).append hne fun c hc => h.last c ?_
    rw [List.getLast?_append, Option.mem_def.mp hc]
    rfl

/-- Words and blanks are code. -/
theorem isCode_of_isWord_or_isBlank {c : Char} (h : isWord c = true ∨ isBlank c = true) : IsCode c := by
  rcases h with hword | hblank
  · refine ⟨?_, ?_, ?_⟩ <;>
      · rintro rfl
        exact absurd hword (by decide)
  · exact (blank_apart hblank).1

/-- A line keeps its comment where its code is put into its spelling and case. -/
theorem splitComment_canonicalCode {line before body after comment : List Char}
    (h : splitComment line = (before ++ body ++ after, comment))
    (hbefore : ∀ c ∈ before, isBlank c = true) :
    splitComment (before ++ canonicalCode body ++ after ++ comment)
      = (before ++ canonicalCode body ++ after, comment) := by
  have hsame := (recased_upperKeywords false (respellAll body)).sameLetters
  have hall : SameLetters (before ++ respellAll body ++ after) (before ++ canonicalCode body ++ after) :=
    ((SameLetters.refl _).append hsame).append (.refl _)
  rcases respellAll_cases body with ⟨-, hkept⟩ | ⟨spelling, hspelling, rest, hafter, hrespelled⟩
  · rw [hkept] at hall
    exact splitComment_of_sameLetters h hall
  · -- the spelling is replaced before the rest of the line is read
    obtain ⟨start, rfl, hstart⟩ := exists_start_of_afterSpelling hspelling hafter
    have hcode : ∀ c ∈ before ++ start, IsCode c := by
      refine List.forall_mem_append.mpr ⟨fun c hc => (blank_apart (hbefore c hc)).1, fun c hc => ?_⟩
      exact isCode_of_isWord_or_isBlank (hstart c hc)
    have hword : ∀ c ∈ before ++ spelling.2.text.toList, IsCode c := by
      refine List.forall_mem_append.mpr ⟨fun c hc => (blank_apart (hbefore c hc)).1, fun c hc => ?_⟩
      exact (isPlain_of_isIdentRest (isIdentRest_of_mem (isIdentifier_text spelling.2) c hc)).2
    have hcut : splitComment ((before ++ start) ++ ((rest ++ after) ++ comment))
        = ((before ++ start) ++ (rest ++ after), comment) := by
      have hline := splitComment_append line
      rw [h] at hline
      simpa only [← hline, List.append_assoc] using h
    have hmiddle := splitComment_replace hcode hword hcut
    refine splitComment_of_sameLetters hmiddle ?_
    rw [hrespelled] at hall
    simpa only [List.append_assoc] using hall

/-! ## Repaired lines -/

/-- The code of a line, without its outer blanks, is put into its spelling and case. -/
theorem repairLine_between (number : Nat) {line before body after comment : List Char}
    (h : splitComment line = (before ++ body ++ after, comment)) (hbody : HasNoOuterBlank body)
    (hbefore : ∀ c ∈ before, isBlank c = true) (hafter : ∀ c ∈ after, isBlank c = true) :
    (repairLine number line).1 = before ++ canonicalCode body ++ after ++ comment := by
  have htrim := hbody.trim_between_blanks hbefore hafter
  rw [repairLine, h]
  dsimp only
  rw [htrim]
  split
  · rename_i hkept
    have happend := splitComment_append line
    rw [h] at happend
    rw [hkept, happend]
  · rename_i hchanged
    have hne : body ≠ [] := by
      rintro rfl
      exact hchanged (by rw [canonicalCode, respellAll_eq_self (by decide +kernel), upperKeywords])
    rw [leadingBlanks_between hbody hne hbefore, trailingBlanks_between hbody hne hafter]

/-- A repaired line is settled. -/
theorem isSettled_repairLine (number : Nat) (line : List Char) : IsSettled (repairLine number line).1 := by
  obtain ⟨before, after, hcode, hbefore, hafter⟩ := exists_outer_blanks (splitComment line).1
  have hsplit : splitComment line
      = (before ++ trim (splitComment line).1 ++ after, (splitComment line).2) := by
    rw [← hcode]
  have hbody := hasNoOuterBlank_trim (splitComment line).1
  rw [repairLine_between number hsplit hbody hbefore hafter, IsSettled,
    splitComment_canonicalCode hsplit hbefore]
  dsimp only
  rw [(hasNoOuterBlank_canonicalCode hbody).trim_between_blanks hbefore hafter, canonicalCode_canonicalCode]

end Rubric.Script
