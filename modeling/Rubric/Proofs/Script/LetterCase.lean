import Rubric.Proofs.Script.KeywordPass
import Rubric.Proofs.Text.Trimming

/-!
# The case of letters

Strings and comments, blanks and words, and the spellings of reserved words are found in a text as they
are in the text in upper case.  So two texts that are the same but for the case of letters have them in
the same places.

* `SameLetters` : texts that are the same but for the case of letters;
* `splitComment_of_sameLetters` : their comments start at the same place;
* `afterSpelling_toUpper` : the same spellings start them.
-/

namespace Rubric.Script

open Rubric.Text

/-! ## Characters -/

/-- A character is its own upper case unless it is a small letter. -/
theorem toUpper_eq_self_or (c : Char) : c.toUpper = c ∨ ∃ n < 26, c = Char.ofNat (n + 97) := by
  by_cases h : 97 ≤ c.toNat ∧ c.toNat ≤ 122
  · refine .inr ⟨c.toNat - 97, by omega, ?_⟩
    rw [Nat.sub_add_cancel h.1, Char.ofNat_toNat]
  · refine .inl (dif_neg fun hsmall => h ?_)
    exact ⟨hsmall.1, hsmall.2⟩

/-- What does not tell small letters from capital ones tells no character from its upper case. -/
theorem apply_toUpper {α : Type} {f : Char → α}
    (h : ∀ n < 26, f (Char.ofNat (n + 97)).toUpper = f (Char.ofNat (n + 97))) (c : Char) :
    f c.toUpper = f c := by
  rcases toUpper_eq_self_or c with hself | ⟨n, hn, rfl⟩
  · rw [hself]
  · exact h n hn

/-- Upper case is upper case already. -/
theorem toUpper_toUpper (c : Char) : c.toUpper.toUpper = c.toUpper := apply_toUpper (by decide) c

/-- The case of a letter does not matter to whether it is a blank. -/
theorem isBlank_toUpper (c : Char) : isBlank c.toUpper = isBlank c := apply_toUpper (by decide) c

/-- Nor to whether it may go on with a word. -/
theorem isIdentRest_toUpper (c : Char) : isIdentRest c.toUpper = isIdentRest c :=
  apply_toUpper (by decide) c

/-- Nor to whether it may start one. -/
theorem isIdentStart_toUpper (c : Char) : isIdentStart c.toUpper = isIdentStart c :=
  apply_toUpper (by decide) c

/-- Nor to whether it is a character of words. -/
theorem isWord_toUpper (c : Char) : isWord c.toUpper = isWord c := apply_toUpper (by decide) c

/-- Nor to whether it is taken for a letter of a spelling. -/
theorem isLetter_toUpper {letter : Char} (hletter : letter ∈ spellingLetters) (c : Char) :
    isLetter letter c.toUpper = isLetter letter c := by
  have hall : (spellingLetters.all fun l => (List.range 26).all fun n =>
      isLetter l (Char.ofNat (n + 97)).toUpper == isLetter l (Char.ofNat (n + 97))) = true := by
    decide +kernel
  have hletters := List.all_eq_true.mp (List.all_eq_true.mp hall letter hletter)
  exact apply_toUpper (fun n hn => eq_of_beq (hletters n (List.mem_range.mpr hn))) c

/-- A mark that is no character of words is the same in upper case. -/
theorem toUpper_eq_iff {c mark : Char} (hmark : isIdentRest mark = false) :
    c.toUpper = mark ↔ c = mark := by
  rcases toUpper_eq_self_or c with hself | ⟨n, hn, rfl⟩
  · rw [hself]
  · have hletter : ∀ n < 26, isIdentRest (Char.ofNat (n + 97)) = true := by decide
    constructor
    · rintro rfl
      rw [isIdentRest_toUpper, hletter n hn] at hmark
      cases hmark
    · rintro rfl
      rw [hletter n hn] at hmark
      cases hmark

/-- A blank is its own upper case. -/
theorem toUpper_of_isBlank {c : Char} (h : isBlank c = true) : c.toUpper = c := by
  rcases toUpper_eq_self_or c with hself | ⟨n, hn, rfl⟩
  · exact hself
  · have hletter : ∀ n < 26, isBlank (Char.ofNat (n + 97)) = false := by decide
    rw [hletter n hn] at h
    cases h

/-! ## Blanks around a text -/

/-- Blanks are their own upper case. -/
theorem map_toUpper_of_isBlank {cs : List Char} (h : ∀ c ∈ cs, isBlank c = true) :
    cs.map Char.toUpper = cs := by
  calc cs.map Char.toUpper = cs.map id := List.map_congr_left fun c hc => toUpper_of_isBlank (h c hc)
    _ = cs := List.map_id cs

/-- A text in upper case starts with the same blanks. -/
theorem leadingBlanks_toUpper (cs : List Char) :
    leadingBlanks (cs.map Char.toUpper) = leadingBlanks cs := by
  have hblank : isBlank ∘ Char.toUpper = isBlank := funext isBlank_toUpper
  rw [leadingBlanks, List.takeWhile_map, hblank]
  exact map_toUpper_of_isBlank fun c hc => List.mem_takeWhile_imp hc

/-- Without them it is the rest in upper case. -/
theorem trimLeft_toUpper (cs : List Char) :
    trimLeft (cs.map Char.toUpper) = (trimLeft cs).map Char.toUpper := by
  have hblank : isBlank ∘ Char.toUpper = isBlank := funext isBlank_toUpper
  rw [trimLeft, List.dropWhile_map, hblank, trimLeft]

/-- So it is without the blanks at its end. -/
theorem trimRight_toUpper (cs : List Char) :
    trimRight (cs.map Char.toUpper) = (trimRight cs).map Char.toUpper := by
  have hdrop := trimLeft_toUpper cs.reverse
  rw [trimRight, dropTrailing, ← List.map_reverse, ← trimLeft, hdrop, ← List.map_reverse]
  rfl

/-- And without both. -/
theorem trim_toUpper (cs : List Char) : trim (cs.map Char.toUpper) = (trim cs).map Char.toUpper := by
  rw [trim, trimLeft_toUpper, trimRight_toUpper, trim]

/-! ## Strings and comments -/

/-- Strings end at the same place in upper case. -/
theorem stringLength?_toUpper {quote : Char} (hquote : isIdentRest quote = false) (cs : List Char) :
    stringLength? quote (cs.map Char.toUpper) = stringLength? quote cs := by
  have hline : ∀ c : Char, c.toUpper = '\n' ↔ c = '\n' := fun c => toUpper_eq_iff (by decide)
  have hescape : ∀ c : Char, c.toUpper = '\\' ↔ c = '\\' := fun c => toUpper_eq_iff (by decide)
  have hend : ∀ c : Char, c.toUpper = quote ↔ c = quote := fun c => toUpper_eq_iff hquote
  fun_induction stringLength? quote cs with
  | case1 => rfl
  | case2 rest => rw [List.map_cons, (hend quote).mpr rfl, stringLength?_quote]
  | case3 rest h =>
      rw [List.map_cons, (hline '\n').mpr rfl, stringLength?.eq_def]
      simp [h]
  | case4 h _ | case5 more h _ =>
      rw [List.map_cons, (hescape '\\').mpr rfl, stringLength?.eq_def]
      simp [h]
  | case6 d more hd h _ ih =>
      rw [List.map_cons, List.map_cons, (hescape '\\').mpr rfl,
        stringLength?_escaped _ _ (Ne.symm h) (mt (hline d).mp hd), ih]
  | case7 c rest h hc hnot ih =>
      rw [List.map_cons, stringLength?_plain _ (mt (hend c).mp h) (mt (hline c).mp hc)
        (mt (hescape c).mp hnot), ih]

/-- The same strings start a text in upper case. -/
theorem literalLength?_toUpper (cs : List Char) :
    literalLength? (cs.map Char.toUpper) = literalLength? cs := by
  cases cs with
  | nil => rfl
  | cons c cs =>
      by_cases hquote : c = '"' ∨ c = '\''
      · have hsame : c.toUpper = c ∧ isIdentRest c = false := by
          rcases hquote with rfl | rfl <;> decide
        rw [List.map_cons, literalLength?, literalLength?, hsame.1, stringLength?_toUpper hsame.2]
      · have hupper : ¬ (c.toUpper = '"' ∨ c.toUpper = '\'') := by
          rwa [toUpper_eq_iff (by decide), toUpper_eq_iff (by decide)]
        rw [List.map_cons, literalLength?, literalLength?, if_neg (by simpa using hupper),
          if_neg (by simpa using hquote)]

/-- The comment of a line in upper case is its comment in upper case. -/
theorem splitComment_toUpper (cs : List Char) :
    splitComment (cs.map Char.toUpper)
      = ((splitComment cs).1.map Char.toUpper, (splitComment cs).2.map Char.toUpper) := by
  fun_induction splitComment cs with
  | case1 => rw [List.map_nil, splitComment]
  | case2 c rest n h code comment split ih =>
      have hliteral := literalLength?_toUpper (c :: rest)
      rw [h, List.map_cons] at hliteral
      rw [split] at ih
      rw [List.map_cons, splitComment, hliteral]
      dsimp only
      rw [← List.map_drop, ih, ← List.map_take, List.map_append, List.map_cons]
  | case3 rest h =>
      have hliteral := literalLength?_toUpper ('#' :: rest)
      have hmark : Char.toUpper '#' = '#' := by decide
      rw [h, List.map_cons] at hliteral
      rw [List.map_cons, splitComment, hliteral]
      simp [hmark]
  | case4 c rest h hc code comment split ih =>
      have hliteral := literalLength?_toUpper (c :: rest)
      have hmark : c.toUpper ≠ '#' := mt (toUpper_eq_iff (by decide)).mp hc
      rw [h, List.map_cons] at hliteral
      rw [split] at ih
      rw [List.map_cons, splitComment, hliteral]
      simp [hmark, ih]

/-! ## Texts that are the same but for the case of letters -/

/-- Whether two texts are the same but for the case of letters. -/
def SameLetters (cs ds : List Char) : Prop := cs.map Char.toUpper = ds.map Char.toUpper

instance (cs ds : List Char) : Decidable (SameLetters cs ds) :=
  inferInstanceAs (Decidable (cs.map Char.toUpper = ds.map Char.toUpper))

namespace SameLetters

variable {cs ds cs' ds' : List Char}

/-- Every text is the same as itself. -/
theorem refl (cs : List Char) : SameLetters cs cs := rfl

/-- They have one length. -/
theorem length_eq (h : SameLetters cs ds) : cs.length = ds.length := by
  have hlength := congrArg List.length h
  simpa using hlength

/-- Texts in a row are the same where each is. -/
theorem append (h : SameLetters cs ds) (h' : SameLetters cs' ds') :
    SameLetters (cs ++ cs') (ds ++ ds') := by
  rw [SameLetters, List.map_append, List.map_append, h, h']

/-- They start alike. -/
theorem head {p : Char → Bool} (h : SameLetters cs ds) (hp : ∀ c, p c.toUpper = p c) {b : Bool}
    (hcs : ∀ c ∈ cs.head?, p c = b) : ∀ c ∈ ds.head?, p c = b := by
  intro d hd
  have hheads : cs.head?.map Char.toUpper = ds.head?.map Char.toUpper := by
    rw [← List.head?_map, ← List.head?_map, h]
  rw [Option.mem_def.mp hd] at hheads
  obtain ⟨c, hc, hupper⟩ := Option.map_eq_some_iff.mp hheads
  rw [← hp, ← hupper, hp]
  exact hcs c hc

/-- What holds of all characters of one, regardless of case, holds of all of the other. -/
theorem forall_mem {p : Char → Bool} (h : SameLetters cs ds) (hp : ∀ c, p c.toUpper = p c)
    (hcs : ∀ c ∈ cs, p c = true) : ∀ c ∈ ds, p c = true := by
  intro d hd
  have hupper : d.toUpper ∈ cs.map Char.toUpper := by
    rw [h]
    exact List.mem_map_of_mem hd
  obtain ⟨c, hc, heq⟩ := List.mem_map.mp hupper
  rw [← hp, ← heq, hp]
  exact hcs c hc

/-- What is no character of words is in both or in neither. -/
theorem mem_of_mark {mark : Char} (h : SameLetters cs ds) (hmark : isIdentRest mark = false)
    (hcs : mark ∈ cs) : mark ∈ ds := by
  have hupper : mark.toUpper ∈ ds.map Char.toUpper := by
    rw [← h]
    exact List.mem_map_of_mem hcs
  rw [(toUpper_eq_iff hmark).mpr rfl] at hupper
  obtain ⟨d, hd, heq⟩ := List.mem_map.mp hupper
  rwa [← (toUpper_eq_iff hmark).mp heq]

/-- A text that is the same as one without letters is that text. -/
theorem eq_of_marks (h : SameLetters cs ds) (hcs : ∀ c ∈ cs, isIdentRest c = false) : cs = ds := by
  induction cs generalizing ds with
  | nil => exact (List.map_eq_nil_iff.mp (Eq.symm h)).symm
  | cons c cs ih =>
      obtain ⟨hc, hrest⟩ := List.forall_mem_cons.mp hcs
      obtain ⟨d, ds, rfl, hd, hds⟩ := List.map_eq_cons_iff.mp (Eq.symm h)
      have hself : c.toUpper = c := (toUpper_eq_iff hc).mpr rfl
      rw [hself, toUpper_eq_iff hc] at hd
      rw [hd, ih (Eq.symm hds) hrest]

/-- They can be cut at the same place. -/
theorem exists_append (h : SameLetters (cs ++ cs') ds) :
    ∃ first second, ds = first ++ second ∧ SameLetters cs first ∧ SameLetters cs' second := by
  have hmap : ds.map Char.toUpper = cs.map Char.toUpper ++ cs'.map Char.toUpper := by
    rw [← List.map_append]
    exact Eq.symm h
  obtain ⟨first, second, rfl, hfirst, hsecond⟩ := List.map_eq_append_iff.mp hmap
  exact ⟨first, second, rfl, Eq.symm hfirst, Eq.symm hsecond⟩

/-- They start with the same strings. -/
theorem literalLength?_eq (h : SameLetters cs ds) : literalLength? cs = literalLength? ds := by
  rw [← literalLength?_toUpper cs, h, literalLength?_toUpper]

/-- Without outer blanks they are the same. -/
theorem trim (h : SameLetters cs ds) : SameLetters (trim cs) (trim ds) := by
  rw [SameLetters, ← trim_toUpper, h, trim_toUpper]

/-- Neither has outer blanks where the other has none. -/
theorem hasNoOuterBlank (h : SameLetters cs ds) (hcs : HasNoOuterBlank cs) : HasNoOuterBlank ds where
  head := h.head isBlank_toUpper hcs.head
  last := by
    have hreverse : SameLetters cs.reverse ds.reverse := by
      rw [SameLetters, List.map_reverse, List.map_reverse, h]
    have hlast := hreverse.head isBlank_toUpper (b := false) (by
      rw [List.head?_reverse]
      exact hcs.last)
    rwa [List.head?_reverse] at hlast

end SameLetters

/-- A line keeps its comment where the case of letters is changed in its code. -/
theorem splitComment_of_sameLetters {line code code' comment : List Char}
    (h : splitComment line = (code, comment)) (hcode : SameLetters code code') :
    splitComment (code' ++ comment) = (code', comment) := by
  have hline : code ++ comment = line := by
    have happend := splitComment_append line
    rwa [h] at happend
  have hsame : SameLetters line (code' ++ comment) := by
    rw [← hline]
    exact hcode.append (.refl comment)
  have hsplit : ((splitComment (code' ++ comment)).1).map Char.toUpper = code.map Char.toUpper := by
    have hupper := congrArg Prod.fst (splitComment_toUpper (code' ++ comment))
    rw [← hsame, splitComment_toUpper, h] at hupper
    exact hupper.symm
  have hlength : (splitComment (code' ++ comment)).1.length = code'.length := by
    rw [← hcode.length_eq]
    simpa using congrArg List.length hsplit
  obtain ⟨hfirst, hsecond⟩ := List.append_inj (splitComment_append (code' ++ comment)) hlength
  exact Prod.ext hfirst hsecond

/-! ## Spellings -/

/-- The letters of a part of a spelling. -/
def SpellingPart.chars : SpellingPart → List Char
  | letters word => word.toList
  | blanks _ => []

/-- The spellings of reserved words are made of capital letters. -/
theorem mem_spellingLetters : ∀ spelling ∈ spellings, ∀ part ∈ spelling.1, ∀ letter ∈ part.chars,
    letter ∈ spellingLetters := by
  have hall : (spellings.all fun spelling => spelling.1.all fun part =>
      part.chars.all spellingLetters.contains) = true := by
    decide +kernel
  simpa only [List.all_eq_true, List.contains_iff_mem] using hall

/-- What follows letters in a text in upper case is what follows them, in upper case. -/
theorem afterLetters_toUpper {letters : List Char} (h : ∀ letter ∈ letters, letter ∈ spellingLetters)
    (cs : List Char) :
    afterLetters letters (cs.map Char.toUpper) = (afterLetters letters cs).map (·.map Char.toUpper) := by
  induction letters generalizing cs with
  | nil => rfl
  | cons letter letters ih =>
      cases cs with
      | nil => rfl
      | cons c cs =>
          have hletter := isLetter_toUpper (h letter List.mem_cons_self) c
          rw [List.map_cons, afterLetters, afterLetters, hletter]
          split
          · exact ih (fun l hl => h l (List.mem_cons_of_mem letter hl)) cs
          · rfl

/-- So it is with a part of a spelling. -/
theorem SpellingPart.rest?_toUpper {part : SpellingPart}
    (h : ∀ letter ∈ part.chars, letter ∈ spellingLetters) (cs : List Char) :
    part.rest? (cs.map Char.toUpper) = (part.rest? cs).map (·.map Char.toUpper) := by
  cases part with
  | letters word => exact afterLetters_toUpper h cs
  | blanks least =>
      rw [rest?, rest?, leadingBlanks_toUpper, trimLeft_toUpper]
      split <;> rfl

/-- And with a whole spelling. -/
theorem afterSpelling_toUpper {parts : List SpellingPart}
    (h : ∀ part ∈ parts, ∀ letter ∈ part.chars, letter ∈ spellingLetters) (cs : List Char) :
    afterSpelling parts (cs.map Char.toUpper) = (afterSpelling parts cs).map (·.map Char.toUpper) := by
  have hparts : parts.foldlM (fun rest part => SpellingPart.rest? part rest) (cs.map Char.toUpper)
      = (parts.foldlM (fun rest part => SpellingPart.rest? part rest) cs).map (·.map Char.toUpper) := by
    induction parts generalizing cs with
    | nil => rfl
    | cons part parts ih =>
        obtain ⟨hpart, hrest⟩ := List.forall_mem_cons.mp h
        rw [List.foldlM_cons, List.foldlM_cons, SpellingPart.rest?_toUpper hpart]
        cases part.rest? cs with
        | none => rfl
        | some rest => exact ih hrest rest
  unfold afterSpelling
  rw [hparts]
  cases parts.foldlM (fun rest part => SpellingPart.rest? part rest) cs with
  | none => rfl
  | some rest =>
      cases rest with
      | nil => rfl
      | cons c rest =>
          show (if isWord c.toUpper = true then _ else _) = _
          rw [isWord_toUpper]
          dsimp only
          split <;> rfl

/-- What follows a spelling in two texts that are the same but for the case of letters is the same but for
the case of letters. -/
theorem SameLetters.map_afterSpelling {cs ds : List Char} (h : SameLetters cs ds)
    {spelling : List SpellingPart × Keyword} (hspelling : spelling ∈ spellings) :
    (afterSpelling spelling.1 cs).map (·.map Char.toUpper)
      = (afterSpelling spelling.1 ds).map (·.map Char.toUpper) := by
  have hletters := mem_spellingLetters spelling hspelling
  rw [← afterSpelling_toUpper hletters, h, afterSpelling_toUpper hletters]

/-- So a spelling starts neither of them, or both. -/
theorem SameLetters.afterSpelling_eq_none {cs ds : List Char} (h : SameLetters cs ds)
    {spelling : List SpellingPart × Keyword} (hspelling : spelling ∈ spellings)
    (hcs : afterSpelling spelling.1 cs = none) : afterSpelling spelling.1 ds = none := by
  have hmap := h.map_afterSpelling hspelling
  rw [hcs] at hmap
  exact Option.map_eq_none_iff.mp hmap.symm

end Rubric.Script
