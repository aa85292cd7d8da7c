import Rubric.Proofs.Script.Unambiguous
import Rubric.Script.Lint

/-!
# Plain whitespace and tokens

The whitespace pass goes through a text without looking at its tokens: carriage returns become line
feeds and tabs become spaces, in strings and comments too.  A text whose carriage returns all stand
before line feeds keeps its tokens and the lines they are on, but for the tabs in its strings.

* `Respaced` : what the pass makes of such a text, whatever the columns;
* `readToken_respaced` : what is read at the start of a text after the pass;
* `Respaced.quoted` : what becomes of a string.
-/

namespace Rubric.Script

open Rubric.Text

/-! ## The whitespace pass -/

/-- Whether every carriage return stands before a line feed. -/
def returnsEndLines : List Char → Bool
  | [] => true
  | '\r' :: '\n' :: rest => returnsEndLines rest
  | '\r' :: _ => false
  | _ :: rest => returnsEndLines rest

/-- A text, and the same text without the carriage returns before its line feeds and with one or more
spaces for each tab. -/
inductive Respaced : List Char → List Char → Prop where
  | nil : Respaced [] []
  | crlf {rest rest' : List Char} : Respaced rest rest' →
      Respaced ('\r' :: '\n' :: rest) ('\n' :: rest')
  | tab (n : Nat) {rest rest' : List Char} : Respaced rest rest' →
      Respaced ('\t' :: rest) (List.replicate (n + 1) ' ' ++ rest')
  | char {c : Char} {rest rest' : List Char} : c ≠ '\r' → c ≠ '\t' → Respaced rest rest' →
      Respaced (c :: rest) (c :: rest')

/-- The pass respaces a text whose carriage returns stand before line feeds. -/
theorem respaced_expandTabsFrom {cs : List Char} (h : returnsEndLines cs = true) (column : Nat) :
    Respaced cs (expandTabsFrom tabStop column (unixLineEnds cs)) := by
  fun_induction returnsEndLines cs generalizing column with
  | case1 => exact .nil
  | case2 rest ih => exact .crlf (ih h 0)
  | case3 => cases h
  | case4 c rest hcrlf hreturn ih =>
      have hends : unixLineEnds (c :: rest) = c :: unixLineEnds rest := by
        rw [unixLineEnds]
        · exact fun more hc hrest => hcrlf more hc hrest
        · exact hreturn
      rw [hends]
      by_cases htab : c = '\t'
      · subst htab
        have hwidth : tabStop - column % tabStop = (tabStop - column % tabStop - 1) + 1 := by
          have hlt : column % tabStop < tabStop := Nat.mod_lt _ (by decide)
          omega
        rw [expandTabsFrom, hwidth]
        exact .tab _ (ih h _)
      · by_cases hfeed : c = '\n'
        · subst hfeed
          exact .char (by decide) (by decide) (ih h 0)
        · rw [expandTabsFrom]
          · exact .char hreturn htab (ih h _)
          · exact htab
          · exact hfeed

/-- The whitespace pass respaces a text whose carriage returns stand before line feeds. -/
theorem respaced_plainWhitespace {cs : List Char} (h : returnsEndLines cs = true) :
    Respaced cs (plainWhitespace cs) := respaced_expandTabsFrom h 0

/-- Whether a character is neither a tab nor a line end. -/
def IsFixed (c : Char) : Prop := c ≠ '\t' ∧ c ≠ '\r' ∧ c ≠ '\n'

/-- Other characters stay. -/
theorem Respaced.of_cons {c : Char} {rest cs' : List Char} (h : Respaced (c :: rest) cs')
    (hreturn : c ≠ '\r') (htab : c ≠ '\t') : ∃ rest', cs' = c :: rest' ∧ Respaced rest rest' := by
  cases h with
  | crlf => exact absurd rfl hreturn
  | tab => exact absurd rfl htab
  | @char _ _ rest' _ _ hrest => exact ⟨rest', rfl, hrest⟩

/-- A text of other characters stays. -/
theorem Respaced.of_append {t rest cs' : List Char} (h : Respaced (t ++ rest) cs')
    (ht : ∀ c ∈ t, IsFixed c) : ∃ rest', cs' = t ++ rest' ∧ Respaced rest rest' := by
  induction t generalizing cs' with
  | nil => exact ⟨cs', rfl, h⟩
  | cons c t ih =>
      rw [List.forall_mem_cons] at ht
      obtain ⟨more, rfl, hmore⟩ := h.of_cons ht.1.2.1 ht.1.1
      obtain ⟨rest', rfl, hrest⟩ := ih hmore ht.2
      exact ⟨rest', rfl, hrest⟩

/-- A respaced text before another. -/
theorem Respaced.append {t rest rest' : List Char} (ht : ∀ c ∈ t, IsFixed c)
    (h : Respaced rest rest') : Respaced (t ++ rest) (t ++ rest') := by
  induction t with
  | nil => exact h
  | cons c t ih =>
      rw [List.forall_mem_cons] at ht
      exact .char ht.1.2.1 ht.1.1 (ih ht.2)

/-! ## Words up to a blank -/

/-- Whether a character is a space, a tab or a line end. -/
def IsSpacing (c : Char) : Prop := c = ' ' ∨ c = '\t' ∨ c = '\r' ∨ c = '\n'

instance : DecidablePred IsSpacing :=
  fun c => inferInstanceAs (Decidable (c = ' ' ∨ c = '\t' ∨ c = '\r' ∨ c = '\n'))

/-- What is no spacing stays. -/
theorem isFixed_of_not_isSpacing {c : Char} (h : ¬ IsSpacing c) : IsFixed c := by
  simp only [IsSpacing, not_or] at h
  exact ⟨h.2.1, h.2.2.1, h.2.2.2⟩

/-- Letters and digits are no spacing. -/
theorem not_isSpacing_of_isIdentRest {c : Char} (h : isIdentRest c = true) : ¬ IsSpacing c := by
  rintro (rfl | rfl | rfl | rfl) <;> exact absurd h (by decide)

/-- Digits are no spacing. -/
theorem not_isSpacing_of_isDecimal {c : Char} (h : isDecimal c = true) : ¬ IsSpacing c := by
  rintro (rfl | rfl | rfl | rfl) <;> exact absurd h (by decide)

/-- Signs are written without spacing. -/
theorem not_isSpacing_sign (s : Sign) : ∀ c ∈ s.chars, ¬ IsSpacing c := by
  cases s <;> simp [Sign.chars, IsSpacing]

/-- Reserved words are written without spacing. -/
theorem not_isSpacing_keyword (k : Keyword) : ∀ c ∈ k.text.toList, ¬ IsSpacing c :=
  fun c hc => not_isSpacing_of_isIdentRest (isIdentRest_of_mem (isIdentifier_text k) c hc)

/-- Whether a text is empty or starts with spacing. -/
def StartsBlank (rest : List Char) : Prop := ∀ c ∈ rest.head?, IsSpacing c

/-- A class without blanks runs up to the blank. -/
theorem takeWhile_startsBlank {p : Char → Bool} (hp : ∀ {c}, p c = true → ¬ IsSpacing c)
    {rest : List Char} (hrest : StartsBlank rest) (w : List Char) :
    (w ++ rest).takeWhile p = w.takeWhile p := by
  induction w with
  | nil =>
      cases rest with
      | nil => rfl
      | cons c rest =>
          have hc : p c = false := Bool.eq_false_iff.mpr fun hc => hp hc (hrest c rfl)
          simp [hc]
  | cons c w ih => simp only [List.cons_append, List.takeWhile_cons, ih]

/-- A prefix without blanks lies before the blank. -/
theorem isPrefixOf_startsBlank {rest : List Char} (hrest : StartsBlank rest) :
    ∀ {t w : List Char}, (∀ c ∈ t, ¬ IsSpacing c) →
      t.isPrefixOf (w ++ rest) = t.isPrefixOf w
  | [], _, _ => by simp
  | c :: t, [], ht => by
      cases rest with
      | nil => rfl
      | cons d rest =>
          have hne : c ≠ d := fun heq => ht c (by simp) (heq ▸ hrest d rfl)
          simp [List.isPrefixOf, hne]
  | c :: t, d :: w, ht => by
      rw [List.forall_mem_cons] at ht
      simp only [List.cons_append, List.isPrefixOf, isPrefixOf_startsBlank hrest ht.2]

/-- A number lies before the blank. -/
theorem numberLength_startsBlank {rest : List Char} (hrest : StartsBlank rest) (w : List Char) :
    numberLength (w ++ rest) = numberLength w := by
  have hdecimal : ∀ w : List Char, (w ++ rest).takeWhile isDecimal = w.takeWhile isDecimal :=
    takeWhile_startsBlank not_isSpacing_of_isDecimal hrest
  have hlength : (w.takeWhile isDecimal).length ≤ w.length :=
    (List.takeWhile_prefix isDecimal).length_le
  unfold numberLength
  simp only [hdecimal w]
  rw [List.drop_append_of_le_length hlength]
  cases hdrop : w.drop (w.takeWhile isDecimal).length with
  | nil =>
      cases rest with
      | nil => rfl
      | cons c rest =>
          have hc : c ≠ '.' := by
            rcases hrest c rfl with rfl | rfl | rfl | rfl <;> decide
          simp only [List.nil_append]
          split
          · rename_i hpoint
            exact absurd (List.cons.inj hpoint).1 hc
          · rfl
  | cons d more =>
      by_cases hd : d = '.'
      · subst hd
        simp only [List.cons_append, hdecimal more]
      · simp only [List.cons_append]
        split
        · rename_i hpoint
          exact absurd (List.cons.inj hpoint).1 hd
        · split
          · rename_i hpoint
            exact absurd (List.cons.inj hpoint).1 hd
          · rfl

/-- A variable lies before the blank. -/
theorem readVar_startsBlank {rest : List Char} (hrest : StartsBlank rest) (w : List Char) :
    readVar (w ++ rest) = readVar w := by
  cases w with
  | nil =>
      cases rest with
      | nil => rfl
      | cons c rest =>
          have hc : isIdentStart c = false := by
            rcases hrest c rfl with rfl | rfl | rfl | rfl <;> decide
          simp [readVar, hc]
  | cons c w =>
      have hword := takeWhile_startsBlank not_isSpacing_of_isIdentRest hrest (c :: w)
      simp only [List.cons_append] at hword
      simp only [readVar, List.cons_append, hword]

/-- A word lies before the blank. -/
theorem readWord_startsBlank {rest : List Char} (hrest : StartsBlank rest)
    (accepts : TokenKind → Bool) (w : List Char) :
    readWord accepts (w ++ rest) = readWord accepts w := by
  have htext : ∀ k : Keyword, k.text.toList.isPrefixOf (w ++ rest) = k.text.toList.isPrefixOf w :=
    fun k => isPrefixOf_startsBlank hrest (not_isSpacing_keyword k)
  unfold readWord
  simp only [takeWhile_startsBlank not_isSpacing_of_isIdentRest hrest w, htext]

/-- A sign lies before the blank. -/
theorem readSign_startsBlank {rest : List Char} (hrest : StartsBlank rest)
    (accepts : TokenKind → Bool) (w : List Char) :
    readSign accepts (w ++ rest) = readSign accepts w := by
  have hchars : ∀ s : Sign, s.chars.isPrefixOf (w ++ rest) = s.chars.isPrefixOf w :=
    fun s => isPrefixOf_startsBlank hrest (not_isSpacing_sign s)
  unfold readSign
  simp only [hchars]

/-- Whether a character starts neither a string nor a line end. -/
def StartsInline (c : Char) : Prop := c ≠ '"' ∧ c ≠ '\'' ∧ c ≠ '\n' ∧ c ≠ '\r'

/-- A token lies before the blank, unless it is a string or a line end. -/
theorem readToken_startsBlank {rest : List Char} (hrest : StartsBlank rest)
    (accepts : TokenKind → Bool) {c : Char} (hc : StartsInline c) (w : List Char) :
    readToken accepts (c :: w ++ rest) = readToken accepts (c :: w) := by
  obtain ⟨hdouble, hsingle, hfeed, hreturn⟩ := hc
  have hword := readWord_startsBlank hrest accepts (c :: w)
  have hsign := readSign_startsBlank hrest accepts (c :: w)
  have hnumber := numberLength_startsBlank hrest (c :: w)
  have hdigits : (c :: w ++ rest).take (numberLength (c :: w)) = (c :: w).take (numberLength (c :: w)) :=
    List.take_append_of_le_length (numberLength_le _)
  simp only [List.cons_append] at hword hsign hnumber hdigits
  simp [readToken, hword, hsign, hnumber, hdigits, readVar_startsBlank hrest w, hdouble, hsingle,
    hfeed, hreturn]

/-- The start of a text up to a blank. -/
theorem exists_upToBlank (cs : List Char) :
    ∃ w rest, cs = w ++ rest ∧ (∀ c ∈ w, ¬ IsSpacing c) ∧ StartsBlank rest := by
  obtain ⟨w, rest, hsplit, hw, hrest⟩ := exists_run (fun c => !decide (IsSpacing c)) cs
  exact ⟨w, rest, hsplit, fun c hc => by simpa using hw c hc, fun c hc => by simpa using hrest c hc⟩

/-- A respaced text starts with a blank where the text does. -/
theorem Respaced.startsBlank {rest rest' : List Char} (h : Respaced rest rest')
    (hrest : StartsBlank rest) : StartsBlank rest' := by
  cases h with
  | nil => exact hrest
  | crlf => simp [StartsBlank, IsSpacing]
  | tab => simp [StartsBlank, IsSpacing, List.replicate_succ]
  | @char c => exact fun d hd => hrest d (by simpa using hd)

/-! ## Tokens within a line -/

/-- A token that is neither a string nor a line end is read in the respaced text as in the text. -/
theorem readToken_respaced {accepts : TokenKind → Bool} {c : Char} {cs cs' : List Char}
    (hc : StartsInline c) {token : Token} {n : Nat}
    (h : readToken accepts (c :: cs) = some (token, n + 1))
    (ht : ∀ d ∈ (c :: cs).take (n + 1), ¬ IsSpacing d) (hcs : Respaced (c :: cs) cs') :
    readToken accepts cs' = some (token, n + 1) ∧
      cs'.take (n + 1) = (c :: cs).take (n + 1) ∧
      Respaced ((c :: cs).drop (n + 1)) (cs'.drop (n + 1)) := by
  obtain ⟨w, rest, hsplit, hw, hrest⟩ := exists_upToBlank (c :: cs)
  cases w with
  | nil =>
      rw [List.nil_append] at hsplit
      rw [← hsplit] at hrest
      exact absurd (hrest c rfl) (ht c (by simp))
  | cons d w =>
      obtain rfl : c = d := (List.cons.inj hsplit).1
      rw [hsplit] at hcs
      obtain ⟨rest', rfl, hrest'⟩ := hcs.of_append fun d hd => isFixed_of_not_isSpacing (hw d hd)
      -- the token has no blank, so it ends before the first one
      have hinside : n + 1 ≤ (c :: w).length ∨ rest = [] := by
        cases rest with
        | nil => exact .inr rfl
        | cons e rest =>
            refine .inl (Nat.le_of_not_lt fun hlt => ?_)
            have hmem : e ∈ (c :: cs).take (n + 1) := by
              rw [hsplit, List.take_append, List.mem_append]
              obtain ⟨k, hk⟩ := Nat.exists_eq_add_of_lt hlt
              right
              rw [show n + 1 - (c :: w).length = k + 1 by omega]
              simp
            exact absurd (hrest e rfl) (ht e hmem)
      have hread : readToken accepts (c :: w) = some (token, n + 1) := by
        rw [← readToken_startsBlank hrest accepts hc w, ← hsplit]
        exact h
      refine ⟨?_, ?_, ?_⟩
      · rw [readToken_startsBlank (hrest'.startsBlank hrest) accepts hc w, hread]
      · rw [hsplit]
        rcases hinside with hle | rfl
        · rw [List.take_append_of_le_length hle, List.take_append_of_le_length hle]
        · cases hrest'
          rfl
      · rw [hsplit]
        have hkept : ∀ d ∈ (c :: w).drop (n + 1), IsFixed d :=
          fun d hd => isFixed_of_not_isSpacing (hw d (List.mem_of_mem_drop hd))
        rcases hinside with hle | rfl
        · rw [List.drop_append_of_le_length hle, List.drop_append_of_le_length hle]
          exact hrest'.append hkept
        · cases hrest'
          rw [List.append_nil]
          have hall := Respaced.nil.append hkept
          rwa [List.append_nil] at hall

/-! ## Line ends -/

/-- Spaces belong to the line end before them, in a comment or not. -/
theorem marginLength_replicate (comment : Bool) (n : Nat) (cs : List Char) :
    marginLength comment (List.replicate n ' ' ++ cs) = n + marginLength comment cs := by
  induction n with
  | zero => simp
  | succ n ih =>
      have hstep : marginLength comment (' ' :: (List.replicate n ' ' ++ cs)) =
          marginLength comment (List.replicate n ' ' ++ cs) + 1 := by
        cases comment <;> rfl
      rw [List.replicate_succ, List.cons_append, hstep, ih]
      omega

/-- What belongs to a line end has as many line feeds in the respaced text, and the texts after it
are respaced again. -/
theorem Respaced.margin {cs cs' : List Char} (h : Respaced cs cs') (comment : Bool) :
    (cs'.take (marginLength comment cs')).count '\n' = (cs.take (marginLength comment cs)).count '\n' ∧
      Respaced (cs.drop (marginLength comment cs)) (cs'.drop (marginLength comment cs')) := by
  induction h generalizing comment with
  | nil => cases comment <;> exact ⟨rfl, .nil⟩
  | @crlf rest rest' _ ih =>
      obtain ⟨hcount, hrest⟩ := ih false
      -- the pair is taken along by both, in a comment or not
      have hlength : marginLength comment ('\r' :: '\n' :: rest) = marginLength false rest + 2 := by
        cases comment <;> simp [marginLength]
      have hlength' : marginLength comment ('\n' :: rest') = marginLength false rest' + 1 := by
        cases comment <;> rfl
      rw [hlength, hlength', List.take_succ_cons, List.take_succ_cons, List.take_succ_cons,
        List.count_cons_self, List.count_cons_of_ne (by decide), List.count_cons_self, hcount]
      exact ⟨rfl, hrest⟩
  | @tab n rest rest' _ ih =>
      obtain ⟨hcount, hrest⟩ := ih comment
      have hstep : marginLength comment ('\t' :: rest) = marginLength comment rest + 1 := by
        cases comment <;> rfl
      have hspaces : (List.replicate (n + 1) ' ').count '\n' = 0 := by
        simp [List.count_replicate]
      rw [hstep, marginLength_replicate, List.take_succ_cons, List.drop_succ_cons,
        List.count_cons_of_ne (by decide), List.take_append, List.drop_append, List.length_replicate,
        List.count_append, Nat.add_sub_cancel_left,
        List.take_of_length_le (l := List.replicate (n + 1) ' ') (by simp),
        List.drop_of_length_le (l := List.replicate (n + 1) ' ') (by simp), hspaces, Nat.zero_add,
        List.nil_append]
      exact ⟨hcount, hrest⟩
  | @char c rest rest' hreturn htab h ih =>
      by_cases hfeed : c = '\n'
      · subst hfeed
        obtain ⟨hcount, hrest⟩ := ih false
        have hfeeds : ∀ more, marginLength comment ('\n' :: more) = marginLength false more + 1 := by
          intro more
          cases comment <;> rfl
        rw [hfeeds, hfeeds, List.take_succ_cons, List.take_succ_cons, List.count_cons_self,
          List.count_cons_self, hcount]
        exact ⟨rfl, hrest⟩
      · -- the character is taken along from both texts, or from neither
        have hboth : (∃ inside, marginLength comment (c :: rest) = marginLength inside rest + 1 ∧
              marginLength comment (c :: rest') = marginLength inside rest' + 1) ∨
            (marginLength comment (c :: rest) = 0 ∧ marginLength comment (c :: rest') = 0) := by
          cases comment with
          | true => exact .inl ⟨true, by simp [marginLength], by simp [marginLength]⟩
          | false =>
              by_cases hspace : c = ' '
              · subst hspace
                exact .inl ⟨false, rfl, rfl⟩
              · by_cases hhash : c = '#'
                · subst hhash
                  exact .inl ⟨true, rfl, rfl⟩
                · exact .inr ⟨by simp [marginLength, hreturn], by simp [marginLength, hreturn]⟩
        rcases hboth with ⟨inside, hlength, hlength'⟩ | ⟨hlength, hlength'⟩
        · obtain ⟨hcount, hrest⟩ := ih inside
          rw [hlength, hlength', List.take_succ_cons, List.take_succ_cons,
            List.count_cons_of_ne hfeed, List.count_cons_of_ne hfeed]
          exact ⟨hcount, hrest⟩
        · rw [hlength, hlength']
          exact ⟨rfl, .char hreturn htab h⟩

/-! ## Strings -/

/-- Spaces may stand in a string. -/
theorem Quoted.replicate {quote : Char} (hquote : quote ≠ ' ') (n : Nat) {inner : List Char}
    (h : Quoted quote inner) : Quoted quote (List.replicate n ' ' ++ inner) := by
  induction n with
  | zero => exact h
  | succ n ih => exact .char hquote.symm (by decide) (by decide) ih

/-- Spaces stand for themselves. -/
theorem unescape_replicate (n : Nat) (cs : List Char) :
    unescape (List.replicate n ' ' ++ cs) = List.replicate n ' ' ++ unescape cs := by
  induction n with
  | zero => rfl
  | succ n ih =>
      rw [List.replicate_succ, List.cons_append, unescape_cons ' ' _ (by decide), ih]
      rfl

/-- A string of the respaced text: without tabs it is the string of the text, and each tab that it is
written with is gone from its value. -/
theorem Respaced.quoted {quote : Char} (hquote : quote = '"' ∨ quote = '\'') {inner rest cs' : List Char}
    (hinner : Quoted quote inner) (h : Respaced (inner ++ quote :: rest) cs') :
    ∃ inner' rest', cs' = inner' ++ quote :: rest' ∧ Quoted quote inner' ∧ Respaced rest rest' ∧
      ('\t' ∉ inner → inner' = inner) ∧
      (unescape inner').count '\t' + inner.count '\t' = (unescape inner).count '\t' := by
  have hplain : quote ≠ '\r' ∧ quote ≠ '\t' ∧ quote ≠ ' ' ∧ quote ≠ '\n' := by
    rcases hquote with rfl | rfl <;> decide
  -- a carriage return would have a line feed after it
  have hhead : ∀ {inner more : List Char}, Quoted quote inner → inner ++ quote :: rest ≠ '\n' :: more := by
    intro inner more hinner heq
    cases hinner with
    | nil => exact hplain.2.2.2 (List.cons.inj heq).1
    | char _ hfeed => exact hfeed (List.cons.inj heq).1
    | escape => exact absurd (List.cons.inj heq).1 (by decide)
  induction hinner generalizing cs' with
  | nil =>
      obtain ⟨rest', rfl, hrest⟩ := h.of_cons hplain.1 hplain.2.1
      exact ⟨[], rest', rfl, .nil, hrest, fun _ => rfl, rfl⟩
  | @char c inner hclose hfeed hescape hinner ih =>
      rw [List.cons_append] at h
      generalize hmore : inner ++ quote :: rest = more at h ih
      cases h with
      | crlf => exact absurd hmore (hhead hinner)
      | tab n hrest =>
          obtain ⟨inner', rest', rfl, hinner', hrest', -, hcount⟩ := ih hrest
          refine ⟨List.replicate (n + 1) ' ' ++ inner', rest', by simp, hinner'.replicate hplain.2.2.1 _,
            hrest', by simp, ?_⟩
          rw [unescape_replicate, unescape_cons '\t' _ (by decide), List.count_append,
            List.count_replicate, List.count_cons_self, List.count_cons_self, ← hcount]
          simp only [beq_iff_eq, Char.reduceEq, if_false]
          omega
      | char hreturn htab hrest =>
          obtain ⟨inner', rest', rfl, hinner', hrest', hsame, hcount⟩ := ih hrest
          refine ⟨c :: inner', rest', rfl, .char hclose hfeed hescape hinner', hrest', fun hno => ?_, ?_⟩
          · rw [hsame fun hmem => hno (List.mem_cons_of_mem _ hmem)]
          · rw [unescape_cons c _ hescape, unescape_cons c _ hescape, List.count_cons_of_ne htab,
              List.count_cons_of_ne htab, List.count_cons_of_ne htab, hcount]
  | @escape d inner hfeed hinner ih =>
      obtain ⟨cs', rfl, hafter⟩ := h.of_cons (by decide) (by decide)
      change Respaced (d :: (inner ++ quote :: rest)) cs' at hafter
      generalize hmore : inner ++ quote :: rest = more at hafter ih
      have hescaped : ∀ c more, unescape ('\\' :: c :: more) = escapedChar c ++ unescape more :=
        fun _ _ => rfl
      cases hafter with
      | crlf => exact absurd hmore (hhead hinner)
      | tab n hrest =>
          obtain ⟨inner', rest', rfl, hinner', hrest', -, hcount⟩ := ih hrest
          refine ⟨'\\' :: ' ' :: (List.replicate n ' ' ++ inner'), rest',
            by simp [List.replicate_succ], .escape (by decide) (hinner'.replicate hplain.2.2.1 n),
            hrest', by simp, ?_⟩
          have hspace : (escapedChar ' ').count '\t' = 0 := by decide
          have htab : (escapedChar '\t').count '\t' = 1 := by decide
          rw [hescaped, hescaped, unescape_replicate, List.count_append, List.count_append,
            List.count_append, List.count_replicate, hspace, htab, List.count_cons_of_ne (by decide),
            List.count_cons_self, ← hcount]
          simp only [beq_iff_eq, Char.reduceEq, if_false]
          omega
      | char hreturn htab hrest =>
          obtain ⟨inner', rest', rfl, hinner', hrest', hsame, hcount⟩ := ih hrest
          refine ⟨'\\' :: d :: inner', rest', rfl, .escape hfeed hinner', hrest', fun hno => ?_, ?_⟩
          · simp only [List.mem_cons, not_or] at hno
            rw [hsame hno.2.2]
          · rw [hescaped, hescaped, List.count_append, List.count_append,
              List.count_cons_of_ne (by decide), List.count_cons_of_ne htab, ← hcount]
            omega

end Rubric.Script
