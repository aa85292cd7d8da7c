import Rubric.Proofs.Script.Pieces
import Rubric.Script.Lint

/-!
# The code of a line

A line is code and perhaps a comment, which starts at a number sign outside strings.  A text is
looked at from somewhere on a line: what it adds to that line, and how much of this is code.

* `openCode` : the code that a text adds to the line it goes on with;
* `Solid` : characters that stay together on the code of a line;
* `Reads.solid` : the characters of a token do.
-/

namespace Rubric.Script

open Rubric.Text

/-! ## Lines -/

/-- What a text adds to the line it goes on with. -/
def openLine (cs : List Char) : List Char := cs.takeWhile (· != '\n')

/-- A line feed starts a line. -/
theorem lines_newline (cs : List Char) : lines ('\n' :: cs) = [] :: lines cs := rfl

/-- A character other than a line feed goes on with its line. -/
theorem lines_cons {c : Char} (hc : c ≠ '\n') (cs : List Char) :
    lines (c :: cs) = (c :: (lines cs).headD []) :: (lines cs).tail := by
  unfold lines
  rw [splitOn, if_neg hc]
  cases hparts : splitOn '\n' cs with
  | nil => exact absurd hparts (splitOn_ne_nil '\n' cs)
  | cons part parts => rfl

/-- The first line of a text is what the text goes on with. -/
theorem lines_eq (cs : List Char) : lines cs = openLine cs :: (lines cs).tail := by
  induction cs with
  | nil => rfl
  | cons c cs ih =>
      by_cases hc : c = '\n'
      · subst hc
        rfl
      · have hopen : openLine (c :: cs) = c :: openLine cs := by
          simp [openLine, hc]
        rw [lines_cons hc, ih, hopen]
        rfl

/-- Characters of a line do not change the lines after it. -/
theorem tail_lines_append {t : List Char} (ht : '\n' ∉ t) (cs : List Char) :
    (lines (t ++ cs)).tail = (lines cs).tail := by
  induction t with
  | nil => rfl
  | cons c t ih =>
      rw [List.mem_cons, not_or] at ht
      rw [List.cons_append, lines_cons (Ne.symm ht.1), List.tail_cons]
      exact ih ht.2

/-- A text that starts with a line feed, if with anything, adds nothing to the line before it. -/
theorem openLine_of_head {cs : List Char} (h : ∀ c ∈ cs.head?, c = '\n') : openLine cs = [] := by
  cases cs with
  | nil => rfl
  | cons c cs =>
      obtain rfl := h c rfl
      rfl

/-- Characters of a line are followed by what the text after them goes on with. -/
theorem openLine_append {t : List Char} (ht : '\n' ∉ t) (cs : List Char) :
    openLine (t ++ cs) = t ++ openLine cs := by
  unfold openLine
  rw [List.takeWhile_append_of_pos]
  intro c hc
  have hne : c ≠ '\n' := by
    rintro rfl
    exact ht hc
  simpa using hne

/-! ## The code of a line -/

/-- The code that a text adds to the line it goes on with, trailing blanks left out. -/
def openCode (cs : List Char) : List Char := trimRight (splitComment (openLine cs)).1

/-- Trailing blanks of two texts are those of the second, unless it has nothing else. -/
theorem trimRight_append (first second : List Char) :
    trimRight (first ++ second) =
      if trimRight second = [] then trimRight first else first ++ trimRight second := by
  unfold trimRight dropTrailing
  rw [List.reverse_append, List.dropWhile_append]
  by_cases h : second.reverse.dropWhile isBlank = []
  · simp [h]
  · simp [h]

/-- A text without a trailing blank is kept. -/
theorem trimRight_eq_self {cs : List Char} (h : ∀ c ∈ cs.getLast?, isBlank c = false) :
    trimRight cs = cs := by
  unfold trimRight dropTrailing
  rw [List.reverse_eq_iff]
  cases hcs : cs.reverse with
  | nil => rfl
  | cons c rest =>
      have hc : isBlank c = false := h c (by rw [← List.head?_reverse, hcs]; rfl)
      rw [List.dropWhile_cons_of_neg (by simp [hc])]

/-- What trimming leaves is the start of a text. -/
theorem trimRight_isPrefix (cs : List Char) : trimRight cs <+: cs :=
  ⟨trailingBlanks cs, trimRight_append_trailingBlanks cs⟩

/-- The code of a line is its start. -/
theorem openCode_isPrefix (cs : List Char) : openCode cs <+: cs := by
  have hcode : (splitComment (openLine cs)).1 <+: openLine cs := ⟨_, splitComment_append _⟩
  exact ((trimRight_isPrefix _).trans hcode).trans (List.takeWhile_prefix _)

/-- Characters that stay together: they stand on one line, with no blank at either end, and no
comment starts inside them. -/
structure Solid (t : List Char) : Prop where
  ne_nil : t ≠ []
  newline_notMem : '\n' ∉ t
  head : ∀ c ∈ t.head?, isBlank c = false
  last : ∀ c ∈ t.getLast?, isBlank c = false
  code : ∀ line, (splitComment (t ++ line)).1 = t ++ (splitComment line).1

/-- Characters that stay together are code. -/
theorem Solid.openCode_append {t : List Char} (h : Solid t) (cs : List Char) :
    openCode (t ++ cs) = t ++ openCode cs := by
  unfold openCode
  rw [openLine_append h.newline_notMem, h.code, trimRight_append, trimRight_eq_self h.last]
  split
  · rename_i hnil
    rw [hnil, List.append_nil]
  · rfl

/-- Whether a character starts neither a string nor a comment. -/
def IsCode (c : Char) : Prop := c ≠ '"' ∧ c ≠ '\'' ∧ c ≠ '#'

instance (c : Char) : Decidable (IsCode c) := inferInstanceAs (Decidable (_ ∧ _))

/-- No string starts with a character of code. -/
theorem IsCode.literalLength?_eq_none {c : Char} (h : IsCode c) (rest : List Char) :
    literalLength? (c :: rest) = none := by
  simp [literalLength?, h.1, h.2.1]

/-- The code of a line goes on after a character of code. -/
theorem IsCode.splitComment_cons {c : Char} (h : IsCode c) (line : List Char) :
    (splitComment (c :: line)).1 = c :: (splitComment line).1 := by
  rw [splitComment, h.literalLength?_eq_none]
  simp [h.2.2]

/-- Whether a character of code is no blank. -/
def IsPlain (c : Char) : Prop := isBlank c = false ∧ IsCode c

instance (c : Char) : Decidable (IsPlain c) := inferInstanceAs (Decidable (_ ∧ _))

/-- Plain characters stay together. -/
theorem solid_of_isPlain {t : List Char} (hne : t ≠ []) (ht : ∀ c ∈ t, IsPlain c) : Solid t where
  ne_nil := hne
  newline_notMem hmem := absurd (ht '\n' hmem).1 (by decide)
  head c hc := (ht c (List.mem_of_mem_head? hc)).1
  last c hc := (ht c (List.mem_of_getLast? hc)).1
  code line := by
    clear hne
    induction t with
    | nil => rfl
    | cons c t ih =>
        rw [List.cons_append, (ht c List.mem_cons_self).2.splitComment_cons,
          ih fun d hd => ht d (List.mem_cons_of_mem c hd), List.cons_append]

/-! ## Plain characters -/

/-- The code points of letters, digits and underscores. -/
theorem toNat_of_isIdentRest {c : Char} (h : isIdentRest c = true) :
    (48 ≤ c.toNat ∧ c.toNat ≤ 57) ∨ (65 ≤ c.toNat ∧ c.toNat ≤ 90) ∨ c.toNat = 95 ∨
      (97 ≤ c.toNat ∧ c.toNat ≤ 122) := by
  simp only [isIdentRest, Char.isAlphanum, Bool.or_eq_true] at h
  rcases h with (hletter | hdigit) | hunderscore
  · exact .inr (toNat_of_isIdentStart (by simp [isIdentStart, hletter]))
  · exact .inl (Char.isDigit_iff_toNat.mp hdigit)
  · exact .inr (toNat_of_isIdentStart (by simp [isIdentStart, hunderscore]))

/-- Letters, digits and underscores are plain. -/
theorem isPlain_of_isIdentRest {c : Char} (h : isIdentRest c = true) : IsPlain c := by
  have hrange := toNat_of_isIdentRest h
  refine ⟨?_, ?_, ?_, ?_⟩
  · rw [Bool.eq_false_iff]
    intro hblank
    simp only [isBlank, inRanges, List.any_cons, List.any_nil, Bool.or_false, Bool.or_eq_true,
      Bool.and_eq_true, decide_eq_true_eq] at hblank
    omega
  all_goals
    rintro rfl
    exact absurd h (by decide)

/-- Decimal digits of any script are plain. -/
theorem isPlain_of_isDecimal {c : Char} (h : isDecimal c = true) : IsPlain c := by
  unfold isDecimal digitValue? at h
  split at h
  · rename_i hdigit
    exact isPlain_of_isIdentRest (by simp [isIdentRest, Char.isAlphanum, hdigit])
  · obtain ⟨value, hvalue⟩ := Option.isSome_iff_exists.mp h
    obtain ⟨first, hfind, -⟩ := Option.map_eq_some_iff.mp hvalue
    have hrange := List.find?_some hfind
    simp only [Bool.and_eq_true, decide_eq_true_eq] at hrange
    have hclear : ∀ first ∈ digitZeros, ∀ offset < 10,
        isBlank (Char.ofNat (first + offset)) = false ∧ 128 ≤ first := by decide +kernel
    obtain ⟨hblank, hbound⟩ := hclear first (List.mem_of_find?_eq_some hfind) (c.toNat - first)
      (by omega)
    rw [Nat.add_sub_cancel' hrange.1, Char.ofNat_toNat] at hblank
    refine ⟨hblank, ?_, ?_, ?_⟩
    all_goals
      rintro rfl
      exact absurd (Nat.le_trans hbound hrange.1) (by decide)

/-- The characters of signs are plain, and no letters. -/
theorem Sign.isPlain_of_mem (s : Sign) :
    ∀ c ∈ s.chars, IsPlain c ∧ isIdentStart c = false := by
  have hall : (s.chars.all fun c => decide (IsPlain c) && !isIdentStart c) = true := by
    cases s <;> decide
  intro c hc
  simpa using List.all_eq_true.mp hall c hc

/-! ## Strings -/

/-- The characters of a string have no line feed, end with its quote and make up a string of their
own. -/
theorem stringLength?_take {quote : Char} (hquote : quote = '"' ∨ quote = '\'') {cs : List Char} {n : Nat}
    (h : stringLength? quote cs = some n) :
    '\n' ∉ cs.take n ∧ (cs.take n).getLast? = some quote ∧
      ∀ rest, stringLength? quote (cs.take n ++ rest) = some n := by
  obtain ⟨inner, rest, rfl, hinner, rfl⟩ := (stringLength?_iff hquote).mp h
  have htake : (inner ++ quote :: rest).take (inner.length + 1) = inner ++ [quote] := by
    rw [List.take_length_add_append]
    rfl
  have hfeed : quote ≠ '\n' := by rcases hquote with rfl | rfl <;> decide
  rw [htake]
  refine ⟨?_, List.getLast?_concat, fun other => ?_⟩
  · rw [List.mem_append, List.mem_singleton, not_or]
    exact ⟨hinner.newline_notMem, Ne.symm hfeed⟩
  · exact (stringLength?_iff hquote).mpr ⟨inner, other, by simp, hinner, rfl⟩

/-- A string stands on one line, ends with its quote and has its length whatever follows it. -/
theorem literalLength?_append {quote : Char} {inner rest : List Char}
    (hquote : quote = '"' ∨ quote = '\'')
    (h : stringLength? quote (inner ++ rest) = some inner.length) :
    '\n' ∉ quote :: inner ∧ (quote :: inner).getLast? = some quote ∧
      ∀ other, literalLength? (quote :: (inner ++ other)) = some (inner.length + 1) := by
  have hline : quote ≠ '\n' := by rcases hquote with rfl | rfl <;> decide
  obtain ⟨hfeed, hlast, hlength⟩ := stringLength?_take hquote h
  rw [List.take_left] at hfeed hlast hlength
  have hne : inner ≠ [] := by
    rintro rfl
    simp at hlast
  refine ⟨?_, ?_, fun other => ?_⟩
  · rw [List.mem_cons, not_or]
    exact ⟨Ne.symm hline, hfeed⟩
  · rw [List.getLast?_cons_of_ne_nil hne, hlast]
  · rcases hquote with rfl | rfl <;> simp [literalLength?, hlength]

/-! ## The characters of a token -/

/-- The characters of a token stay together, those of a line end aside. -/
theorem Reads.solid {token : Token} {t rest : List Char} (h : Reads token t rest)
    (hnewline : token ≠ .newline) : Solid t := by
  have hrun : ∀ {word : List Char}, IsRun word → Solid word := by
    rintro word ⟨hword, c, more, rfl, -⟩
    exact solid_of_isPlain (by simp) fun d hd => isPlain_of_isIdentRest (hword d hd)
  cases h with
  | name hword => exact hrun hword
  | keyword => exact hrun (isRun_text _)
  | operator => exact hrun (isRun_text _)
  | var hword =>
      refine solid_of_isPlain (by simp) fun d hd => ?_
      rcases List.mem_cons.mp hd with rfl | hd
      · decide
      · exact isPlain_of_isIdentRest (hword.1 d hd)
  | number hne hdigits =>
      refine solid_of_isPlain hne fun d hd => ?_
      rcases hdigits d hd with hd | rfl
      · exact isPlain_of_isDecimal hd
      · decide
  | @str quote value inner _ hquote hlength =>
      have hblank : isBlank quote = false := by rcases hquote with rfl | rfl <;> decide
      obtain ⟨hfeed, hlast, hliteral⟩ := literalLength?_append hquote hlength
      refine ⟨List.cons_ne_nil _ _, hfeed, ?_, ?_, fun line => ?_⟩
      · rintro c ⟨⟩
        exact hblank
      · rw [hlast]
        rintro c ⟨⟩
        exact hblank
      -- what stands in a string is not looked at, so a number sign in it starts no comment
      · rw [List.cons_append, splitComment, hliteral line]
        simp
  | newline => exact absurd rfl hnewline
  | crlf => exact absurd rfl hnewline
  | @sign s =>
      refine solid_of_isPlain ?_ fun c hc => (s.isPlain_of_mem c hc).1
      cases s <;> exact List.cons_ne_nil _ _

/-! ## Blanks, comments and line ends -/

/-- A gap is a blank. -/
theorem IsGap.isBlank {c : Char} (h : IsGap c) : isBlank c = true := by
  rcases h with rfl | rfl <;> decide

/-- A gap starts neither a string nor a comment. -/
theorem IsGap.isCode {c : Char} (h : IsGap c) : IsCode c := by
  rcases h with rfl | rfl <;> decide

/-- A gap ends no line. -/
theorem IsGap.newline_notMem {c : Char} (h : IsGap c) : '\n' ∉ [c] := by
  rcases h with rfl | rfl <;> decide

/-- Code after a gap stands there, unless there is none. -/
theorem openCode_cons {c : Char} (hc : IsGap c) (cs : List Char) :
    openCode (c :: cs) = if openCode cs = [] then [] else c :: openCode cs := by
  have hblank : trimRight [c] = [] := by rcases hc with rfl | rfl <;> rfl
  have happend := trimRight_append [c] (splitComment (openLine cs)).1
  rw [hblank] at happend
  unfold openCode
  rw [← List.singleton_append, openLine_append hc.newline_notMem, List.singleton_append,
    hc.isCode.splitComment_cons]
  exact happend

/-- Whether a text goes on with a line that has no code. -/
def HasNoCode (cs : List Char) : Prop := ∀ c ∈ (splitComment (openLine cs)).1, isBlank c = true

/-- An empty text has no code. -/
theorem hasNoCode_nil : HasNoCode [] := by
  simp [HasNoCode, openLine, splitComment]

/-- A comment is no code. -/
theorem hasNoCode_comment (cs : List Char) : HasNoCode ('#' :: cs) := by
  have hline : openLine ('#' :: cs) = '#' :: openLine cs := rfl
  unfold HasNoCode
  rw [hline, splitComment]
  simp [literalLength?]

/-- A line feed is no code. -/
theorem hasNoCode_newline (cs : List Char) : HasNoCode ('\n' :: cs) := by
  have hline : openLine ('\n' :: cs) = [] := rfl
  unfold HasNoCode
  rw [hline, splitComment]
  simp

/-- A carriage return before a line feed is no code. -/
theorem hasNoCode_crlf (cs : List Char) : HasNoCode ('\r' :: '\n' :: cs) := by
  have hline : openLine ('\r' :: '\n' :: cs) = ['\r'] := rfl
  have hcode : IsCode '\r' := by decide
  unfold HasNoCode
  rw [hline, hcode.splitComment_cons, splitComment]
  simp only [List.mem_singleton, forall_eq]
  decide

/-- A line without code adds none. -/
theorem HasNoCode.openCode_eq_nil {cs : List Char} (h : HasNoCode cs) : openCode cs = [] := by
  have hblank : (splitComment (openLine cs)).1.reverse.dropWhile isBlank = [] :=
    List.dropWhile_eq_nil_iff.mpr fun c hc => h c (List.mem_reverse.mp hc)
  rw [openCode, trimRight, dropTrailing, hblank, List.reverse_nil]

end Rubric.Script
