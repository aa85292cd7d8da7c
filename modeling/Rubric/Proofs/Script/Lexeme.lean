import Mathlib.Data.List.TakeWhile
import Rubric.Proofs.Script.Scan

/-!
# What a token is written with

A token that is read at the start of a text splits it in two.  What the first part looks like, and
what cannot follow it, is said once for each kind of token.

* `Reads` : a token, the characters it is written with, and the text after them;
* `reads_of_readToken` : whatever is read at a place of a script is one of these;
* `accepts_of_readToken` : it can stand there;
* `exists_append_of_readToken` : it is the first part of the text.
-/

namespace Rubric.Script

open Rubric.Text

/-! ## Words -/

/-- Whether a text is a word: a letter, and letters and digits after it. -/
def IsRun (word : List Char) : Prop :=
  (∀ c ∈ word, isIdentRest c = true) ∧ ∃ c rest, word = c :: rest ∧ isIdentStart c = true

/-- Reserved words are words. -/
theorem isRun_text (k : Keyword) : IsRun k.text.toList := by
  obtain ⟨c, rest, htext, hc, -⟩ := isIdentifier_iff.mp (isIdentifier_text k)
  exact ⟨isIdentRest_of_mem (isIdentifier_text k), c, rest, htext, hc⟩

/-- A text starts with a longest run of characters of a class. -/
theorem exists_run (p : Char → Bool) (cs : List Char) :
    ∃ run rest, cs = run ++ rest ∧ (∀ c ∈ run, p c = true) ∧ ∀ c ∈ rest.head?, p c = false := by
  refine ⟨cs.takeWhile p, cs.dropWhile p, List.takeWhile_append_dropWhile.symm,
    fun c hc => List.mem_takeWhile_imp hc, fun c hc => ?_⟩
  have hhead := List.head?_dropWhile_not p cs
  rw [Option.mem_def.mp hc] at hhead
  simpa using hhead

/-- The word at the start of a text, and the text after it. -/
theorem exists_word {c : Char} (cs : List Char) (hc : isIdentStart c = true) :
    ∃ word rest, c :: cs = word ++ rest ∧ IsRun word ∧ ∀ d ∈ rest.head?, isIdentRest d = false := by
  obtain ⟨word, rest, hsplit, hword, hrest⟩ := exists_run isIdentRest (c :: cs)
  refine ⟨word, rest, hsplit, ⟨hword, ?_⟩, hrest⟩
  cases word with
  | nil =>
      rw [List.nil_append] at hsplit
      have hnot := hrest c (by rw [← hsplit]; rfl)
      rw [isIdentRest_of_isIdentStart c hc] at hnot
      exact absurd hnot (by decide)
  | cons d word =>
      rw [List.cons_append, List.cons.injEq] at hsplit
      exact ⟨d, word, rfl, by rw [← hsplit.1]; exact hc⟩

/-! ## Tokens -/

/-- A token, the characters it is written with, and the text after them. -/
inductive Reads : Token → List Char → List Char → Prop where
  | name {word rest : List Char} : IsRun word → (∀ c ∈ rest.head?, isIdentRest c = false) →
      Reads (.name (String.ofList word)) word rest
  | keyword {k : Keyword} {rest : List Char} : (∀ c ∈ rest.head?, isIdentRest c = false) →
      Reads (.keyword k) k.text.toList rest
  | operator {k : Keyword} {rest : List Char} : k = .or ∨ k = .and ∨ k = .mem →
      Reads (.keyword k) k.text.toList rest
  | var {word rest : List Char} : IsRun word → Reads (.var (String.ofList word)) ('$' :: word) rest
  | number {digits rest : List Char} : digits ≠ [] → (∀ c ∈ digits, isDecimal c = true ∨ c = '.') →
      Reads (.number digits) digits rest
  | str {quote : Char} {value : String} {inner rest : List Char} : quote = '"' ∨ quote = '\'' →
      stringLength? quote (inner ++ rest) = some inner.length →
      Reads (.str value) (quote :: inner) rest
  | newline {margin rest : List Char} : marginLength false (margin ++ rest) = margin.length →
      Reads .newline ('\n' :: margin) rest
  | crlf {margin rest : List Char} : marginLength false (margin ++ rest) = margin.length →
      Reads .newline ('\r' :: '\n' :: margin) rest
  | sign {s : Sign} {rest : List Char} : Reads (.sign s) s.chars rest

/-- A token is written with at least one character. -/
theorem Reads.ne_nil {token : Token} {t rest : List Char} (h : Reads token t rest) : t ≠ [] := by
  have hrun : ∀ {word : List Char}, IsRun word → word ≠ [] := by
    rintro word ⟨-, c, more, rfl, -⟩
    exact List.cons_ne_nil c more
  cases h with
  | name hword => exact hrun hword
  | keyword => exact hrun (isRun_text _)
  | operator => exact hrun (isRun_text _)
  | number hne => exact hne
  | @sign s => cases s <;> exact List.cons_ne_nil _ _
  | _ => exact List.cons_ne_nil _ _

/-- What is read as a word is a name, a reserved word or the start of a word that is an operator. -/
theorem reads_of_readWord {phase : Phase} {c : Char} {cs : List Char} {token : Token} {n : Nat}
    (hc : isIdentStart c = true) (h : readWord phase.accepts (c :: cs) = some (token, n)) :
    Reads token ((c :: cs).take n) ((c :: cs).drop n) := by
  unfold readWord at h
  by_cases hname : phase.accepts .name = true
  · -- where a name can stand the whole word is read
    obtain ⟨word, rest, hsplit, hword, hrest⟩ := exists_word cs hc
    rw [if_pos hname, hsplit, takeWhile_append_stop hword.1 hrest] at h
    rw [hsplit]
    cases hk : Keyword.ofText? (String.ofList word) with
    | none =>
        simp only [hk, Option.some.injEq, Prod.mk.injEq] at h
        obtain ⟨rfl, rfl⟩ := h
        rw [List.take_left, List.drop_left]
        exact .name hword hrest
    | some k =>
        simp only [hk, Option.some.injEq, Prod.mk.injEq] at h
        obtain ⟨rfl, rfl⟩ := h
        rw [List.take_left, List.drop_left]
        by_cases haccepts : phase.accepts (.keyword k) = true
        · have htext : k.text.toList = word := by rw [text_of_ofText? hk, String.toList_ofList]
          rw [if_pos haccepts, ← htext]
          exact .keyword hrest
        · rw [if_neg haccepts]
          exact .name hword hrest
  · -- elsewhere an operator is read, even at the start of a longer word
    rw [if_neg hname] at h
    obtain ⟨k, hfind, hk⟩ := Option.map_eq_some_iff.mp h
    simp only [Prod.mk.injEq] at hk
    obtain ⟨rfl, rfl⟩ := hk
    have hfound := List.find?_some hfind
    simp only [Bool.and_eq_true, List.isPrefixOf_iff_prefix] at hfound
    obtain ⟨haccepts, rest, hrest⟩ := hfound
    rw [← hrest, ← String.length_toList, List.take_left, List.drop_left]
    exact .operator (operator_of_accepts (by simpa using hname) haccepts)

/-- What is read as a variable is a dollar sign and a word. -/
theorem reads_of_readVar {cs : List Char} {token : Token} {n : Nat}
    (h : readVar cs = some (token, n)) :
    Reads token (('$' :: cs).take n) (('$' :: cs).drop n) := by
  unfold readVar at h
  split at h
  · rename_i c more
    split at h
    · rename_i hc
      obtain ⟨word, rest, hsplit, hword, hrest⟩ := exists_word more hc
      rw [hsplit, takeWhile_append_stop hword.1 hrest] at h
      simp only [Option.some.injEq, Prod.mk.injEq] at h
      obtain ⟨rfl, rfl⟩ := h
      rw [hsplit, List.take_succ_cons, List.drop_succ_cons, List.take_left, List.drop_left]
      exact .var hword
    · simp at h
  · simp at h

/-- What is read as a number is digits, perhaps with a full stop and digits after it. -/
theorem reads_number {c : Char} {cs : List Char} (hc : isDecimal c = true) :
    Reads (.number ((c :: cs).take (numberLength (c :: cs))))
      ((c :: cs).take (numberLength (c :: cs))) ((c :: cs).drop (numberLength (c :: cs))) := by
  obtain ⟨digits, rest, hsplit, hdigits, hrest⟩ := exists_run isDecimal (c :: cs)
  have hne : digits ≠ [] := by
    rintro rfl
    rw [List.nil_append] at hsplit
    have hnot := hrest c (by rw [← hsplit]; rfl)
    rw [hc] at hnot
    exact absurd hnot (by decide)
  have hwhole : Reads (.number digits) digits rest := .number hne fun d hd => .inl (hdigits d hd)
  rw [hsplit]
  unfold numberLength
  simp only [takeWhile_append_stop hdigits hrest, List.drop_left]
  split
  · rename_i more
    obtain ⟨places, after, rfl, hplaces, hafter⟩ := exists_run isDecimal more
    rw [takeWhile_append_stop hplaces hafter]
    -- the full stop belongs to the number only where a digit follows
    split
    · rw [List.take_left, List.drop_left]
      exact hwhole
    · rename_i hcount
      have hlength : digits.length + 1 + places.length = (digits ++ '.' :: places).length := by
        rw [List.length_append, List.length_cons]
        omega
      have hassoc : digits ++ '.' :: (places ++ after) = digits ++ '.' :: places ++ after := by
        simp
      rw [hlength, hassoc, List.take_left, List.drop_left]
      refine .number (by simp) fun d hd => ?_
      rcases List.mem_append.mp hd with hd | hd
      · exact .inl (hdigits d hd)
      · rcases List.mem_cons.mp hd with rfl | hd
        · exact .inr rfl
        · exact .inl (hplaces d hd)
  · rw [List.take_left, List.drop_left]
    exact hwhole

/-! ## Strings, line ends and signs -/

/-- The characters between quotes: none is the quote or a line feed, unless a backslash stands
before it, and a backslash takes the character after it along. -/
inductive Quoted (quote : Char) : List Char → Prop where
  | nil : Quoted quote []
  | char {c : Char} {inner : List Char} : c ≠ quote → c ≠ '\n' → c ≠ '\\' → Quoted quote inner →
      Quoted quote (c :: inner)
  | escape {d : Char} {inner : List Char} : d ≠ '\n' → Quoted quote inner →
      Quoted quote ('\\' :: d :: inner)

/-- A string goes up to the first quote that is not escaped. -/
theorem stringLength?_iff {quote : Char} (hquote : quote = '"' ∨ quote = '\'') {cs : List Char} {n : Nat} :
    stringLength? quote cs = some n ↔
      ∃ inner rest, cs = inner ++ quote :: rest ∧ Quoted quote inner ∧ n = inner.length + 1 := by
  have hbackslash : quote ≠ '\\' := by rcases hquote with rfl | rfl <;> decide
  constructor
  · intro h
    fun_induction stringLength? quote cs generalizing n with
    | case1 => cases h
    | case2 rest => exact ⟨[], rest, rfl, .nil, (Option.some.inj h).symm⟩
    | case3 | case4 | case5 => cases h
    | case6 d more hfeed _ _ ih =>
        obtain ⟨m, hm, rfl⟩ := Option.map_eq_some_iff.mp h
        obtain ⟨inner, rest, rfl, hinner, rfl⟩ := ih hm
        exact ⟨'\\' :: d :: inner, rest, rfl, .escape hfeed hinner, rfl⟩
    | case7 c rest hclose hfeed hescape ih =>
        obtain ⟨m, hm, rfl⟩ := Option.map_eq_some_iff.mp h
        obtain ⟨inner, rest, rfl, hinner, rfl⟩ := ih hm
        exact ⟨c :: inner, rest, rfl, .char hclose hfeed hescape hinner, rfl⟩
  · rintro ⟨inner, rest, rfl, hinner, rfl⟩
    induction hinner with
    | nil =>
        rw [List.nil_append, stringLength?.eq_def]
        simp
    | char hclose hfeed hescape _ ih =>
        rw [List.cons_append, stringLength?.eq_def]
        simp [hclose, hfeed, hescape, ih]
    | escape hfeed _ ih =>
        rw [List.cons_append, List.cons_append, stringLength?.eq_def]
        simp [hfeed, hbackslash.symm, ih]

/-- A string is on one line. -/
theorem Quoted.newline_notMem {quote : Char} {inner : List Char} (h : Quoted quote inner) :
    '\n' ∉ inner := by
  induction h with
  | nil => simp
  | char _ hfeed _ _ ih => simp [Ne.symm hfeed, ih]
  | escape hfeed _ ih => simp [Ne.symm hfeed, ih]

/-- A string ends in the text it starts in. -/
theorem stringLength?_le {quote : Char} (hquote : quote = '"' ∨ quote = '\'') {cs : List Char} {n : Nat}
    (h : stringLength? quote cs = some n) : n ≤ cs.length := by
  obtain ⟨inner, rest, rfl, -, rfl⟩ := (stringLength?_iff hquote).mp h
  simp

/-- What is read as a string is a quote and the characters up to the next one. -/
theorem reads_of_readString {quote : Char} {cs : List Char} {token : Token} {n : Nat}
    (hquote : quote = '"' ∨ quote = '\'') (h : readString quote cs = some (token, n)) :
    Reads token ((quote :: cs).take n) ((quote :: cs).drop n) := by
  obtain ⟨m, hm, hread⟩ := Option.map_eq_some_iff.mp h
  simp only [Prod.mk.injEq] at hread
  obtain ⟨rfl, rfl⟩ := hread
  have hlength : (cs.take m).length = m := List.length_take_of_le (stringLength?_le hquote hm)
  rw [List.take_succ_cons, List.drop_succ_cons]
  refine .str hquote ?_
  rw [List.take_append_drop, hlength, hm]

/-- A line end takes along characters of the text after it. -/
theorem marginLength_le (comment : Bool) (cs : List Char) :
    marginLength comment cs ≤ cs.length := by
  fun_induction marginLength comment cs with
  | case1 => simp
  | case8 => simp
  | _ => simp only [List.length_cons]; omega

/-- What is read as a line end is one, with the blanks, comments and line ends after it. -/
theorem reads_of_readNewline {cs : List Char} {token : Token} {n : Nat}
    (h : readNewline cs = some (token, n)) : Reads token (cs.take n) (cs.drop n) := by
  have hmargin : ∀ rest : List Char,
      (rest.take (marginLength false rest)).length = marginLength false rest :=
    fun rest => List.length_take_of_le (marginLength_le false rest)
  unfold readNewline at h
  split at h
  · rename_i rest
    simp only [Option.some.injEq, Prod.mk.injEq] at h
    obtain ⟨rfl, rfl⟩ := h
    rw [List.take_succ_cons, List.drop_succ_cons]
    refine .newline ?_
    rw [List.take_append_drop, hmargin]
  · rename_i rest
    simp only [Option.some.injEq, Prod.mk.injEq] at h
    obtain ⟨rfl, rfl⟩ := h
    simp only [List.take_succ_cons, List.drop_succ_cons]
    refine .crlf ?_
    rw [List.take_append_drop, hmargin]
  · simp at h

/-- What is read as a sign is one. -/
theorem reads_of_readSign {accepts : TokenKind → Bool} {cs : List Char} {token : Token} {n : Nat}
    (h : readSign accepts cs = some (token, n)) : Reads token (cs.take n) (cs.drop n) := by
  obtain ⟨sign, hfind, hread⟩ := Option.map_eq_some_iff.mp h
  simp only [Prod.mk.injEq] at hread
  obtain ⟨rfl, rfl⟩ := hread
  have hfound := List.find?_some hfind
  simp only [Bool.and_eq_true, List.isPrefixOf_iff_prefix] at hfound
  obtain ⟨-, rest, rfl⟩ := hfound
  rw [List.take_left, List.drop_left]
  exact .sign

/-! ## Tokens at a place -/

/-- What is read at a place of a script is a token with its characters. -/
theorem reads_of_readToken {phase : Phase} {cs : List Char} {token : Token} {n : Nat}
    (h : readToken phase.accepts cs = some (token, n)) :
    Reads token (cs.take n) (cs.drop n) := by
  cases cs with
  | nil => simp [readToken] at h
  | cons c rest =>
      simp only [readToken] at h
      split_ifs at h with hstart hdollar hdecimal hquote hline
      · exact reads_of_readWord hstart h
      · obtain ⟨hread, -⟩ := Option.filter_eq_some_iff.mp h
        rw [hdollar]
        exact reads_of_readVar hread
      · obtain ⟨hread, -⟩ := Option.filter_eq_some_iff.mp h
        simp only [Option.some.injEq, Prod.mk.injEq] at hread
        obtain ⟨rfl, rfl⟩ := hread
        exact reads_number hdecimal
      · obtain ⟨hread, -⟩ := Option.filter_eq_some_iff.mp h
        exact reads_of_readString (by simpa using hquote) hread
      · obtain ⟨hread, -⟩ := Option.filter_eq_some_iff.mp h
        exact reads_of_readNewline hread
      · exact reads_of_readSign h

/-- What is read as the first part of a text is a token with these characters. -/
theorem Reads.of_readToken {phase : Phase} {t rest : List Char} {token : Token}
    (h : readToken phase.accepts (t ++ rest) = some (token, t.length)) : Reads token t rest := by
  have hreads := reads_of_readToken h
  rwa [List.take_left, List.drop_left] at hreads

/-- A word that is read at a place can stand there. -/
theorem accepts_of_readWord {accepts : TokenKind → Bool} {cs : List Char} {token : Token} {n : Nat}
    (h : readWord accepts cs = some (token, n)) : accepts token.kind = true := by
  unfold readWord at h
  by_cases hname : accepts .name = true
  · rw [if_pos hname] at h
    cases hword : Keyword.ofText? (String.ofList (cs.takeWhile isIdentRest)) with
    | none =>
        simp only [hword, Option.some.injEq, Prod.mk.injEq] at h
        obtain ⟨rfl, rfl⟩ := h
        exact hname
    | some k =>
        simp only [hword, Option.some.injEq, Prod.mk.injEq] at h
        obtain ⟨rfl, rfl⟩ := h
        by_cases hk : accepts (.keyword k) = true
        · rw [if_pos hk]
          exact hk
        · rw [if_neg hk]
          exact hname
  · rw [if_neg hname] at h
    obtain ⟨k, hfind, hk⟩ := Option.map_eq_some_iff.mp h
    simp only [Prod.mk.injEq] at hk
    obtain ⟨rfl, rfl⟩ := hk
    have hfound := List.find?_some hfind
    simp only [Bool.and_eq_true] at hfound
    exact hfound.1

/-- A sign that is read at a place can stand there. -/
theorem accepts_of_readSign {accepts : TokenKind → Bool} {cs : List Char} {token : Token} {n : Nat}
    (h : readSign accepts cs = some (token, n)) : accepts token.kind = true := by
  obtain ⟨sign, hfind, hread⟩ := Option.map_eq_some_iff.mp h
  simp only [Prod.mk.injEq] at hread
  obtain ⟨rfl, rfl⟩ := hread
  have hfound := List.find?_some hfind
  simp only [Bool.and_eq_true] at hfound
  exact hfound.1

/-- What is read at a place can stand there. -/
theorem accepts_of_readToken {accepts : TokenKind → Bool} {cs : List Char} {token : Token} {n : Nat}
    (h : readToken accepts cs = some (token, n)) : accepts token.kind = true := by
  cases cs with
  | nil => simp [readToken] at h
  | cons c rest =>
      simp only [readToken] at h
      split_ifs at h
      · exact accepts_of_readWord h
      · exact (Option.filter_eq_some_iff.mp h).2
      · exact (Option.filter_eq_some_iff.mp h).2
      · exact (Option.filter_eq_some_iff.mp h).2
      · exact (Option.filter_eq_some_iff.mp h).2
      · exact accepts_of_readSign h

/-! ## How much is read -/

/-- Blanks and comments are no tokens. -/
theorem skipLength_of_readToken {accepts : TokenKind → Bool} {cs : List Char} {found : Token × Nat}
    (h : readToken accepts cs = some found) : skipLength cs = 0 := by
  cases cs with
  | nil => cases h
  | cons c rest =>
      have hnone : ∀ d : Char, d = ' ' ∨ d = '\t' ∨ d = '#' → readToken accepts (d :: rest) = none := by
        intro d hd
        have hall : ∀ s : Sign, s.chars.isPrefixOf (d :: rest) = false := by
          intro s
          rcases hd with rfl | rfl | rfl <;> cases s <;> rfl
        have hsign : readToken accepts (d :: rest) = readSign accepts (d :: rest) := by
          rcases hd with rfl | rfl | rfl <;> rfl
        rw [hsign]
        simp [readSign, hall]
      have hc : ¬(c = ' ' ∨ c = '\t' ∨ c = '#') := by
        intro hc
        rw [hnone c hc] at h
        cases h
      simp only [not_or] at hc
      simp [skipLength, hc]

/-- A number is part of the text. -/
theorem numberLength_le (cs : List Char) : numberLength cs ≤ cs.length := by
  have hwhole : (cs.takeWhile isDecimal).length ≤ cs.length :=
    (List.takeWhile_prefix isDecimal).length_le
  simp only [numberLength]
  split
  · rename_i rest hdrop
    have hlength := congrArg List.length hdrop
    rw [List.length_drop, List.length_cons] at hlength
    have hplaces : (rest.takeWhile isDecimal).length ≤ rest.length :=
      (List.takeWhile_prefix isDecimal).length_le
    split <;> omega
  · exact hwhole

/-- A word is part of the text. -/
theorem length_le_of_readWord {accepts : TokenKind → Bool} {cs : List Char} {token : Token} {n : Nat}
    (h : readWord accepts cs = some (token, n)) : n ≤ cs.length := by
  have hrun : (cs.takeWhile isIdentRest).length ≤ cs.length :=
    (List.takeWhile_prefix isIdentRest).length_le
  unfold readWord at h
  by_cases hname : accepts .name = true
  · rw [if_pos hname] at h
    cases hk : Keyword.ofText? (String.ofList (cs.takeWhile isIdentRest)) <;>
      simp only [hk, Option.some.injEq, Prod.mk.injEq] at h <;> omega
  · rw [if_neg hname] at h
    obtain ⟨k, hfind, hk⟩ := Option.map_eq_some_iff.mp h
    have hfound := List.find?_some hfind
    obtain ⟨-, hstart⟩ := Bool.and_eq_true_iff.mp hfound
    obtain ⟨-, rfl⟩ := Prod.mk.inj hk
    rw [← String.length_toList]
    exact (List.isPrefixOf_iff_prefix.mp hstart).length_le

/-- A variable is part of the text. -/
theorem length_le_of_readVar {c : Char} {cs : List Char} {token : Token} {n : Nat}
    (h : readVar cs = some (token, n)) : n ≤ (c :: cs).length := by
  unfold readVar at h
  split at h
  · rename_i d more
    split at h
    · obtain ⟨-, rfl⟩ := Prod.mk.inj (Option.some.inj h)
      have hrun : ((d :: more).takeWhile isIdentRest).length ≤ (d :: more).length :=
        (List.takeWhile_prefix isIdentRest).length_le
      rw [List.length_cons]
      omega
    · cases h
  · cases h

/-- A string is part of the text. -/
theorem length_le_of_readString {quote c : Char} (hquote : quote = '"' ∨ quote = '\'') {cs : List Char}
    {token : Token} {n : Nat} (h : readString quote cs = some (token, n)) : n ≤ (c :: cs).length := by
  obtain ⟨m, hm, hmore⟩ := Option.map_eq_some_iff.mp h
  obtain ⟨-, rfl⟩ := Prod.mk.inj hmore
  have hle := stringLength?_le hquote hm
  rw [List.length_cons]
  omega

/-- A line end is part of the text, with what it takes along. -/
theorem length_le_of_readNewline {cs : List Char} {token : Token} {n : Nat}
    (h : readNewline cs = some (token, n)) : n ≤ cs.length := by
  unfold readNewline at h
  split at h
  · rename_i rest
    obtain ⟨-, rfl⟩ := Prod.mk.inj (Option.some.inj h)
    have hle := marginLength_le false rest
    rw [List.length_cons]
    omega
  · rename_i rest
    obtain ⟨-, rfl⟩ := Prod.mk.inj (Option.some.inj h)
    have hle := marginLength_le false rest
    rw [List.length_cons, List.length_cons]
    omega
  · cases h

/-- A sign is part of the text. -/
theorem length_le_of_readSign {accepts : TokenKind → Bool} {cs : List Char} {token : Token} {n : Nat}
    (h : readSign accepts cs = some (token, n)) : n ≤ cs.length := by
  obtain ⟨sign, hfind, hsign⟩ := Option.map_eq_some_iff.mp h
  have hfound := List.find?_some hfind
  obtain ⟨-, hstart⟩ := Bool.and_eq_true_iff.mp hfound
  obtain ⟨-, rfl⟩ := Prod.mk.inj hsign
  exact (List.isPrefixOf_iff_prefix.mp hstart).length_le

/-- A token is part of the text. -/
theorem length_le_of_readToken {accepts : TokenKind → Bool} {cs : List Char} {token : Token} {n : Nat}
    (h : readToken accepts cs = some (token, n)) : n ≤ cs.length := by
  cases cs with
  | nil => cases h
  | cons c rest =>
      simp only [readToken] at h
      split_ifs at h with hstart hdollar hdecimal hquote hline
      · exact length_le_of_readWord h
      · exact length_le_of_readVar (Option.filter_eq_some_iff.mp h).1
      · obtain ⟨hread, -⟩ := Option.filter_eq_some_iff.mp h
        obtain ⟨-, rfl⟩ := Prod.mk.inj (Option.some.inj hread)
        exact numberLength_le _
      · exact length_le_of_readString (by simpa using hquote) (Option.filter_eq_some_iff.mp h).1
      · exact length_le_of_readNewline (Option.filter_eq_some_iff.mp h).1
      · exact length_le_of_readSign h

/-- What is read as a token is the first part of a text. -/
theorem exists_append_of_readToken {accepts : TokenKind → Bool} {cs : List Char} {token : Token} {n : Nat}
    (h : readToken accepts cs = some (token, n)) : ∃ t rest, cs = t ++ rest ∧ n = t.length :=
  ⟨cs.take n, cs.drop n, (List.take_append_drop n cs).symm,
    (List.length_take_of_le (length_le_of_readToken h)).symm⟩

end Rubric.Script
