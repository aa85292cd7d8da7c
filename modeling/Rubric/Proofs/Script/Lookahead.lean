import Rubric.Proofs.Script.PlainScript
import Rubric.Proofs.Script.Unambiguous

/-!
# How far reading looks ahead

What is read as a token depends on the text after it only as far as its first character, and the one
after that where the first is a full stop; what is read as a line end takes all blanks after it along.
So the tokens before a place of a text without comments are read again when the text after the place is
exchanged.

* `Resumes`, `Token.Keeps` : which text may take the place of another after a token;
* `Reaches` : reading gets to a place after some tokens, and would with another text after it;
* `reaches_of_tokensFrom` : it gets to every token, and to the fault or the end after all of them.
-/

namespace Rubric.Script

open Rubric.Text

/-! ## Texts after a token -/

/-- Whether a text may take the place of another after a token within a line: it is empty or starts
with a blank, or it starts with the same character, and so does what follows that where it is a full
stop. -/
def Resumes (rest rest' : List Char) : Prop :=
  StartsBlank rest' ∨ ∃ c more more', rest = c :: more ∧ rest' = c :: more' ∧
    (c = '.' → StartsBlank more' ∨ more'.head? = more.head?)

/-- The text after a text may be exchanged. -/
theorem Resumes.append {rest rest' : List Char} (h : Resumes rest rest') (t : List Char) :
    Resumes (t ++ rest) (t ++ rest') := by
  rcases t with _ | ⟨c, _ | ⟨d, t⟩⟩
  · exact h
  · refine .inr ⟨c, rest, rest', rfl, rfl, fun _ => ?_⟩
    rcases h with hblank | ⟨d, more, more', rfl, rfl, -⟩
    · exact .inl hblank
    · exact .inr rfl
  · exact .inr ⟨c, d :: t ++ rest, d :: t ++ rest', rfl, rfl, fun _ => .inr rfl⟩

/-- A class without blanks ends where it did. -/
theorem Resumes.head {p : Char → Bool} (hp : ∀ {c}, p c = true → ¬ IsSpacing c)
    {rest rest' : List Char} (h : Resumes rest rest') (hrest : ∀ c ∈ rest.head?, p c = false) :
    ∀ c ∈ rest'.head?, p c = false := by
  rcases h with hblank | ⟨d, more, more', rfl, rfl, -⟩
  · exact fun c hc => Bool.eq_false_iff.mpr fun hpc => hp hpc (hblank c hc)
  · exact hrest

/-- A text is the longest run of a class at its start if and only if all its characters are in the
class and the next one is not. -/
theorem length_takeWhile_append {p : Char → Bool} {t rest : List Char} :
    ((t ++ rest).takeWhile p).length = t.length ↔
      (∀ c ∈ t, p c = true) ∧ ∀ c ∈ rest.head?, p c = false := by
  constructor
  · intro h
    induction t with
    | nil =>
        refine ⟨by simp, fun c hc => ?_⟩
        cases rest with
        | nil => cases hc
        | cons d rest =>
            obtain rfl : d = c := by simpa using hc
            by_contra hp
            rw [Bool.not_eq_false] at hp
            simp [hp] at h
    | cons d t ih =>
        by_cases hd : p d = true
        · simp only [List.cons_append, List.takeWhile_cons, hd, if_true, List.length_cons,
            Nat.add_right_cancel_iff] at h
          obtain ⟨ht, hrest⟩ := ih h
          exact ⟨List.forall_mem_cons.mpr ⟨hd, ht⟩, hrest⟩
        · simp [hd] at h
  · rintro ⟨ht, hrest⟩
    rw [takeWhile_append_stop ht hrest]

/-! ## Numbers -/

/-- Whether a text that another follows is a number: its digits, without a full stop and a digit after
them, or its digits, a full stop and further digits. -/
def IsNumeral (t rest : List Char) : Prop :=
  ((∀ c ∈ t, isDecimal c = true) ∧ (∀ c ∈ rest.head?, isDecimal c = false) ∧
      ∀ more, rest = '.' :: more → ∀ c ∈ more.head?, isDecimal c = false) ∨
    ∃ digits places, t = digits ++ '.' :: places ∧ (∀ c ∈ digits, isDecimal c = true) ∧
      (∀ c ∈ places, isDecimal c = true) ∧ places ≠ [] ∧ ∀ c ∈ rest.head?, isDecimal c = false

/-- These are the texts that are read as numbers. -/
theorem numberLength_append_iff {t rest : List Char} :
    numberLength (t ++ rest) = t.length ↔ IsNumeral t rest := by
  constructor
  · intro h
    obtain ⟨digits, more, hsplit, hdigits, hmore⟩ := exists_run isDecimal (t ++ rest)
    have htake : ((t ++ rest).takeWhile isDecimal) = digits := by
      rw [hsplit]
      exact takeWhile_append_stop hdigits hmore
    have hdrop : (t ++ rest).drop digits.length = more := by rw [hsplit, List.drop_left]
    -- a number is its digits, unless digits follow a point after them
    have hwhole : digits.length = t.length → (∀ after, more = '.' :: after →
        ∀ c ∈ after.head?, isDecimal c = false) → IsNumeral t rest := by
      intro hlength hstop
      obtain ⟨rfl, rfl⟩ := List.append_inj hsplit hlength.symm
      exact .inl ⟨hdigits, hmore, hstop⟩
    unfold numberLength at h
    simp only [htake, hdrop] at h
    split at h
    · rename_i after
      obtain ⟨places, last, rfl, hplaces, hlast⟩ := exists_run isDecimal after
      rw [takeWhile_append_stop hplaces hlast] at h
      split at h
      · rename_i hnone
        refine hwhole h fun _ hafter => ?_
        obtain rfl := (List.cons.inj hafter).2
        rw [List.length_eq_zero_iff.mp hnone]
        exact hlast
      · rename_i hsome
        have hassoc : t ++ rest = (digits ++ '.' :: places) ++ last := by simpa using hsplit
        have hlength : t.length = (digits ++ '.' :: places).length := by
          rw [List.length_append, List.length_cons]
          omega
        obtain ⟨rfl, rfl⟩ := List.append_inj hassoc hlength
        exact .inr ⟨digits, places, rfl, hdigits, hplaces, fun hnil => hsome (by simp [hnil]), hlast⟩
    · rename_i hpoint
      exact hwhole h fun after hafter => absurd hafter (hpoint after)
  · rintro (⟨hdigits, hrest, hpoint⟩ | ⟨digits, places, rfl, hdigits, hplaces, hne, hrest⟩)
    · unfold numberLength
      simp only [takeWhile_append_stop hdigits hrest, List.drop_left]
      split
      · rename_i more
        have hplaces : more.takeWhile isDecimal = [] :=
          takeWhile_append_stop (List.forall_mem_nil _) (hpoint more rfl)
        simp [hplaces]
      · rfl
    · have hpoint : ∀ c ∈ ('.' :: (places ++ rest)).head?, isDecimal c = false := by
        simp only [List.head?_cons, Option.mem_some_iff, forall_eq']
        decide
      have hassoc : digits ++ '.' :: places ++ rest = digits ++ '.' :: (places ++ rest) := by simp
      unfold numberLength
      simp only [hassoc, takeWhile_append_stop hdigits hpoint, List.drop_left,
        takeWhile_append_stop hplaces hrest, List.length_eq_zero_iff, if_neg hne,
        List.length_append, List.length_cons]
      omega

/-- A number is one where another text follows it. -/
theorem IsNumeral.resumes {t rest rest' : List Char} (h : IsNumeral t rest)
    (hrest : Resumes rest rest') : IsNumeral t rest' := by
  have hhead := hrest.head not_isSpacing_of_isDecimal
  rcases h with ⟨hdigits, hnext, hpoint⟩ | ⟨digits, places, rfl, hdigits, hplaces, hne, hnext⟩
  · refine .inl ⟨hdigits, hhead hnext, ?_⟩
    rintro more' rfl c hc
    rcases hrest with hblank | ⟨d, more, more'', rfl, heq, hsecond⟩
    · exact absurd (hblank '.' rfl) (by decide)
    · obtain ⟨rfl, rfl⟩ := List.cons.inj heq
      rcases hsecond rfl with hblank | hsame
      · exact Bool.eq_false_iff.mpr fun hdecimal => not_isSpacing_of_isDecimal hdecimal (hblank c hc)
      · exact hpoint more rfl c (by rwa [← hsame])
  · exact .inr ⟨digits, places, rfl, hdigits, hplaces, hne, hhead hnext⟩

/-! ## Words and signs -/

/-- A word is read again. -/
theorem readWord_resumes {phase : Phase} {t rest rest' : List Char} {token : Token}
    (h : readWord phase.accepts (t ++ rest) = some (token, t.length)) (hrest : Resumes rest rest') :
    readWord phase.accepts (t ++ rest') = some (token, t.length) := by
  unfold readWord at h ⊢
  by_cases hname : phase.accepts .name = true
  · rw [if_pos hname] at h ⊢
    have hlength : ((t ++ rest).takeWhile isIdentRest).length = t.length := by
      cases hk : Keyword.ofText? (String.ofList ((t ++ rest).takeWhile isIdentRest)) <;>
        simp only [hk, Option.some.injEq, Prod.mk.injEq] at h <;> exact h.2
    obtain ⟨hword, hnext⟩ := length_takeWhile_append.mp hlength
    rw [takeWhile_append_stop hword hnext] at h
    rw [takeWhile_append_stop hword (hrest.head not_isSpacing_of_isIdentRest hnext)]
    exact h
  · rw [if_neg hname] at h ⊢
    obtain ⟨k, hfind, hk⟩ := Option.map_eq_some_iff.mp h
    have hfound := List.find?_some hfind
    obtain ⟨haccepts, hstart⟩ := Bool.and_eq_true_iff.mp hfound
    have hoperator := operator_of_accepts (by simpa using hname) haccepts
    obtain ⟨rfl, hlength⟩ := Prod.mk.inj hk
    have htext : k.text.toList = t := by
      have hwhole : t <+: t ++ rest := List.prefix_append t rest
      rw [← String.length_toList] at hlength
      exact (List.prefix_of_prefix_length_le (List.isPrefixOf_iff_prefix.mp hstart) hwhole
        hlength.le).eq_of_length hlength
    rw [← htext, find?_operator (by simpa using hname) haccepts]
    rfl

/-- A variable is read again. -/
theorem readVar_resumes {t rest rest' : List Char} {token : Token}
    (h : readVar (t ++ rest) = some (token, t.length + 1)) (hrest : Resumes rest rest') :
    readVar (t ++ rest') = some (token, t.length + 1) := by
  cases t with
  | nil =>
      have hsome : ∀ {cs : List Char}, readVar cs ≠ some (token, 1) := by
        rintro (_ | ⟨c, cs⟩) hread
        · cases hread
        · by_cases hc : isIdentStart c = true
          · simp [readVar, hc, isIdentRest_of_isIdentStart c hc] at hread
          · simp [readVar, hc] at hread
      exact absurd h hsome
  | cons c t =>
      simp only [readVar, List.cons_append] at h ⊢
      split at h
      · rename_i hc
        simp only [Option.some.injEq, Prod.mk.injEq, Nat.add_right_cancel_iff] at h
        obtain ⟨hword, hnext⟩ := length_takeWhile_append (t := c :: t).mp h.2
        have hnext' := hrest.head not_isSpacing_of_isIdentRest hnext
        rw [← List.cons_append, takeWhile_append_stop hword hnext] at h
        rw [if_pos hc, ← List.cons_append, takeWhile_append_stop hword hnext', h.1]
      · cases h

/-- A sign is read again. -/
theorem readSign_resumes {accepts : TokenKind → Bool} {t rest rest' : List Char} {token : Token}
    (h : readSign accepts (t ++ rest) = some (token, t.length)) (hrest : Resumes rest rest') :
    readSign accepts (t ++ rest') = some (token, t.length) := by
  obtain ⟨sign, hfind, hsign⟩ := Option.map_eq_some_iff.mp h
  obtain ⟨hfound, longer, shorter, hall, hlonger⟩ := List.find?_eq_some_iff_append.mp hfind
  obtain ⟨haccepts, hstart⟩ := Bool.and_eq_true_iff.mp hfound
  obtain ⟨rfl, hlength⟩ := Prod.mk.inj hsign
  -- the text of a token that is a sign is that sign
  have hchars : sign.chars = t :=
    (List.prefix_of_prefix_length_le (List.isPrefixOf_iff_prefix.mp hstart)
      (List.prefix_append t rest) hlength.le).eq_of_length hlength
  have hpos : 0 < t.length := by
    rw [← hchars]
    cases sign <;> decide
  refine Option.map_eq_some_iff.mpr ⟨sign, List.find?_eq_some_iff_append.mpr
    ⟨?_, longer, shorter, hall, fun other hother => ?_⟩, hsign⟩
  · rw [haccepts, Bool.true_and, List.isPrefixOf_iff_prefix, hchars]
    exact List.prefix_append t rest'
  · -- a sign that can stand there and is tried before would have been read before
    have hnot := hlonger other hother
    simp only [Bool.not_eq_true', Bool.and_eq_false_iff] at hnot ⊢
    refine hnot.imp_right fun hnot => Bool.eq_false_iff.mpr fun hother => ?_
    rw [Bool.eq_false_iff, Ne, List.isPrefixOf_iff_prefix] at hnot
    rcases hrest with hblank | ⟨c, more, more', rfl, rfl, -⟩
    · rw [isPrefixOf_startsBlank hblank (not_isSpacing_sign other), List.isPrefixOf_iff_prefix]
        at hother
      exact hnot (hother.trans (List.prefix_append t rest))
    · have htwo : other.chars.length ≤ (t ++ [c]).length := by
        have hle : other.chars.length ≤ 2 := by cases other <;> decide
        rw [List.length_append, List.length_singleton]
        omega
      have hsplit : ∀ more : List Char, t ++ [c] <+: t ++ c :: more := fun more =>
        ⟨more, by simp⟩
      exact hnot ((List.prefix_of_prefix_length_le (List.isPrefixOf_iff_prefix.mp hother)
        (hsplit more') htwo).trans (hsplit more))

/-! ## Line ends -/

/-- What is taken along without comments is taken along, and nothing more, when ink follows. -/
theorem marginLength_append {margin rest rest' : List Char} (hhash : '#' ∉ margin)
    (h : marginLength false (margin ++ rest) = margin.length) (hink : ∀ c ∈ rest'.head?, IsInk c) :
    marginLength false (margin ++ rest') = margin.length := by
  induction margin using margin_induction with
  | nil => exact marginLength_spaces 0 hink
  | blank c margin hc ih =>
      rw [List.mem_cons, not_or] at hhash
      rw [List.cons_append, marginLength_cons hc, List.length_cons, Nat.add_right_cancel_iff] at h ⊢
      exact ih hhash.2 h
  | comment comment margin => simp at hhash
  | crlf margin ih =>
      rw [List.mem_cons, List.mem_cons, not_or, not_or] at hhash
      simp only [List.cons_append, marginLength_crlf, List.length_cons] at h ⊢
      rw [ih hhash.2.2 (by omega)]
  | stop c margin hblank hnot hreturn =>
      exfalso
      cases margin with
      | nil =>
          -- a carriage return would belong to the margin with the line feed after it
          by_cases hline : c = '\r' ∧ ∃ more, rest = '\n' :: more
          · obtain ⟨rfl, more, rfl⟩ := hline
            simp [marginLength_crlf] at h
          · simp [marginLength_eq_zero hblank hnot fun hc more hmore => hline ⟨hc, more, hmore⟩] at h
      | cons d margin =>
          have hzero : marginLength false (c :: (d :: margin ++ rest)) = 0 := by
            refine marginLength_eq_zero hblank hnot fun hc more hmore => ?_
            obtain ⟨rfl, -⟩ := List.cons.inj hmore
            exact hreturn hc margin rfl
          rw [List.cons_append, hzero] at h
          cases h

/-- Where a line end takes nothing more along, and something is read or skipped, there is ink. -/
theorem isInk_of_marginLength {accepts : TokenKind → Bool} {c : Char} {cs : List Char}
    (hmargin : marginLength false (c :: cs) = 0)
    (h : skipLength (c :: cs) ≠ 0 ∨ (readToken accepts (c :: cs)).isSome = true) (hhash : c ≠ '#') :
    IsInk c := by
  have hblank : ¬ (c = '\n' ∨ c = ' ' ∨ c = '\t') := by
    intro hc
    rw [marginLength_cons hc] at hmargin
    omega
  simp only [not_or] at hblank
  refine ⟨hblank.2.1, hblank.2.2, hhash, hblank.1, ?_⟩
  rintro rfl
  have hskip : skipLength ('\r' :: cs) = 0 := rfl
  have hread : readToken accepts ('\r' :: cs) = keepAccepted accepts (readNewline ('\r' :: cs)) := rfl
  rcases h with hskipped | hsome
  · exact hskipped hskip
  · cases cs with
    | nil => cases hsome
    | cons d cs =>
        by_cases hd : d = '\n'
        · subst hd
          simp [marginLength] at hmargin
        · rw [hread] at hsome
          simp [readNewline, hd, keepAccepted] at hsome

/-! ## Tokens -/

/-- Whether a text may take the place of another after a token: after a line end it does not start
with anything that would be taken along. -/
def Token.Keeps (token : Token) (rest rest' : List Char) : Prop :=
  if token = .newline then ∀ c ∈ rest'.head?, IsInk c else Resumes rest rest'

/-- A string is read again. -/
theorem readToken_quote_append {accepts : TokenKind → Bool} {quote : Char}
    (hquote : quote = '"' ∨ quote = '\'') {t rest rest' : List Char} {token : Token}
    (h : readToken accepts (quote :: t ++ rest) = some (token, t.length + 1)) :
    readToken accepts (quote :: t ++ rest') = some (token, t.length + 1) := by
  rw [List.cons_append, readToken_quote accepts hquote] at h ⊢
  obtain ⟨hread, haccepts⟩ := Option.filter_eq_some_iff.mp h
  obtain ⟨inner, last, hsplit, hinner, rfl, hlength⟩ := (readString_iff hquote).mp hread
  have hwhole : t ++ rest = (inner ++ [quote]) ++ last := by simpa using hsplit
  obtain ⟨rfl, rfl⟩ := List.append_inj hwhole (by simpa using hlength)
  refine Option.filter_eq_some_iff.mpr ⟨?_, haccepts⟩
  exact (readString_iff hquote).mpr ⟨inner, rest', by simp, hinner, rfl, hlength⟩

/-- A line end is read again. -/
theorem readToken_newline_append {phase : Phase} {t rest rest' : List Char} (hhash : '#' ∉ t)
    (h : readToken phase.accepts (t ++ rest) = some (.newline, t.length))
    (hink : ∀ c ∈ rest'.head?, IsInk c) :
    readToken phase.accepts (t ++ rest') = some (.newline, t.length) := by
  obtain ⟨haccepts, hlength, -⟩ := readToken_newline_iff.mp h
  refine readToken_newline_iff.mpr ⟨haccepts, (marginLength_append hhash hlength.symm hink).symm, ?_⟩
  have hreads := Reads.of_readToken h
  cases hreads with
  | newline => exact ⟨_, .inl rfl⟩
  | crlf => exact ⟨_, .inr rfl⟩

/-- A token within a line is read again where a text follows that may take the place of the other. -/
theorem readToken_resumes {phase : Phase} {t rest rest' : List Char} {token : Token}
    (hinline : token ≠ .newline) (h : readToken phase.accepts (t ++ rest) = some (token, t.length))
    (hrest : Resumes rest rest') : readToken phase.accepts (t ++ rest') = some (token, t.length) := by
  have hreads := Reads.of_readToken h
  cases t with
  | nil => exact absurd rfl hreads.ne_nil
  | cons c t =>
      by_cases hquote : c = '"' ∨ c = '\''
      · exact readToken_quote_append hquote h
      · simp only [List.cons_append, readToken] at h ⊢
        split_ifs at h ⊢ with hstart hdollar hdecimal hquoted hline
        · exact readWord_resumes (t := c :: t) h hrest
        · obtain ⟨hread, haccepts⟩ := Option.filter_eq_some_iff.mp h
          exact Option.filter_eq_some_iff.mpr ⟨readVar_resumes hread hrest, haccepts⟩
        · obtain ⟨hread, haccepts⟩ := Option.filter_eq_some_iff.mp h
          simp only [Option.some.injEq, Prod.mk.injEq] at hread
          have hnumeral := numberLength_append_iff (t := c :: t).mp hread.2
          have hlength := numberLength_append_iff.mpr (hnumeral.resumes hrest)
          rw [← List.cons_append, hread.2, List.take_left] at hread
          rw [← List.cons_append, hlength, List.take_left, hread.1]
          exact Option.filter_eq_some_iff.mpr ⟨rfl, haccepts⟩
        · exact absurd (by simpa using hquoted) hquote
        · obtain ⟨hread, -⟩ := Option.filter_eq_some_iff.mp h
          unfold readNewline at hread
          split at hread <;> simp only [Option.some.injEq, Prod.mk.injEq, reduceCtorEq] at hread
          all_goals exact absurd hread.1.symm hinline
        · exact readSign_resumes (t := c :: t) h hrest

/-- A token is read again where the text after it is exchanged. -/
theorem readToken_keeps {phase : Phase} {t rest rest' : List Char} {token : Token} (hhash : '#' ∉ t)
    (h : readToken phase.accepts (t ++ rest) = some (token, t.length)) (hkeeps : token.Keeps rest rest') :
    readToken phase.accepts (t ++ rest') = some (token, t.length) := by
  by_cases hinline : token = .newline
  · subst hinline
    exact readToken_newline_append hhash h hkeeps
  · rw [Token.Keeps, if_neg hinline] at hkeeps
    exact readToken_resumes hinline h hkeeps

/-! ## Places in a text -/

/-- A token stream with lexemes before it. -/
def TokenStream.prependAll (first : List Lexeme) (stream : TokenStream) : TokenStream :=
  { stream with lexemes := first ++ stream.lexemes }

/-- Whether the first of some lexemes is read at a place, or else the fault that ends them lies there,
or else the text ends. -/
def StopsAt (later : List Lexeme) (fault : Option SyntaxFault) (state : LexState) (p : Position)
    (after : List Char) : Prop :=
  match later, fault with
  | lexeme :: _, _ => lexeme.position = p ∧ (∃ more, after = lexeme.text.toList ++ more) ∧
      readToken state.phase.accepts after = some (lexeme.token, lexeme.text.toList.length)
  | [], some fault => fault.position? = some p
  | [], none => after = []

/-- Whether reading a text gets from a place past some tokens, up to a split of the text, and would
with any text after it that may take the place of the text there. -/
structure Reaches (state : LexState) (position : Position) (cs : List Char) (first : List Lexeme)
    (state' : LexState) (before after : List Char) : Prop where
  split : cs = before ++ after
  ne_nil : first ≠ [] → before ≠ []
  starts : before ≠ [] → skipLength cs ≠ 0 ∨ (readToken state.phase.accepts cs).isSome = true
  resumes : first ≠ [] → ∀ ext, (∀ last ∈ first.getLast?, last.token.Keeps after ext) →
    Resumes (before ++ after) (before ++ ext)
  read : ∀ ext, (∀ last ∈ first.getLast?, last.token.Keeps after ext) →
    tokensFrom state position (before ++ ext)
      = (tokensFrom state' (placeAfter position before) ext).prependAll first
  follows : ∀ s s', Follows state s → s.run first = .ok s' → Follows state' s'

/-- Where reading is already. -/
theorem reaches_here (state : LexState) (position : Position) (cs : List Char) :
    Reaches state position cs [] state [] cs where
  split := rfl
  ne_nil := fun h => absurd rfl h
  starts := fun h => absurd rfl h
  resumes := fun h => absurd rfl h
  read := fun _ _ => rfl
  follows := by
    intro s s' hfollows hrun
    cases hrun
    exact hfollows

/-- Reading gets there from a blank before. -/
theorem Reaches.blank {state state' : LexState} {position : Position} {c : Char} {cs : List Char}
    {first : List Lexeme} {before after : List Char} (hc : IsGap c)
    (h : Reaches state (placeAfter position [c]) cs first state' before after) :
    Reaches state position (c :: cs) first state' (c :: before) after where
  split := by rw [h.split, List.cons_append]
  ne_nil := fun _ => List.cons_ne_nil c before
  starts := fun _ => .inl (by rcases hc with rfl | rfl <;> simp [skipLength])
  resumes := fun hfirst ext hext => (h.resumes hfirst ext hext).append [c]
  read := by
    intro ext hext
    rw [List.cons_append, tokensFrom_blank state position hc]
    exact h.read ext hext
  follows := h.follows

/-- What is kept after the last of some lexemes is kept after the last of those behind the first. -/
theorem keeps_getLast?_cons {lexeme : Lexeme} {first : List Lexeme} {after ext : List Char}
    (h : ∀ last ∈ (lexeme :: first).getLast?, last.token.Keeps after ext) :
    first = [] ∧ lexeme.token.Keeps after ext ∨
      first ≠ [] ∧ ∀ last ∈ first.getLast?, last.token.Keeps after ext := by
  cases first with
  | nil => exact .inl ⟨rfl, h lexeme rfl⟩
  | cons next first =>
      rw [List.getLast?_cons_cons] at h
      exact .inr ⟨List.cons_ne_nil next first, h⟩

/-- A line end starts with one of its characters. -/
theorem Reads.exists_cons {t rest : List Char} (h : Reads .newline t rest) :
    ∃ c more, t = c :: more ∧ (c = '\n' ∨ c = '\r') := by
  cases h with
  | newline => exact ⟨'\n', _, rfl, .inl rfl⟩
  | crlf => exact ⟨'\r', _, rfl, .inr rfl⟩

/-- What is kept at a place is kept after the tokens before it. -/
theorem Reaches.keeps {state state' : LexState} {position position' : Position} {t cs : List Char}
    {token : Token} {first : List Lexeme} {before after ext : List Char} (hhash : '#' ∉ t ++ cs)
    (hread : readToken state.phase.accepts (t ++ cs) = some (token, t.length))
    (h : Reaches (state.next token) position' cs first state' before after)
    (hext : ∀ last ∈ (⟨token, String.ofList t, position⟩ :: first).getLast?,
      last.token.Keeps after ext) : token.Keeps (before ++ after) (before ++ ext) := by
  rw [List.mem_append, not_or] at hhash
  by_cases hnewline : token = .newline
  · subst hnewline
    rw [Token.Keeps, if_pos rfl]
    cases before with
    | nil =>
        rcases keeps_getLast?_cons hext with ⟨-, hend⟩ | ⟨hne, -⟩
        · simpa [Token.Keeps] using hend
        · exact absurd rfl (h.ne_nil hne)
    | cons c before =>
        -- the line end took all blanks along, so what follows it is a token
        have hmargin := marginLength_of_append (readToken_newline_iff.mp hread).2.1.symm
        have hstarts := h.starts (List.cons_ne_nil c before)
        obtain rfl : cs = c :: (before ++ after) := h.split
        have hink := isInk_of_marginLength hmargin hstarts fun heq => hhash.2 (by simp [heq])
        simpa using hink
  · rw [Token.Keeps, if_neg hnewline]
    rcases keeps_getLast?_cons hext with ⟨-, hend⟩ | ⟨hne, hend⟩
    · rw [Token.Keeps, if_neg hnewline] at hend
      exact hend.append before
    · exact h.resumes hne ext hend

/-- Reading gets there from a token before. -/
theorem Reaches.token {state state' : LexState} {position : Position} {t cs : List Char}
    {token : Token} {first : List Lexeme} {before after : List Char} (hhash : '#' ∉ t ++ cs)
    (hread : readToken state.phase.accepts (t ++ cs) = some (token, t.length))
    (h : Reaches (state.next token) (placeAfter position t) cs first state' before after) :
    Reaches state position (t ++ cs) (⟨token, String.ofList t, position⟩ :: first) state'
      (t ++ before) after := by
  have hreads := Reads.of_readToken hread
  have hne : t ++ before ≠ [] := by simp [hreads.ne_nil]
  refine ⟨by rw [h.split, List.append_assoc], fun _ => hne, fun _ => .inr (by rw [hread]; rfl),
    fun _ ext hext => ?_, fun ext hext => ?_, fun s s' hfollows hrun => ?_⟩
  · rw [List.append_assoc, List.append_assoc]
    rcases keeps_getLast?_cons hext with ⟨-, hend⟩ | ⟨hfirst, hend⟩
    · by_cases hnewline : token = .newline
      -- the text starts with a character of the line end, so it may take the place of any other
      · subst hnewline
        obtain ⟨c, more, rfl, hc⟩ := hreads.exists_cons
        refine .inl fun d hd => ?_
        obtain rfl : c = d := by simpa using hd
        exact hc.elim (fun hc => .inr (.inr (.inr hc))) fun hc => .inr (.inr (.inl hc))
      · rw [Token.Keeps, if_neg hnewline] at hend
        exact (hend.append before).append t
    · exact (h.resumes hfirst ext hend).append t
  -- the token is read again, since what follows it is exchanged only where it may be
  · have hkeeps := h.keeps hhash hread hext
    have hrest : ∀ last ∈ first.getLast?, last.token.Keeps after ext := by
      rcases keeps_getLast?_cons hext with ⟨rfl, -⟩ | ⟨-, hend⟩
      · exact fun last hlast => by cases hlast
      · exact hend
    rw [h.split] at hread
    rw [List.mem_append, not_or] at hhash
    have hagain := readToken_keeps hhash.1 hread hkeeps
    rw [List.append_assoc, tokensFrom_token position hagain, h.read ext hrest, ← placeAfter_append]
    rfl
  · rw [ParseState.run] at hrun
    split at hrun
    · rename_i next hstep
      exact h.follows next s' (hfollows.step (accepts_of_readToken hread) hstep) hrun
    · cases hrun

/-- Reading gets to every token of a text without comments, and to the fault or the end after all of
them. -/
theorem reaches_of_tokensFrom {state : LexState} {position : Position} {cs : List Char}
    {first later : List Lexeme} (hhash : '#' ∉ cs)
    (hsplit : (tokensFrom state position cs).lexemes = first ++ later) :
    ∃ before after state', Reaches state position cs first state' before after ∧
      StopsAt later (tokensFrom state position cs).fault state' (placeAfter position before) after := by
  induction state, position, cs using tokensFrom_induction generalizing first with
  | nil state position =>
      rw [tokensFrom_nil] at hsplit ⊢
      obtain ⟨rfl, rfl⟩ := List.append_eq_nil_iff.mp hsplit.symm
      exact ⟨[], [], state, reaches_here state position [], rfl⟩
  | blank state position c rest hc ih =>
      rw [tokensFrom_blank state position hc] at hsplit ⊢
      have hrest : '#' ∉ rest := fun hmem => hhash (List.mem_cons_of_mem c hmem)
      obtain ⟨before, after, state', hreaches, hstop⟩ := ih hrest hsplit
      exact ⟨c :: before, after, state', hreaches.blank hc, hstop⟩
  | comment state position comment rest => simp at hhash
  | token state position token t rest hread ih =>
      rw [tokensFrom_token position hread] at hsplit ⊢
      cases first with
      | nil =>
          -- no token is to be got to: reading is where it should be
          obtain rfl : _ :: _ = later := hsplit
          refine ⟨[], t ++ rest, state, reaches_here state position _, rfl, ⟨rest, ?_⟩, ?_⟩
          · rw [String.toList_ofList]
          · rw [String.toList_ofList]
            exact hread
      | cons lexeme first =>
          obtain ⟨rfl, hfirst⟩ := List.cons.inj hsplit
          have hrest : '#' ∉ rest := fun hmem => hhash (List.mem_append_right _ hmem)
          obtain ⟨before, after, state', hreaches, hstop⟩ := ih hrest hfirst
          refine ⟨t ++ before, after, state', hreaches.token hhash hread, ?_⟩
          rw [placeAfter_append]
          exact hstop
  | stuck state position c rest hskip hread =>
      rw [tokensFrom_stuck hskip hread] at hsplit ⊢
      obtain ⟨rfl, rfl⟩ := List.append_eq_nil_iff.mp hsplit.symm
      refine ⟨[], c :: rest, state, reaches_here state position _, ?_⟩
      show (unreadable position (c :: rest)).position? = some position
      unfold unreadable
      split <;> rfl

/-- Reading gets from the start of a script without comments to every token of it, and to the fault or
the end after all of them. -/
theorem reaches_of_tokens {cs : List Char} {first later : List Lexeme} (hhash : '#' ∉ cs)
    (hsplit : (tokens cs).lexemes = first ++ later) :
    ∃ before after state, Reaches .initial ⟨1, 1⟩ cs first state before after ∧
      StopsAt later (tokens cs).fault state (placeAfter ⟨1, 1⟩ before) after :=
  reaches_of_tokensFrom hhash hsplit

end Rubric.Script
