import Rubric.Proofs.Script.LineNumbers
import Rubric.Proofs.Script.SettledLine

/-!
# The words that lines start with

Repairing blocks goes by the first word of a line, which ends at a blank; the parser goes by tokens.  The
two agree but where the first token of a line and the next one stand together: the first word is no
reserved word then.

* `lineWords` : the reserved words that lines start with, from the tokens;
* `leadingKeywords_tokens` : they are those that the repair finds.
-/

namespace Rubric.Script

open Rubric.Text

/-! ## Words of tokens -/

/-- The reserved word that a token is spelled like. -/
def Token.reserved? : Token → Option Keyword
  | .keyword k => some k
  | .name ident => Keyword.ofText? ident
  | _ => none

/-- Whether the first of some lexemes follows a lexeme on its line without a gap. -/
def Lexeme.runsInto (lexeme : Lexeme) : List Lexeme → Bool
  | [] => false
  | next :: _ => next.token != .newline && next.position == lexeme.stop

/-- The reserved word that a line starts with, from its first lexeme and those after it. -/
def Lexeme.leadingWord? (first : Lexeme) (rest : List Lexeme) : Option Keyword :=
  if first.runsInto rest then none else first.token.reserved?

/-- The reserved words that the lines of some lexemes start with; `fresh` where the first lexeme starts a
line. -/
def lineWords (fresh : Bool) : List Lexeme → List Keyword
  | [] => []
  | first :: rest =>
    let others := lineWords (first.token = .newline) rest
    if fresh then (first.leadingWord? rest).toList ++ others else others

/-- A line end starts with no word, and other tokens do only where they start lines. -/
theorem lineWords_cons_of_within {fresh : Bool} {first : Lexeme} (rest : List Lexeme)
    (h : fresh = false ∨ first.token = .newline) :
    lineWords fresh (first :: rest) = lineWords (first.token = .newline) rest := by
  have hword : first.token = .newline → first.leadingWord? rest = none := by
    intro hnewline
    rw [Lexeme.leadingWord?, hnewline]
    split <;> rfl
  rw [lineWords]
  rcases h with rfl | hnewline
  · rfl
  · rw [hword hnewline]
    split <;> rfl

/-! ## Words of lines -/

/-- The characters of the code that a text goes on with, up to a blank. -/
def nextWord (cs : List Char) : List Char := (splitComment (openLine cs)).1.takeWhile fun c => !isBlank c

/-- A line without code starts with no word. -/
theorem leadingKeyword?_of_hasNoCode {cs : List Char} (h : HasNoCode cs) :
    leadingKeyword? (openLine cs) = none := by
  have hword : firstWord (splitComment (openLine cs)).1 = [] := by
    rw [firstWord, trimLeft, List.dropWhile_eq_nil_iff.mpr h]
    rfl
  rw [leadingKeyword?, hword]
  decide

/-- Nor does the word go on there. -/
theorem nextWord_of_hasNoCode {cs : List Char} (h : HasNoCode cs) : nextWord cs = [] := by
  cases hcode : (splitComment (openLine cs)).1 with
  | nil => rw [nextWord, hcode]; rfl
  | cons c code =>
      have hc : isBlank c = true := h c (by rw [hcode]; exact List.mem_cons_self ..)
      rw [nextWord, hcode, List.takeWhile_cons_of_neg (by simp [hc])]

/-- A gap at the start of a line does not matter. -/
theorem leadingKeyword?_cons {c : Char} (hc : IsGap c) (line : List Char) :
    leadingKeyword? (c :: line) = leadingKeyword? line := by
  rw [leadingKeyword?, hc.isCode.splitComment_cons, firstWord, trimLeft,
    List.dropWhile_cons_of_pos hc.isBlank]
  rfl

/-- A word ends before a gap. -/
theorem nextWord_cons {c : Char} (hc : IsGap c) (cs : List Char) : nextWord (c :: cs) = [] := by
  have hline : openLine (c :: cs) = c :: openLine cs := openLine_append hc.newline_notMem cs
  rw [nextWord, hline, hc.isCode.splitComment_cons, List.takeWhile_cons_of_neg (by simp [hc.isBlank])]

/-- The first word of a line that starts with characters that stay together goes on with the word after
them. -/
theorem leadingKeyword?_append {t : List Char} (ht : Solid t) (hblank : ∀ c ∈ t, isBlank c = false)
    (cs : List Char) :
    leadingKeyword? (openLine (t ++ cs)) = Keyword.ofText? (String.ofList (t ++ nextWord cs)) := by
  have hword : firstWord (t ++ (splitComment (openLine cs)).1) = t ++ nextWord cs := by
    obtain ⟨c, more, rfl⟩ := List.exists_cons_of_ne_nil ht.ne_nil
    rw [firstWord, trimLeft, List.cons_append, List.dropWhile_cons_of_neg (by simp [ht.head c rfl]),
      ← List.cons_append, List.takeWhile_append_of_pos fun d hd => by simp [hblank d hd], nextWord]
  rw [leadingKeyword?, openLine_append ht.newline_notMem, ht.code, hword]

/-- The word after a place is the start of the text there. -/
theorem nextWord_isPrefix (cs : List Char) : nextWord cs <+: cs := by
  have hcode : (splitComment (openLine cs)).1 <+: openLine cs := ⟨_, splitComment_append _⟩
  exact ((List.takeWhile_prefix _).trans hcode).trans (List.takeWhile_prefix _)

/-- No reserved word has a character other than a letter, a digit or an underscore. -/
theorem ofText?_eq_none {word more : List Char} {c : Char} (hc : isIdentRest c = false) :
    Keyword.ofText? (String.ofList (word ++ c :: more)) = none := by
  cases hk : Keyword.ofText? (String.ofList (word ++ c :: more)) with
  | none => rfl
  | some k =>
      have hchars := isIdentRest_of_mem (isIdentifier_text k) c
      rw [text_of_ofText? hk, String.toList_ofList, hc] at hchars
      exact absurd (hchars (by simp)) (by simp)

/-- A word that goes on is no reserved word. -/
theorem ofText?_nextWord {word rest : List Char} (hstop : ∀ c ∈ rest.head?, isIdentRest c = false) :
    Keyword.ofText? (String.ofList (word ++ nextWord rest))
      = if nextWord rest = [] then Keyword.ofText? (String.ofList word) else none := by
  cases hword : nextWord rest with
  | nil => rw [if_pos rfl, List.append_nil]
  | cons c more =>
      obtain ⟨after, hafter⟩ := nextWord_isPrefix rest
      rw [hword, List.cons_append] at hafter
      rw [if_neg (by simp), ofText?_eq_none (hstop c (by rw [← hafter]; rfl))]

/-! ## Lines and tokens -/

/-- A line that starts with a token starts with the reserved word that the token is spelled like, unless
the next token follows without a gap. -/
theorem leadingKeyword?_token {state : LexState} {token : Token} {t rest : List Char}
    (hstart : state.atLineStart = true) (hreads : Reads token t rest)
    (haccepts : state.phase.accepts token.kind = true) (hinline : token ≠ .newline) :
    leadingKeyword? (openLine (t ++ rest)) = if nextWord rest = [] then token.reserved? else none := by
  have hsolid := hreads.solid hinline
  have hrun : ∀ {word : List Char}, IsRun word → ∀ c ∈ word, isBlank c = false :=
    fun hword c hc => (isPlain_of_isIdentRest (hword.1 c hc)).1
  have hplace : state.phase = .scriptStart ∨ ∃ previous, state.phase = .lineStart previous := by
    cases hphase : state.phase <;> simp_all [LexState.atLineStart]
  cases hreads with
  | name hword hstop =>
      rw [leadingKeyword?_append hsolid (hrun hword), ofText?_nextWord hstop]
      rfl
  | @keyword k _ hstop =>
      rw [leadingKeyword?_append hsolid (hrun (isRun_text k)), ofText?_nextWord hstop,
        String.ofList_toList, ofText?_text]
      rfl
  -- no operator can stand at the start of a line
  | operator hk =>
      rcases hplace with hplace | ⟨previous, hplace⟩ <;> rw [hplace] at haccepts <;>
        rcases hk with rfl | rfl | rfl
      · cases haccepts
      · cases haccepts
      · cases haccepts
      all_goals cases previous <;> cases haccepts
  | @var word _ hword =>
      have hblank : ∀ c ∈ '$' :: word, isBlank c = false := by
        intro c hc
        rcases List.mem_cons.mp hc with rfl | hc
        · decide
        · exact hrun hword c hc
      -- no reserved word starts with a dollar sign
      have hnone : Keyword.ofText? (String.ofList ('$' :: word ++ nextWord rest)) = none :=
        @ofText?_eq_none [] (word ++ nextWord rest) '$' (by decide)
      rw [leadingKeyword?_append hsolid hblank, hnone]
      split <;> rfl
  | number | str | sign => rcases hplace with hplace | ⟨previous, hplace⟩ <;> rw [hplace] at haccepts <;>
      cases haccepts
  | newline => exact absurd rfl hinline
  | crlf => exact absurd rfl hinline

/-- A word goes on after a lexeme if and only if the next one follows without a gap. -/
theorem Scans.nextWord_eq_nil_iff {state : LexState} {p : Position} {cs : List Char}
    {lexemes : List Lexeme} (h : Scans state p cs lexemes) {lexeme : Lexeme} (hstop : p = lexeme.stop) :
    nextWord cs = [] ↔ lexeme.runsInto lexemes = false := by
  -- after characters that are passed over the next token stands further on
  have hlater : ∀ {skipped rest : List Char}, skipped ≠ [] →
      Scans state (placeAfter p skipped) rest lexemes → lexeme.runsInto lexemes = false := by
    intro skipped rest hne hscans
    cases lexemes with
    | nil => rfl
    | cons next lexemes =>
        obtain ⟨before, -, -, hplace⟩ := hscans.exists_before (List.suffix_refl _)
        have hmoved : next.position ≠ lexeme.stop := by
          rw [hplace, ← placeAfter_append, ← hstop]
          exact fun heq => hne (List.append_eq_nil_iff.mp (eq_nil_of_placeAfter heq)).1
        simp [Lexeme.runsInto, hmoved]
  cases h with
  | nil => exact iff_of_true (nextWord_of_hasNoCode hasNoCode_nil) rfl
  | blank hc hscans => exact iff_of_true (nextWord_cons hc _) (hlater (List.cons_ne_nil _ _) hscans)
  | comment _ _ hscans =>
      exact iff_of_true (nextWord_of_hasNoCode (hasNoCode_comment _))
        (hlater (List.cons_ne_nil _ _) hscans)
  | @token _ _ token t rest lexemes hreads =>
      by_cases hinline : token = .newline
      · subst hinline
        refine iff_of_true (nextWord_of_hasNoCode ?_) rfl
        cases hreads with
        | newline => exact hasNoCode_newline _
        | crlf => exact hasNoCode_crlf _
      · have hsolid := hreads.solid hinline
        refine iff_of_false ?_ ?_
        · obtain ⟨c, more, rfl⟩ := List.exists_cons_of_ne_nil hsolid.ne_nil
          rw [nextWord, openLine_append hsolid.newline_notMem, hsolid.code, List.cons_append,
            List.takeWhile_cons_of_pos (by simp [hsolid.head c rfl])]
          exact List.cons_ne_nil _ _
        · simp [Lexeme.runsInto, hinline, hstop]

/-- A line without code adds no word. -/
theorem filterMap_of_hasNoCode (fresh : Bool) {cs : List Char} (h : HasNoCode cs) :
    (if fresh then lines cs else (lines cs).tail).filterMap leadingKeyword?
      = (lines cs).tail.filterMap leadingKeyword? := by
  split
  · rw [lines_eq cs, List.tail_cons, List.filterMap_cons_none (leadingKeyword?_of_hasNoCode h)]
  · rfl

/-- The lines that a line end takes along add no words. -/
theorem Reads.filterMap_newline {t rest : List Char} (h : Reads .newline t rest) (fresh : Bool) :
    (if fresh then lines (t ++ rest) else (lines (t ++ rest)).tail).filterMap leadingKeyword?
      = (lines rest).filterMap leadingKeyword? := by
  have hmargin : ∀ {margin : List Char}, marginLength false (margin ++ rest) = margin.length →
      (lines (margin ++ rest)).filterMap leadingKeyword? = (lines rest).filterMap leadingKeyword? := by
    intro margin hlength
    have hlines := filterMap_margin (fun _ => leadingKeyword?_of_hasNoCode)
      (fun hc => leadingKeyword?_cons hc) (margin ++ rest)
    rwa [hlength, List.drop_left] at hlines
  cases h with
  | newline hlength =>
      rw [List.cons_append, filterMap_of_hasNoCode fresh (hasNoCode_newline _), lines_newline,
        List.tail_cons, hmargin hlength]
  | crlf hlength =>
      have htail : ∀ cs, (lines ('\r' :: '\n' :: cs)).tail = lines cs := fun cs => rfl
      rw [List.cons_append, List.cons_append, filterMap_of_hasNoCode fresh (hasNoCode_crlf _), htail,
        hmargin hlength]

/-- The lines of a text that is read to its end start with the reserved words that its tokens tell. -/
theorem Scans.filterMap_leadingKeyword? {state : LexState} {p : Position} {cs : List Char}
    {lexemes : List Lexeme} (h : Scans state p cs lexemes) :
    (if state.atLineStart then lines cs else (lines cs).tail).filterMap leadingKeyword?
      = lineWords state.atLineStart lexemes := by
  induction h with
  | nil state p =>
      rw [filterMap_of_hasNoCode _ hasNoCode_nil]
      rfl
  | @blank state p c rest lexemes hc _ ih =>
      have hline : openLine (c :: rest) = c :: openLine rest := openLine_append hc.newline_notMem rest
      have htail : (lines (c :: rest)).tail = (lines rest).tail := tail_lines_append hc.newline_notMem rest
      rw [← ih]
      split
      · rw [lines_eq (c :: rest), hline, htail, lines_eq rest, List.tail_cons, List.filterMap_cons,
          List.filterMap_cons, leadingKeyword?_cons hc]
      · rw [htail]
  | @comment state p comment rest lexemes hfeed hend _ ih =>
      have hfeed' : '\n' ∉ '#' :: comment := by
        rw [List.mem_cons, not_or]
        exact ⟨by decide, hfeed⟩
      -- the line goes on with the comment, so it has no code from there on
      have hrest : HasNoCode rest := by
        cases rest with
        | nil => exact hasNoCode_nil
        | cons c more =>
            obtain rfl := hend c rfl
            exact hasNoCode_newline more
      have hcomment : HasNoCode ('#' :: comment ++ rest) := hasNoCode_comment _
      rw [← ih, filterMap_of_hasNoCode _ hrest, filterMap_of_hasNoCode _ hcomment,
        tail_lines_append hfeed']
  | @token state p token t rest lexemes hreads haccepts hscans ih =>
      rw [atLineStart_next] at ih
      by_cases hinline : token = .newline
      · subst hinline
        rw [hreads.filterMap_newline, lineWords_cons_of_within lexemes (.inr rfl)]
        exact ih
      · have hsolid := hreads.solid hinline
        have hmid : (token == Token.newline) = false := beq_eq_false_iff_ne.mpr hinline
        have hothers : (lines rest).tail.filterMap leadingKeyword? = lineWords false lexemes := by
          simpa only [hmid, Bool.false_eq_true, if_false] using ih
        have hglued : nextWord rest = [] ↔
            (⟨token, String.ofList t, p⟩ : Lexeme).runsInto lexemes = false :=
          hscans.nextWord_eq_nil_iff (by rw [Lexeme.stop, String.toList_ofList])
        have htail := tail_lines_append hsolid.newline_notMem rest
        rw [lineWords, decide_eq_false hinline, ← hothers]
        -- only the first token of a line tells its word
        cases hfresh : state.atLineStart with
        | false => rw [if_neg (by decide), if_neg (by decide), htail]
        | true =>
            have hword : leadingKeyword? (openLine (t ++ rest))
                = (⟨token, String.ofList t, p⟩ : Lexeme).leadingWord? lexemes := by
              rw [leadingKeyword?_token hfresh hreads haccepts hinline, Lexeme.leadingWord?]
              by_cases hends : nextWord rest = []
              · rw [if_pos hends, if_neg (by rw [hglued.mp hends]; decide)]
              · rw [if_neg hends, if_pos (by simpa using mt hglued.mpr hends)]
            rw [if_pos rfl, if_pos rfl, lines_eq (t ++ rest), List.filterMap_cons, hword, htail]
            cases Lexeme.leadingWord? _ lexemes <;> rfl

/-- The reserved words that the repair finds at the starts of the lines of a text that reads to its end are
those that its tokens tell. -/
theorem leadingKeywords_tokens {cs : List Char} (h : (tokens cs).fault = none) :
    (lines cs).filterMap leadingKeyword? = lineWords true (tokens cs).lexemes := by
  have hscans : Scans .initial ⟨1, 1⟩ cs (tokens cs).lexemes := scans_of_tokensFrom h
  exact hscans.filterMap_leadingKeyword?

end Rubric.Script
