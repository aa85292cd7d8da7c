import Rubric.Proofs.Script.Printer
import Rubric.Proofs.Script.SettledLine

/-!
# Which scripts keep their keywords

Repairing keywords goes by words and lines, reading by tokens and places: a name that is a reserved
word in another case is a name to the parser and a keyword to the repair.  Names are the only thing
that the two see differently.

* `TokenStream.isUnambiguous` : no name is taken for a keyword;
* `repairKeywords_tokens` : a text that is read without a fault is kept by the repair if and only if
  its names are unambiguous.
-/

namespace Rubric.Script

open Rubric.Text

/-! ## Names that are taken for keywords -/

/-- The place right after a lexeme. -/
def Lexeme.stop (lexeme : Lexeme) : Position := placeAfter lexeme.position lexeme.text.toList

/-- Whether a word at a place is glued to the lexeme before it: it follows it without a gap, and the
lexeme ends in a dollar sign, a full stop or a word character. -/
def gluedTo (previous : Option Lexeme) (position : Position) : Bool :=
  match previous with
  | none => false
  | some lexeme =>
    lexeme.token != .newline && lexeme.stop == position && gluedAfter false lexeme.text.toList

/-- Whether the lexeme after another starts a line. -/
def startsLine (previous : Option Lexeme) : Bool := previous.all fun lexeme => lexeme.token == .newline

/-- Whether a lexeme is not taken for a keyword: a name that is not glued to the lexeme before it is
no reserved word in another letter case, and a name that starts a line is not spelled `ELSEIF`. -/
def Lexeme.isUnambiguous (previous : Option Lexeme) (lexeme : Lexeme) : Bool :=
  match lexeme.token with
  | .name ident =>
    (gluedTo previous lexeme.position || !isMiscased ident) &&
      !(startsLine previous && isElseif ident)
  | _ => true

/-- Whether no lexeme is taken for a keyword, `previous` being the one before them. -/
def areUnambiguous (previous : Option Lexeme) : List Lexeme → Bool
  | [] => true
  | lexeme :: rest => lexeme.isUnambiguous previous && areUnambiguous (some lexeme) rest

/-- Whether no name of a script is taken for a keyword. -/
def TokenStream.isUnambiguous (stream : TokenStream) : Bool := areUnambiguous none stream.lexemes

/-! ## What stands at the end of a line -/

/-- After a name that starts a line a call goes on. -/
theorem Scans.opensCall {state : LexState} {position : Position} {cs : List Char}
    {lexemes : List Lexeme} (h : Scans state position cs lexemes)
    (hphase : state.phase = .callOpen) : OpensCall (openCode cs) := by
  have hnil : OpensCall [] := ⟨by simp, by simp [trimLeft]⟩
  induction h with
  | nil =>
      rw [hasNoCode_nil.openCode_eq_nil]
      exact hnil
  | @blank state position c rest lexemes hc _ ih =>
      have hword : isWord c = false := by rcases hc with rfl | rfl <;> decide
      rw [openCode_cons hc]
      split
      · exact hnil
      · refine ⟨by simpa using hword, ?_⟩
        rw [trimLeft, List.dropWhile_cons_of_pos hc.isBlank]
        exact (ih hphase).paren
  | comment =>
      rw [List.cons_append, (hasNoCode_comment _).openCode_eq_nil]
      exact hnil
  | token hreads haccepts =>
      rw [hphase] at haccepts
      -- only an opening parenthesis can stand there
      cases hreads with
      | sign =>
          simp only [Token.kind, Phase.accepts, decide_eq_true_eq] at haccepts
          subst haccepts
          have hparen : Reads (.sign .openParen) Sign.openParen.chars [] := .sign
          have hsolid := hparen.solid (by simp)
          rw [hsolid.openCode_append]
          exact ⟨by simp [Sign.chars]; decide, by simp [Sign.chars, trimLeft, isBlank, inRanges]⟩
      | _ => simp [Token.kind, Phase.accepts] at haccepts

/-- After a keyword that stands alone on its line there is no code. -/
theorem Scans.openCode_eq_nil {state : LexState} {position : Position} {cs : List Char}
    {lexemes : List Lexeme} (h : Scans state position cs lexemes)
    (hphase : state.phase = .lineEnd) : openCode cs = [] := by
  induction h with
  | nil => exact hasNoCode_nil.openCode_eq_nil
  | @blank state position c rest lexemes hc _ ih => rw [openCode_cons hc, if_pos (ih hphase)]
  | comment => exact (hasNoCode_comment _).openCode_eq_nil
  | token hreads haccepts =>
      rw [hphase] at haccepts
      cases hreads with
      | newline => exact (hasNoCode_newline _).openCode_eq_nil
      | crlf => exact (hasNoCode_crlf _).openCode_eq_nil
      | _ => simp [Token.kind, Phase.accepts] at haccepts

/-! ## Gaps -/

/-- At the start of a line nothing is glued. -/
theorem gluedTo_of_startsLine {previous : Option Lexeme} (h : startsLine previous = true)
    (position : Position) : gluedTo previous position = false := by
  cases previous with
  | none => rfl
  | some lexeme =>
      have hnewline : lexeme.token = .newline := by simpa [startsLine] using h
      simp [gluedTo, hnewline]

/-- Where reading stands after a lexeme, and perhaps a gap. -/
structure Stands (state : LexState) (position : Position) (glued : Bool)
    (previous : Option Lexeme) : Prop where
  start : state.atLineStart = startsLine previous
  glued : state.atLineStart = false → glued = gluedTo previous position
  gap : ∀ lexeme ∈ previous, ∃ gap, position = placeAfter lexeme.stop gap

/-- Reading starts at the start of a line. -/
theorem Stands.initial : Stands .initial ⟨1, 1⟩ false none :=
  ⟨rfl, fun h => by simp [LexState.initial, LexState.atLineStart] at h, by simp⟩

/-- After a gap nothing is glued. -/
theorem Stands.skip {state : LexState} {position : Position} {glued : Bool}
    {previous : Option Lexeme} (h : Stands state position glued previous) {skipped : List Char}
    (hne : skipped ≠ []) : Stands state (placeAfter position skipped) false previous where
  start := h.start
  glued _ := by
    cases previous with
    | none => rfl
    | some lexeme =>
        obtain ⟨gap, hgap⟩ := h.gap lexeme rfl
        have hmoved : lexeme.stop ≠ placeAfter position skipped := by
          intro hstop
          rw [hgap, ← placeAfter_append] at hstop
          exact hne (List.append_eq_nil_iff.mp (eq_nil_of_placeAfter hstop.symm)).2
        simp [gluedTo, hmoved]
  gap lexeme hlexeme := by
    obtain ⟨gap, hgap⟩ := h.gap lexeme hlexeme
    exact ⟨gap ++ skipped, by rw [hgap, placeAfter_append]⟩

/-- Only line ends lead to the start of a line. -/
theorem atLineStart_next (state : LexState) (token : Token) :
    (state.next token).atLineStart = (token == .newline) := by
  cases token with
  | newline => rfl
  | keyword k =>
      -- no reserved word and no sign is followed by the start of a line
      have hafter : ∀ line, LexState.atLineStart ⟨.afterKeyword k, line⟩ = false := by
        intro line
        cases k <;> rfl
      show (state.afterKeyword k).atLineStart = false
      unfold LexState.afterKeyword
      split_ifs
      · exact hafter _
      · rfl
      · exact hafter _
  | name ident =>
      show state.afterName.atLineStart = false
      unfold LexState.afterName
      split_ifs
      · rfl
      · split <;> rfl
  | var ident =>
      show state.afterVar.atLineStart = false
      unfold LexState.afterVar
      split_ifs
      · rfl
      · split <;> rfl
  | number digits => rfl
  | str value => rfl
  | sign sign =>
      have hafter : ∀ line, LexState.atLineStart ⟨.afterSign sign, line⟩ = false := by
        intro line
        cases sign <;> rfl
      show (state.afterSign sign).atLineStart = false
      unfold LexState.afterSign
      split
      · rfl
      · rfl
      · rfl
      · rfl
      · exact hafter _

/-- After a token reading stands at its end. -/
theorem Stands.token {state : LexState} (position : Position) (glued : Bool) (token : Token)
    {t : List Char} (hne : t ≠ []) :
    Stands (state.next token) (placeAfter position t) (gluedAfter glued t)
      (some ⟨token, String.ofList t, position⟩) where
  start := atLineStart_next state token
  glued h := by
    rw [atLineStart_next, beq_eq_false_iff_ne] at h
    obtain ⟨c, more, rfl⟩ := List.exists_cons_of_ne_nil hne
    simp [gluedTo, h, Lexeme.stop, gluedAfter]
  gap lexeme hlexeme := by
    obtain rfl := Option.some.inj hlexeme
    exact ⟨[], by simp [Lexeme.stop, placeAfter]⟩

/-! ## The whole text -/

/-- Whether the line that a text goes on with is kept by the repair, from the place on where reading
stands. -/
def LexState.Keeps (state : LexState) (glued : Bool) (cs : List Char) : Prop :=
  if state.atLineStart then IsSettled (openLine cs)
  else upperKeywords glued (openCode cs) = openCode cs

/-- After a line end the whole line is looked at. -/
theorem LexState.keeps_newline (state : LexState) (glued : Bool) (cs : List Char) :
    (state.next .newline).Keeps glued cs ↔ IsSettled (openLine cs) := Iff.rfl

/-- After another token only the words of the code after it are. -/
theorem LexState.keeps_next (state : LexState) {token : Token} (h : token ≠ .newline)
    (glued : Bool) (cs : List Char) :
    (state.next token).Keeps glued cs ↔ upperKeywords glued (openCode cs) = openCode cs := by
  have hstart : (state.next token).atLineStart = false := by
    rw [atLineStart_next]
    simpa using h
  rw [LexState.Keeps, if_neg (by simp [hstart])]

/-- No code needs no repair. -/
theorem upperKeywords_nil (glued : Bool) : upperKeywords glued [] = [] := by
  rw [upperKeywords]

/-- A line without code is kept. -/
theorem HasNoCode.keeps {cs : List Char} (h : HasNoCode cs) (state : LexState) (glued : Bool) :
    state.Keeps glued cs := by
  unfold LexState.Keeps
  split
  · exact h.isSettled
  · rw [h.openCode_eq_nil, upperKeywords_nil]

/-- A line is kept if and only if it is from after a gap on. -/
theorem LexState.keeps_cons {c : Char} (hc : IsGap c) (state : LexState) (glued : Bool)
    (cs : List Char) : state.Keeps glued (c :: cs) ↔ state.Keeps false cs := by
  have hline : openLine (c :: cs) = c :: openLine cs := openLine_append hc.newline_notMem cs
  have hstart : isIdentStart c = false := by rcases hc with rfl | rfl <;> decide
  have hglues : glues c = false := by rcases hc with rfl | rfl <;> decide
  unfold LexState.Keeps
  split
  · rw [hline, isSettled_cons hc]
  · rw [openCode_cons hc]
    split
    · rename_i hnil
      rw [hnil, upperKeywords_nil, upperKeywords_nil]
    · rw [upperKeywords_cons hc.isCode (.inr hstart), hglues, List.cons.injEq]
      exact and_iff_right rfl

/-- A line is kept if and only if its next token is not taken for a keyword, and the words of the
code after it are kept. -/
theorem Stands.keeps_append {state : LexState} {position position' : Position} {glued : Bool}
    {previous : Option Lexeme} {token : Token} {t rest : List Char} {lexemes : List Lexeme}
    (h : Stands state position glued previous) (hreads : Reads token t rest)
    (hnewline : token ≠ .newline) (hrest : Scans (state.next token) position' rest lexemes) :
    state.Keeps glued (t ++ rest) ↔
      Lexeme.isUnambiguous previous ⟨token, String.ofList t, position⟩ = true ∧
        upperKeywords (gluedAfter glued t) (openCode rest) = openCode rest := by
  have hsolid := hreads.solid hnewline
  unfold LexState.Keeps
  cases hstart : state.atLineStart with
  | true =>
      -- the line is trimmed and its start respelled before its words are looked at
      have hprevious : startsLine previous = true := by rw [← h.start, hstart]
      have hcall : ∀ ident, token = .name ident → OpensCall (openCode rest) := by
        rintro ident rfl
        refine hrest.opensCall ?_
        simp [LexState.next, LexState.afterName, hstart]
      have helse : token = .keyword .otherwise → openCode rest = [] := by
        rintro rfl
        refine hrest.openCode_eq_nil ?_
        simp [LexState.next, LexState.afterKeyword, hstart, Phase.afterKeyword]
      have hglued : gluedAfter glued t = gluedAfter false t := by
        obtain ⟨c, more, rfl⟩ := List.exists_cons_of_ne_nil hsolid.ne_nil
        rfl
      rw [if_pos rfl, isSettled_append hsolid,
        canonicalCode_reads_iff hreads hnewline (openCode_isPrefix rest) hcall helse, hglued]
      refine and_congr_left fun _ => ?_
      cases token <;> simp [Lexeme.isUnambiguous, gluedTo_of_startsLine hprevious, hprevious,
        and_comm]
  | false =>
      have hprevious : startsLine previous = false := by rw [← h.start, hstart]
      rw [if_neg (by decide), hsolid.openCode_append,
        upperKeywords_reads_iff hreads hnewline (openCode_isPrefix rest)]
      refine and_congr_left fun _ => ?_
      rw [h.glued hstart]
      cases token with
      | name ident => cases hglued : gluedTo previous position <;>
          simp [Lexeme.isUnambiguous, hprevious, hglued]
      | _ => simp [Lexeme.isUnambiguous]

/-- The rest of a text is kept line by line if and only if its lexemes are not taken for keywords. -/
theorem Scans.keeps_iff {state : LexState} {position : Position} {cs : List Char}
    {lexemes : List Lexeme} (h : Scans state position cs lexemes) :
    ∀ {glued : Bool} {previous : Option Lexeme}, Stands state position glued previous →
      ((state.Keeps glued cs ∧ ∀ line ∈ (lines cs).tail, IsSettled line) ↔
        areUnambiguous previous lexemes = true) := by
  -- on the pieces that are read, for all places where reading may stand before them
  induction h with
  | nil state position =>
      intro glued previous _
      exact iff_of_true ⟨hasNoCode_nil.keeps state glued, by simp [lines, splitOn]⟩ rfl
  | @blank state position c rest lexemes hc _ ih =>
      intro glued previous hstands
      have htail : (lines (c :: rest)).tail = (lines rest).tail :=
        tail_lines_append hc.newline_notMem rest
      rw [state.keeps_cons hc, htail]
      exact ih (hstands.skip (List.cons_ne_nil _ _))
  | @comment state position comment rest lexemes hfeed hend _ ih =>
      intro glued previous hstands
      have hfeed' : '\n' ∉ '#' :: comment := by
        rw [List.mem_cons, not_or]
        exact ⟨by decide, hfeed⟩
      -- a comment goes on to the end of its line
      have hrest : HasNoCode rest := by
        cases rest with
        | nil => exact hasNoCode_nil
        | cons c more =>
            obtain rfl := hend c rfl
            exact hasNoCode_newline more
      rw [tail_lines_append hfeed', ← ih (hstands.skip (List.cons_ne_nil _ _)),
        List.cons_append, and_iff_right ((hasNoCode_comment _).keeps state glued),
        and_iff_right (hrest.keeps state false)]
  | @token state position token t rest lexemes hreads _ hscans ih =>
      intro glued previous hstands
      have hnext := ih (Stands.token position glued token hreads.ne_nil)
      rw [areUnambiguous, Bool.and_eq_true, ← hnext]
      by_cases hnewline : token = .newline
      · -- the lines that go with the line end are empty or comments
        subst hnewline
        have hclear : Lexeme.isUnambiguous previous ⟨.newline, String.ofList t, position⟩ = true :=
          rfl
        rw [and_iff_right hclear, state.keeps_newline, ← forall_lines]
        have hmargin : ∀ {margin : List Char},
            marginLength false (margin ++ rest) = margin.length →
            ((∀ line ∈ lines (margin ++ rest), IsSettled line) ↔
              ∀ line ∈ lines rest, IsSettled line) := by
          intro margin hlength
          have hiff := isSettled_margin (margin ++ rest)
          rwa [hlength, List.drop_left] at hiff
        cases hreads with
        | newline hlength =>
            rw [List.cons_append, and_iff_right ((hasNoCode_newline _).keeps state glued),
              lines_newline, List.tail_cons, hmargin hlength]
        | crlf hlength =>
            have htail : ∀ cs, (lines ('\r' :: '\n' :: cs)).tail = lines cs := fun cs => rfl
            rw [List.cons_append, List.cons_append,
              and_iff_right ((hasNoCode_crlf _).keeps state glued), htail, hmargin hlength]
      · have hsolid := hreads.solid hnewline
        rw [hstands.keeps_append hreads hnewline hscans, state.keeps_next hnewline,
          tail_lines_append hsolid.newline_notMem, and_assoc]

/-- A text that is read to its end is kept by the repair if and only if its names are unambiguous. -/
theorem repairKeywords_tokens {cs : List Char} (h : (tokens cs).fault = none) :
    repairKeywords cs = ⟨cs, []⟩ ↔ (tokens cs).isUnambiguous = true := by
  have hscans := scans_of_tokensFrom h
  rw [repairKeywords_eq_iff, forall_lines]
  exact hscans.keeps_iff Stands.initial

/-! ## Scripts that are parsed -/

/-- A script that is parsed is read to its end. -/
theorem fault_of_parse {text : String} {p : Program} (h : parse text = .ok p) :
    (tokens text.toList).fault = none := by
  unfold parse parseStream at h
  cases hrun : ParseState.initial.run (tokens text.toList).lexemes with
  | error fault => simp [hrun, bind, Except.bind] at h
  | ok final =>
      cases hfault : (tokens text.toList).fault with
      | none => rfl
      | some fault => simp [hrun, hfault, bind, Except.bind] at h

end Rubric.Script
