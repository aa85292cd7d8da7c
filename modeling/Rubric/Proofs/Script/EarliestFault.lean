import Rubric.Proofs.Script.Completion
import Rubric.Proofs.Script.Lookahead
import Rubric.Proofs.Script.RoundTrip

/-!
# Faults are reported at the earliest place

Whatever a parser has read of a text without comments, some other text after it makes a script of it,
unless an integer in it has too many digits: those are refused once the whole script is read.

* `viable_iff` : which texts that are read without a fault go on to a script;
* `viable_of_parse_error` : the text before a syntax fault is read without one.
-/

namespace Rubric.Script

open Rubric.Number Rubric.Text

/-! ## Parts of a text -/

/-- The part of a text before a place, where the text starts at another. -/
def textBefore (p : Position) (position : Position) : List Char → List Char
  | [] => []
  | c :: cs => if position = p then [] else c :: textBefore p (placeAfter position [c]) cs

/-- A part with a place right after it is the one before that place. -/
theorem textBefore_append {p position : Position} {before : List Char}
    (h : placeAfter position before = p) (after : List Char) :
    textBefore p position (before ++ after) = before := by
  induction before generalizing position with
  | nil =>
      obtain rfl : position = p := h
      cases after with
      | nil => rfl
      | cons c after => simp [textBefore]
  | cons c before ih =>
      have hne : position ≠ p := by
        rintro rfl
        exact absurd (eq_nil_of_placeAfter h) (List.cons_ne_nil c before)
      have hrest : placeAfter (placeAfter position [c]) before = p := by
        rw [← placeAfter_append]
        exact h
      rw [List.cons_append, textBefore, if_neg hne, ih hrest]

/-- Whether a text ends with a lexeme, or with it and a full stop. -/
def Lexeme.EndsText (lexeme : Lexeme) (text : List Char) : Prop :=
  ∃ before, placeAfter ⟨1, 1⟩ before = lexeme.position ∧
    (text = before ++ lexeme.text.toList ∨ text = before ++ lexeme.text.toList ++ ['.'])

/-! ## Scripts -/

/-- A lexeme before a stream that lexemes stand before is the last of these. -/
theorem TokenStream.prependAll_prepend (first : List Lexeme) (lexeme : Lexeme) (stream : TokenStream) :
    (stream.prepend lexeme).prependAll first = stream.prependAll (first ++ [lexeme]) := by
  simp [TokenStream.prependAll, TokenStream.prepend]

/-- Tokens that are parsed to the end, without integers that are too long, make a script. -/
theorem parse_of_tokens {text : String} {lexemes : List Lexeme} {s : ParseState}
    (htokens : tokens text.toList = ⟨lexemes, none⟩) (hrun : ParseState.initial.run lexemes = .ok s)
    (hcomplete : s.isComplete = true) (hsmall : ∀ lexeme ∈ lexemes, oversized? lexeme = none) :
    parse text = .ok ⟨s.statements.reverse, text⟩ := by
  have hfind : lexemes.findSome? oversized? = none := List.findSome?_eq_none_iff.mpr hsmall
  rw [parse_eq_ok_iff, htokens]
  simp [parseStream, hrun, hcomplete, hfind, bind, Except.bind]

/-- So do the tokens of a list of characters. -/
theorem exists_parse_of_tokens {cs : List Char} {lexemes : List Lexeme} {s : ParseState}
    (htokens : tokens cs = ⟨lexemes, none⟩) (hrun : ParseState.initial.run lexemes = .ok s)
    (hcomplete : s.isComplete = true) (hsmall : ∀ lexeme ∈ lexemes, oversized? lexeme = none) :
    ∃ q, parse (String.ofList cs) = .ok q :=
  ⟨_, parse_of_tokens (by rw [String.toList_ofList, htokens]) hrun hcomplete hsmall⟩

/-- A script has no integer that is too long. -/
theorem oversized?_of_parse {cs : List Char} {q : Program} (h : parse (String.ofList cs) = .ok q) :
    ∀ lexeme ∈ (tokens cs).lexemes, oversized? lexeme = none := by
  obtain ⟨hstream, -⟩ := parse_eq_ok_iff.mp h
  rw [String.toList_ofList] at hstream
  unfold parseStream at hstream
  cases hrun : ParseState.initial.run (tokens cs).lexemes with
  | error fault => simp [hrun, bind, Except.bind] at hstream
  | ok final =>
      cases hfault : (tokens cs).fault with
      | some fault => simp [hrun, hfault, bind, Except.bind] at hstream
      | none =>
          simp only [hrun, hfault, bind, Except.bind] at hstream
          split at hstream
          · split at hstream
            · cases hstream
            · rename_i hfind
              exact List.findSome?_eq_none_iff.mp hfind
          · cases hstream

/-- A token that completes a script is no number. -/
theorem oversized?_of_wellSpelled {lexeme : Lexeme}
    (h : lexeme.token.WellSpelled fun _ => false) : oversized? lexeme = none := by
  unfold oversized?
  split
  · rename_i digits htoken
    rw [htoken] at h
    obtain ⟨n, hn, -⟩ := h
    cases hn
  · rfl

/-! ## Completed texts -/

/-- Where the tokens of a text are followed by ones that complete the script, it is one. -/
theorem exists_parse_of_completes {cs : List Char} {first : List Lexeme} {state : LexState}
    {p : Position} {s : ParseState} {ts : List Token} {gap : Nat}
    (hread : tokens cs = (tokensFrom state p (render (spaced gap ts))).prependAll first)
    (hrun : ParseState.initial.run first = .ok s) (hfollows : Follows state s) (hts : s.Completes ts)
    (hsmall : ∀ lexeme ∈ first, oversized? lexeme = none) :
    ∃ q, parse (String.ofList cs) = .ok q := by
  have hleads : s.Leads ((spaced gap ts).map Written.token) fun s' => s'.isComplete = true := by
    rw [map_token_spaced]
    exact hts.leads
  obtain ⟨lexemes, final, hscan, htokens, hfinal, hcomplete⟩ :=
    scan_render p hfollows (legible_spaced gap hts.spelled hts.apart) hleads
  rw [map_token_spaced] at htokens
  rw [hscan] at hread
  refine exists_parse_of_tokens hread (s := final) ?_ hcomplete fun lexeme hlexeme => ?_
  · rw [ParseState.run_append hrun, hfinal]
  · rcases List.mem_append.mp hlexeme with hfirst | hlast
    · exact hsmall lexeme hfirst
    · have hmem : lexeme.token ∈ ts := by
        rw [← htokens]
        exact List.mem_map_of_mem hlast
      exact oversized?_of_wellSpelled (hts.spelled _ hmem)

/-- The tokens that complete a script start with ink where a line starts, and else with a space. -/
theorem keeps_spaced {s : ParseState} {first : List Lexeme} {ts : List Token}
    (hrun : ParseState.initial.run first = .ok s) (hts : s.Completes ts)
    (hhead : s.focus = .lineStart → ∀ next ∈ ts.head?, next ≠ .newline) :
    ∃ gap, ∀ last ∈ first.getLast?, last.token.Keeps [] (render (spaced gap ts)) := by
  have hlast : ∀ last ∈ first.getLast?, (last.token = .newline ↔ s.focus = .lineStart) := by
    intro last hlast
    obtain ⟨init, rfl⟩ := List.getLast?_eq_some_iff.mp hlast
    exact ParseState.newline_iff_of_run hrun
  by_cases hline : s.focus = .lineStart
  · refine ⟨0, fun last hmem => ?_⟩
    rw [Token.Keeps, if_pos ((hlast last hmem).mpr hline)]
    cases ts with
    | nil => simp [spaced, render]
    | cons t ts =>
        obtain ⟨c, rest, hchars, hc⟩ :=
          isInk_chars (hts.spelled t (List.mem_cons_self)) (hhead hline t rfl)
        simpa [spaced, render, Written.chars, hchars] using hc
  · refine ⟨1, fun last hmem => ?_⟩
    rw [Token.Keeps, if_neg fun hnewline => hline ((hlast last hmem).mp hnewline)]
    cases ts with
    | nil => exact .inl (by simp [spaced, render, StartsBlank])
    | cons t ts => exact .inl (by simp [spaced, render, Written.chars, StartsBlank, IsSpacing])

/-- A text that is read without a fault, and without an integer that is too long, goes on to a
script. -/
theorem exists_parse_of_small {cs : List Char} {first : List Lexeme} {s : ParseState}
    (hhash : '#' ∉ cs) (htokens : tokens cs = ⟨first, none⟩)
    (hrun : ParseState.initial.run first = .ok s) (hsmall : ∀ lexeme ∈ first, oversized? lexeme = none) :
    ∃ rest q, parse (String.ofList (cs ++ rest)) = .ok q := by
  have hsplit : (tokens cs).lexemes = first ++ [] := by rw [htokens, List.append_nil]
  obtain ⟨before, after, state, hreaches, hstop⟩ := reaches_of_tokens hhash hsplit
  rw [htokens] at hstop
  obtain rfl : after = [] := hstop
  obtain rfl : cs = before := by rw [hreaches.split, List.append_nil]
  obtain ⟨ts, hts, hhead⟩ := ParseState.exists_completes (ParseState.sound_initial.run hrun)
  obtain ⟨gap, hkeeps⟩ := keeps_spaced hrun hts hhead
  exact ⟨render (spaced gap ts), exists_parse_of_completes (hreaches.read _ hkeeps) hrun
    (hreaches.follows _ _ .start hrun) hts hsmall⟩

/-! ## Integers that are too long -/

/-- An integer that is too long has no full stop. -/
theorem exists_digits_of_oversized {lexeme : Lexeme} (h : oversized? lexeme ≠ none) :
    ∃ digits, lexeme.token = .number digits ∧ '.' ∉ digits := by
  unfold oversized? at h
  split at h
  · rename_i digits htoken
    refine ⟨digits, htoken, fun hmem => h ?_⟩
    simp [hmem]
  · exact absurd rfl h

/-- A number is read as itself. -/
theorem readToken_number {accepts : TokenKind → Bool} (haccepts : accepts .number = true) {d : Char}
    {digits rest : List Char} (hd : isDecimal d = true) (h : IsNumeral (d :: digits) rest) :
    readToken accepts (d :: digits ++ rest) = some (.number (d :: digits), (d :: digits).length) := by
  have hlength := numberLength_append_iff.mpr h
  have hdollar : d ≠ '$' := by
    rintro rfl
    exact absurd hd (by decide)
  rw [List.cons_append] at hlength ⊢
  simp only [readToken, isIdentStart_of_isDecimal hd, hdollar, hd, hlength, if_true,
    Bool.false_eq_true, if_false]
  rw [← List.cons_append, List.take_left]
  exact Option.filter_eq_some_iff.mpr ⟨rfl, haccepts⟩

/-- Where an integer is read, an operand is expected, and reading gets there whatever follows the
integer. -/
structure AtInteger (cs : List Char) (init : List Lexeme) (number : Lexeme) (digits before more : List Char)
    (state : LexState) (s : ParseState) : Prop where
  split : cs = before ++ (digits ++ more)
  place : placeAfter ⟨1, 1⟩ before = number.position
  text : number.text.toList = digits
  reads : readToken state.phase.accepts (digits ++ more) = some (.number digits, digits.length)
  run : ParseState.initial.run init = .ok s
  follows : Follows state s
  focus : ∃ goal frames, s.focus = .operand goal frames
  read : ∀ ext, tokens (before ++ (digits ++ ext))
    = (tokensFrom state number.position (digits ++ ext)).prependAll init

/-- An integer of a text that is read without a fault. -/
theorem exists_atInteger {cs : List Char} {init tail : List Lexeme} {number : Lexeme} {s' : ParseState}
    {digits : List Char} (hhash : '#' ∉ cs) (htokens : tokens cs = ⟨init ++ number :: tail, none⟩)
    (hrun : ParseState.initial.run (init ++ number :: tail) = .ok s')
    (htoken : number.token = .number digits) (hdot : '.' ∉ digits) :
    ∃ before more state s, AtInteger cs init number digits before more state s := by
  have hsplit : (tokens cs).lexemes = init ++ number :: tail := by rw [htokens]
  obtain ⟨before, after, state, hreaches, hstop⟩ := reaches_of_tokens hhash hsplit
  obtain ⟨hplace, ⟨more, rfl⟩, hread⟩ := hstop
  obtain ⟨s, hinit, hrest⟩ := ParseState.exists_run_of_append hrun
  have htext : number.text.toList = digits := by
    have hreads := Reads.of_readToken hread
    rw [htoken] at hreads
    cases hreads
    rfl
  rw [htext, htoken] at hread
  have hfocus : ∃ goal frames, s.focus = .operand goal frames := by
    rw [ParseState.run, htoken] at hrest
    obtain ⟨f, statements, blocks⟩ := s
    cases f with
    | operand goal frames => exact ⟨goal, frames, rfl⟩
    | _ => cases hrest
  refine ⟨before, more, state, s, ⟨by rw [hreaches.split, htext], hplace.symm, htext, hread, hinit,
    hreaches.follows _ _ .start hinit, hfocus, fun ext => ?_⟩⟩
  rw [hplace]
  refine hreaches.read _ fun last hlast => ?_
  -- the token before an integer ends no line, and the integer starts as it did
  obtain ⟨goal, frames, hoperand⟩ := hfocus
  have hinline : last.token ≠ .newline := by
    intro hnewline
    obtain ⟨before, rfl⟩ := List.getLast?_eq_some_iff.mp hlast
    have hline := (ParseState.newline_iff_of_run hinit).mp hnewline
    rw [hoperand] at hline
    cases hline
  rw [Token.Keeps, if_neg hinline, htext]
  cases digits with
  | nil =>
      have hreads := reads_of_readToken hread
      exact absurd rfl hreads.ne_nil
  | cons d digits =>
      refine .inr ⟨d, digits ++ more, digits ++ ext, rfl, rfl, fun hd => ?_⟩
      rw [hd] at hdot
      simp at hdot

/-- An integer consists of digits. -/
theorem isDecimal_of_reads {digits t rest : List Char} (h : Reads (.number digits) t rest)
    (hdot : '.' ∉ digits) : t = digits ∧ ∃ d more, digits = d :: more ∧ ∀ c ∈ digits, isDecimal c = true := by
  cases h with
  | number hne hall =>
      obtain ⟨d, more, rfl⟩ := List.exists_cons_of_ne_nil hne
      refine ⟨rfl, d, more, rfl, fun c hc => ?_⟩
      rcases hall c hc with hdecimal | rfl
      · exact hdecimal
      · exact absurd hc hdot

/-- An integer may go on with decimal places, to a script. -/
theorem AtInteger.exists_parse_decimal {cs before more digits : List Char} {init : List Lexeme}
    {number : Lexeme} {state : LexState} {s : ParseState}
    (h : AtInteger cs init number digits before more state s) (hdot : '.' ∉ digits)
    (hsmall : ∀ lexeme ∈ init, oversized? lexeme = none) :
    ∃ rest q, parse (String.ofList (before ++ (digits ++ '.' :: '0' :: rest))) = .ok q := by
  have hreads := Reads.of_readToken h.reads
  obtain ⟨-, d, ds, hdigits, hdecimal⟩ := isDecimal_of_reads hreads hdot
  obtain ⟨goal, frames, hfocus⟩ := h.focus
  -- the parser goes on after the number as after any operand
  let decimal : Token := .number (digits ++ ['.', '0'])
  let value : Expr := .num (.ofDigits (digits ++ ['.', '0']))
  have hstep : ∀ line, s.step line decimal = some (s.operandRead goal frames value) := by
    intro line
    obtain ⟨f, statements, blocks⟩ := s
    obtain rfl : f = .operand goal frames := hfocus
    rfl
  have hsound := (ParseState.sound_initial.run h.run).step (hstep 0)
  obtain ⟨ts, hts, -⟩ := ParseState.exists_completes hsound
  have hblank : StartsBlank (render (spaced 1 ts)) := by
    cases ts with
    | nil => simp [spaced, render, StartsBlank]
    | cons t ts => simp [spaced, render, Written.chars, StartsBlank, IsSpacing]
  have hnumeral : IsNumeral (digits ++ ['.', '0']) (render (spaced 1 ts)) :=
    .inr ⟨digits, ['0'], rfl, hdecimal, by simp; decide, by simp, fun c hc =>
      Bool.eq_false_iff.mpr fun hc' => not_isSpacing_of_isDecimal hc' (hblank c hc)⟩
  have haccepts : state.phase.accepts .number = true := accepts_of_readToken h.reads
  have hread : readToken state.phase.accepts ((digits ++ ['.', '0']) ++ render (spaced 1 ts))
      = some (decimal, (digits ++ ['.', '0']).length) := by
    simp only [decimal, hdigits] at hnumeral hdecimal ⊢
    exact readToken_number haccepts (hdecimal d List.mem_cons_self) hnumeral
  have htokens := h.read (['.', '0'] ++ render (spaced 1 ts))
  rw [← List.append_assoc digits, tokensFrom_token _ hread, TokenStream.prependAll_prepend] at htokens
  have hrun : ParseState.initial.run (init ++ [⟨decimal, String.ofList (digits ++ ['.', '0']),
      number.position⟩]) = .ok (s.operandRead goal frames value) := by
    rw [ParseState.run_append h.run, ParseState.run, hstep]
    rfl
  have hfollows : Follows (state.next decimal) (s.operandRead goal frames value) :=
    h.follows.step haccepts (hstep 0)
  have hparse := exists_parse_of_completes htokens hrun hfollows hts fun lexeme hlexeme => by
      rcases List.mem_append.mp hlexeme with hinit | hlast
      · exact hsmall lexeme hinit
      · rw [List.mem_singleton.mp hlast]
        simp [oversized?, decimal]
  exact ⟨render (spaced 1 ts), by simpa using hparse⟩

/-- So a text that ends with an integer, or with one and a full stop, goes on to a script. -/
theorem AtInteger.exists_parse {cs before more digits : List Char} {init : List Lexeme}
    {number : Lexeme} {state : LexState} {s : ParseState}
    (h : AtInteger cs init number digits before more state s) (hdot : '.' ∉ digits)
    (hsmall : ∀ lexeme ∈ init, oversized? lexeme = none) (hmore : more = [] ∨ more = ['.']) :
    ∃ rest q, parse (String.ofList (cs ++ rest)) = .ok q := by
  obtain ⟨rest, q, hparse⟩ := h.exists_parse_decimal hdot hsmall
  rw [h.split]
  rcases hmore with rfl | rfl
  · exact ⟨'.' :: '0' :: rest, q, by simpa using hparse⟩
  · exact ⟨'0' :: rest, q, by simpa using hparse⟩

/-- An integer that something else follows is one whatever comes after that. -/
theorem AtInteger.mem_tokens {cs before more digits : List Char} {init : List Lexeme}
    {number : Lexeme} {state : LexState} {s : ParseState}
    (h : AtInteger cs init number digits before more state s) (hdot : '.' ∉ digits)
    (hmore : more ≠ [] ∧ more ≠ ['.']) (rest : List Char) :
    ⟨.number digits, String.ofList digits, number.position⟩ ∈ (tokens (cs ++ rest)).lexemes := by
  obtain ⟨c, others, rfl⟩ := List.exists_cons_of_ne_nil hmore.1
  have hresumes : Resumes (c :: others) (c :: others ++ rest) := by
    refine .inr ⟨c, others, others ++ rest, rfl, rfl, fun hc => .inr ?_⟩
    cases others with
    | nil => exact absurd (by rw [hc]) hmore.2
    | cons d others => rfl
  have hkeeps : (Token.number digits).Keeps (c :: others) (c :: others ++ rest) := by
    rw [Token.Keeps, if_neg (by simp)]
    exact hresumes
  have hreads := Reads.of_readToken h.reads
  have hhash : '#' ∉ digits := by
    obtain ⟨-, -, -, -, hdecimal⟩ := isDecimal_of_reads hreads hdot
    exact fun hmem => absurd (hdecimal _ hmem) (by decide)
  have hread := readToken_keeps hhash h.reads hkeeps
  have htokens := h.read (c :: others ++ rest)
  rw [tokensFrom_token _ hread] at htokens
  rw [h.split, List.append_assoc, List.append_assoc, htokens]
  simp [TokenStream.prependAll, TokenStream.prepend]

/-! ## Texts that go on to a script -/

/-- A text that is read without a fault, and has no comments, goes on to a script if and only if none
of its integers is too long, but for one that it ends with, with or without a full stop. -/
theorem viable_iff {cs : List Char} {first : List Lexeme} {s : ParseState} (hhash : '#' ∉ cs)
    (htokens : tokens cs = ⟨first, none⟩) (hrun : ParseState.initial.run first = .ok s) :
    (∃ rest q, parse (String.ofList (cs ++ rest)) = .ok q) ↔
      ∀ lexeme ∈ first, oversized? lexeme ≠ none → lexeme.EndsText cs := by
  constructor
  · rintro ⟨rest, q, hparse⟩ number hmem hlong
    obtain ⟨digits, htoken, hdot⟩ := exists_digits_of_oversized hlong
    obtain ⟨init, tail, rfl⟩ := List.append_of_mem hmem
    obtain ⟨before, more, state, s₀, hat⟩ := exists_atInteger hhash htokens hrun htoken hdot
    have hmore : more = [] ∨ more = ['.'] := by
      by_contra hnot
      rw [not_or] at hnot
      have hnone := oversized?_of_parse hparse _ (hat.mem_tokens hdot hnot rest)
      refine hlong ?_
      rw [oversized?, htoken]
      exact hnone
    refine ⟨before, hat.place, ?_⟩
    rw [hat.text, hat.split]
    rcases hmore with rfl | rfl
    · exact .inl (by simp)
    · exact .inr (by simp)
  · intro hends
    cases hfind : first.find? fun lexeme => (oversized? lexeme).isSome with
    | none =>
        refine exists_parse_of_small hhash htokens hrun fun lexeme hlexeme => ?_
        simpa using List.find?_eq_none.mp hfind lexeme hlexeme
    | some number =>
        -- the first integer that is too long is the last token, or a full stop follows it
        obtain ⟨hlong, init, tail, rfl, hinit⟩ := List.find?_eq_some_iff_append.mp hfind
        have hsome : oversized? number ≠ none := Option.isSome_iff_ne_none.mp hlong
        obtain ⟨digits, htoken, hdot⟩ := exists_digits_of_oversized hsome
        obtain ⟨before, more, state, s₀, hat⟩ := exists_atInteger hhash htokens hrun htoken hdot
        refine hat.exists_parse hdot (fun lexeme hlexeme => by simpa using hinit lexeme hlexeme) ?_
        obtain ⟨before', hplace, htext⟩ := hends number (by simp) hsome
        rw [hat.text] at htext
        have hbefore : before = before' := by
          have hhere := textBefore_append hat.place (digits ++ more)
          rw [← hat.split] at hhere
          rw [← hhere]
          rcases htext with heq | heq
          · rw [heq, textBefore_append hplace]
          · rw [heq, List.append_assoc, textBefore_append hplace]
        rw [hat.split, hbefore] at htext
        rcases htext with heq | heq
        · exact .inl (by simpa using heq)
        · exact .inr (by simpa using heq)

/-! ## Syntax faults -/

/-- Where a script is refused for what is at a place, the tokens before it are parsed, and what comes
next, or the end, is there. -/
theorem exists_first_of_parse_error {text : String} {fault : SyntaxFault} {p : Position}
    (h : parse text = .error (.malformed fault)) (hp : fault.position? = some p) :
    ∃ first later s, (tokens text.toList).lexemes = first ++ later ∧
      ParseState.initial.run first = .ok s ∧
      ((∃ lexeme ∈ later.head?, lexeme.position = p) ∨
        later = [] ∧ (tokens text.toList).fault = some fault) := by
  unfold parse at h
  cases hstream : parseStream (tokens text.toList) with
  | ok statements =>
      rw [hstream] at h
      cases h
  | error fault' =>
      rw [hstream] at h
      obtain rfl : fault' = fault := by simpa using h
      unfold parseStream at hstream
      cases hrun : ParseState.initial.run (tokens text.toList).lexemes with
      | error bad =>
          obtain ⟨first, lexeme, later, s, hsplit, hfirst, rfl⟩ := ParseState.exists_of_run_error hrun
          obtain rfl : SyntaxFault.unexpectedToken lexeme.position lexeme.text = fault' := by
            simpa [hrun, bind, Except.bind] using hstream
          exact ⟨first, lexeme :: later, s, hsplit, hfirst, .inl ⟨lexeme, rfl, Option.some.inj hp⟩⟩
      | ok final =>
          simp only [hrun, bind, Except.bind] at hstream
          cases hfault : (tokens text.toList).fault with
          | some bad =>
              rw [hfault] at hstream
              obtain rfl : bad = fault' := by simpa using hstream
              exact ⟨_, [], final, (List.append_nil _).symm, hrun, .inr ⟨rfl, rfl⟩⟩
          | none =>
              simp only [hfault] at hstream
              split at hstream
              · split at hstream
                · obtain rfl := Except.error.inj hstream
                  cases hp
                · cases hstream
              · rename_i hcomplete
                obtain rfl := Except.error.inj hstream
                -- the end of a script is reported at its last token
                cases hlast : (tokens text.toList).lexemes.getLast? with
                | none =>
                    rw [List.getLast?_eq_none_iff.mp hlast] at hrun
                    cases hrun
                    exact absurd rfl hcomplete
                | some last =>
                    obtain ⟨first, hsplit⟩ := List.getLast?_eq_some_iff.mp hlast
                    rw [hsplit] at hrun
                    obtain ⟨s, hfirst, -⟩ := ParseState.exists_run_of_append hrun
                    refine ⟨first, [last], s, hsplit, hfirst, .inl ⟨last, rfl, ?_⟩⟩
                    simpa [SyntaxFault.position?, endPosition, hlast] using hp

/-- The text before a syntax fault is read without one. -/
theorem tokens_textBefore {text : String} {fault : SyntaxFault} {p : Position}
    (hhash : '#' ∉ text.toList) (h : parse text = .error (.malformed fault))
    (hp : fault.position? = some p) :
    ∃ first s, tokens (textBefore p ⟨1, 1⟩ text.toList) = ⟨first, none⟩ ∧
      ParseState.initial.run first = .ok s ∧
      placeAfter ⟨1, 1⟩ (textBefore p ⟨1, 1⟩ text.toList) = p ∧
      textBefore p ⟨1, 1⟩ text.toList <+: text.toList := by
  obtain ⟨first, later, s, hsplit, hrun, hlater⟩ := exists_first_of_parse_error h hp
  obtain ⟨before, after, state, hreaches, hstop⟩ := reaches_of_tokens hhash hsplit
  have hplace : placeAfter ⟨1, 1⟩ before = p := by
    rcases hlater with ⟨lexeme, hlexeme, rfl⟩ | ⟨rfl, hfault⟩
    · cases later with
      | nil => cases hlexeme
      | cons next later =>
          obtain rfl := Option.some.inj hlexeme
          exact hstop.1.symm
    · rw [hfault] at hstop
      exact Option.some.inj (Eq.trans hstop.symm hp)
  have hbefore : textBefore p ⟨1, 1⟩ text.toList = before := by
    rw [hreaches.split, textBefore_append hplace]
  refine ⟨first, s, ?_, hrun, by rw [hbefore, hplace], ?_⟩
  · have hread := hreaches.read [] fun last _ => by
      rw [Token.Keeps]
      split
      · simp
      · exact .inl (by simp [StartsBlank])
    rw [List.append_nil] at hread
    rw [hbefore, tokens, hread, tokensFrom]
    simp [TokenStream.prependAll]
  · rw [hbefore, hreaches.split]
    exact List.prefix_append before after

/-- Where a script without comments is refused for what is at a place, the text before that place goes
on to a script if and only if none of its integers is too long, but for one that it ends with, with or
without a full stop. -/
theorem viable_of_parse_error {text : String} {fault : SyntaxFault} {p : Position}
    (hhash : '#' ∉ text.toList) (h : parse text = .error (.malformed fault))
    (hp : fault.position? = some p) :
    textBefore p ⟨1, 1⟩ text.toList <+: text.toList ∧
      placeAfter ⟨1, 1⟩ (textBefore p ⟨1, 1⟩ text.toList) = p ∧
      ((∃ rest q, parse (String.ofList (textBefore p ⟨1, 1⟩ text.toList ++ rest)) = .ok q) ↔
        ∀ lexeme ∈ (tokens (textBefore p ⟨1, 1⟩ text.toList)).lexemes, oversized? lexeme ≠ none →
          lexeme.EndsText (textBefore p ⟨1, 1⟩ text.toList)) := by
  obtain ⟨first, s, htokens, hrun, hplace, hstart⟩ := tokens_textBefore hhash h hp
  refine ⟨hstart, hplace, ?_⟩
  have hnone : '#' ∉ textBefore p ⟨1, 1⟩ text.toList := fun hmem => hhash (hstart.subset hmem)
  rw [viable_iff hnone htokens hrun, htokens]

/-- A bracket that closes nothing, in the second line of a loop. -/
theorem viable_of_parse_error_bracket :
    ∃ text p, '#' ∉ text.toList ∧ parse text = .error (.malformed (.unexpectedToken p "]")) ∧
      textBefore p ⟨1, 1⟩ text.toList = "FOREACH $r IN [1]\n  SET $x = $r.a + f(2".toList ∧
      ∃ rest q, parse (String.ofList (textBefore p ⟨1, 1⟩ text.toList ++ rest)) = .ok q := by
  let text := "FOREACH $r IN [1]\n  SET $x = $r.a + f(2]\nENDFOREACH\n"
  have hfault : (match parse text with | .error fault => some fault | .ok _ => none)
      = some (.malformed (.unexpectedToken ⟨2, 22⟩ "]")) := by
    decide +kernel
  have hbefore : textBefore ⟨2, 22⟩ ⟨1, 1⟩ text.toList
      = "FOREACH $r IN [1]\n  SET $x = $r.a + f(2".toList := by
    decide +kernel
  have hsmall : ∀ lexeme ∈ (tokens "FOREACH $r IN [1]\n  SET $x = $r.a + f(2".toList).lexemes,
      oversized? lexeme = none := by
    decide +kernel
  cases hparse : parse text with
  | ok p =>
      rw [hparse] at hfault
      cases hfault
  | error fault =>
      rw [hparse] at hfault
      obtain rfl := Option.some.inj hfault
      obtain ⟨-, -, hviable⟩ := viable_of_parse_error (by decide) hparse rfl
      refine ⟨text, ⟨2, 22⟩, by decide, hparse, hbefore, hviable.mpr fun lexeme hlexeme hlong => ?_⟩
      rw [hbefore] at hlexeme
      exact absurd (hsmall lexeme hlexeme) hlong

/-! ## An integer that is too long -/

/-- An assignment of an integer, a space, and what follows. -/
def assignment (digits rest : List Char) : List Char :=
  ['S', 'E', 'T', ' ', '$', 'x', ' ', '=', ' '] ++ (digits ++ ' ' :: rest)

/-- The tokens of an assignment of an integer. -/
def assignmentTokens (digits : List Char) : List Lexeme :=
  [⟨.keyword .set, "SET", ⟨1, 1⟩⟩, ⟨.var "x", "$x", ⟨1, 5⟩⟩, ⟨.sign .assign, "=", ⟨1, 8⟩⟩,
    ⟨.number digits, String.ofList digits, ⟨1, 10⟩⟩]

/-- A token that a space follows. -/
theorem tokensFrom_space (state : LexState) (position : Position) {t rest : List Char} {token : Token}
    (h : readToken state.phase.accepts (t ++ ' ' :: rest) = some (token, t.length)) :
    tokensFrom state position (t ++ ' ' :: rest)
      = (tokensFrom (state.next token) (placeAfter position (t ++ [' '])) rest).prepend
        ⟨token, String.ofList t, position⟩ := by
  rw [tokensFrom_token position h, tokensFrom_blank _ _ (.inl rfl), placeAfter_append]

/-- An assignment of an integer is read up to what follows. -/
theorem tokens_assignment {d : Char} {digits : List Char} (hdigits : ∀ c ∈ d :: digits, isDecimal c = true)
    (rest : List Char) :
    tokens (assignment (d :: digits) rest)
      = (tokensFrom ⟨.operator false, .complete⟩
          (placeAfter ⟨1, 1⟩ (assignment (d :: digits) [])) rest).prependAll
            (assignmentTokens (d :: digits)) := by
  have hset : ∀ cs, readToken Phase.scriptStart.accepts (['S', 'E', 'T'] ++ ' ' :: cs)
      = some (.keyword .set, 3) := fun cs => rfl
  have hvar : ∀ cs, readToken Phase.assignedVar.accepts (['$', 'x'] ++ ' ' :: cs)
      = some (.var "x", 2) := fun cs => rfl
  have hassign : ∀ cs, readToken Phase.afterTarget.accepts (['='] ++ ' ' :: cs)
      = some (.sign .assign, 1) := fun cs => rfl
  have hnumber : readToken (Phase.operand true none).accepts (d :: digits ++ ' ' :: rest)
      = some (.number (d :: digits), (d :: digits).length) := by
    have hnext : ∀ c ∈ (' ' :: rest).head?, isDecimal c = false := by
      simp only [List.head?_cons, Option.mem_some_iff, forall_eq']
      decide
    have hnumeral : IsNumeral (d :: digits) (' ' :: rest) :=
      .inl ⟨hdigits, hnext, fun more heq => absurd (List.cons.inj heq).1 (by decide)⟩
    exact readToken_number rfl (hdigits d List.mem_cons_self) hnumeral
  have hlast : placeAfter ⟨1, 1⟩ (assignment (d :: digits) [])
      = placeAfter ⟨1, 10⟩ (d :: digits ++ [' ']) := by
    have hsplit := placeAfter_append ⟨1, 1⟩ ['S', 'E', 'T', ' ', '$', 'x', ' ', '=', ' ']
      (d :: digits ++ [' '])
    exact hsplit
  -- the tokens of the assignment, one by one, each at its place
  have hfirst := tokensFrom_space .initial ⟨1, 1⟩ (hset (['$', 'x'] ++ ' ' ::
    (['='] ++ ' ' :: (d :: digits ++ ' ' :: rest))))
  have hsecond := tokensFrom_space ⟨.assignedVar, .complete⟩ ⟨1, 5⟩
    (hvar (['='] ++ ' ' :: (d :: digits ++ ' ' :: rest)))
  have hthird := tokensFrom_space ⟨.afterTarget, .complete⟩ ⟨1, 8⟩
    (hassign (d :: digits ++ ' ' :: rest))
  have hfourth := tokensFrom_space ⟨.operand true none, .complete⟩ ⟨1, 10⟩ hnumber
  rw [hlast]
  calc tokens (assignment (d :: digits) rest)
      = _ := hfirst
    _ = _ := congrArg _ hsecond
    _ = _ := congrArg _ (congrArg _ hthird)
    _ = _ := congrArg _ (congrArg _ (congrArg _ hfourth))

/-- What follows an assignment comes after it. -/
theorem assignment_append (digits rest : List Char) :
    assignment digits rest = assignment digits [] ++ rest := by
  simp [assignment]

/-- The text before a fault does not go on to a script where it has an integer that is too long. -/
theorem not_viable_of_any_parse_error :
    ¬ ∀ (text : String) (fault : SyntaxFault) (p : Position), '#' ∉ text.toList →
      parse text = .error (.malformed fault) → fault.position? = some p →
      ∃ rest q, parse (String.ofList (textBefore p ⟨1, 1⟩ text.toList ++ rest)) = .ok q := by
  intro hall
  have hexists : ∀ n : Nat, ∃ more : List Char, (∀ c ∈ '1' :: more, c = '1') ∧
      ('1' :: more).length = n + 1 := fun n =>
    ⟨List.replicate n '1', fun c hc => List.eq_of_mem_replicate (n := n + 1) hc, by simp⟩
  obtain ⟨more, hones, hlength⟩ := hexists integerDigitLimit
  have hdigits : ∀ c ∈ '1' :: more, isDecimal c = true := by
    intro c hc
    rw [hones c hc]
    decide
  -- the whole text, and the part before the character that fits nowhere
  have hrun : ParseState.initial.run (assignmentTokens ('1' :: more)) = .ok
      ⟨.operator (.assign 1 "x" []) [] (.num (.ofDigits ('1' :: more))) none, [], []⟩ := rfl
  have hat : ∀ p, tokensFrom ⟨.operator false, .complete⟩ p ['@', '\n']
      = ⟨[], some (.unexpectedCharacter p '@')⟩ := by
    intro p
    rw [tokensFrom]
    rfl
  have htext := tokens_assignment hdigits ['@', '\n']
  have hbefore := tokens_assignment hdigits []
  generalize hp : placeAfter ⟨1, 1⟩ (assignment ('1' :: more) []) = p at htext hbefore
  rw [hat] at htext
  rw [tokensFrom] at hbefore
  have hparse : parse (String.ofList (assignment ('1' :: more) ['@', '\n']))
      = .error (.malformed (.unexpectedCharacter p '@')) := by
    unfold parse parseStream
    rw [String.toList_ofList, htext]
    simp [TokenStream.prependAll, hrun, bind, Except.bind]
  have hhash : ∀ rest, '#' ∉ rest → '#' ∉ assignment ('1' :: more) rest := by
    intro rest hrest
    have hmore : '#' ∉ more := fun hmem =>
      absurd (hones '#' (List.mem_cons_of_mem _ hmem)) (by decide)
    simp [assignment, hmore, hrest]
  have hgoes := hall _ _ p (by rw [String.toList_ofList]; exact hhash _ (by decide)) hparse rfl
  rw [String.toList_ofList, assignment_append, textBefore_append hp] at hgoes
  have hlong : oversized? ⟨.number ('1' :: more), String.ofList ('1' :: more), ⟨1, 10⟩⟩ ≠ none := by
    have hdot : '.' ∉ '1' :: more := fun hmem => absurd (hones '.' hmem) (by decide)
    simp [oversized?, hdot, hlength]
  obtain ⟨before, -, hends⟩ := (viable_iff (hhash [] (by simp)) hbefore hrun).mp hgoes _
    (by simp [assignmentTokens]) hlong
  -- the part ends with a space
  have hlast : (assignment ('1' :: more) []).getLast? = some ' ' := by
    rw [assignment, ← List.append_assoc, List.getLast?_append_of_ne_nil _ (List.cons_ne_nil _ _)]
    rfl
  rw [String.toList_ofList] at hends
  rcases hends with heq | heq
  · rw [heq, List.getLast?_append_of_ne_nil _ (List.cons_ne_nil _ _)] at hlast
    exact absurd (hones ' ' (List.mem_of_getLast? hlast)) (by decide)
  · rw [heq, List.getLast?_append_of_ne_nil _ (List.cons_ne_nil _ _)] at hlast
    exact absurd hlast (by decide)

end Rubric.Script
