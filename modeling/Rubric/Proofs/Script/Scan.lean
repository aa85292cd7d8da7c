import Rubric.Proofs.Script.Place
import Rubric.Proofs.Script.Spelling

/-!
# Scanning written lines

A text that is put together from tokens, with spaces before them, is read as those tokens, provided
that no token runs into the next and that the parsing machine takes them one after the other.

* `Leads` : what reading tokens leads a state of the machine to, whatever lines they start on;
* `Legible` : no token runs into the next;
* `scan_render` : the text of legible tokens that lead somewhere is read as those tokens.
-/

namespace Rubric.Script

open Rubric.Number Rubric.Text

/-! ## Where tokens lead -/

/-- Whether tokens, each read as itself at its place, lead from a state to one of a kind, whatever
lines they start on. -/
def ParseState.Leads : ParseState → List Token → (ParseState → Prop) → Prop
  | s, [], P => P s
  | s, token :: tokens, P =>
    s.place.phase.Tells token ∧
      ∀ line, ∃ s', s.step line token = some s' ∧ ParseState.Leads s' tokens P

/-- Tokens lead on from where those before them led. -/
theorem ParseState.leads_append {P : ParseState → Prop} {first second : List Token}
    {s : ParseState} :
    s.Leads (first ++ second) P ↔ s.Leads first fun s' => s'.Leads second P := by
  induction first generalizing s with
  | nil => rfl
  | cons token first ih =>
      simp only [List.cons_append, ParseState.Leads]
      constructor
      · rintro ⟨htells, hstep⟩
        refine ⟨htells, fun line => ?_⟩
        obtain ⟨s', hs', hleads⟩ := hstep line
        exact ⟨s', hs', ih.mp hleads⟩
      · rintro ⟨htells, hstep⟩
        refine ⟨htells, fun line => ?_⟩
        obtain ⟨s', hs', hleads⟩ := hstep line
        exact ⟨s', hs', ih.mpr hleads⟩

/-- Tokens that lead to states of a kind lead to those of any wider kind. -/
theorem ParseState.Leads.mono {P Q : ParseState → Prop} {tokens : List Token} {s : ParseState}
    (h : s.Leads tokens P) (hPQ : ∀ s', P s' → Q s') : s.Leads tokens Q := by
  induction tokens generalizing s with
  | nil => exact hPQ s h
  | cons token tokens ih =>
      obtain ⟨htells, hstep⟩ := h
      refine ⟨htells, fun line => ?_⟩
      obtain ⟨s', hs', hleads⟩ := hstep line
      exact ⟨s', hs', ih hleads⟩

/-- One token that leads to the same state on every line. -/
theorem ParseState.leads_cons {P : ParseState → Prop} {token : Token} {tokens : List Token}
    {s s' : ParseState} (htells : s.place.phase.Tells token)
    (hstep : ∀ line, s.step line token = some s') (h : s'.Leads tokens P) :
    s.Leads (token :: tokens) P :=
  ⟨htells, fun line => ⟨s', hstep line, h⟩⟩

/-- At the start of a script a token is read as at the start of its first line. -/
theorem Follows.tells {lex : LexState} {s : ParseState} {token : Token} (h : Follows lex s)
    (htells : s.place.phase.Tells token) : lex.phase.Tells token := by
  cases h with
  | place => exact htells
  | start =>
      obtain ⟨haccepts, hname⟩ := htells
      refine ⟨?_, fun ident k htoken hk => hname ident k htoken hk⟩
      cases token <;> first | exact haccepts | rfl

/-! ## Texts of tokens -/

/-- A token to be written, and how many spaces stand before it. -/
structure Written where
  gap : Nat
  token : Token
  deriving DecidableEq, Repr

/-- The text of a written token. -/
def Written.chars (w : Written) : List Char := List.replicate w.gap ' ' ++ w.token.chars

/-- The text of written tokens. -/
def render (ws : List Written) : List Char := ws.flatMap Written.chars

/-- The text of written tokens from the first token on, the spaces before it left out. -/
def renderTight : List Written → List Char
  | [] => []
  | w :: ws => w.token.chars ++ render ws

/-- How many spaces stand before the first token. -/
def firstGap : List Written → Nat
  | [] => 0
  | w :: _ => w.gap

/-- Whether every token can be written, none runs into the next, and no line is empty. -/
def Legible (numbers : Int → Bool) : List Written → Prop
  | [] => True
  | w :: ws =>
    (w.token.WellSpelled numbers ∧ w.token.EndsBefore (render ws) ∧
      (w.token = .newline → ∀ next ∈ ws.head?, next.token ≠ .newline)) ∧ Legible numbers ws

/-- A text starts with the spaces before its first token. -/
theorem render_eq (ws : List Written) :
    render ws = List.replicate (firstGap ws) ' ' ++ renderTight ws := by
  cases ws with
  | nil => rfl
  | cons w ws => simp [render, renderTight, firstGap, Written.chars, List.append_assoc]

/-! ## Reading on -/

/-- Skipped characters move the place of reading only. -/
theorem tokensFrom_skip {state : LexState} {position : Position} {cs : List Char} {n : Nat}
    (h : skipLength cs = n + 1) :
    tokensFrom state position cs =
      tokensFrom state (placeAfter position (cs.take (n + 1))) (cs.drop (n + 1)) := by
  cases cs with
  | nil => simp [skipLength] at h
  | cons c rest =>
      rw [tokensFrom]
      simp [h]

/-- A token stream with a lexeme before it. -/
def TokenStream.prepend (lexeme : Lexeme) (stream : TokenStream) : TokenStream :=
  { stream with lexemes := lexeme :: stream.lexemes }

/-- A token at the start of a text comes first. -/
theorem tokensFrom_read {state : LexState} {position : Position} {text rest : List Char}
    {token : Token} (hskip : skipLength (text ++ rest) = 0)
    (hread : readToken state.phase.accepts (text ++ rest) = some (token, text.length))
    (htext : text ≠ []) :
    tokensFrom state position (text ++ rest) =
      (tokensFrom (state.next token) (placeAfter position text) rest).prepend
        ⟨token, String.ofList text, position⟩ := by
  cases text with
  | nil => exact absurd rfl htext
  | cons c text =>
      rw [List.cons_append] at hskip hread ⊢
      rw [tokensFrom]
      simp [hskip, hread, TokenStream.prepend]

/-- Spaces are skipped, on their line. -/
theorem tokensFrom_spaces (state : LexState) (position : Position) (n : Nat) (cs : List Char) :
    ∃ position', position'.line = position.line ∧
      tokensFrom state position (List.replicate n ' ' ++ cs) = tokensFrom state position' cs := by
  induction n generalizing position with
  | zero => exact ⟨position, rfl, rfl⟩
  | succ n ih =>
      obtain ⟨position', hline, hspaces⟩ := ih (placeAfter position [' '])
      refine ⟨position', hline, ?_⟩
      rw [List.replicate_succ, List.cons_append, tokensFrom_skip (n := 0) rfl]
      exact hspaces

/-- Whether a character is neither skipped nor taken along by a line end. -/
def IsInk (c : Char) : Prop := c ≠ ' ' ∧ c ≠ '\t' ∧ c ≠ '#' ∧ c ≠ '\n' ∧ c ≠ '\r'

/-- Letters are ink. -/
theorem isInk_of_isIdentStart {c : Char} (h : isIdentStart c = true) : IsInk c := by
  refine ⟨?_, ?_, ?_, ?_, ?_⟩
  all_goals
    rintro rfl
    exact absurd h (by decide)

/-- Digits are ink. -/
theorem isInk_of_isDigit {c : Char} (h : c.isDigit = true) : IsInk c := by
  refine ⟨?_, ?_, ?_, ?_, ?_⟩
  all_goals
    rintro rfl
    exact absurd h (by decide)

/-- Written tokens other than line ends start with ink. -/
theorem isInk_chars {numbers : Int → Bool} {token : Token}
    (hspelled : token.WellSpelled numbers) (hnewline : token ≠ .newline) :
    ∃ c rest, token.chars = c :: rest ∧ IsInk c := by
  cases token with
  | newline => exact absurd rfl hnewline
  | keyword k =>
      obtain ⟨c, rest, htext, hc, -⟩ := isIdentifier_iff.mp (isIdentifier_text k)
      exact ⟨c, rest, htext, isInk_of_isIdentStart hc⟩
  | name ident =>
      obtain ⟨c, rest, htext, hc, -⟩ := isIdentifier_iff.mp hspelled
      exact ⟨c, rest, htext, isInk_of_isIdentStart hc⟩
  | var ident => exact ⟨'$', _, rfl, by simp [IsInk]⟩
  | number digits =>
      obtain ⟨n, -, rfl⟩ := hspelled
      cases hdigits : digitsOf n.natAbs with
      | nil => exact absurd hdigits Nat.toDigits_ne_nil
      | cons d digits =>
          have hd : d.isDigit = true := isDigit_of_mem_digitsOf (n := n.natAbs) (by simp [hdigits])
          exact ⟨d, digits, rfl, isInk_of_isDigit hd⟩
  | str value => exact ⟨'"', _, rfl, by simp [IsInk]⟩
  | sign s => cases s <;> exact ⟨_, _, rfl, by simp [IsInk]⟩

/-- Ink is not skipped. -/
theorem skipLength_ink {c : Char} (rest : List Char) (hc : IsInk c) :
    skipLength (c :: rest) = 0 := by
  obtain ⟨hspace, htab, hhash, -, -⟩ := hc
  unfold skipLength
  split <;> simp_all

/-- A line end takes the spaces of the next line along, up to its first token. -/
theorem marginLength_spaces (n : Nat) {cs : List Char} (hcs : ∀ c ∈ cs.head?, IsInk c) :
    marginLength false (List.replicate n ' ' ++ cs) = n := by
  induction n with
  | zero =>
      cases cs with
      | nil => rfl
      | cons c rest =>
          obtain ⟨hspace, htab, hhash, hline, hreturn⟩ := hcs c (by simp)
          rw [List.replicate_zero, List.nil_append]
          unfold marginLength
          split <;> simp_all
  | succ n ih =>
      rw [List.replicate_succ, List.cons_append, marginLength, ih]

/-- A line end is read with the spaces of the next line. -/
theorem readToken_newline {numbers : Int → Bool} {phase : Phase} {ws : List Written}
    (hlegible : Legible numbers ws)
    (haccepts : phase.accepts .newline = true)
    (hnext : ∀ next ∈ ws.head?, next.token ≠ .newline) :
    readToken phase.accepts ('\n' :: render ws) = some (.newline, firstGap ws + 1) := by
  have hink : ∀ c ∈ (renderTight ws).head?, IsInk c := by
    cases ws with
    | nil => simp [renderTight]
    | cons w ws =>
        obtain ⟨c, rest, hchars, hc⟩ := isInk_chars hlegible.1.1 (hnext w (by simp))
        simpa [renderTight, hchars] using hc
  have hdecimal : isDecimal '\n' = false := by decide
  simp [readToken, hdecimal, isIdentStart, keepAccepted, readNewline, render_eq ws,
    marginLength_spaces (firstGap ws) hink, haccepts, Token.kind]

/-! ## Scanning -/

/-- A lexeme moves the machine by its token. -/
theorem ParseState.run_cons {s s' : ParseState} {lexeme : Lexeme} (rest : List Lexeme)
    (h : s.step lexeme.position.line lexeme.token = some s') :
    s.run (lexeme :: rest) = s'.run rest := by
  rw [ParseState.run, h]

/-- From its first token on, the text of legible tokens that lead somewhere is read as those
tokens. -/
theorem scan_renderTight {numbers : Int → Bool} {P : ParseState → Prop} {ws : List Written} :
    ∀ {lex : LexState} {s : ParseState} (position : Position), Follows lex s →
      Legible numbers ws → s.Leads (ws.map Written.token) P →
      ∃ lexemes s', tokensFrom lex position (renderTight ws) = ⟨lexemes, none⟩ ∧
        lexemes.map Lexeme.token = ws.map Written.token ∧ s.run lexemes = .ok s' ∧ P s' := by
  induction ws with
  | nil =>
      intro lex s position _ _ hleads
      refine ⟨[], s, ?_, rfl, rfl, hleads⟩
      rw [renderTight, tokensFrom]
  | cons w ws ih =>
      rintro lex s position hfollows ⟨⟨hspelled, hends, hnext⟩, hlegible⟩ ⟨htells, hstep⟩
      have htells' := hfollows.tells htells
      obtain ⟨s', hs', hleads⟩ := hstep position.line
      have hfollows' := hfollows.step htells'.1 hs'
      by_cases hnewline : w.token = .newline
      · -- the spaces before the next token go with the line end
        rw [hnewline] at htells' hs' hfollows'
        obtain ⟨lexemes, final, hread, htokens, hrun, hP⟩ :=
          ih (placeAfter position ('\n' :: List.replicate (firstGap ws) ' ')) hfollows' hlegible
            hleads
        have hsplit : w.token.chars ++ render ws
            = ('\n' :: List.replicate (firstGap ws) ' ') ++ renderTight ws := by
          rw [hnewline, render_eq ws]
          rfl
        have htoken := readToken_newline hlegible htells'.1 (hnext hnewline)
        refine ⟨⟨.newline, String.ofList ('\n' :: List.replicate (firstGap ws) ' '), position⟩
          :: lexemes, final, ?_, ?_, ?_, hP⟩
        · rw [renderTight, hsplit, tokensFrom_read rfl _ (List.cons_ne_nil _ _), hread]
          · rfl
          · rw [render_eq ws] at htoken
            simpa using htoken
        · rw [List.map_cons, List.map_cons, htokens, hnewline]
        · rw [ParseState.run_cons lexemes hs', hrun]
      · obtain ⟨c, rest, hchars, hc⟩ := isInk_chars hspelled hnewline
        have htoken := readToken_chars hnewline hspelled htells' hends
        have hskip : skipLength (w.token.chars ++ render ws) = 0 := by
          rw [hchars]
          exact skipLength_ink _ hc
        obtain ⟨position', -, hspaces⟩ := tokensFrom_spaces (lex.next w.token)
          (placeAfter position w.token.chars) (firstGap ws) (renderTight ws)
        obtain ⟨lexemes, final, hread, htokens, hrun, hP⟩ :=
          ih position' hfollows' hlegible hleads
        refine ⟨⟨w.token, String.ofList w.token.chars, position⟩ :: lexemes, final, ?_, ?_, ?_,
          hP⟩
        · rw [renderTight, tokensFrom_read hskip htoken (by simp [hchars]), render_eq ws, hspaces,
            hread]
          rfl
        · rw [List.map_cons, List.map_cons, htokens]
        · rw [ParseState.run_cons lexemes hs', hrun]

/-- The text of legible tokens that lead somewhere is read as those tokens, and the machine gets
there. -/
theorem scan_render {numbers : Int → Bool} {P : ParseState → Prop} {ws : List Written}
    {lex : LexState} {s : ParseState}
    (position : Position) (hfollows : Follows lex s) (hlegible : Legible numbers ws)
    (hleads : s.Leads (ws.map Written.token) P) :
    ∃ lexemes s', tokensFrom lex position (render ws) = ⟨lexemes, none⟩ ∧
      lexemes.map Lexeme.token = ws.map Written.token ∧ s.run lexemes = .ok s' ∧ P s' := by
  obtain ⟨position', -, hspaces⟩ := tokensFrom_spaces lex position (firstGap ws) (renderTight ws)
  rw [render_eq, hspaces]
  exact scan_renderTight position' hfollows hlegible hleads

end Rubric.Script
