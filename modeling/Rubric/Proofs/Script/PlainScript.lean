import Mathlib.Data.List.Forall2
import Rubric.Proofs.Script.Literals
import Rubric.Proofs.Script.PlainText

/-!
# Which scripts keep their statements under plain whitespace

Tabs in strings become spaces.  A script whose carriage returns all stand before line feeds has the
same tokens on the same lines after the whitespace pass, but for the strings that are written with
tabs; so it has the same statements if and only if there is no such string.

* `tokensFrom_respaced` : the tokens of a text after the pass;
* `plainWhitespace_of_parse` : which scripts keep their statements.
-/

namespace Rubric.Script

open Rubric.Text

/-! ## Strings that are written with tabs -/

/-- Whether a lexeme is a string that is written with a tab. -/
def Lexeme.isTabbed (lexeme : Lexeme) : Bool :=
  lexeme.token.kind == .str && lexeme.text.toList.contains '\t'

/-- Whether a lexeme is what another becomes: it is on the same line, and the same token, or a string
with fewer tabs in its value where the other is written with one. -/
structure Lexeme.Becomes (lexeme lexeme' : Lexeme) : Prop where
  line_eq : lexeme'.position.line = lexeme.position.line
  token_eq : lexeme.isTabbed = false → lexeme'.token = lexeme.token
  tabs_lt : lexeme.isTabbed = true → ∃ value value', lexeme.token = .str value ∧
    lexeme'.token = .str value' ∧ value'.toList.count '\t' < value.toList.count '\t'

/-- Other tokens are not tabbed. -/
theorem isTabbed_of_kind_ne {lexeme : Lexeme} (h : lexeme.token.kind ≠ .str) :
    lexeme.isTabbed = false := by
  simp [Lexeme.isTabbed, h]

/-! ## One token -/

/-- What starts with no quote and is no line end is written without spacing. -/
theorem Reads.not_isSpacing {token : Token} {c : Char} {t rest : List Char}
    (h : Reads token (c :: t) rest) (hc : StartsInline c) :
    token.kind ≠ .str ∧ ∀ d ∈ c :: t, ¬ IsSpacing d := by
  obtain ⟨hdouble, hsingle, hfeed, hreturn⟩ := hc
  generalize ht : c :: t = text at h ⊢
  cases h with
  | name hword =>
      exact ⟨by simp [Token.kind], fun d hd => not_isSpacing_of_isIdentRest (hword.1 d hd)⟩
  | keyword => exact ⟨by simp [Token.kind], not_isSpacing_keyword _⟩
  | operator => exact ⟨by simp [Token.kind], not_isSpacing_keyword _⟩
  | var hword =>
      refine ⟨by simp [Token.kind], fun d hd => ?_⟩
      rcases List.mem_cons.mp hd with rfl | hd
      · decide
      · exact not_isSpacing_of_isIdentRest (hword.1 d hd)
  | number _ hdigits =>
      refine ⟨by simp [Token.kind], fun d hd => ?_⟩
      rcases hdigits d hd with hdecimal | rfl
      · exact not_isSpacing_of_isDecimal hdecimal
      · decide
  | str hquote =>
      obtain rfl := (List.cons.inj ht).1
      rcases hquote with rfl | rfl <;> contradiction
  | newline => exact absurd (List.cons.inj ht).1 hfeed
  | crlf => exact absurd (List.cons.inj ht).1 hreturn
  | @sign s => exact ⟨by simp [Token.kind], not_isSpacing_sign s⟩

/-- Whether the respaced text starts with the token, of so many characters and one more, that the text
starts with, up to the tabs in strings; the texts after it are respaced again. -/
def RespacedToken (accepts : TokenKind → Bool) (cs : List Char) (token : Token) (n : Nat)
    (cs' : List Char) : Prop :=
  ∃ token' n', readToken accepts cs' = some (token', n' + 1) ∧
    token'.kind = token.kind ∧
    (cs'.take (n' + 1)).count '\n' = (cs.take (n + 1)).count '\n' ∧
    Respaced (cs.drop (n + 1)) (cs'.drop (n' + 1)) ∧
    ∀ position position' : Position, position'.line = position.line →
      Lexeme.Becomes ⟨token, String.ofList (cs.take (n + 1)), position⟩
        ⟨token', String.ofList (cs'.take (n' + 1)), position'⟩

/-- Where a quote stands, a string is read. -/
theorem readToken_quote (accepts : TokenKind → Bool) {quote : Char}
    (hquote : quote = '"' ∨ quote = '\'') (rest : List Char) :
    readToken accepts (quote :: rest) = keepAccepted accepts (readString quote rest) := by
  rcases hquote with rfl | rfl <;> rfl

/-- A string is read up to the first quote that is not escaped. -/
theorem readString_iff {quote : Char} (hquote : quote = '"' ∨ quote = '\'') {cs : List Char}
    {token : Token} {n : Nat} :
    readString quote cs = some (token, n + 1) ↔
      ∃ inner rest, cs = inner ++ quote :: rest ∧ Quoted quote inner ∧
        token = .str (String.ofList (unescape inner)) ∧ n = inner.length + 1 := by
  unfold readString
  rw [Option.map_eq_some_iff]
  constructor
  · rintro ⟨m, hm, hread⟩
    obtain ⟨inner, rest, rfl, hinner, rfl⟩ := (stringLength?_iff hquote).mp hm
    simp only [Nat.add_sub_cancel, List.take_left, Prod.mk.injEq] at hread
    exact ⟨inner, rest, rfl, hinner, hread.1.symm, by omega⟩
  · rintro ⟨inner, rest, rfl, hinner, rfl, rfl⟩
    exact ⟨inner.length + 1, (stringLength?_iff hquote).mpr ⟨inner, rest, rfl, hinner, rfl⟩,
      by simp⟩

/-- A string that is read at the start of a text is read at the start of the respaced text, up to its
tabs. -/
theorem exists_readToken_string {accepts : TokenKind → Bool} {quote : Char}
    (hquote : quote = '"' ∨ quote = '\'') {cs cs' : List Char} {token : Token} {n : Nat}
    (h : readToken accepts (quote :: cs) = some (token, n + 1)) (hcs : Respaced (quote :: cs) cs') :
    RespacedToken accepts (quote :: cs) token n cs' := by
  have hplain : quote ≠ '\r' ∧ quote ≠ '\t' ∧ quote ≠ '\n' := by rcases hquote with rfl | rfl <;> decide
  obtain ⟨more', rfl, hmore⟩ := hcs.of_cons hplain.1 hplain.2.1
  rw [readToken_quote accepts hquote] at h
  obtain ⟨hread, haccepts⟩ := Option.filter_eq_some_iff.mp h
  obtain ⟨inner, rest, rfl, hinner, rfl, rfl⟩ := (readString_iff hquote).mp hread
  obtain ⟨inner', rest', rfl, hinner', hrest, hsame, htabs⟩ := hmore.quoted hquote hinner
  have htake : ∀ inner rest : List Char, (quote :: (inner ++ quote :: rest)).take (inner.length + 1 + 1) =
      quote :: (inner ++ [quote]) := by
    intro inner rest
    rw [List.take_succ_cons, List.append_cons, List.take_left' (by simp)]
  have hdrop : ∀ inner rest : List Char,
      (quote :: (inner ++ quote :: rest)).drop (inner.length + 1 + 1) = rest := by
    intro inner rest
    rw [List.drop_succ_cons, List.append_cons, List.drop_left' (by simp)]
  have hfeeds : ∀ {inner : List Char}, Quoted quote inner → (quote :: (inner ++ [quote])).count '\n' = 0 := by
    intro inner hinner
    rw [List.count_eq_zero]
    simp [hinner.newline_notMem, hplain.2.2.symm]
  have hcontains : (quote :: (inner ++ [quote])).contains '\t' = inner.contains '\t' := by
    simp [hplain.2.1.symm]
  refine ⟨.str (String.ofList (unescape inner')), inner'.length + 1, ?_, rfl, ?_, ?_, ?_⟩
  · rw [readToken_quote accepts hquote]
    exact Option.filter_eq_some_iff.mpr
      ⟨(readString_iff hquote).mpr ⟨inner', rest', rfl, hinner', rfl, rfl⟩, haccepts⟩
  · rw [htake, htake, hfeeds hinner, hfeeds hinner']
  · rw [hdrop, hdrop]
    exact hrest
  · intro position position' hline
    refine ⟨hline, fun htabbed => ?_, fun htabbed => ⟨_, _, rfl, rfl, ?_⟩⟩
    · simp only [Lexeme.isTabbed, Token.kind, htake, String.toList_ofList, hcontains, beq_self_eq_true,
        Bool.true_and, List.contains_eq_mem, decide_eq_false_iff_not] at htabbed
      rw [hsame htabbed]
    · simp only [Lexeme.isTabbed, Token.kind, htake, String.toList_ofList, hcontains, beq_self_eq_true,
        Bool.true_and, List.contains_eq_mem, decide_eq_true_eq] at htabbed
      rw [String.toList_ofList, String.toList_ofList, ← htabs]
      have hpos := List.count_pos_iff.mpr htabbed
      omega

/-- A line end that is read at the start of a text is read at the start of the respaced text. -/
theorem exists_readToken_newline {accepts : TokenKind → Bool} {c : Char} (hc : c = '\n' ∨ c = '\r')
    {cs cs' : List Char} {token : Token} {n : Nat}
    (h : readToken accepts (c :: cs) = some (token, n + 1)) (hcs : Respaced (c :: cs) cs') :
    RespacedToken accepts (c :: cs) token n cs' := by
  have hline : ∀ more, readToken accepts ('\n' :: more) =
      keepAccepted accepts (some (.newline, marginLength false more + 1)) := fun _ => rfl
  have hbecomes : ∀ t t' (position position' : Position), position'.line = position.line →
      Lexeme.Becomes ⟨.newline, t, position⟩ ⟨.newline, t', position'⟩ :=
    fun t t' position position' heq => ⟨heq, fun _ => rfl, fun htabbed => by cases htabbed⟩
  rcases hc with rfl | rfl
  · obtain ⟨rest', rfl, hrest⟩ := hcs.of_cons (by decide) (by decide)
    rw [hline] at h
    obtain ⟨hread, haccepts⟩ := Option.filter_eq_some_iff.mp h
    simp only [Option.some.injEq, Prod.mk.injEq, Nat.add_right_cancel_iff] at hread
    obtain ⟨rfl, rfl⟩ := hread
    obtain ⟨hcount, hdrop⟩ := hrest.margin false
    refine ⟨.newline, marginLength false rest', ?_, rfl, ?_, hdrop, fun _ _ => hbecomes _ _ _ _⟩
    · rw [hline]
      exact Option.filter_eq_some_iff.mpr ⟨rfl, haccepts⟩
    · rw [List.take_succ_cons, List.take_succ_cons, List.count_cons_self, List.count_cons_self, hcount]
  · cases hcs with
    | char hreturn => exact absurd rfl hreturn
    | @crlf rest rest' hrest =>
        have hcrlf : readToken accepts ('\r' :: '\n' :: rest) =
            keepAccepted accepts (some (.newline, marginLength false rest + 2)) := rfl
        rw [hcrlf] at h
        obtain ⟨hread, haccepts⟩ := Option.filter_eq_some_iff.mp h
        simp only [Option.some.injEq, Prod.mk.injEq] at hread
        obtain ⟨rfl, hn⟩ := hread
        obtain rfl : n = marginLength false rest + 1 := by omega
        obtain ⟨hcount, hdrop⟩ := hrest.margin false
        refine ⟨.newline, marginLength false rest', ?_, rfl, ?_, hdrop, fun _ _ => hbecomes _ _ _ _⟩
        · rw [hline]
          exact Option.filter_eq_some_iff.mpr ⟨rfl, haccepts⟩
        · rw [List.take_succ_cons, List.take_succ_cons, List.take_succ_cons, List.count_cons_self,
            List.count_cons_of_ne (by decide), List.count_cons_self, hcount]

/-- What is read at the start of a text is read at the start of the respaced text, up to the tabs in
strings; the texts after it are respaced again. -/
theorem exists_readToken_respaced {phase : Phase} {cs cs' : List Char} {token : Token} {n : Nat}
    (h : readToken phase.accepts cs = some (token, n + 1)) (hcs : Respaced cs cs') :
    RespacedToken phase.accepts cs token n cs' := by
  cases cs with
  | nil => cases h
  | cons c rest =>
      by_cases hc : StartsInline c
      · obtain ⟨hkind, hinline⟩ := Reads.not_isSpacing (reads_of_readToken h) hc
        obtain ⟨hread, htake, hdrop⟩ := readToken_respaced hc h hinline hcs
        refine ⟨token, n, hread, rfl, by rw [htake], hdrop, fun position position' hline =>
          ⟨hline, fun _ => rfl, fun htabbed => ?_⟩⟩
        rw [isTabbed_of_kind_ne hkind] at htabbed
        cases htabbed
      · have hcases : (c = '"' ∨ c = '\'') ∨ c = '\n' ∨ c = '\r' := by
          by_contra hnot
          simp only [not_or] at hnot
          exact hc ⟨hnot.1.1, hnot.1.2, hnot.2.1, hnot.2.2⟩
        rcases hcases with hquote | hline
        · exact exists_readToken_string hquote h hcs
        · exact exists_readToken_newline hline h hcs

/-! ## All tokens -/

/-- Where reading goes on depends on the kind of a token. -/
theorem LexState.next_of_kind {token token' : Token} (h : token'.kind = token.kind)
    (state : LexState) : state.next token' = state.next token := by
  cases token <;> cases token' <;> simp only [Token.kind, reduceCtorEq, TokenKind.keyword.injEq,
    TokenKind.sign.injEq] at h <;> first | rfl | rw [h]

/-- A comment is respaced to a comment. -/
theorem Respaced.comment {comment rest cs' : List Char} (hfeed : '\n' ∉ comment)
    (hrest : ∀ c ∈ rest.head?, c = '\n') (h : Respaced (comment ++ rest) cs') :
    ∃ comment' rest', cs' = comment' ++ rest' ∧ '\n' ∉ comment' ∧ (∀ c ∈ rest'.head?, c = '\n') ∧
      Respaced rest rest' := by
  induction comment generalizing cs' with
  | nil =>
      refine ⟨[], cs', rfl, by simp, ?_, h⟩
      cases rest with
      | nil =>
          cases h
          simp
      | cons c rest =>
          obtain rfl := hrest c rfl
          obtain ⟨rest', rfl, -⟩ := h.of_cons (by decide) (by decide)
          simp
  | cons c comment ih =>
      rw [List.mem_cons, not_or] at hfeed
      rw [List.cons_append] at h
      generalize hmore : comment ++ rest = more at h ih
      cases h with
      | @crlf more more' h =>
          -- the carriage return is the end of the comment
          cases comment with
          | nil =>
              rw [List.nil_append] at hmore
              subst hmore
              exact ⟨[], '\n' :: more', rfl, by simp, by simp, .char (by decide) (by decide) h⟩
          | cons d comment => exact absurd (List.cons.inj hmore).1 fun heq => hfeed.2 (by simp [heq])
      | tab n h =>
          obtain ⟨comment', rest', rfl, hfeed', hrest', hrespaced⟩ := ih hfeed.2 h
          exact ⟨List.replicate (n + 1) ' ' ++ comment', rest', by simp, by simp [hfeed'], hrest',
            hrespaced⟩
      | char hreturn htab h =>
          obtain ⟨comment', rest', rfl, hfeed', hrest', hrespaced⟩ := ih hfeed.2 h
          exact ⟨c :: comment', rest', rfl, by simp [hfeed.1, hfeed'], hrest', hrespaced⟩

/-- A text that is read to its end has, after the pass, the same tokens on the same lines, up to the
tabs in its strings. -/
theorem tokensFrom_respaced {state : LexState} {position : Position} {cs : List Char}
    (h : (tokensFrom state position cs).fault = none) :
    ∀ {position' : Position} {cs' : List Char}, Respaced cs cs' → position'.line = position.line →
      (tokensFrom state position' cs').fault = none ∧
        List.Forall₂ Lexeme.Becomes (tokensFrom state position cs).lexemes
          (tokensFrom state position' cs').lexemes := by
  induction state, position, cs using tokensFrom_induction with
  | nil state position =>
      intro position' cs' hcs hline
      cases hcs
      rw [tokensFrom_nil, tokensFrom_nil]
      exact ⟨rfl, .nil⟩
  | blank state position c rest hc ih =>
      intro position' cs' hcs hline
      rw [tokensFrom_blank state position hc] at h ⊢
      have hsame : (placeAfter position [c]).line = position.line := by rcases hc with rfl | rfl <;> rfl
      rcases hc with rfl | rfl
      -- a space stays one; a tab becomes spaces
      · obtain ⟨rest', rfl, hrespaced⟩ := hcs.of_cons (by decide) (by decide)
        rw [tokensFrom_blank state position' (.inl rfl)]
        exact ih h hrespaced (hline.trans hsame.symm)
      · cases hcs with
        | tab k hrespaced =>
            obtain ⟨after, hafter, hspaces⟩ := tokensFrom_spaces state position' (k + 1) _
            rw [hspaces]
            exact ih h hrespaced (by rw [hafter, hline, hsame])
        | char _ htab => exact absurd rfl htab
  | comment state position comment rest hfeed hrest ih =>
      intro position' cs' hcs hline
      rw [tokensFrom_comment state position hfeed hrest] at h ⊢
      obtain ⟨after, rfl, hafter⟩ := Respaced.of_cons hcs (by decide) (by decide)
      obtain ⟨comment', rest', rfl, hfeed', hrest', hrespaced⟩ := hafter.comment hfeed hrest
      have hlines : ∀ {comment : List Char} (position : Position), '\n' ∉ comment →
          (placeAfter position ('#' :: comment)).line = position.line := by
        intro comment position hfeed
        rw [placeAfter_of_notMem position (by simpa using hfeed)]
      rw [← List.cons_append, tokensFrom_comment state position' hfeed' hrest']
      exact ih h hrespaced (by rw [hlines _ hfeed, hlines _ hfeed', hline])
  | token state position token t rest hread ih =>
      intro position' cs' hcs hline
      obtain ⟨c, t, rfl⟩ := List.exists_cons_of_ne_nil (Reads.of_readToken hread).ne_nil
      obtain ⟨token', n', hread', hkind, hfeeds, hrespaced, hbecomes⟩ :=
        exists_readToken_respaced hread hcs
      obtain ⟨t', rest', rfl, hlength⟩ := exists_append_of_readToken hread'
      -- both tokens and what follows them, told by their lengths
      have hlength' : t.length + 1 = (c :: t).length := rfl
      simp only [hlength, hlength', List.take_left, List.drop_left] at hread' hfeeds hrespaced hbecomes
      rw [tokensFrom_token position hread] at h ⊢
      rw [tokensFrom_token position' hread', LexState.next_of_kind hkind]
      have hlines : (placeAfter position' t').line = (placeAfter position (c :: t)).line := by
        rw [line_placeAfter, line_placeAfter, hline, hfeeds]
      obtain ⟨hfault, hlexemes⟩ := ih h hrespaced hlines
      exact ⟨hfault, .cons (hbecomes _ _ hline) hlexemes⟩
  | stuck state position c rest hskip hread =>
      rw [tokensFrom_stuck hskip hread] at h
      cases h

/-! ## Scripts that are parsed -/

/-- Where no string is tabbed, the lexemes are the same tokens on the same lines. -/
theorem run_of_becomes {lexemes lexemes' : List Lexeme}
    (h : List.Forall₂ Lexeme.Becomes lexemes lexemes')
    (htabs : ∀ lexeme ∈ lexemes, lexeme.isTabbed = false) {s final : ParseState}
    (hrun : s.run lexemes = .ok final) : s.run lexemes' = .ok final := by
  induction h generalizing s with
  | nil => exact hrun
  | @cons lexeme lexeme' lexemes lexemes' hbecomes _ ih =>
      rw [List.forall_mem_cons] at htabs
      rw [ParseState.run] at hrun ⊢
      rw [hbecomes.line_eq, hbecomes.token_eq htabs.1]
      cases hstep : s.step lexeme.position.line lexeme.token with
      | none => simp [hstep] at hrun
      | some s' =>
          rw [hstep] at hrun
          exact ih htabs.2 hrun

/-- Where no string is tabbed, no number gets too many digits. -/
theorem oversized?_of_becomes {lexemes lexemes' : List Lexeme}
    (h : List.Forall₂ Lexeme.Becomes lexemes lexemes')
    (htabs : ∀ lexeme ∈ lexemes, lexeme.isTabbed = false) :
    lexemes'.findSome? oversized? = lexemes.findSome? oversized? := by
  induction h with
  | nil => rfl
  | cons hbecomes _ ih =>
      rw [List.forall_mem_cons] at htabs
      simp only [List.findSome?_cons, oversized?, hbecomes.token_eq htabs.1, ih htabs.2]

/-- The tabs in the values of tokens. -/
def tabCount (lexemes : List Lexeme) : Nat :=
  (lexemes.map fun lexeme => lexeme.token.weight fun value => value.toList.count '\t').sum

/-- The values have no more tabs than before, and fewer where a string is tabbed. -/
theorem tabCount_of_becomes {lexemes lexemes' : List Lexeme}
    (h : List.Forall₂ Lexeme.Becomes lexemes lexemes') :
    tabCount lexemes' ≤ tabCount lexemes ∧
      ((∃ lexeme ∈ lexemes, lexeme.isTabbed = true) → tabCount lexemes' < tabCount lexemes) := by
  induction h with
  | nil => exact ⟨le_rfl, by simp⟩
  | @cons lexeme lexeme' lexemes lexemes' hbecomes _ ih =>
      obtain ⟨hle, hlt⟩ := ih
      simp only [tabCount, List.map_cons, List.sum_cons] at hle hlt ⊢
      cases htabbed : lexeme.isTabbed with
      | false =>
          rw [hbecomes.token_eq htabbed]
          refine ⟨by omega, fun hexists => ?_⟩
          obtain ⟨other, hmem, hother⟩ := hexists
          rcases List.mem_cons.mp hmem with rfl | hmem
          · rw [htabbed] at hother
            cases hother
          · have hfewer := hlt ⟨other, hmem, hother⟩
            omega
      | true =>
          obtain ⟨value, value', htoken, htoken', hfewer⟩ := hbecomes.tabs_lt htabbed
          rw [htoken, htoken', Token.weight_str, Token.weight_str]
          exact ⟨by omega, fun _ => by omega⟩

/-- A parsed script is a token stream that is read to its end, with the statements of the machine. -/
theorem parse_eq_ok_iff {text : String} {p : Program} :
    parse text = .ok p ↔ parseStream (tokens text.toList) = .ok p.statements ∧ p.source = text := by
  unfold parse
  cases parseStream (tokens text.toList) with
  | error fault => simp
  | ok statements =>
      obtain ⟨statements', source⟩ := p
      simp [eq_comm]

/-- Where no string is tabbed, the same statements are parsed. -/
theorem parseStream_of_becomes {stream stream' : TokenStream}
    (hfault : stream.fault = none) (hfault' : stream'.fault = none)
    (h : List.Forall₂ Lexeme.Becomes stream.lexemes stream'.lexemes)
    (htabs : ∀ lexeme ∈ stream.lexemes, lexeme.isTabbed = false) {statements : List Stmt}
    (hparse : parseStream stream = .ok statements) : parseStream stream' = .ok statements := by
  unfold parseStream at hparse ⊢
  cases hrun : ParseState.initial.run stream.lexemes with
  | error fault => simp [hrun, bind, Except.bind] at hparse
  | ok final =>
      rw [run_of_becomes h htabs hrun]
      simp only [hrun, hfault, hfault', oversized?_of_becomes h htabs, bind, Except.bind] at hparse ⊢
      split at hparse
      · rename_i hcomplete
        rw [if_pos hcomplete]
        exact hparse
      · cases hparse

/-- A script whose carriage returns all stand before line feeds has the same statements, on the same
lines, after the whitespace pass if and only if none of its strings is written with a tab. -/
theorem plainWhitespace_of_parse {text : String} {p : Program} (h : parse text = .ok p)
    (hreturns : returnsEndLines text.toList = true) :
    (∃ q, parse (String.ofList (plainWhitespace text.toList)) = .ok q ∧
        q.statements = p.statements) ↔
      ∀ lexeme ∈ (tokens text.toList).lexemes, lexeme.isTabbed = false := by
  obtain ⟨hfault', hbecomes⟩ : (tokens (plainWhitespace text.toList)).fault = none ∧
      List.Forall₂ Lexeme.Becomes (tokens text.toList).lexemes
        (tokens (plainWhitespace text.toList)).lexemes :=
    tokensFrom_respaced (fault_of_parse h) (respaced_plainWhitespace hreturns) rfl
  obtain ⟨hstream, -⟩ := parse_eq_ok_iff.mp h
  constructor
  · rintro ⟨q, hq, hsame⟩
    obtain ⟨hstream', -⟩ := parse_eq_ok_iff.mp hq
    rw [String.toList_ofList] at hstream'
    -- the tabs in the strings of the statements are those of the tokens
    have hcount := weight_of_parseStream (fun value => value.toList.count '\t') hstream
    have hcount' := weight_of_parseStream (fun value => value.toList.count '\t') hstream'
    rw [hsame] at hcount'
    by_contra hnot
    have hexists : ∃ lexeme ∈ (tokens text.toList).lexemes, lexeme.isTabbed = true := by
      simpa using hnot
    have hfewer := (tabCount_of_becomes hbecomes).2 hexists
    exact absurd (hcount.symm.trans hcount') (ne_of_gt hfewer)
  · intro htabs
    refine ⟨⟨p.statements, String.ofList (plainWhitespace text.toList)⟩, ?_, rfl⟩
    rw [parse_eq_ok_iff, String.toList_ofList]
    exact ⟨parseStream_of_becomes (fault_of_parse h) hfault' hbecomes htabs hstream, rfl⟩

/-- Foreign line ends and tabs between tokens are replaced without a trace in the statements. -/
theorem plainWhitespace_of_parse_comment :
    ∃ p : Program, parse "IF $a\t== 1\t# first\r\n\tSET $x = 'b'\r\nENDIF\r\n" = .ok p ∧
      (∀ lexeme ∈ (tokens "IF $a\t== 1\t# first\r\n\tSET $x = 'b'\r\nENDIF\r\n".toList).lexemes,
        lexeme.isTabbed = false) ∧
      ∃ q, parse (String.ofList (plainWhitespace
          "IF $a\t== 1\t# first\r\n\tSET $x = 'b'\r\nENDIF\r\n".toList)) = .ok q ∧
        q.statements = p.statements := by
  have hread : (parse "IF $a\t== 1\t# first\r\n\tSET $x = 'b'\r\nENDIF\r\n").toOption.isSome = true := by
    decide +kernel
  have htabs : ∀ lexeme ∈ (tokens "IF $a\t== 1\t# first\r\n\tSET $x = 'b'\r\nENDIF\r\n".toList).lexemes,
      lexeme.isTabbed = false := by
    decide +kernel
  cases hparse : parse "IF $a\t== 1\t# first\r\n\tSET $x = 'b'\r\nENDIF\r\n" with
  | error fault =>
      rw [hparse] at hread
      cases hread
  | ok p => exact ⟨p, rfl, htabs, (plainWhitespace_of_parse hparse (by decide +kernel)).mpr htabs⟩

/-- A tab in a string becomes a space of its value. -/
theorem not_parse_plainWhitespace_of_any_string :
    ¬ ∀ (text : String) (p : Program), parse text = .ok p →
      ∃ q, parse (String.ofList (plainWhitespace text.toList)) = .ok q ∧
        q.statements = p.statements := by
  intro hall
  -- the two scripts are told apart by the texts that they print to
  have hread : (parse "SET $x = \"a\tb\"\n").toOption.map Program.print =
      some "SET $x = \"a\tb\"\n" := by
    decide +kernel
  have htext : plainWhitespace "SET $x = \"a\tb\"\n".toList = "SET $x = \"a b\"\n".toList := by
    decide +kernel
  have hspaced : (parse "SET $x = \"a b\"\n").toOption.map Program.print =
      some "SET $x = \"a b\"\n" := by
    decide +kernel
  cases hparse : parse "SET $x = \"a\tb\"\n" with
  | error fault =>
      rw [hparse] at hread
      cases hread
  | ok p =>
      obtain ⟨q, hq, hstatements⟩ := hall _ p hparse
      rw [htext, String.ofList_toList] at hq
      rw [hparse] at hread
      rw [hq] at hspaced
      have hprint : p.print = "SET $x = \"a\tb\"\n" := Option.some.inj hread
      have hprint' : q.print = "SET $x = \"a b\"\n" := Option.some.inj hspaced
      rw [Program.print, Program.written, hstatements] at hprint'
      rw [Program.print, Program.written, hprint'] at hprint
      exact absurd hprint (by decide)

end Rubric.Script
