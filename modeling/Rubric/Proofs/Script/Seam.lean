import Rubric.Proofs.Script.Lookahead

/-!
# Where one text ends and another begins

A text that ends with a line feed keeps its tokens when another text follows it: only its last token, a
line end, takes the margin of the other text along, which is the blanks, comments and line ends before
its first token.  Behind its margin the other text is read at the start of a line.

* `tokensFrom_seam` : the tokens of a text that another follows;
* `exists_tokensFrom_margin` : the tokens of a text, the line end that its margin may be apart;
* `tokensFrom_atStart` : behind its margin a text has the same tokens at the start of every line, unless
  it starts with a reserved word that stands for a name.
-/

namespace Rubric.Script

open Rubric.Text

/-! ## Texts of whole lines -/

/-- Whether a text is empty or ends with a line feed. -/
def EndsLine (cs : List Char) : Prop := ∀ c ∈ cs.getLast?, c = '\n'

/-- What is left after the first character is such a text again. -/
theorem EndsLine.of_cons {c : Char} {cs : List Char} (h : EndsLine (c :: cs)) : EndsLine cs := by
  cases cs with
  | nil => simp [EndsLine]
  | cons d cs => rwa [EndsLine, List.getLast?_cons_cons] at h

/-- So is what is left after some characters. -/
theorem EndsLine.of_append {first cs : List Char} (h : EndsLine (first ++ cs)) : EndsLine cs := by
  induction first with
  | nil => exact h
  | cons c first ih => exact ih h.of_cons

/-- Something is left after characters other than line feeds. -/
theorem EndsLine.ne_nil {t cs : List Char} (h : EndsLine (t ++ cs)) (ht : t ≠ []) (hfeed : '\n' ∉ t) :
    cs ≠ [] := by
  rintro rfl
  rw [List.append_nil] at h
  exact hfeed (h _ (List.getLast?_eq_some_getLast ht) ▸ List.getLast_mem ht)

/-- A text of whole lines leads to the start of a line. -/
theorem EndsLine.placeAfter {cs : List Char} (h : EndsLine cs) (hne : cs ≠ []) (p : Position) :
    placeAfter p cs = ⟨p.line + cs.count '\n', 1⟩ := by
  obtain ⟨init, rfl⟩ : ∃ init, cs = init ++ ['\n'] := by
    refine ⟨cs.dropLast, ?_⟩
    rw [← h _ (List.getLast?_eq_some_getLast hne), List.dropLast_concat_getLast]
  have hcount : (init ++ ['\n']).count '\n' = init.count '\n' + 1 := by
    rw [List.count_append, List.count_singleton_self]
  rw [placeAfter_append, hcount, ← Nat.add_assoc, ← line_placeAfter]
  rfl

/-! ## Margins -/

/-- A margin up to the end of a text of whole lines goes on with the margin of the text after it. -/
theorem marginLength_seam (ext : List Char) {cs : List Char} (h : EndsLine cs) :
    marginLength false (cs ++ ext)
      = if marginLength false cs = cs.length then cs.length + marginLength false ext
        else marginLength false cs := by
  have hnext : ∀ {m n k : Nat} {rest : List Char},
      m = (if n = rest.length then rest.length + marginLength false ext else n) →
      m + k = if n + k = rest.length + k then rest.length + k + marginLength false ext else n + k := by
    intro m n k rest hm
    rw [hm]
    split_ifs <;> omega
  induction cs using margin_induction with
  | nil => simp [marginLength]
  | blank c rest hc ih =>
      rw [List.cons_append, marginLength_cons hc, marginLength_cons hc, List.length_cons]
      exact hnext (ih h.of_cons)
  | comment comment rest hfeed hrest ih =>
      have hne : rest ≠ [] := h.ne_nil (by simp) (by simpa using hfeed)
      have hrest' : ∀ c ∈ (rest ++ ext).head?, c = '\n' := by rwa [List.head?_append_of_ne_nil _ hne]
      rw [List.append_assoc, marginLength_comment hfeed hrest', marginLength_comment hfeed hrest,
        List.length_append, Nat.add_comm _ (marginLength false (rest ++ ext)),
        Nat.add_comm _ (marginLength false rest), Nat.add_comm _ rest.length]
      exact hnext (ih h.of_append)
  | crlf rest ih =>
      rw [List.cons_append, List.cons_append, marginLength_crlf, marginLength_crlf, List.length_cons,
        List.length_cons]
      exact hnext (ih h.of_cons.of_cons)
  | stop c rest hblank hhash hreturn =>
      -- a carriage return is not the last character, so what follows it is known
      have hfeed : c ≠ '\n' := fun hc => hblank (.inl hc)
      have hrest : rest ≠ [] := h.ne_nil (t := [c]) (by simp) (by simpa using Ne.symm hfeed)
      rw [marginLength_eq_zero hblank hhash hreturn, if_neg (by simp), List.cons_append]
      refine marginLength_eq_zero hblank hhash ?_
      intro hc more hmore
      obtain ⟨d, rest, rfl⟩ := List.exists_cons_of_ne_nil hrest
      obtain ⟨rfl, -⟩ := List.cons.inj hmore
      exact hreturn hc rest rfl

/-! ## The first text -/

/-- A token within a line of a text of whole lines is read where another text follows. -/
theorem readToken_seam {phase : Phase} {t rest ext : List Char} {token : Token}
    (hends : EndsLine (t ++ rest)) (hinline : token ≠ .newline)
    (h : readToken phase.accepts (t ++ rest) = some (token, t.length)) :
    readToken phase.accepts (t ++ (rest ++ ext)) = some (token, t.length) := by
  have hreads := Reads.of_readToken h
  have hsolid := hreads.solid hinline
  refine readToken_resumes hinline h (.inr ?_)
  obtain ⟨c, more, rfl⟩ := List.exists_cons_of_ne_nil (hends.ne_nil hsolid.ne_nil hsolid.newline_notMem)
  refine ⟨c, more, more ++ ext, rfl, rfl, fun hc => .inr ?_⟩
  have hmore : more ≠ [] := hends.of_append.ne_nil (t := [c]) (by simp) (by rw [hc]; decide)
  rw [List.head?_append_of_ne_nil _ hmore]

/-- A line end is read where another text follows; at the end of a text of whole lines it takes the
margin of the other text along. -/
theorem readToken_newline_seam {phase : Phase} {t rest : List Char} (ext : List Char)
    (hends : EndsLine (t ++ rest))
    (h : readToken phase.accepts (t ++ rest) = some (.newline, t.length)) :
    readToken phase.accepts (t ++ rest ++ ext)
      = some (.newline, if rest = [] then t.length + marginLength false ext else t.length) := by
  obtain ⟨haccepts, hlength, lines, hlines⟩ := readToken_newline_iff.mp h
  refine readToken_newline_iff.mpr ⟨haccepts, ?_, lines ++ ext, ?_⟩
  · have hwhole : t.length = (t ++ rest).length ↔ rest = [] := by simp
    rw [marginLength_seam ext hends, ← hlength]
    simp only [hwhole]
    split
    · rename_i hrest
      rw [hrest, List.append_nil]
    · rfl
  · exact hlines.imp (fun heq => by rw [heq]; rfl) fun heq => by rw [heq]; rfl

/-- A text of whole lines has its tokens where another text follows.  The last of them is a line end
that takes the margin of the other text along, and the rest is read at the start of a line. -/
theorem tokensFrom_seam (ext : List Char) {state : LexState} {p : Position} {cs : List Char}
    (hends : EndsLine cs) (hne : cs ≠ []) (hfault : (tokensFrom state p cs).fault = none) :
    ∃ first last text k, (tokensFrom state p cs).lexemes = first ++ [last] ∧
      tokensFrom state p (cs ++ ext)
        = (tokensFrom ⟨.lineStart k, .leading⟩
            (placeAfter p (cs ++ ext.take (marginLength false ext)))
            (ext.drop (marginLength false ext))).prependAll (first ++ [{ last with text := text }]) := by
  induction state, p, cs using tokensFrom_induction with
  | nil state p => exact absurd rfl hne
  | blank state p c rest hc ih =>
      have hrest : rest ≠ [] := hends.ne_nil (t := [c]) (by simp) hc.newline_notMem
      rw [tokensFrom_blank _ _ hc] at hfault
      obtain ⟨first, last, text, k, hlexemes, htokens⟩ := ih hends.of_cons hrest hfault
      refine ⟨first, last, text, k, ?_, ?_⟩
      · rw [tokensFrom_blank _ _ hc, hlexemes]
      · rw [List.cons_append, tokensFrom_blank _ _ hc, htokens]
        rfl
  | comment state p comment rest hfeed hline ih =>
      have hrest : rest ≠ [] := hends.ne_nil (by simp) (by simpa using hfeed)
      have hline' : ∀ c ∈ (rest ++ ext).head?, c = '\n' := by
        rwa [List.head?_append_of_ne_nil _ hrest]
      rw [tokensFrom_comment state p hfeed hline] at hfault
      obtain ⟨first, last, text, k, hlexemes, htokens⟩ := ih hends.of_append hrest hfault
      refine ⟨first, last, text, k, ?_, ?_⟩
      · rw [tokensFrom_comment state p hfeed hline, hlexemes]
      · rw [List.append_assoc, tokensFrom_comment state p hfeed hline', htokens, ← placeAfter_append,
          List.append_assoc]
  | token state p token t rest hread ih =>
      rw [tokensFrom_token p hread] at hfault
      by_cases hlast : rest = []
      · -- the last token is a line end, since the text ends with a line feed
        subst hlast
        have hreads := Reads.of_readToken hread
        obtain rfl : token = .newline := by
          by_contra hinline
          have hsolid := hreads.solid hinline
          exact hends.ne_nil hsolid.ne_nil hsolid.newline_notMem rfl
        have hmore := readToken_newline_seam ext hends hread
        have hlength : t.length + marginLength false ext
            = (t ++ ext.take (marginLength false ext)).length := by
          rw [List.length_append, List.length_take_of_le (marginLength_le false ext)]
        have hsplit : t ++ [] ++ ext
            = t ++ ext.take (marginLength false ext) ++ ext.drop (marginLength false ext) := by simp
        rw [if_pos rfl, hlength, hsplit] at hmore
        refine ⟨[], ⟨.newline, String.ofList t, p⟩,
          String.ofList (t ++ ext.take (marginLength false ext)), state.line, ?_, ?_⟩
        · rw [tokensFrom_token p hread, tokensFrom_nil]
          rfl
        · rw [hsplit, tokensFrom_token p hmore, List.append_nil]
          rfl
      · obtain ⟨first, last, text, k, hlexemes, htokens⟩ := ih hends.of_append hlast hfault
        -- with more of the text behind it the token is read as it was
        have hread' : readToken state.phase.accepts (t ++ (rest ++ ext)) = some (token, t.length) := by
          by_cases hinline : token = .newline
          · subst hinline
            rw [← List.append_assoc, readToken_newline_seam ext hends hread, if_neg hlast]
          · exact readToken_seam hends hinline hread
        refine ⟨⟨token, String.ofList t, p⟩ :: first, last, text, k, ?_, ?_⟩
        · rw [tokensFrom_token p hread, TokenStream.prepend, hlexemes, List.cons_append]
        · rw [List.append_assoc, tokensFrom_token p hread', htokens, ← placeAfter_append,
            List.append_assoc]
          rfl
  | stuck state p c rest hskip hread =>
      rw [tokensFrom_stuck hskip hread] at hfault
      cases hfault

/-! ## The second text -/

/-- A token within a line is no margin. -/
theorem marginLength_of_readToken {accepts : TokenKind → Bool} {cs : List Char} {token : Token} {n : Nat}
    (h : readToken accepts cs = some (token, n)) (hinline : token ≠ .newline) :
    marginLength false cs = 0 := by
  have hskip := skipLength_of_readToken h
  cases cs with
  | nil => rfl
  | cons c cs =>
      refine marginLength_eq_zero ?_ ?_ fun hc more hmore => ?_
      · rintro (rfl | rfl | rfl)
        · exact hinline (eq_of_readToken_line (.inl rfl) h).1
        · cases hskip
        · cases hskip
      · rintro rfl
        cases hskip
      · exact hinline (eq_of_readToken_line (.inr (by rw [hc, hmore])) h).1

/-- Whether nothing but an empty first line is read of a script. -/
def LexState.IsLeading (state : LexState) : Prop :=
  state = .initial ∨ state = ⟨.lineStart .leading, .leading⟩

/-- A script has the tokens it has behind its margin, after a line end that the margin may be. -/
theorem exists_tokensFrom_margin {p : Position} {cs : List Char}
    (hfault : (tokensFrom .initial p cs).fault = none) :
    ∃ state lead, LexState.IsLeading state ∧ (∀ lexeme ∈ lead, lexeme.token = .newline) ∧
      tokensFrom .initial p cs = (tokensFrom state (placeAfter p (cs.take (marginLength false cs)))
        (cs.drop (marginLength false cs))).prependAll lead := by
  generalize hstart : LexState.initial = start at hfault ⊢
  induction start, p, cs using tokensFrom_induction with
  | nil state p => exact ⟨state, [], .inl hstart.symm, by simp, rfl⟩
  | blank state p c rest hc ih =>
      rw [tokensFrom_blank _ _ hc] at hfault ⊢
      have hmargin : marginLength false (c :: rest) = marginLength false rest + 1 :=
        marginLength_cons (.inr hc) rest
      rw [hmargin]
      exact ih hstart hfault
  | comment state p comment rest hfeed hline ih =>
      rw [tokensFrom_comment _ _ hfeed hline] at hfault ⊢
      rw [marginLength_comment hfeed hline, List.take_length_add_append, List.drop_length_add_append,
        placeAfter_append]
      exact ih hstart hfault
  | token state p token t rest hread ih =>
      by_cases hinline : token = .newline
      · subst hinline hstart
        obtain ⟨-, hlength, -⟩ := readToken_newline_iff.mp hread
        refine ⟨_, [⟨.newline, String.ofList t, p⟩], .inr rfl, by simp, ?_⟩
        rw [tokensFrom_token p hread, ← hlength, List.take_left, List.drop_left]
        rfl
      · rw [marginLength_of_readToken hread hinline]
        exact ⟨state, [], .inl hstart.symm, by simp, rfl⟩
  | stuck state p c rest hskip hread =>
      rw [tokensFrom_stuck hskip hread] at hfault
      cases hfault

/-- What can start a script can start every line, an empty line apart. -/
theorem accepts_lineStart {state : LexState} (hstate : state.IsLeading) {kind : TokenKind}
    (h : state.phase.accepts kind = true) (hinline : kind ≠ .newline) (k : LineKind) :
    (Phase.lineStart k).accepts kind = true := by
  cases kind with
  | newline => exact absurd rfl hinline
  | keyword j =>
      have hopens : LineKind.leading.allows j = true := by rcases hstate with rfl | rfl <;> exact h
      cases j <;> first | (cases k <;> rfl) | cases hopens
  | name => rfl
  | var => rfl
  | number | str | sign => rcases hstate with rfl | rfl <;> cases h

/-- What starts a script starts every line, unless it is a reserved word that stands for a name. -/
theorem readToken_lineStart {state : LexState} (hstate : state.IsLeading) {cs : List Char} {token : Token}
    {n : Nat} (h : readToken state.phase.accepts cs = some (token, n)) (hinline : token ≠ .newline)
    (hname : ∀ ident, token = .name ident → Keyword.ofText? ident = none) (k : LineKind) :
    readToken (Phase.lineStart k).accepts cs = some (token, n) := by
  have hkind : token.kind ≠ .newline := by
    cases token with
    | newline => exact absurd rfl hinline
    | _ => simp [Token.kind]
  have haccepts := accepts_lineStart hstate (accepts_of_readToken h) hkind k
  have hkeep : ∀ {found : Option (Token × Nat)}, keepAccepted state.phase.accepts found = some (token, n) →
      keepAccepted (Phase.lineStart k).accepts found = some (token, n) := by
    intro found hfound
    obtain ⟨hread, -⟩ := Option.filter_eq_some_iff.mp hfound
    exact Option.filter_eq_some_iff.mpr ⟨hread, haccepts⟩
  cases cs with
  | nil => cases h
  | cons c rest =>
      simp only [readToken] at h ⊢
      split_ifs at h ⊢
      -- words are read whole at both places, and told from reserved ones by what can stand there
      · have hwords : state.phase.accepts .name = true := by rcases hstate with rfl | rfl <;> rfl
        have hwords' : (Phase.lineStart k).accepts .name = true := rfl
        unfold readWord at h ⊢
        rw [if_pos hwords] at h
        rw [if_pos hwords']
        cases hword : Keyword.ofText? (String.ofList ((c :: rest).takeWhile isIdentRest)) with
        | none =>
            simp only [hword] at h ⊢
            exact h
        | some j =>
            simp only [hword, Option.some.injEq, Prod.mk.injEq] at h ⊢
            obtain ⟨rfl, rfl⟩ := h
            split at haccepts
            · rename_i hj
              have hj' : (Phase.lineStart k).accepts (.keyword j) = true := haccepts
              rw [if_pos hj, if_pos hj']
              exact ⟨rfl, rfl⟩
            · rename_i hj
              rw [hname _ (if_neg hj)] at hword
              cases hword
      · exact hkeep h
      · exact hkeep h
      · exact hkeep h
      · exact hkeep h
      · obtain ⟨sign, hfind, hsign⟩ := Option.map_eq_some_iff.mp h
        obtain ⟨rfl, -⟩ := Prod.mk.inj hsign
        cases haccepts

/-- Behind its margin a script has the same tokens at the start of every line, unless it starts with a
reserved word that stands for a name. -/
theorem tokensFrom_lineStart {state : LexState} (hstate : state.IsLeading) {p : Position}
    {cs : List Char} (hmargin : marginLength false cs = 0)
    (hfault : (tokensFrom state p cs).fault = none)
    (hname : ∀ first ident, (tokensFrom state p cs).lexemes.head? = some first →
      first.token = .name ident → Keyword.ofText? ident = none) (k : LineKind) :
    tokensFrom ⟨.lineStart k, .leading⟩ p cs = tokensFrom state p cs := by
  induction state, p, cs using tokensFrom_induction with
  | nil state p => rw [tokensFrom_nil, tokensFrom_nil]
  | blank state p c rest hc =>
      rw [marginLength_cons (.inr hc)] at hmargin
      cases hmargin
  | comment state p comment rest hfeed hline =>
      rw [marginLength_comment hfeed hline, List.length_cons] at hmargin
      omega
  | token state p token t rest hread =>
      have hreads := Reads.of_readToken hread
      have hinline : token ≠ .newline := by
        rintro rfl
        obtain ⟨-, hlength, -⟩ := readToken_newline_iff.mp hread
        exact hreads.ne_nil (List.length_eq_zero_iff.mp (hlength.trans hmargin))
      have hfirst : ∀ ident, token = .name ident → Keyword.ofText? ident = none := by
        rintro ident rfl
        exact hname _ ident (by rw [tokensFrom_token p hread]; rfl) rfl
      have hread' := readToken_lineStart hstate hread hinline hfirst k
      have hnext : state.next token = LexState.next ⟨.lineStart k, .leading⟩ token := by
        rcases hstate with rfl | rfl <;> cases token <;> rfl
      rw [tokensFrom_token p hread, @tokensFrom_token ⟨.lineStart k, .leading⟩ _ _ _ p hread', hnext]
  | stuck state p c rest hskip hread =>
      rw [tokensFrom_stuck hskip hread] at hfault
      cases hfault

end Rubric.Script
