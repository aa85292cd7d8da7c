import Rubric.Proofs.Script.EarliestFault
import Rubric.Proofs.Script.Seam

/-!
# Words that are read whole

Where a name can stand, a word is read to its end.  Where none can stand, `AND`, `OR` and `IN` are read at
the start of any word that starts with them; and a number may end where one of them starts.  So all tokens
of a script are whole words as soon as those operators are.

* `Cuts` : a run of letters, digits and underscores that goes across a place;
* `Lexeme.IsWhole` : a token with no such run across its ends;
* `isWhole_iff_of_parse` : the tokens of a script are whole if and only if its `AND`, `OR` and `IN` are.
-/

namespace Rubric.Script

open Rubric.Text

/-! ## Runs across a place -/

/-- Whether a run of letters, digits and underscores goes across the place between two texts. -/
def Cuts (before after : List Char) : Prop :=
  (∃ c ∈ before.getLast?, isIdentRest c = true) ∧ ∃ c ∈ after.head?, isIdentRest c = true

/-- Whether a lexeme of a text is whole: no run of the text goes across its start or its end. -/
def Lexeme.IsWhole (text : List Char) (lexeme : Lexeme) : Prop :=
  ∃ before after, text = before ++ lexeme.text.toList ++ after ∧
    lexeme.position = placeAfter ⟨1, 1⟩ before ∧
    ¬ Cuts before (lexeme.text.toList ++ after) ∧ ¬ Cuts (before ++ lexeme.text.toList) after

/-- Whether a lexeme is an operator that is written as a word. -/
def Lexeme.isWordOperator (lexeme : Lexeme) : Bool :=
  lexeme.token == .keyword .and || lexeme.token == .keyword .or || lexeme.token == .keyword .mem

/-- No run goes across a place after a character of another kind. -/
theorem not_cuts_of_last {before after : List Char}
    (h : ∀ c ∈ before.getLast?, isIdentRest c = false) : ¬ Cuts before after := by
  rintro ⟨⟨c, hc, hrest⟩, -⟩
  rw [h c hc] at hrest
  cases hrest

/-- No run goes across a place before a character of another kind. -/
theorem not_cuts_of_head {before after : List Char}
    (h : ∀ c ∈ after.head?, isIdentRest c = false) : ¬ Cuts before after := by
  rintro ⟨-, c, hc, hrest⟩
  rw [h c hc] at hrest
  cases hrest

/-- What stands before a text does not matter after it. -/
theorem cuts_append {t : List Char} (ht : t ≠ []) (before after : List Char) :
    Cuts (before ++ t) after ↔ Cuts t after := by
  rw [Cuts, List.getLast?_append_of_ne_nil _ ht, Cuts]

/-- The text before a lexeme is known from its place. -/
theorem Lexeme.IsWhole.not_cuts {before t after : List Char} {token : Token}
    (h : Lexeme.IsWhole (before ++ t ++ after) ⟨token, String.ofList t, placeAfter ⟨1, 1⟩ before⟩) :
    ¬ Cuts before (t ++ after) ∧ ¬ Cuts (before ++ t) after := by
  obtain ⟨before', after', htext, hplace, hstart, hend⟩ := h
  rw [String.toList_ofList] at htext hstart hend
  have hbefore := textBefore_append hplace.symm (t ++ after')
  rw [← List.append_assoc, ← htext, List.append_assoc, textBefore_append rfl] at hbefore
  subst hbefore
  rw [List.append_assoc, List.append_assoc] at htext
  obtain rfl := List.append_cancel_left (List.append_cancel_left htext)
  exact ⟨hstart, hend⟩

/-! ## The end of a token -/

/-- A margin that something follows is empty, or ends with a blank or a line feed: a comment goes on to
its line feed. -/
theorem getLast?_margin {cs : List Char} (h : marginLength false cs < cs.length) :
    ∀ c ∈ (cs.take (marginLength false cs)).getLast?, c = '\n' ∨ c = ' ' ∨ c = '\t' := by
  have hcons : ∀ {c : Char} {margin : List Char}, (c = '\n' ∨ c = ' ' ∨ c = '\t') →
      (∀ d ∈ margin.getLast?, d = '\n' ∨ d = ' ' ∨ d = '\t') →
      ∀ d ∈ (c :: margin).getLast?, d = '\n' ∨ d = ' ' ∨ d = '\t' := by
    intro c margin hc hmargin d hd
    rw [List.getLast?_cons] at hd
    obtain rfl := Option.some.inj hd
    cases hlast : margin.getLast? with
    | none => exact hc
    | some d => exact hmargin d hlast
  induction cs using margin_induction with
  | nil => cases h
  | blank c rest hc ih =>
      rw [marginLength_cons hc, List.length_cons, Nat.add_lt_add_iff_right] at h
      rw [marginLength_cons hc, List.take_succ_cons]
      exact hcons hc (ih h)
  | comment comment rest hfeed hrest ih =>
      rw [marginLength_comment hfeed hrest, List.length_append, Nat.add_lt_add_iff_left] at h
      -- something follows, so the line feed that ends the comment belongs to the margin
      obtain ⟨more, rfl⟩ : ∃ more, rest = '\n' :: more := by
        cases rest with
        | nil => cases h
        | cons c more => exact ⟨more, by rw [hrest c rfl]⟩
      have hmargin : ((('\n' : Char) :: more).take (marginLength false ('\n' :: more))) ≠ [] := by
        rw [marginLength_cons (.inl rfl), List.take_succ_cons]
        exact List.cons_ne_nil _ _
      rw [marginLength_comment hfeed hrest, List.take_length_add_append,
        List.getLast?_append_of_ne_nil _ hmargin]
      exact ih h
  | crlf rest ih =>
      rw [marginLength_crlf, List.length_cons, List.length_cons, Nat.add_lt_add_iff_right] at h
      rw [marginLength_crlf, List.take_succ_cons, List.take_succ_cons, List.getLast?_cons_cons]
      exact hcons (.inl rfl) (ih h)
  | stop c rest hblank hhash hreturn =>
      rw [marginLength_eq_zero hblank hhash hreturn]
      simp

/-- No run goes across the end of a margin. -/
theorem not_cuts_of_margin {t rest : List Char} (h : t.length = marginLength false (t ++ rest)) :
    ¬ Cuts t rest := by
  cases rest with
  | nil => exact not_cuts_of_head (by simp)
  | cons d rest =>
      have hshort : marginLength false (t ++ d :: rest) < (t ++ d :: rest).length := by
        rw [← h, List.length_append]
        simp
      have hlast := getLast?_margin hshort
      rw [← h, List.take_left] at hlast
      refine not_cuts_of_last fun c hc => ?_
      rcases hlast c hc with rfl | rfl | rfl <;> decide

/-- No run goes across the end of a token, operators and numbers apart. -/
theorem not_cuts_of_readToken {phase : Phase} {t rest : List Char} {token : Token}
    (h : readToken phase.accepts (t ++ rest) = some (token, t.length)) (hnumber : token.kind ≠ .number)
    (hoperator : token ≠ .keyword .and ∧ token ≠ .keyword .or ∧ token ≠ .keyword .mem) :
    ¬ Cuts t rest := by
  have hreads := Reads.of_readToken h
  cases hreads with
  | name _ hstop => exact not_cuts_of_head hstop
  | keyword hstop => exact not_cuts_of_head hstop
  | operator hk =>
      obtain ⟨hand, hor, hmem⟩ := hoperator
      rcases hk with rfl | rfl | rfl <;> contradiction
  | @var word rest hword =>
      obtain ⟨hread, -⟩ := Option.filter_eq_some_iff.mp h
      obtain ⟨-, c, more, rfl, hc⟩ := hword
      have hword : readVar (c :: (more ++ rest)) = some (_, (c :: more).length + 1) := hread
      simp only [readVar, if_pos hc, Option.some.injEq, Prod.mk.injEq,
        Nat.add_right_cancel_iff] at hword
      have hstop := (@length_takeWhile_append isIdentRest (c :: more) rest).mp hword.2
      exact not_cuts_of_head hstop.2
  | number => exact absurd rfl hnumber
  | @str quote value inner rest hquote hlength =>
      obtain ⟨-, hlast, -⟩ := literalLength?_append hquote hlength
      refine not_cuts_of_last fun c hc => ?_
      rw [hlast] at hc
      obtain rfl := Option.some.inj hc
      rcases hquote with rfl | rfl <;> decide
  | newline => exact not_cuts_of_margin (readToken_newline_iff.mp h).2.1
  | crlf => exact not_cuts_of_margin (readToken_newline_iff.mp h).2.1
  | @sign s =>
      refine not_cuts_of_last fun c hc => ?_
      cases s <;> (obtain rfl := Option.some.inj hc; decide)

/-- After an operand a word is an operator. -/
theorem operator_of_readToken {called : Bool} {c : Char} {cs : List Char} {token : Token} {n : Nat}
    (hc : isIdentStart c = true)
    (h : readToken (Phase.operator called).accepts (c :: cs) = some (token, n)) :
    token = .keyword .and ∨ token = .keyword .or ∨ token = .keyword .mem := by
  have hname : (Phase.operator called).accepts .name = false := rfl
  rw [readToken, if_pos hc, readWord, hname, if_neg (by simp)] at h
  obtain ⟨k, hfind, hk⟩ := Option.map_eq_some_iff.mp h
  obtain ⟨rfl, -⟩ := Prod.mk.inj hk
  have hfound := List.find?_some hfind
  obtain ⟨haccepts, -⟩ := Bool.and_eq_true_iff.mp hfound
  rcases operator_of_accepts hname haccepts with rfl | rfl | rfl <;> simp

/-- What is read as a number has all its digits. -/
theorem isNumeral_of_readToken {phase : Phase} {t rest digits : List Char}
    (h : readToken phase.accepts (t ++ rest) = some (.number digits, t.length)) : IsNumeral t rest := by
  have hreads := Reads.of_readToken h
  cases hreads with
  | number hne hdigits =>
      obtain ⟨c, t, rfl⟩ := List.exists_cons_of_ne_nil hne
      rcases hdigits c (List.mem_cons_self ..) with hc | rfl
      · have hdollar : c ≠ '$' := by
          rintro rfl
          exact absurd hc (by decide)
        rw [List.cons_append, readToken, isIdentStart_of_isDecimal hc, if_neg (by simp), if_neg hdollar,
          if_pos hc] at h
        obtain ⟨hread, -⟩ := Option.filter_eq_some_iff.mp h
        exact numberLength_append_iff.mp (Prod.mk.inj (Option.some.inj hread)).2
      · obtain ⟨sign, -, hsign⟩ := Option.map_eq_some_iff.mp h
        cases hsign

/-- So it ends before a character that is no digit. -/
theorem IsNumeral.stops {t rest : List Char} (h : IsNumeral t rest) :
    ∀ c ∈ rest.head?, isDecimal c = false := by
  rcases h with ⟨-, hrest, -⟩ | ⟨-, -, -, -, -, -, hrest⟩
  · exact hrest
  · exact hrest

/-- A run goes across the end of a number only where an operator follows at once. -/
theorem operator_of_cuts {state : LexState} {p : Position} {t rest digits : List Char}
    (h : readToken state.phase.accepts (t ++ rest) = some (.number digits, t.length))
    (hcuts : Cuts t rest)
    (hfault : (tokensFrom (state.next (.number digits)) p rest).fault = none) :
    ∃ token t' rest', rest = t' ++ rest' ∧
      (⟨token, String.ofList t', p⟩ : Lexeme)
        ∈ (tokensFrom (state.next (.number digits)) p rest).lexemes ∧
      (token = .keyword .and ∨ token = .keyword .or ∨ token = .keyword .mem) := by
  obtain ⟨-, c, hc, hrun⟩ := hcuts
  obtain ⟨more, rfl⟩ := List.head?_eq_some_iff.mp hc
  -- the number has all digits, so a letter or an underscore follows
  have hstart : isIdentStart c = true := by
    have hdecimal := (isNumeral_of_readToken h).stops c hc
    have hdigit : c.isDigit = false := by
      cases hd : c.isDigit with
      | false => rfl
      | true =>
          rw [isDecimal_of_isDigit hd] at hdecimal
          cases hdecimal
    simpa [isIdentRest, isIdentStart, Char.isAlphanum, hdigit] using hrun
  cases hread : readToken (state.next (.number digits)).phase.accepts (c :: more) with
  | none =>
      have hskip := skipLength_ink more (isInk_of_isIdentStart hstart)
      rw [tokensFrom_stuck hskip hread] at hfault
      cases hfault
  | some found =>
      obtain ⟨token, n⟩ := found
      obtain ⟨t', rest', hsplit, rfl⟩ := exists_append_of_readToken hread
      refine ⟨token, t', rest', hsplit, ?_, operator_of_readToken hstart hread⟩
      rw [hsplit] at hread
      rw [hsplit, tokensFrom_token p hread]
      exact List.mem_cons_self ..

/-! ## Whole texts -/

/-- Where all operators are whole, all tokens are. -/
theorem isWhole_of_operators {text : List Char} {state : LexState} {p : Position} {cs : List Char} :
    ∀ before, text = before ++ cs → p = placeAfter ⟨1, 1⟩ before → ¬ Cuts before cs →
      (tokensFrom state p cs).fault = none →
      (∀ lexeme ∈ (tokensFrom state p cs).lexemes,
        lexeme.isWordOperator = true → lexeme.IsWhole text) →
      ∀ lexeme ∈ (tokensFrom state p cs).lexemes, lexeme.IsWhole text := by
  induction state, p, cs using tokensFrom_induction with
  | nil state p =>
      intro before _ _ _ _ _ lexeme hlexeme
      rw [tokensFrom_nil] at hlexeme
      cases hlexeme
  | blank state p c rest hc ih =>
      intro before htext hplace hcuts hfault
      rw [tokensFrom_blank _ _ hc] at hfault ⊢
      refine ih (before ++ [c]) (by simp [htext]) (by rw [hplace, placeAfter_append]) ?_ hfault
      refine not_cuts_of_last fun d hd => ?_
      rw [List.getLast?_concat] at hd
      obtain rfl := Option.some.inj hd
      rcases hc with rfl | rfl <;> decide
  | comment state p comment rest hfeed hline ih =>
      intro before htext hplace hcuts hfault
      rw [tokensFrom_comment _ _ hfeed hline] at hfault ⊢
      refine ih (before ++ '#' :: comment) (by simp [htext]) (by rw [hplace, placeAfter_append]) ?_ hfault
      refine not_cuts_of_head fun c hc => ?_
      rw [hline c hc]
      decide
  | token state p token t rest hread ih =>
      intro before htext hplace hcuts hfault hoperators
      rw [tokensFrom_token p hread] at hfault hoperators ⊢
      have hreads := Reads.of_readToken hread
      have hwhole := List.forall_mem_cons.mp hoperators
      -- a token that ends within a run is an operator, or a number before one
      have hend : ¬ Cuts (before ++ t) rest := by
        intro hend
        have hcut := (cuts_append hreads.ne_nil before rest).mp hend
        by_cases hnumber : token.kind = .number
        · -- the operator that follows the number is whole, so the number ends where a run does
          cases token with
          | number digits =>
              obtain ⟨token, t', rest', rfl, hmem, hoperator⟩ := operator_of_cuts hread hcut hfault
              have hnext := hwhole.2 _ hmem (by rcases hoperator with rfl | rfl | rfl <;> rfl)
              rw [htext, hplace, ← placeAfter_append, ← List.append_assoc, ← List.append_assoc] at hnext
              exact hnext.not_cuts.1 hend
          | _ => cases hnumber
        · by_cases hoperator : token ≠ .keyword .and ∧ token ≠ .keyword .or ∧ token ≠ .keyword .mem
          · exact not_cuts_of_readToken hread hnumber hoperator hcut
          · have hself := hwhole.1 (by
              rw [Lexeme.isWordOperator]
              simp only [Bool.or_eq_true, beq_iff_eq]
              tauto)
            rw [htext, hplace, ← List.append_assoc] at hself
            exact hself.not_cuts.2 hend
      have hfirst : Lexeme.IsWhole text ⟨token, String.ofList t, p⟩ :=
        ⟨before, rest, by simp [htext], hplace, by rwa [String.toList_ofList],
          by rwa [String.toList_ofList]⟩
      refine List.forall_mem_cons.mpr ⟨hfirst, ?_⟩
      exact ih (before ++ t) (by simp [htext]) (by rw [hplace, placeAfter_append]) hend hfault hwhole.2
  | stuck state p c rest hskip hread =>
      intro before _ _ _ hfault
      rw [tokensFrom_stuck hskip hread] at hfault
      cases hfault

/-- All tokens of a script are whole words, outside its strings and comments, if and only if its operators
that are written as words are: no letter, digit or underscore stands right before or after an `AND`, an `OR`
or an `IN` and goes on with it. -/
theorem isWhole_iff_of_parse {text : String} {p : Program} (h : parse text = .ok p) :
    (∀ lexeme ∈ (tokens text.toList).lexemes, lexeme.IsWhole text.toList) ↔
      ∀ lexeme ∈ (tokens text.toList).lexemes,
        lexeme.isWordOperator = true → lexeme.IsWhole text.toList := by
  constructor
  · exact fun hall lexeme hlexeme _ => hall lexeme hlexeme
  · exact isWhole_of_operators [] rfl rfl (not_cuts_of_last (by simp)) (fault_of_parse h)

/-- Operators between blanks. -/
theorem isWhole_iff_of_parse_blanks : ∃ p : Program,
    parse "SET $x = $a IN [1] AND NOT f(2)\n" = .ok p ∧
    ∀ lexeme ∈ (tokens "SET $x = $a IN [1] AND NOT f(2)\n".toList).lexemes,
      lexeme.IsWhole "SET $x = $a IN [1] AND NOT f(2)\n".toList := by
  have hread : (parse "SET $x = $a IN [1] AND NOT f(2)\n").toOption.isSome = true := by decide +kernel
  have hoperators : (tokens "SET $x = $a IN [1] AND NOT f(2)\n".toList).lexemes.filter
      Lexeme.isWordOperator = [⟨.keyword .mem, "IN", ⟨1, 13⟩⟩, ⟨.keyword .and, "AND", ⟨1, 20⟩⟩] := by
    decide +kernel
  cases hparse : parse "SET $x = $a IN [1] AND NOT f(2)\n" with
  | error fault =>
      rw [hparse] at hread
      cases hread
  | ok p =>
      refine ⟨p, rfl, (isWhole_iff_of_parse hparse).mpr fun lexeme hlexeme hoperator => ?_⟩
      have hmem := List.mem_filter.mpr ⟨hlexeme, hoperator⟩
      rw [hoperators] at hmem
      simp only [List.mem_cons, List.not_mem_nil, or_false] at hmem
      rcases hmem with rfl | rfl
      · exact ⟨"SET $x = $a ".toList, " [1] AND NOT f(2)\n".toList, by decide +kernel,
          by decide +kernel, not_cuts_of_last (by simp; decide), not_cuts_of_head (by simp; decide)⟩
      · exact ⟨"SET $x = $a IN [1] ".toList, " NOT f(2)\n".toList, by decide +kernel,
          by decide +kernel, not_cuts_of_last (by simp; decide), not_cuts_of_head (by simp; decide)⟩

/-- After an operand, `IN` is read at the start of a longer word. -/
theorem not_isWhole_of_any_parse :
    ¬ ∀ (text : String) (p : Program), parse text = .ok p →
      ∀ lexeme ∈ (tokens text.toList).lexemes, lexeme.IsWhole text.toList := by
  intro hall
  have hread : (parse "SET $x = $a INb\n").toOption.isSome = true := by decide +kernel
  have hmem : (⟨.keyword .mem, "IN", ⟨1, 13⟩⟩ : Lexeme) ∈ (tokens "SET $x = $a INb\n".toList).lexemes := by
    decide +kernel
  cases hparse : parse "SET $x = $a INb\n" with
  | error fault =>
      rw [hparse] at hread
      cases hread
  | ok p =>
      have hwhole := hall _ p hparse _ hmem
      have htext : "SET $x = $a INb\n".toList = "SET $x = $a ".toList ++ ['I', 'N'] ++ ['b', '\n'] := by
        decide +kernel
      rw [htext] at hwhole
      have hplace : placeAfter ⟨1, 1⟩ "SET $x = $a ".toList = ⟨1, 13⟩ := by decide +kernel
      rw [← hplace] at hwhole
      exact (Lexeme.IsWhole.not_cuts (t := ['I', 'N']) hwhole).2
        ⟨⟨'N', by decide +kernel, by decide⟩, 'b', rfl, by decide⟩

end Rubric.Script
