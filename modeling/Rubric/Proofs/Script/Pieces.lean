import Rubric.Proofs.Script.Lexeme

/-!
# A text piece by piece

Reading a text takes one piece of it after the other: a blank, a comment or a token.  What a piece does
is one equation each, and what is kept by all of them holds of the whole text.

* `tokensFrom_blank`, `tokensFrom_comment`, `tokensFrom_token` : what a piece does;
* `tokensFrom_induction` : induction on the pieces of a text;
* `scans_of_tokensFrom` : a text that is read to its end is a sequence of them, `Scans`;
* `margin_induction` : induction on what a line end takes along;
* `piecesFrom` : the pieces themselves, those that are passed over included;
* `lexemes_piecesFrom`, `chars_piecesFrom` : they are the tokens of the text, and make it up.
-/

namespace Rubric.Script

open Rubric.Text

/-! ## Places -/

/-- The place after two texts is that of the second after the first. -/
theorem placeAfter_append (position : Position) (first second : List Char) :
    placeAfter position (first ++ second) = placeAfter (placeAfter position first) second :=
  List.foldl_append

/-- The line feeds of a text are the lines that it moves a place down. -/
theorem line_placeAfter (position : Position) (cs : List Char) :
    (placeAfter position cs).line = position.line + cs.count '\n' := by
  induction cs generalizing position with
  | nil => rfl
  | cons c cs ih =>
      have hstep : placeAfter position (c :: cs) = placeAfter (placeAfter position [c]) cs := rfl
      rw [hstep, ih]
      by_cases hc : c = '\n'
      · subst hc
        simp only [placeAfter, List.foldl_cons, List.foldl_nil, if_true, List.count_cons_self]
        omega
      · simp only [placeAfter, List.foldl_cons, List.foldl_nil, if_neg hc]
        rw [List.count_cons_of_ne hc]

/-- On one line a text moves a place by its length. -/
theorem column_placeAfter (position : Position) {cs : List Char} (h : '\n' ∉ cs) :
    (placeAfter position cs).column = position.column + cs.length := by
  induction cs generalizing position with
  | nil => rfl
  | cons c cs ih =>
      rw [List.mem_cons, not_or] at h
      have hstep : placeAfter position (c :: cs) = placeAfter (placeAfter position [c]) cs := rfl
      rw [hstep, ih _ h.2]
      simp only [placeAfter, List.foldl_cons, List.foldl_nil, if_neg (Ne.symm h.1),
        List.length_cons]
      omega

/-- Characters of a line move a place to the right. -/
theorem placeAfter_of_notMem (p : Position) {t : List Char} (h : '\n' ∉ t) :
    placeAfter p t = ⟨p.line, p.column + t.length⟩ := by
  rw [← column_placeAfter p h, ← Nat.add_zero p.line, ← List.count_eq_zero.mpr h, ← line_placeAfter]

/-- Only an empty text does not move a place. -/
theorem eq_nil_of_placeAfter {position : Position} {cs : List Char}
    (h : placeAfter position cs = position) : cs = [] := by
  have hline := line_placeAfter position cs
  rw [h] at hline
  have hfeed : '\n' ∉ cs := List.count_eq_zero.mp (by omega)
  have hcolumn := column_placeAfter position hfeed
  rw [h] at hcolumn
  exact List.length_eq_zero_iff.mp (by omega)

/-! ## One piece -/

/-- Whether a character is a gap between the tokens of a line. -/
def IsGap (c : Char) : Prop := c = ' ' ∨ c = '\t'

/-- A blank or a comment is what is passed over. -/
theorem skipLength_eq_succ {cs : List Char} {n : Nat} (h : skipLength cs = n + 1) :
    (∃ c rest, IsGap c ∧ cs = c :: rest ∧ n = 0) ∨
      ∃ comment rest, '\n' ∉ comment ∧ (∀ c ∈ rest.head?, c = '\n') ∧
        cs = '#' :: comment ++ rest ∧ n = comment.length := by
  unfold skipLength at h
  split at h
  · rename_i rest
    exact .inl ⟨' ', rest, .inl rfl, rfl, by omega⟩
  · rename_i rest
    exact .inl ⟨'\t', rest, .inr rfl, rfl, by omega⟩
  · rename_i rest
    obtain ⟨comment, after, rfl, hcomment, hafter⟩ := exists_run (· != '\n') rest
    rw [takeWhile_append_stop hcomment hafter] at h
    refine .inr ⟨comment, after, fun hmem => ?_, fun c hc => ?_, rfl, by omega⟩
    · simpa using hcomment _ hmem
    · simpa using hafter c hc
  · omega

/-- At the end of a text there is nothing to read. -/
theorem tokensFrom_nil (state : LexState) (p : Position) : tokensFrom state p [] = ⟨[], none⟩ := by
  rw [tokensFrom]

/-- A blank is passed over. -/
theorem tokensFrom_blank (state : LexState) (p : Position) {c : Char} (hc : IsGap c) (rest : List Char) :
    tokensFrom state p (c :: rest) = tokensFrom state (placeAfter p [c]) rest := by
  have hskip : skipLength (c :: rest) = 0 + 1 := by rcases hc with rfl | rfl <;> rfl
  rw [tokensFrom_skip hskip]
  rfl

/-- A comment is passed over up to the end of its line. -/
theorem skipLength_comment {comment rest : List Char} (hfeed : '\n' ∉ comment)
    (hrest : ∀ c ∈ rest.head?, c = '\n') :
    skipLength ('#' :: comment ++ rest) = ('#' :: comment).length := by
  have hrun : (comment ++ rest).takeWhile (· != '\n') = comment :=
    takeWhile_append_stop (fun c hc => by simpa using ne_of_mem_of_not_mem hc hfeed)
      fun c hc => by simpa using hrest c hc
  rw [List.cons_append, skipLength, hrun, List.length_cons]

/-- A comment is skipped, on its line. -/
theorem tokensFrom_comment (state : LexState) (position : Position) {comment rest : List Char}
    (hfeed : '\n' ∉ comment) (hrest : ∀ c ∈ rest.head?, c = '\n') :
    tokensFrom state position ('#' :: comment ++ rest) =
      tokensFrom state (placeAfter position ('#' :: comment)) rest := by
  have hlength : skipLength ('#' :: comment ++ rest) = comment.length + 1 := skipLength_comment hfeed hrest
  rw [tokensFrom_skip hlength]
  have hcomment : comment.length + 1 = ('#' :: comment).length := rfl
  rw [hcomment, List.take_left, List.drop_left]

/-- A token comes first. -/
theorem tokensFrom_token {state : LexState} {token : Token} {t rest : List Char} (p : Position)
    (h : readToken state.phase.accepts (t ++ rest) = some (token, t.length)) :
    tokensFrom state p (t ++ rest) =
      (tokensFrom (state.next token) (placeAfter p t) rest).prepend ⟨token, String.ofList t, p⟩ := by
  have hreads := Reads.of_readToken h
  exact tokensFrom_read (skipLength_of_readToken h) h hreads.ne_nil

/-- Where nothing fits there is a fault. -/
theorem tokensFrom_stuck {state : LexState} {p : Position} {c : Char} {rest : List Char}
    (hskip : skipLength (c :: rest) = 0) (hread : readToken state.phase.accepts (c :: rest) = none) :
    tokensFrom state p (c :: rest) = ⟨[], some (unreadable p (c :: rest))⟩ := by
  rw [tokensFrom]
  simp [hskip, hread]

/-! ## Induction -/

/-- Induction on the pieces of a text that is read from a place on. -/
@[elab_as_elim]
theorem tokensFrom_induction {motive : LexState → Position → List Char → Prop}
    (nil : ∀ state p, motive state p [])
    (blank : ∀ state p c rest, IsGap c → motive state (placeAfter p [c]) rest →
      motive state p (c :: rest))
    (comment : ∀ state p comment rest, '\n' ∉ comment → (∀ c ∈ rest.head?, c = '\n') →
      motive state (placeAfter p ('#' :: comment)) rest → motive state p ('#' :: comment ++ rest))
    (token : ∀ state p token t rest,
      readToken state.phase.accepts (t ++ rest) = some (token, t.length) →
      motive (state.next token) (placeAfter p t) rest → motive state p (t ++ rest))
    (stuck : ∀ state p c rest, skipLength (c :: rest) = 0 →
      readToken state.phase.accepts (c :: rest) = none → motive state p (c :: rest))
    (state : LexState) (p : Position) (cs : List Char) : motive state p cs := by
  induction state, p, cs using tokensFrom.induct with
  | case1 state p => exact nil state p
  | case2 state p c rest n hskip ih =>
      have hrest : motive state (placeAfter p ((c :: rest).take (n + 1))) ((c :: rest).drop (n + 1)) := ih
      rcases skipLength_eq_succ hskip with
        ⟨d, more, hd, hcs, rfl⟩ | ⟨text, more, hfeed, hmore, hcs, rfl⟩
      · rw [hcs] at hrest ⊢
        exact blank state p d more hd hrest
      · have hlength : text.length + 1 = ('#' :: text).length := rfl
        rw [hcs, hlength, List.take_left, List.drop_left] at hrest
        rw [hcs]
        exact comment state p text more hfeed hmore hrest
  | case3 state p c rest hskip found n hread text ih =>
      obtain ⟨t, more, hsplit, rfl⟩ := exists_append_of_readToken hread
      have hne := (reads_of_readToken hread).ne_nil
      rw [hsplit] at hread hne ⊢
      refine token state p found t more hread ?_
      obtain ⟨d, t, rfl⟩ := List.exists_cons_of_ne_nil (by simpa using hne)
      obtain ⟨rfl, rfl⟩ := List.cons.inj hsplit
      simpa [text] using ih
  | case4 state p c rest hskip hread => exact stuck state p c rest hskip hread

/-! ## Margins -/

/-- Blanks and line ends are taken along one by one. -/
theorem marginLength_cons {c : Char} (hc : c = '\n' ∨ c = ' ' ∨ c = '\t') (cs : List Char) :
    marginLength false (c :: cs) = marginLength false cs + 1 := by
  rcases hc with rfl | rfl | rfl <;> simp [marginLength]

/-- So is a line end that starts with a carriage return. -/
theorem marginLength_crlf (cs : List Char) :
    marginLength false ('\r' :: '\n' :: cs) = marginLength false cs + 2 := by
  rw [marginLength]

/-- A comment is taken along, up to the end of its line. -/
theorem marginLength_comment {comment rest : List Char} (hfeed : '\n' ∉ comment)
    (hrest : ∀ c ∈ rest.head?, c = '\n') :
    marginLength false ('#' :: comment ++ rest) = ('#' :: comment).length + marginLength false rest := by
  have hinside : marginLength true (comment ++ rest) = comment.length + marginLength false rest := by
    induction comment with
    | nil =>
        cases rest with
        | nil => simp [marginLength]
        | cons c rest =>
            obtain rfl := hrest c rfl
            simp [marginLength]
    | cons c comment ih =>
        rw [List.mem_cons, not_or] at hfeed
        have hc : marginLength true (c :: (comment ++ rest)) = marginLength true (comment ++ rest) + 1 := by
          rw [marginLength]
          exact fun heq => hfeed.1 heq.symm
        rw [List.cons_append, hc, ih hfeed.2, List.length_cons]
        omega
  rw [List.cons_append, marginLength, hinside, List.length_cons]
  omega

/-- Nothing is taken along from other characters on, comments apart. -/
theorem marginLength_eq_zero {c : Char} (hblank : ¬ (c = '\n' ∨ c = ' ' ∨ c = '\t')) (hhash : c ≠ '#')
    {cs : List Char} (hreturn : c = '\r' → ∀ more, cs ≠ '\n' :: more) :
    marginLength false (c :: cs) = 0 := by
  simp only [not_or] at hblank
  unfold marginLength
  split <;> simp_all

/-- Induction on what a line end takes along of the text after it. -/
@[elab_as_elim]
theorem margin_induction {motive : List Char → Prop} (nil : motive [])
    (blank : ∀ c rest, (c = '\n' ∨ c = ' ' ∨ c = '\t') → motive rest → motive (c :: rest))
    (comment : ∀ comment rest, '\n' ∉ comment → (∀ c ∈ rest.head?, c = '\n') → motive rest →
      motive ('#' :: comment ++ rest))
    (crlf : ∀ rest, motive rest → motive ('\r' :: '\n' :: rest))
    (stop : ∀ c rest, ¬ (c = '\n' ∨ c = ' ' ∨ c = '\t') → c ≠ '#' →
      (c = '\r' → ∀ more, rest ≠ '\n' :: more) → motive (c :: rest))
    (cs : List Char) : motive cs := by
  match cs with
  | [] => exact nil
  | c :: cs =>
      by_cases hblank : c = '\n' ∨ c = ' ' ∨ c = '\t'
      · exact blank c cs hblank (margin_induction nil blank comment crlf stop cs)
      · by_cases hhash : c = '#'
        · subst hhash
          obtain ⟨text, rest, rfl, htext, hrest⟩ := exists_run (· != '\n') cs
          exact comment text rest (fun hmem => by simpa using htext _ hmem)
            (fun c hc => by simpa using hrest c hc) (margin_induction nil blank comment crlf stop rest)
        · by_cases hreturn : c = '\r' ∧ ∃ more, cs = '\n' :: more
          · obtain ⟨rfl, more, rfl⟩ := hreturn
            exact crlf more (margin_induction nil blank comment crlf stop more)
          · exact stop c cs hblank hhash fun hc more hmore => hreturn ⟨hc, more, hmore⟩
  termination_by cs.length
  decreasing_by all_goals subst_vars; simp only [List.length_append, List.length_cons]; omega

/-- Behind a margin there is none. -/
theorem marginLength_drop (cs : List Char) :
    marginLength false (cs.drop (marginLength false cs)) = 0 := by
  induction cs using margin_induction with
  | nil => rfl
  | blank c rest hc ih => rwa [marginLength_cons hc, List.drop_succ_cons]
  | comment comment rest hfeed hrest ih =>
      rwa [marginLength_comment hfeed hrest, List.drop_length_add_append]
  | crlf rest ih => rwa [marginLength_crlf, List.drop_succ_cons, List.drop_succ_cons]
  | stop c rest hblank hhash hreturn =>
      rw [marginLength_eq_zero hblank hhash hreturn, List.drop_zero,
        marginLength_eq_zero hblank hhash hreturn]

/-- So nothing more is taken along after all that is. -/
theorem marginLength_of_append {margin rest : List Char}
    (h : marginLength false (margin ++ rest) = margin.length) : marginLength false rest = 0 := by
  have hdrop := marginLength_drop (margin ++ rest)
  rwa [h, List.drop_left] at hdrop

/-- Where a line ends, only a line end can be read, with the margin of the text after it. -/
theorem readToken_line (accepts : TokenKind → Bool) {cs rest : List Char}
    (hline : cs = '\n' :: rest ∨ cs = '\r' :: '\n' :: rest) :
    readToken accepts cs = keepAccepted accepts (some (.newline, marginLength false cs)) := by
  rcases hline with rfl | rfl <;> rfl

/-- So what is read there is one. -/
theorem eq_of_readToken_line {accepts : TokenKind → Bool} {cs rest : List Char} {token : Token} {n : Nat}
    (hline : cs = '\n' :: rest ∨ cs = '\r' :: '\n' :: rest)
    (h : readToken accepts cs = some (token, n)) : token = .newline ∧ n = marginLength false cs := by
  rw [readToken_line accepts hline] at h
  obtain ⟨rfl, rfl⟩ := Prod.mk.inj (Option.some.inj (Option.filter_eq_some_iff.mp h).1)
  exact ⟨rfl, rfl⟩

/-- What is read as a line end is a line feed, perhaps after a carriage return, and the margin of the
text after it. -/
theorem readToken_newline_iff {phase : Phase} {cs : List Char} {n : Nat} :
    readToken phase.accepts cs = some (.newline, n) ↔ phase.accepts .newline = true ∧
      n = marginLength false cs ∧ ∃ rest, cs = '\n' :: rest ∨ cs = '\r' :: '\n' :: rest := by
  constructor
  · intro h
    have hlines : ∃ rest, cs = '\n' :: rest ∨ cs = '\r' :: '\n' :: rest := by
      have hreads := reads_of_readToken h
      rw [← List.take_append_drop n cs]
      generalize cs.take n = t at hreads ⊢
      cases hreads with
      | newline => exact ⟨_, .inl rfl⟩
      | crlf => exact ⟨_, .inr rfl⟩
    obtain ⟨rest, hline⟩ := hlines
    exact ⟨accepts_of_readToken h, (eq_of_readToken_line hline h).2, rest, hline⟩
  · rintro ⟨haccepts, rfl, rest, hline⟩
    rw [readToken_line phase.accepts hline]
    exact Option.filter_eq_some_iff.mpr ⟨rfl, haccepts⟩

/-! ## Texts that are read to their end -/

/-- A text that is read from a place on to its end: blanks and comments, which are passed over, and
tokens that can stand where they do. -/
inductive Scans : LexState → Position → List Char → List Lexeme → Prop where
  | nil (state : LexState) (position : Position) : Scans state position [] []
  | blank {state : LexState} {position : Position} {c : Char} {rest : List Char}
      {lexemes : List Lexeme} : IsGap c →
      Scans state (placeAfter position [c]) rest lexemes → Scans state position (c :: rest) lexemes
  | comment {state : LexState} {position : Position} {comment rest : List Char}
      {lexemes : List Lexeme} : '\n' ∉ comment → (∀ c ∈ rest.head?, c = '\n') →
      Scans state (placeAfter position ('#' :: comment)) rest lexemes →
      Scans state position ('#' :: comment ++ rest) lexemes
  | token {state : LexState} {position : Position} {token : Token} {t rest : List Char}
      {lexemes : List Lexeme} : Reads token t rest → state.phase.accepts token.kind = true →
      Scans (state.next token) (placeAfter position t) rest lexemes →
      Scans state position (t ++ rest) (⟨token, String.ofList t, position⟩ :: lexemes)

/-- A text is read piece by piece, unless something does not fit. -/
theorem scans_of_tokensFrom {state : LexState} {p : Position} {cs : List Char}
    (h : (tokensFrom state p cs).fault = none) :
    Scans state p cs (tokensFrom state p cs).lexemes := by
  induction state, p, cs using tokensFrom_induction with
  | nil state p =>
      rw [tokensFrom_nil]
      exact .nil state p
  | blank state p c rest hc ih =>
      rw [tokensFrom_blank state p hc] at h ⊢
      exact .blank hc (ih h)
  | comment state p comment rest hfeed hline ih =>
      rw [tokensFrom_comment state p hfeed hline] at h ⊢
      exact .comment hfeed hline (ih h)
  | token state p token t rest hread ih =>
      have hreads := Reads.of_readToken hread
      rw [tokensFrom_token p hread] at h ⊢
      exact .token hreads (accepts_of_readToken hread) (ih h)
  | stuck state p c rest hskip hread =>
      rw [tokensFrom_stuck hskip hread] at h
      cases h

/-! ## Pieces and tokens -/

/-- What is read of a text at a time: a token or, without one, what is passed over; its characters, and
where it starts. -/
structure Piece where
  token : Option Token
  chars : List Char
  position : Position

/-- The lexeme that a piece is, unless it is passed over. -/
def Piece.lexeme? (piece : Piece) : Option Lexeme :=
  piece.token.map fun token => ⟨token, String.ofList piece.chars, piece.position⟩

/-- The pieces of the rest of a text, up to a place where nothing fits. -/
def piecesFrom (state : LexState) (p : Position) (cs : List Char) : List Piece :=
  match cs with
  | [] => []
  | c :: rest =>
    match skipLength (c :: rest) with
    | n + 1 =>
      let passed := c :: rest.take n
      ⟨none, passed, p⟩ :: piecesFrom state (placeAfter p passed) (rest.drop n)
    | 0 =>
      match readToken state.phase.accepts (c :: rest) with
      | some (token, n) =>
        let text := c :: rest.take (n - 1)
        ⟨some token, text, p⟩ :: piecesFrom (state.next token) (placeAfter p text) (rest.drop (n - 1))
      | none => []
  termination_by cs.length
  decreasing_by all_goals simp only [List.length_drop, List.length_cons]; omega

/-- The pieces of a script. -/
def pieces (cs : List Char) : List Piece := piecesFrom .initial ⟨1, 1⟩ cs

/-- What is passed over comes first. -/
theorem piecesFrom_skip (state : LexState) (p : Position) {t rest : List Char} (hne : t ≠ [])
    (hskip : skipLength (t ++ rest) = t.length) :
    piecesFrom state p (t ++ rest) = ⟨none, t, p⟩ :: piecesFrom state (placeAfter p t) rest := by
  obtain ⟨c, t, rfl⟩ := List.exists_cons_of_ne_nil hne
  rw [List.cons_append, List.length_cons] at hskip
  rw [List.cons_append, piecesFrom]
  simp [hskip]

/-- A blank is passed over. -/
theorem piecesFrom_blank (state : LexState) (p : Position) {c : Char} (hc : IsGap c) (rest : List Char) :
    piecesFrom state p (c :: rest) = ⟨none, [c], p⟩ :: piecesFrom state (placeAfter p [c]) rest :=
  piecesFrom_skip state p (List.cons_ne_nil c []) (by rcases hc with rfl | rfl <;> rfl)

/-- So is a comment. -/
theorem piecesFrom_comment (state : LexState) (p : Position) {comment rest : List Char}
    (hfeed : '\n' ∉ comment) (hrest : ∀ c ∈ rest.head?, c = '\n') :
    piecesFrom state p ('#' :: comment ++ rest) =
      ⟨none, '#' :: comment, p⟩ :: piecesFrom state (placeAfter p ('#' :: comment)) rest :=
  piecesFrom_skip state p (List.cons_ne_nil _ _) (skipLength_comment hfeed hrest)

/-- A token comes first. -/
theorem piecesFrom_token {state : LexState} {token : Token} {t rest : List Char} (p : Position)
    (h : readToken state.phase.accepts (t ++ rest) = some (token, t.length)) :
    piecesFrom state p (t ++ rest) =
      ⟨some token, t, p⟩ :: piecesFrom (state.next token) (placeAfter p t) rest := by
  have hreads := Reads.of_readToken h
  obtain ⟨c, t, rfl⟩ := List.exists_cons_of_ne_nil hreads.ne_nil
  have hskip := skipLength_of_readToken h
  rw [List.cons_append, List.length_cons] at h
  rw [List.cons_append] at hskip
  rw [List.cons_append, piecesFrom]
  simp [hskip, h]

/-- Where nothing fits there are no more pieces. -/
theorem piecesFrom_stuck {state : LexState} (p : Position) {c : Char} {rest : List Char}
    (hskip : skipLength (c :: rest) = 0) (hread : readToken state.phase.accepts (c :: rest) = none) :
    piecesFrom state p (c :: rest) = [] := by
  rw [piecesFrom]
  simp [hskip, hread]

/-- The pieces that are not passed over are the tokens of a text. -/
theorem lexemes_piecesFrom (state : LexState) (p : Position) (cs : List Char) :
    (piecesFrom state p cs).filterMap Piece.lexeme? = (tokensFrom state p cs).lexemes := by
  induction state, p, cs using tokensFrom_induction with
  | nil state p =>
      rw [tokensFrom_nil, piecesFrom]
      rfl
  | blank state p c rest hc ih =>
      rw [piecesFrom_blank state p hc, tokensFrom_blank state p hc, List.filterMap_cons_none rfl]
      exact ih
  | comment state p comment rest hfeed hline ih =>
      rw [piecesFrom_comment state p hfeed hline, tokensFrom_comment state p hfeed hline,
        List.filterMap_cons_none rfl]
      exact ih
  | token state p token t rest hread ih =>
      have hlexeme : Piece.lexeme? ⟨some token, t, p⟩ = some ⟨token, String.ofList t, p⟩ := rfl
      rw [piecesFrom_token p hread, tokensFrom_token p hread, List.filterMap_cons_some hlexeme, ih]
      rfl
  | stuck state p c rest hskip hread =>
      rw [piecesFrom_stuck p hskip hread, tokensFrom_stuck hskip hread]
      rfl

/-- The pieces of a text that is read to its end make up the text. -/
theorem chars_piecesFrom {state : LexState} {p : Position} {cs : List Char}
    (h : (tokensFrom state p cs).fault = none) : (piecesFrom state p cs).flatMap Piece.chars = cs := by
  induction state, p, cs using tokensFrom_induction with
  | nil state p =>
      rw [piecesFrom]
      rfl
  | blank state p c rest hc ih =>
      rw [tokensFrom_blank state p hc] at h
      rw [piecesFrom_blank state p hc, List.flatMap_cons, ih h]
      rfl
  | comment state p comment rest hfeed hline ih =>
      rw [tokensFrom_comment state p hfeed hline] at h
      rw [piecesFrom_comment state p hfeed hline, List.flatMap_cons, ih h]
  | token state p token t rest hread ih =>
      rw [tokensFrom_token p hread] at h
      rw [piecesFrom_token p hread, List.flatMap_cons, ih h]
  | stuck state p c rest hskip hread =>
      rw [tokensFrom_stuck hskip hread] at h
      cases h

end Rubric.Script
