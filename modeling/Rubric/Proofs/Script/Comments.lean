import Rubric.Proofs.Script.Seam

/-!
# Comments

Reading tokens passes comments over, and so it does with those that a line end takes along.  The repair of
keywords finds comments in another way, line by line: it looks for the first number sign outside strings.
In a text that is read to its end the two find the same comments, in the same places.

* `Piece.comments` : the comments that are passed over with a piece;
* `lineComments` : the comments that lines are split into;
* `comments_piecesFrom`, `comments_of_parse` : they are the same.
-/

namespace Rubric.Script

open Rubric.Text

/-! ## Comments of pieces -/

/-- A comment: its characters, the number sign included, and where it starts. -/
structure Comment where
  chars : List Char
  position : Position
  deriving DecidableEq

/-- The comments among characters in which every number sign starts one, which goes on up to the next line
feed. -/
def commentsIn (p : Position) (cs : List Char) : List Comment :=
  match cs with
  | [] => []
  | c :: rest =>
    if c = '#' then
      let comment := c :: openLine rest
      ⟨comment, p⟩ :: commentsIn (placeAfter p comment) (rest.drop (openLine rest).length)
    else commentsIn (placeAfter p [c]) rest
  termination_by cs.length
  decreasing_by all_goals simp only [List.length_drop, List.length_cons]; omega

/-- The comments that are passed over with a piece: it is one itself, or a line end that takes some
along. -/
def Piece.comments (piece : Piece) : List Comment :=
  match piece.token with
  | none => commentsIn piece.position piece.chars
  | some .newline => commentsIn piece.position piece.chars
  | some _ => []

/-! ## Comments of lines -/

/-- The comment that a line is split into which starts at a place, if it has one. -/
def commentAt (p : Position) (line : List Char) : Option Comment :=
  if (splitComment line).2 = [] then none
  else some ⟨(splitComment line).2, ⟨p.line, p.column + (splitComment line).1.length⟩⟩

/-- The comments that lines are split into, the first of which starts at a place. -/
def lineComments (p : Position) : List (List Char) → List Comment
  | [] => []
  | line :: rest => (commentAt p line).toList ++ lineComments ⟨p.line + 1, 1⟩ rest

/-- An empty line has none. -/
theorem commentAt_nil (p : Position) : commentAt p [] = none := by
  rw [commentAt, splitComment]
  rfl

/-- The comment of a line is on the line. -/
theorem line_of_mem_commentAt {p : Position} {line : List Char} {comment : Comment}
    (h : comment ∈ commentAt p line) : comment.position.line = p.line := by
  obtain ⟨-, hcomment⟩ := Option.ite_none_left_eq_some.mp h
  rw [← Option.some.inj hcomment]

/-- The comments of lines are on them or below. -/
theorem le_line_of_mem_lineComments {p : Position} {ls : List (List Char)} {comment : Comment}
    (h : comment ∈ lineComments p ls) : p.line ≤ comment.position.line := by
  induction ls generalizing p with
  | nil => cases h
  | cons line ls ih =>
      rcases List.mem_append.mp h with hfirst | hrest
      · exact (line_of_mem_commentAt (Option.mem_toList.mp hfirst)).ge
      · exact Nat.le_of_succ_le (ih hrest)

/-- Each line has the comment that it is split into, and no others. -/
theorem filter_lineComments {number i : Nat} {ls : List (List Char)} {line : List Char}
    (h : ls[i]? = some line) :
    (lineComments ⟨number, 1⟩ ls).filter (fun comment => comment.position.line = number + i)
      = (commentAt ⟨number + i, 1⟩ line).toList := by
  induction ls generalizing number i with
  | nil => cases h
  | cons first ls ih =>
      have hfirst : ∀ comment ∈ (commentAt ⟨number, 1⟩ first).toList, comment.position.line = number :=
        fun comment hmem => line_of_mem_commentAt (Option.mem_toList.mp hmem)
      have hrest : ∀ comment ∈ lineComments ⟨number + 1, 1⟩ ls, number + 1 ≤ comment.position.line :=
        fun comment hmem => le_line_of_mem_lineComments hmem
      rw [lineComments, List.filter_append]
      cases i with
      | zero =>
          obtain rfl : first = line := Option.some.inj h
          have hkept : (commentAt ⟨number, 1⟩ first).toList.filter
              (fun comment => comment.position.line = number + 0) = (commentAt ⟨number, 1⟩ first).toList :=
            List.filter_eq_self.mpr fun comment hmem => decide_eq_true (hfirst comment hmem)
          have hnone : (lineComments ⟨number + 1, 1⟩ ls).filter
              (fun comment => comment.position.line = number + 0) = [] := by
            rw [List.filter_eq_nil_iff]
            intro comment hmem
            have hbelow := hrest comment hmem
            simp only [decide_eq_true_eq]
            omega
          rw [hkept, hnone, List.append_nil]
          rfl
      | succ i =>
          have hnone : (commentAt ⟨number, 1⟩ first).toList.filter
              (fun comment => comment.position.line = number + (i + 1)) = [] := by
            rw [List.filter_eq_nil_iff]
            intro comment hmem
            have hplace := hfirst comment hmem
            simp only [decide_eq_true_eq]
            omega
          have hnext := @ih (number + 1) i h
          rw [Nat.add_right_comm] at hnext
          rw [hnone, List.nil_append]
          exact hnext

section Code

variable {t : List Char} (hfeed : '\n' ∉ t)
  (hcode : ∀ line, (splitComment (t ++ line)).1 = t ++ (splitComment line).1)
include hfeed hcode

/-- Characters of code move the comment of a line to the right. -/
theorem commentAt_append (p : Position) (line : List Char) :
    commentAt p (t ++ line) = commentAt (placeAfter p t) line := by
  have hcomment : (splitComment (t ++ line)).2 = (splitComment line).2 := by
    have hwhole := splitComment_append (t ++ line)
    rw [hcode, List.append_assoc, List.append_cancel_left_eq] at hwhole
    exact List.append_cancel_left (hwhole.trans (splitComment_append line).symm)
  rw [commentAt, commentAt, hcomment, hcode, placeAfter_of_notMem p hfeed, List.length_append,
    Nat.add_assoc]

/-- Code before a text has no comments. -/
theorem lineComments_append (p : Position) (cs : List Char) :
    lineComments p (lines (t ++ cs)) = lineComments (placeAfter p t) (lines cs) := by
  rw [lines_eq (t ++ cs), openLine_append hfeed, tail_lines_append hfeed, lineComments,
    commentAt_append hfeed hcode, lines_eq cs, List.tail_cons, lineComments,
    placeAfter_of_notMem p hfeed]

end Code

/-- A line feed starts a line. -/
theorem lineComments_newline (p : Position) (cs : List Char) :
    lineComments p (lines ('\n' :: cs)) = lineComments (placeAfter p ['\n']) (lines cs) := by
  rw [lines_newline, lineComments, commentAt_nil]
  rfl

/-- A character of code before a text is no comment. -/
theorem lineComments_cons {c : Char} (hc : IsCode c) (hline : c ≠ '\n') (p : Position) (cs : List Char) :
    lineComments p (lines (c :: cs)) = lineComments (placeAfter p [c]) (lines cs) :=
  lineComments_append (t := [c]) (by simpa using hline.symm) (fun line => hc.splitComment_cons line) p cs

/-- A comment comes first. -/
theorem lineComments_comment {comment rest : List Char} (hfeed : '\n' ∉ comment)
    (hrest : ∀ c ∈ rest.head?, c = '\n') (p : Position) :
    lineComments p (lines ('#' :: comment ++ rest)) =
      ⟨'#' :: comment, p⟩ :: lineComments (placeAfter p ('#' :: comment)) (lines rest) := by
  have hfeed' : '\n' ∉ '#' :: comment := List.not_mem_cons_of_ne_of_not_mem (by decide) hfeed
  have hopen : openLine rest = [] := openLine_of_head hrest
  have hsplit : splitComment ('#' :: comment) = ([], '#' :: comment) := by
    rw [splitComment]
    rfl
  have hfound : commentAt p ('#' :: comment) = some ⟨'#' :: comment, p⟩ := by
    rw [commentAt, hsplit]
    rfl
  rw [lines_eq ('#' :: comment ++ rest), openLine_append hfeed', tail_lines_append hfeed', hopen,
    List.append_nil, lineComments, hfound, lines_eq rest, hopen, lineComments, commentAt_nil,
    placeAfter_of_notMem p hfeed']
  rfl

/-! ## Comments of line ends -/

/-- Other characters than number signs start no comment. -/
theorem commentsIn_cons {c : Char} (hc : c ≠ '#') (p : Position) (cs : List Char) :
    commentsIn p (c :: cs) = commentsIn (placeAfter p [c]) cs := by
  rw [commentsIn, if_neg hc]

/-- A number sign starts one. -/
theorem commentsIn_comment {comment rest : List Char} (hfeed : '\n' ∉ comment)
    (hrest : ∀ c ∈ rest.head?, c = '\n') (p : Position) :
    commentsIn p ('#' :: comment ++ rest) =
      ⟨'#' :: comment, p⟩ :: commentsIn (placeAfter p ('#' :: comment)) rest := by
  have hopen : openLine (comment ++ rest) = comment :=
    takeWhile_append_stop (fun c hc => by simpa using ne_of_mem_of_not_mem hc hfeed)
      fun c hc => by simpa using hrest c hc
  rw [List.cons_append, commentsIn, if_pos rfl, hopen, List.drop_left]

/-- The comments that a line end takes along are those of the lines that it takes along. -/
theorem lineComments_margin (p : Position) (cs : List Char) :
    lineComments p (lines cs) =
      commentsIn p (cs.take (marginLength false cs)) ++
        lineComments (placeAfter p (cs.take (marginLength false cs)))
          (lines (cs.drop (marginLength false cs))) := by
  induction cs using margin_induction generalizing p with
  | nil =>
      rw [marginLength, List.take_zero, commentsIn]
      rfl
  | blank c rest hc ih =>
      have hstep : lineComments p (lines (c :: rest)) = lineComments (placeAfter p [c]) (lines rest) := by
        rcases hc with rfl | rfl | rfl
        · exact lineComments_newline p rest
        · exact lineComments_cons (by decide) (by decide) p rest
        · exact lineComments_cons (by decide) (by decide) p rest
      have hhash : c ≠ '#' := by rcases hc with rfl | rfl | rfl <;> decide
      rw [marginLength_cons hc, List.take_succ_cons, List.drop_succ_cons, commentsIn_cons hhash, hstep, ih]
      rfl
  | comment comment rest hfeed hrest ih =>
      -- the margin goes on at the end of the line of the comment
      have hmargin : ∀ d ∈ (rest.take (marginLength false rest)).head?, d = '\n' := by
        intro d hd
        rw [List.head?_take] at hd
        split at hd
        · cases hd
        · exact hrest d hd
      rw [marginLength_comment hfeed hrest, List.take_length_add_append, List.drop_length_add_append,
        commentsIn_comment hfeed hmargin, placeAfter_append, lineComments_comment hfeed hrest, ih,
        List.cons_append]
  | crlf rest ih =>
      rw [lineComments_cons (by decide) (by decide), lineComments_newline, ih, marginLength_crlf,
        List.take_succ_cons, List.take_succ_cons, List.drop_succ_cons, List.drop_succ_cons,
        commentsIn_cons (by decide), commentsIn_cons (by decide)]
      rfl
  | stop c rest hblank hhash hreturn =>
      rw [marginLength_eq_zero hblank hhash hreturn, List.take_zero, List.drop_zero, commentsIn]
      rfl

/-- So the comments of a line end come before those of the text after it. -/
theorem Reads.lineComments_newline {t rest : List Char} (h : Reads .newline t rest) (p : Position) :
    lineComments p (lines (t ++ rest)) =
      commentsIn p t ++ lineComments (placeAfter p t) (lines rest) := by
  have hmargin : ∀ (p : Position) {margin : List Char},
      marginLength false (margin ++ rest) = margin.length →
      lineComments p (lines (margin ++ rest)) =
        commentsIn p margin ++ lineComments (placeAfter p margin) (lines rest) := by
    intro p margin hlength
    have hall := lineComments_margin p (margin ++ rest)
    rwa [hlength, List.take_left, List.drop_left] at hall
  cases h with
  | newline hlength =>
      rw [List.cons_append, Script.lineComments_newline, hmargin _ hlength, commentsIn_cons (by decide)]
      rfl
  | crlf hlength =>
      rw [List.cons_append, List.cons_append, lineComments_cons (by decide) (by decide),
        Script.lineComments_newline, hmargin _ hlength, commentsIn_cons (by decide),
        commentsIn_cons (by decide)]
      rfl

/-! ## The comments of a text -/

/-- What is passed over while a text is read to its end are the comments of its lines. -/
theorem comments_piecesFrom {state : LexState} {p : Position} {cs : List Char}
    (h : (tokensFrom state p cs).fault = none) :
    (piecesFrom state p cs).flatMap Piece.comments = lineComments p (lines cs) := by
  induction state, p, cs using tokensFrom_induction with
  | nil state p =>
      have hlines : lines [] = [[]] := rfl
      rw [piecesFrom, hlines, lineComments, commentAt_nil]
      rfl
  | blank state p c rest hc ih =>
      have hnone : commentsIn p [c] = [] := by
        have hhash : c ≠ '#' := hc.isCode.2.2
        rw [commentsIn_cons hhash, commentsIn]
      have hline : c ≠ '\n' := by rcases hc with rfl | rfl <;> decide
      rw [tokensFrom_blank state p hc] at h
      rw [piecesFrom_blank state p hc, List.flatMap_cons, ih h, lineComments_cons hc.isCode hline]
      exact congrArg (· ++ _) hnone
  | comment state p comment rest hfeed hline ih =>
      have hone : commentsIn p ('#' :: comment) = [⟨'#' :: comment, p⟩] := by
        have hend := @commentsIn_comment comment [] hfeed (by simp) p
        rwa [List.append_nil, commentsIn] at hend
      rw [tokensFrom_comment state p hfeed hline] at h
      rw [piecesFrom_comment state p hfeed hline, List.flatMap_cons, ih h, lineComments_comment hfeed hline]
      exact congrArg (· ++ _) hone
  | token state p token t rest hread ih =>
      have hreads := Reads.of_readToken hread
      rw [tokensFrom_token p hread] at h
      rw [piecesFrom_token p hread, List.flatMap_cons, ih h]
      by_cases hinline : token = .newline
      · subst hinline
        rw [hreads.lineComments_newline]
        rfl
      · -- the characters of other tokens are code
        have hsolid := hreads.solid hinline
        rw [lineComments_append hsolid.newline_notMem hsolid.code]
        cases token with
        | newline => exact absurd rfl hinline
        | _ => rfl
  | stuck state p c rest hskip hread =>
      rw [tokensFrom_stuck hskip hread] at h
      cases h

/-- The comments that are passed over in a text. -/
def passedComments (cs : List Char) : List Comment := (pieces cs).flatMap Piece.comments

/-- In a script that is read, the comments that are passed over, before tokens or with line ends, are those
that its lines are split into: each line has at most one, from the first number sign outside strings to its
end, and the others have none. -/
theorem comments_of_parse {text : String} {p : Program} (h : parse text = .ok p) :
    (pieces text.toList).filterMap Piece.lexeme? = (tokens text.toList).lexemes ∧
    (pieces text.toList).flatMap Piece.chars = text.toList ∧
    passedComments text.toList = lineComments ⟨1, 1⟩ (lines text.toList) ∧
    ∀ {i : Nat} {line : List Char}, (lines text.toList)[i]? = some line →
      (passedComments text.toList).filter (fun comment => comment.position.line = 1 + i)
        = (commentAt ⟨1 + i, 1⟩ line).toList := by
  have hfault := fault_of_parse h
  have hcomments : passedComments text.toList = lineComments ⟨1, 1⟩ (lines text.toList) :=
    comments_piecesFrom hfault
  refine ⟨lexemes_piecesFrom _ _ _, chars_piecesFrom hfault, hcomments, fun hline => ?_⟩
  rw [hcomments]
  exact filter_lineComments hline

/-- Number signs and quotes in strings and in comments, an escaped quote, carriage returns, and comments
before the first token, after code, on lines of their own and without characters. -/
theorem comments_of_parse_quoted : ∃ p : Program,
    parse "# it's\r\nSET $x = \"a # \\\" b\" # c'\r\n\t# d \"#\n\nIF $x == '#'#\nENDIF\n" = .ok p ∧
    passedComments p.source.toList = [⟨"# it's\r".toList, ⟨1, 1⟩⟩, ⟨"# c'\r".toList, ⟨2, 21⟩⟩,
      ⟨"# d \"#".toList, ⟨3, 2⟩⟩, ⟨"#".toList, ⟨5, 13⟩⟩] := by
  let text := "# it's\r\nSET $x = \"a # \\\" b\" # c'\r\n\t# d \"#\n\nIF $x == '#'#\nENDIF\n"
  have hread : (parse text).toOption.isSome = true := by decide +kernel
  have hlines : lineComments ⟨1, 1⟩ (lines text.toList) = [⟨"# it's\r".toList, ⟨1, 1⟩⟩,
      ⟨"# c'\r".toList, ⟨2, 21⟩⟩, ⟨"# d \"#".toList, ⟨3, 2⟩⟩, ⟨"#".toList, ⟨5, 13⟩⟩] := by
    decide +kernel
  cases hparse : parse text with
  | error fault =>
      rw [hparse] at hread
      cases hread
  | ok p =>
      have hsource : p.source = text := (parse_eq_ok_iff.mp hparse).2
      obtain ⟨-, -, hcomments, -⟩ := comments_of_parse hparse
      refine ⟨p, rfl, ?_⟩
      rw [hsource, hcomments]
      exact hlines

end Rubric.Script
