import Mathlib.Data.List.Forall2
import Rubric.Proofs.Script.Openers
import Rubric.Proofs.Script.PlainScript
import Rubric.Proofs.Script.Reading
import Rubric.Proofs.Script.Unambiguous

/-!
# Line numbers

The statements of a script, at every depth and each before those in it, correspond to the lines that
begin statements, in the order of the text.  The tokens from the first one of such a line on, read
alone, begin with the statement, and the statement has the line of that token.

* `openings` : the tokens from the first one of each line that begins a statement;
* `Tracks` : what a parser has made of the openings so far, kept by every token;
* `Stmt.handOut` : statements that are given lines one by one, each before those in it;
* `lines_of_parse` : the lines of the statements of a script, and that handing out the lines of the
  openings gives each statement its own.
-/

namespace Rubric.Script

/-! ## Openings -/

/-- The tokens of a script from the first one of each line that begins a statement on; `fresh` where
the first token starts a line. -/
def openings : Bool → List Lexeme → List (List Lexeme)
  | _, [] => []
  | fresh, first :: rest =>
    let others := openings (decide (first.token = .newline)) rest
    if fresh && first.token.opens then (first :: rest) :: others else others

/-- Whether a line starts after some tokens. -/
def freshAfter : Bool → List Lexeme → Bool
  | fresh, [] => fresh
  | _, first :: rest => freshAfter (decide (first.token = .newline)) rest

/-- A line starts after a line end. -/
theorem freshAfter_concat (fresh : Bool) (lexemes : List Lexeme) (last : Lexeme) :
    freshAfter fresh (lexemes ++ [last]) = decide (last.token = .newline) := by
  induction lexemes generalizing fresh with
  | nil => rfl
  | cons first rest ih => exact ih _

/-- One more token belongs to all openings before it, and may begin one. -/
theorem openings_concat (fresh : Bool) (lexemes : List Lexeme) (last : Lexeme) :
    openings fresh (lexemes ++ [last]) = (openings fresh lexemes).map (· ++ [last])
      ++ if freshAfter fresh lexemes && last.token.opens then [[last]] else [] := by
  induction lexemes generalizing fresh with
  | nil => simp [openings, freshAfter]
  | cons first rest ih =>
      rw [List.cons_append, openings, openings, ih, freshAfter]
      split <;> simp

/-- An opening is what is left of the tokens from somewhere. -/
theorem suffix_of_mem_openings {fresh : Bool} {lexemes opening : List Lexeme}
    (h : opening ∈ openings fresh lexemes) : opening <:+ lexemes := by
  induction lexemes generalizing fresh with
  | nil => cases h
  | cons first rest ih =>
      rw [openings] at h
      split at h
      · rcases List.mem_cons.mp h with rfl | hrest
        · exact List.suffix_refl _
        · exact (ih hrest).trans (List.suffix_cons _ _)
      · exact (ih h).trans (List.suffix_cons _ _)

/-! ## What becomes of openings -/

/-- What is expected of an opening. -/
abbrev Mark := List Lexeme → Prop

/-- A statement that is complete: the opening begins with its tokens, and it has the line of the first
one. -/
def Spells (s : Stmt) : Mark := fun opening =>
  ∃ first others rest, opening = first :: others ++ rest ∧
    ParseState.initial.run (first :: others) = .ok ⟨.lineStart, [s], []⟩ ∧
    s.line = first.position.line

/-- A statement that is not complete: its tokens so far, read alone, lead to a state of the parser. -/
def Begins (s : ParseState) (line : Nat) : Mark := fun opening =>
  ∃ first others, opening = first :: others ∧ ParseState.initial.run opening = .ok s ∧
    line = first.position.line

/-- Whether a mark follows from another after one more token. -/
def Carries (last : Lexeme) (mark mark' : Mark) : Prop :=
  ∀ opening, mark opening → mark' (opening ++ [last])

namespace ParseState

/-- Tokens that are read one after the other. -/
theorem run_concat {s t t' : ParseState} {lexemes : List Lexeme} {last : Lexeme}
    (h : s.run lexemes = .ok t) (hstep : t.step last.position.line last.token = some t') :
    s.run (lexemes ++ [last]) = .ok t' := by
  rw [run_append h, run, hstep]
  rfl

/-- The marks of the statements whose blocks are open, the outermost first, each with those of the
statements before it and of its complete branches.  The inner blocks are the same read alone. -/
def openMarks (focus : Focus) (statements : List Stmt) (inner : List (Block × List Stmt)) :
    List (Block × List Stmt) → List Mark
  | [] => []
  | (block, outer) :: blocks =>
    openMarks focus statements (inner ++ [(block, outer)]) blocks
      ++ (Stmt.walkAll outer.reverse).map Spells
      ++ Begins ⟨focus, statements, inner ++ [(block, [])]⟩ block.line
        :: (Stmt.walkAll block.bodies).map Spells

/-- The marks of all statements that are complete or begun, in the order of the text. -/
def marks (s : ParseState) : List Mark :=
  openMarks s.focus s.statements [] s.blocks ++ (Stmt.walkAll s.statements.reverse).map Spells
    ++ (s.focus.opener.map (Begins ⟨s.focus, [], []⟩)).toList

/-- The marks where a statement is begun on the current line. -/
theorem marks_of_some {f : Focus} {line : Nat} (h : f.opener = some line) (statements : List Stmt)
    (blocks : List (Block × List Stmt)) :
    marks ⟨f, statements, blocks⟩ = openMarks f statements [] blocks
      ++ (Stmt.walkAll statements.reverse).map Spells ++ [Begins ⟨f, [], []⟩ line] := by
  rw [marks, h]
  rfl

/-- The marks where none is. -/
theorem marks_of_none {f : Focus} (h : f.opener = none) (statements : List Stmt)
    (blocks : List (Block × List Stmt)) :
    marks ⟨f, statements, blocks⟩ = openMarks f statements [] blocks
      ++ (Stmt.walkAll statements.reverse).map Spells := by
  rw [marks, h]
  exact List.append_nil _

/-- The marks where the innermost block is begun. -/
theorem openMarks_cons (f : Focus) (statements outer : List Stmt) (b : Block)
    (blocks : List (Block × List Stmt)) :
    openMarks f statements [] ((b, outer) :: blocks)
      = openMarks f statements [(b, outer)] blocks ++ (Stmt.walkAll outer.reverse).map Spells
        ++ [Begins ⟨f, statements, [(b, [])]⟩ b.line] ++ (Stmt.walkAll b.bodies).map Spells := by
  rw [openMarks, List.append_assoc _ [_]]
  rfl

end ParseState

open ParseState

/-- A complete statement stays one. -/
theorem carries_spells (last : Lexeme) (s : Stmt) : Carries last (Spells s) (Spells s) := by
  rintro _ ⟨first, others, rest, rfl, hrun, hline⟩
  exact ⟨first, others, rest ++ [last], by simp, hrun, hline⟩

/-- So do several. -/
theorem carries_map_spells (last : Lexeme) (ss : List Stmt) :
    List.Forall₂ (Carries last) (ss.map Spells) (ss.map Spells) := by
  induction ss with
  | nil => exact .nil
  | cons s ss ih => exact .cons (carries_spells last s) ih

/-- What is read alone takes one more step. -/
theorem carries_begins {last : Lexeme} {t t' : ParseState} (line : Nat)
    (h : t.step last.position.line last.token = some t') :
    Carries last (Begins t line) (Begins t' line) := by
  rintro _ ⟨first, others, rfl, hrun, hline⟩
  exact ⟨first, others ++ [last], rfl, run_concat hrun h, hline⟩

/-- What is read alone is complete after one more step. -/
theorem carries_complete {last : Lexeme} {t : ParseState} {s : Stmt} {line : Nat}
    (hline : s.line = line)
    (h : t.step last.position.line last.token = some ⟨.lineStart, [s], []⟩) :
    Carries last (Begins t line) (Spells s) := by
  rintro _ ⟨first, others, rfl, hrun, rfl⟩
  exact ⟨first, others ++ [last], [], by simp, run_concat hrun h, hline⟩

/-- Marks in a row are carried to marks in a row. -/
theorem carries_append {last : Lexeme} {first first' second second' : List Mark}
    (hfirst : List.Forall₂ (Carries last) first first')
    (hsecond : List.Forall₂ (Carries last) second second') :
    List.Forall₂ (Carries last) (first ++ second) (first' ++ second') :=
  List.rel_append hfirst hsecond

/-- The statements whose blocks stay open take one more step each. -/
theorem carries_openMarks {last : Lexeme} {f f' : Focus} {ss ss' : List Stmt}
    (inner inner' : List (Block × List Stmt)) (blocks : List (Block × List Stmt))
    (h : ∀ block bs, (⟨f, ss, inner ++ block :: bs⟩ : ParseState).step last.position.line last.token
      = some ⟨f', ss', inner' ++ block :: bs⟩) :
    List.Forall₂ (Carries last) (openMarks f ss inner blocks) (openMarks f' ss' inner' blocks) := by
  induction blocks generalizing inner inner' with
  | nil => exact .nil
  | cons entry blocks ih =>
      obtain ⟨block, outer⟩ := entry
      rw [openMarks, openMarks]
      refine carries_append (carries_append (ih _ _ fun b bs => ?_) (carries_map_spells last _))
        (.cons (carries_begins _ (h _ _)) (carries_map_spells last _))
      simpa using h (block, outer) (b :: bs)

/-- The innermost of them may change, and keeps its line. -/
theorem carries_innermost {last : Lexeme} {f f' : Focus} {ss ss' : List Stmt} {b b' : Block}
    (outer : List Stmt) (blocks : List (Block × List Stmt)) (hline : b'.line = b.line)
    (h : ∀ o bs, (⟨f, ss, (b, o) :: bs⟩ : ParseState).step last.position.line last.token
      = some ⟨f', ss', (b', o) :: bs⟩) :
    List.Forall₂ (Carries last)
      (openMarks f ss [(b, outer)] blocks ++ (Stmt.walkAll outer.reverse).map Spells
        ++ [Begins ⟨f, ss, [(b, [])]⟩ b.line])
      (openMarks f' ss' [(b', outer)] blocks ++ (Stmt.walkAll outer.reverse).map Spells
        ++ [Begins ⟨f', ss', [(b', [])]⟩ b'.line]) := by
  refine carries_append (carries_append (carries_openMarks _ _ blocks fun block bs => h _ _)
    (carries_map_spells last _)) (.cons ?_ .nil)
  rw [hline]
  exact carries_begins _ (h [] [])

/-! ## What transitions do to the marks -/

section

variable {last : Lexeme} {f f' : Focus} {b b' : Block} {stmt : Stmt}

/-- No statement is begun at the start of a line. -/
theorem opener_lineStart : Focus.lineStart.opener = none := rfl

/-- Within a line the statement that is begun takes one more step. -/
theorem carries_advance (h : f.Advances last.token f') (statements : List Stmt)
    (blocks : List (Block × List Stmt)) :
    List.Forall₂ (Carries last) (marks ⟨f, statements, blocks⟩) (marks ⟨f', statements, blocks⟩) := by
  have hstep := h.step last.position.line
  have hcomplete := carries_append
    (carries_openMarks [] [] blocks fun b bs => hstep statements (b :: bs))
    (carries_map_spells last (Stmt.walkAll statements.reverse))
  cases hline : f.opener with
  | none =>
      rw [marks_of_none hline, marks_of_none (h.opener_eq.trans hline)]
      exact hcomplete
  | some line =>
      rw [marks_of_some hline, marks_of_some (h.opener_eq.trans hline)]
      exact carries_append hcomplete (.cons (carries_begins line (hstep [] [])) .nil)

/-- A line that begins a statement carries the marks of the others, before that of its own. -/
theorem carries_begin (h : Focus.Begins last.position.line last.token f) (statements : List Stmt)
    (blocks : List (Block × List Stmt)) :
    ∃ before, List.Forall₂ (Carries last) (marks ⟨.lineStart, statements, blocks⟩) before ∧
      marks ⟨f, statements, blocks⟩ = before ++ [Begins ⟨f, [], []⟩ last.position.line] := by
  refine ⟨_, ?_, marks_of_some h.opener_eq.1 statements blocks⟩
  rw [marks_of_none opener_lineStart]
  exact carries_append
    (carries_openMarks [] [] blocks fun b bs => (Transition.begin h statements (b :: bs)).step)
    (carries_map_spells last (Stmt.walkAll statements.reverse))

/-- A line that goes on with a block is a step of the statement of the block. -/
theorem carries_continue (h : b.Continues last.token f) (statements outer : List Stmt)
    (blocks : List (Block × List Stmt)) :
    List.Forall₂ (Carries last) (marks ⟨.lineStart, statements, (b, outer) :: blocks⟩)
      (marks ⟨f, statements, (b, outer) :: blocks⟩) := by
  rw [marks_of_none opener_lineStart, marks_of_none h.opener_eq.1, openMarks_cons, openMarks_cons]
  have hblocks := carries_innermost outer blocks rfl fun o bs =>
    (Transition.continue h statements o bs).step
  exact carries_append (carries_append hblocks (carries_map_spells last _))
    (carries_map_spells last _)

/-- A statement that is completed comes last. -/
theorem carries_completes (h : f.Completes stmt) (hlast : last.token = .newline)
    (statements : List Stmt) (blocks : List (Block × List Stmt)) :
    List.Forall₂ (Carries last) (marks ⟨f, statements, blocks⟩)
      (marks ⟨.lineStart, stmt :: statements, blocks⟩) := by
  have hstep : ∀ ss bs, (⟨f, ss, bs⟩ : ParseState).step last.position.line last.token
      = some ⟨.lineStart, stmt :: ss, bs⟩ := fun ss bs => hlast ▸ (Transition.complete h ss bs).step
  obtain ⟨hopener, hwalk⟩ := h.opener_eq
  have hwalked : (Stmt.walkAll (stmt :: statements).reverse).map Spells
      = (Stmt.walkAll statements.reverse).map Spells ++ [Spells stmt] := by
    simp [walkAll_append, Stmt.walkAll, hwalk]
  rw [marks_of_some hopener, marks_of_none opener_lineStart, hwalked, ← List.append_assoc]
  have hblocks := carries_openMarks [] [] blocks fun b bs => hstep statements (b :: bs)
  exact carries_append (carries_append hblocks (carries_map_spells last _))
    (.cons (carries_complete rfl (hstep [] [])) .nil)

/-- A block that is opened keeps the statement that its line began. -/
theorem carries_enter (h : f.Enters b) (hlast : last.token = .newline) (statements : List Stmt)
    (blocks : List (Block × List Stmt)) :
    List.Forall₂ (Carries last) (marks ⟨f, statements, blocks⟩)
      (marks ⟨.lineStart, [], (b, statements) :: blocks⟩) := by
  have hstep : ∀ ss bs, (⟨f, ss, bs⟩ : ParseState).step last.position.line last.token
      = some ⟨.lineStart, [], (b, ss) :: bs⟩ := fun ss bs => hlast ▸ (Transition.enter h ss bs).step
  obtain ⟨hopener, hbodies⟩ := h.opener_eq
  have hempty : (Stmt.walkAll b.bodies).map Spells = [] := by rw [hbodies]; rfl
  rw [marks_of_some hopener, marks_of_none opener_lineStart, openMarks_cons, hempty]
  have hblocks := carries_openMarks [] [(b, statements)] blocks fun block bs =>
    hstep statements (block :: bs)
  have hall := carries_append (carries_append hblocks (carries_map_spells last
    (Stmt.walkAll statements.reverse))) (.cons (carries_begins b.line (hstep [] [])) .nil)
  simpa [Stmt.walkAll] using hall

/-- The next branch of a block keeps the statements of the one before it. -/
theorem carries_switch {statements : List Stmt} (h : f.Switches b statements b')
    (hlast : last.token = .newline) (outer : List Stmt) (blocks : List (Block × List Stmt)) :
    List.Forall₂ (Carries last) (marks ⟨f, statements, (b, outer) :: blocks⟩)
      (marks ⟨.lineStart, [], (b', outer) :: blocks⟩) := by
  obtain ⟨hopener, hline, hbodies⟩ := h.opener_eq
  have hwalked : (Stmt.walkAll b'.bodies).map Spells
      = (Stmt.walkAll b.bodies).map Spells ++ (Stmt.walkAll statements.reverse).map Spells := by
    rw [hbodies, walkAll_append, List.map_append]
  rw [marks_of_none hopener, marks_of_none opener_lineStart, openMarks_cons, openMarks_cons, hwalked]
  have hblocks := carries_innermost outer blocks hline fun o bs =>
    hlast ▸ (Transition.switch h o bs).step
  have hall := carries_append hblocks (carries_append
    (carries_map_spells last (Stmt.walkAll b.bodies))
    (carries_map_spells last (Stmt.walkAll statements.reverse)))
  simpa [Stmt.walkAll] using hall

/-- A block that is closed is a statement with those of the block after it. -/
theorem carries_leave {statements : List Stmt} (h : f.Leaves b statements stmt)
    (hlast : last.token = .newline) (outer : List Stmt) (blocks : List (Block × List Stmt)) :
    List.Forall₂ (Carries last) (marks ⟨f, statements, (b, outer) :: blocks⟩)
      (marks ⟨.lineStart, stmt :: outer, blocks⟩) := by
  have hstep : ∀ o bs, (⟨f, statements, (b, o) :: bs⟩ : ParseState).step last.position.line last.token
      = some ⟨.lineStart, stmt :: o, bs⟩ := fun o bs => hlast ▸ (Transition.leave h o bs).step
  obtain ⟨hopener, hline, hwalk⟩ := h.opener_eq
  -- the statement takes the place of its block, and its bodies stand after it
  have hwalked : (Stmt.walkAll (stmt :: outer).reverse).map Spells
      = (Stmt.walkAll outer.reverse).map Spells ++ [Spells stmt]
        ++ ((Stmt.walkAll b.bodies).map Spells ++ (Stmt.walkAll statements.reverse).map Spells) := by
    simp [walkAll_append, Stmt.walkAll, hwalk]
  rw [marks_of_none hopener, marks_of_none opener_lineStart, openMarks_cons, hwalked]
  have hblocks := carries_openMarks [(b, outer)] [] blocks fun block bs => hstep outer (block :: bs)
  have hall := carries_append (carries_append hblocks (carries_append
    (carries_map_spells last (Stmt.walkAll outer.reverse))
    (.cons (carries_complete hline (hstep [] [])) .nil))) (carries_append
    (carries_map_spells last (Stmt.walkAll b.bodies))
    (carries_map_spells last (Stmt.walkAll statements.reverse)))
  simpa using hall

end

/-! ## What a parser keeps of openings -/

/-- Whether a parser has made of some tokens what it should: it is at the start of a line where one
starts, and the openings have its marks, one by one. -/
structure Tracks (lexemes : List Lexeme) (s : ParseState) : Prop where
  fresh : freshAfter true lexemes = true ↔ s.focus = .lineStart
  marked : List.Forall₂ (fun opening mark => mark opening) (openings true lexemes) s.marks

/-- A parser that has read nothing tracks it. -/
theorem tracks_initial : Tracks [] ParseState.initial :=
  ⟨by simp [freshAfter, ParseState.initial], .nil⟩

/-- Openings with one more token have the marks that are carried to. -/
theorem forall₂_carried {last : Lexeme} {opened : List (List Lexeme)} {before after : List Mark}
    (h : List.Forall₂ (fun opening mark => mark opening) opened before)
    (hcarried : List.Forall₂ (Carries last) before after) :
    List.Forall₂ (fun opening mark => mark opening) (opened.map (· ++ [last])) after := by
  induction h generalizing after with
  | nil =>
      cases hcarried
      exact .nil
  | cons hmark _ ih =>
      cases hcarried with
      | cons hfirst hrest => exact .cons (hfirst _ hmark) (ih hrest)

/-- A token that begins no statement keeps track of the others. -/
theorem Tracks.carry {lexemes : List Lexeme} {last : Lexeme} {s s' : ParseState}
    (h : Tracks lexemes s) (hclosed : s.focus ≠ .lineStart ∨ last.token.opens = false)
    (hfresh : last.token = .newline ↔ s'.focus = .lineStart)
    (hcarried : List.Forall₂ (Carries last) s.marks s'.marks) : Tracks (lexemes ++ [last]) s' where
  fresh := by
    rw [freshAfter_concat, decide_eq_true_iff]
    exact hfresh
  marked := by
    have hnone : (freshAfter true lexemes && last.token.opens) = false := by
      rw [Bool.and_eq_false_iff]
      rcases hclosed with hfocus | htoken
      · exact .inl (Bool.eq_false_iff.mpr fun hfresh => hfocus (h.fresh.mp hfresh))
      · exact .inr htoken
    rw [openings_concat, hnone]
    simpa using forall₂_carried h.marked hcarried

/-- Every token keeps track of the openings. -/
theorem Tracks.step {lexemes : List Lexeme} {last : Lexeme} {s s' : ParseState}
    (h : Tracks lexemes s) (hs : s.step last.position.line last.token = some s') :
    Tracks (lexemes ++ [last]) s' := by
  have hfresh := newline_iff_of_step hs
  generalize htoken : last.token = token at hs
  cases transition_of_step hs with
  | advance h' statements blocks =>
      exact h.carry (.inl h'.ne_lineStart.1) hfresh (carries_advance (htoken ▸ h') statements blocks)
  | margin => exact h.carry (.inr (by rw [htoken]; rfl)) hfresh .nil
  | @begin f _ h' statements blocks =>
      subst htoken
      obtain ⟨before, hcarried, hmarks⟩ := carries_begin h' statements blocks
      refine ⟨by rw [freshAfter_concat, decide_eq_true_iff]; exact hfresh, ?_⟩
      have hbegins : Begins ⟨f, [], []⟩ last.position.line [last] :=
        ⟨last, [], rfl, @run_concat .initial .initial _ [] _ rfl (Transition.begin h' [] []).step, rfl⟩
      rw [openings_concat, h.fresh.mpr rfl, h'.opener_eq.2, hmarks]
      exact List.rel_append (forall₂_carried h.marked hcarried) (.cons hbegins .nil)
  | «continue» h' statements outer blocks =>
      exact h.carry (.inr (htoken ▸ h'.opener_eq.2)) hfresh
        (carries_continue (htoken ▸ h') statements outer blocks)
  | complete h' statements blocks =>
      exact h.carry (.inr (by rw [htoken]; rfl)) hfresh (carries_completes h' htoken statements blocks)
  | enter h' statements blocks =>
      exact h.carry (.inr (by rw [htoken]; rfl)) hfresh (carries_enter h' htoken statements blocks)
  | switch h' outer blocks =>
      exact h.carry (.inr (by rw [htoken]; rfl)) hfresh (carries_switch h' htoken outer blocks)
  | leave h' outer blocks =>
      exact h.carry (.inr (by rw [htoken]; rfl)) hfresh (carries_leave h' htoken outer blocks)

/-- All tokens of a run keep track of the openings. -/
theorem Tracks.run {s s' : ParseState} (rest : List Lexeme) :
    ∀ {lexemes : List Lexeme}, Tracks lexemes s → s.run rest = .ok s' → Tracks (lexemes ++ rest) s' := by
  induction rest generalizing s with
  | nil =>
      intro lexemes h hrun
      cases hrun
      rwa [List.append_nil]
  | cons last rest ih =>
      intro lexemes h hrun
      rw [ParseState.run] at hrun
      split at hrun
      · rename_i t hstep
        have hrest := ih (h.step hstep) hrun
        rwa [List.append_assoc] at hrest
      · cases hrun

/-! ## Handing out lines -/

mutual

/-- A statement with the first of some lines, or with line 0 where there is none, and those in its
blocks with the next ones; and the lines that are left. -/
def Stmt.handOut (lines : List Nat) : Stmt → Stmt × List Nat
  | .assign _ var path value => (.assign (lines.headD 0) var path value, lines.tail)
  | .branch _ condition body rest =>
    let (body, left) := Stmt.handOutAll lines.tail body
    let (rest, left) := rest.handOut left
    (.branch (lines.headD 0) condition body rest, left)
  | .foreach _ var collection body =>
    let (body, left) := Stmt.handOutAll lines.tail body
    (.foreach (lines.headD 0) var collection body, left)
  | .call _ function args => (.call (lines.headD 0) function args, lines.tail)

/-- Alternatives whose statements are given lines, and the lines that are left. -/
def Alternatives.handOut (lines : List Nat) : Alternatives → Alternatives × List Nat
  | .done => (.done, lines)
  | .otherwise body =>
    let (body, left) := Stmt.handOutAll lines body
    (.otherwise body, left)
  | .elif condition body rest =>
    let (body, left) := Stmt.handOutAll lines body
    let (rest, left) := rest.handOut left
    (.elif condition body rest, left)

/-- Statements that are given lines, one after the other, and the lines that are left. -/
def Stmt.handOutAll (lines : List Nat) : List Stmt → List Stmt × List Nat
  | [] => ([], lines)
  | s :: ss =>
    let (s, left) := s.handOut lines
    let (ss, left) := Stmt.handOutAll left ss
    (s :: ss, left)

end

mutual

/-- Statements without lines that are given their own lines are what they were, and no further line
is taken. -/
theorem Stmt.handOut_unlined (left : List Nat) :
    ∀ s : Stmt, s.unlined.handOut (s.walk.map Stmt.line ++ left) = (s, left)
  | .assign _ _ _ _ => rfl
  | .branch line condition body rest => by
      have hbody := Stmt.handOutAll_unlined (rest.walk.map Stmt.line ++ left) body
      have hrest := Alternatives.handOut_unlined left rest
      rw [Stmt.walk, Stmt.unlined, Stmt.handOut]
      simp only [List.map_cons, List.map_append, List.cons_append, List.append_assoc, List.tail_cons,
        List.headD_cons, hbody, hrest]
      rfl
  | .foreach line var collection body => by
      have hbody := Stmt.handOutAll_unlined left body
      rw [Stmt.walk, Stmt.unlined, Stmt.handOut]
      simp only [List.map_cons, List.cons_append, List.tail_cons, List.headD_cons, hbody]
      rfl
  | .call _ _ _ => rfl

/-- So are alternatives. -/
theorem Alternatives.handOut_unlined (left : List Nat) :
    ∀ rest : Alternatives, rest.unlined.handOut (rest.walk.map Stmt.line ++ left) = (rest, left)
  | .done => rfl
  | .otherwise body => by
      have hbody := Stmt.handOutAll_unlined left body
      rw [Alternatives.walk, Alternatives.unlined, Alternatives.handOut, hbody]
  | .elif condition body rest => by
      have hbody := Stmt.handOutAll_unlined (rest.walk.map Stmt.line ++ left) body
      have hrest := Alternatives.handOut_unlined left rest
      rw [Alternatives.walk, Alternatives.unlined, Alternatives.handOut]
      simp only [List.map_append, List.append_assoc, hbody, hrest]

/-- So are several statements. -/
theorem Stmt.handOutAll_unlined (left : List Nat) : ∀ ss : List Stmt,
    Stmt.handOutAll ((Stmt.walkAll ss).map Stmt.line ++ left) (Stmt.unlinedAll ss) = (ss, left)
  | [] => rfl
  | s :: ss => by
      have hs := Stmt.handOut_unlined ((Stmt.walkAll ss).map Stmt.line ++ left) s
      have hss := Stmt.handOutAll_unlined left ss
      rw [Stmt.walkAll, Stmt.unlinedAll, Stmt.handOutAll]
      simp only [List.map_append, List.append_assoc, hs, hss]

end

/-! ## Places of tokens -/

/-- A text that stands before a place moves it there. -/
theorem Scans.exists_before {state : LexState} {position : Position} {cs : List Char}
    {lexemes : List Lexeme} (h : Scans state position cs lexemes) {first : Lexeme}
    {rest : List Lexeme} (hsuffix : first :: rest <:+ lexemes) :
    ∃ before after, cs = before ++ first.text.toList ++ after ∧
      first.position = placeAfter position before := by
  induction h with
  | nil =>
      rw [List.suffix_nil] at hsuffix
      cases hsuffix
  | @blank state position c cs lexemes hc _ ih =>
      obtain ⟨before, after, rfl, hposition⟩ := ih hsuffix
      exact ⟨c :: before, after, rfl, by rw [hposition]; rfl⟩
  | @comment state position comment cs lexemes hfeed hcs _ ih =>
      obtain ⟨before, after, rfl, hposition⟩ := ih hsuffix
      refine ⟨'#' :: comment ++ before, after, by simp only [List.append_assoc], ?_⟩
      rw [hposition, placeAfter_append]
  | @token state position token t cs lexemes hreads haccepts _ ih =>
      rcases List.suffix_cons_iff.mp hsuffix with heq | hlater
      · cases heq
        exact ⟨[], cs, by rw [String.toList_ofList]; rfl, rfl⟩
      · obtain ⟨before, after, rfl, hposition⟩ := ih hlater
        refine ⟨t ++ before, after, by simp only [List.append_assoc], ?_⟩
        rw [hposition, placeAfter_append]

/-! ## The lines of a script -/

/-- Whether a statement of a text is the one that some tokens begin with: up to the end of the
statement they are parsed, alone, to it, and its line is one more than there are line feeds before
the first of them. -/
def Stmt.OpensAt (text : String) (opening : List Lexeme) (s : Stmt) : Prop :=
  ∃ first others rest before after, opening = first :: others ++ rest ∧
    ParseState.initial.run (first :: others) = .ok ⟨.lineStart, [s], []⟩ ∧
    text.toList = before ++ first.text.toList ++ after ∧
    first.position = placeAfter ⟨1, 1⟩ before ∧ s.line = 1 + before.count '\n'

/-- A script that is parsed is run to its end. -/
theorem run_of_parse {text : String} {p : Program} (h : parse text = .ok p) :
    ParseState.initial.run (tokens text.toList).lexemes
      = .ok ⟨.lineStart, p.statements.reverse, []⟩ := by
  have hfault := fault_of_parse h
  obtain ⟨hstream, -⟩ := parse_eq_ok_iff.mp h
  unfold parseStream at hstream
  cases hrun : ParseState.initial.run (tokens text.toList).lexemes with
  | error fault => simp [hrun, bind, Except.bind] at hstream
  | ok final =>
      obtain ⟨f, statements, blocks⟩ := final
      simp only [hrun, hfault, bind, Except.bind] at hstream
      split at hstream
      · rename_i hcomplete
        obtain ⟨rfl, rfl⟩ : f = .lineStart ∧ blocks = [] := by
          cases f <;> simp_all [ParseState.isComplete]
        split at hstream
        · cases hstream
        · rw [← Except.ok.inj hstream, List.reverse_reverse]
      · cases hstream

/-- The lines on which openings begin. -/
def openingLines (opened : List (List Lexeme)) : List Nat :=
  opened.filterMap fun opening => opening.head?.map fun first => first.position.line

/-- Where openings spell statements, their lines are the lines of these. -/
theorem openingLines_of_spells {opened : List (List Lexeme)} {ss : List Stmt}
    (h : List.Forall₂ (fun opening s => Spells s opening) opened ss) :
    openingLines opened = ss.map Stmt.line := by
  induction h with
  | nil => rfl
  | @cons opening s opened ss hspells _ ih =>
      obtain ⟨first, others, rest, rfl, -, hline⟩ := hspells
      rw [List.map_cons, ← ih, hline]
      rfl

/-- The statements of a script correspond, in the order of the text, to the lines that begin
statements; each has the line of its first token.  So statements that are given the lines of the
openings one by one, each before those in it, have their own, with one line for each. -/
theorem lines_of_parse {text : String} {p : Program} (h : parse text = .ok p) :
    List.Forall₂ (Stmt.OpensAt text) (openings true (tokens text.toList).lexemes) p.allStatements ∧
      Stmt.handOutAll (openingLines (openings true (tokens text.toList).lexemes))
        (Stmt.unlinedAll p.statements) = (p.statements, []) := by
  have hscans : Scans .initial ⟨1, 1⟩ text.toList (tokens text.toList).lexemes :=
    scans_of_tokensFrom (fault_of_parse h)
  have htracks := tracks_initial.run _ (run_of_parse h)
  have hspells : List.Forall₂ (fun opening s => Spells s opening)
      (openings true (tokens text.toList).lexemes) p.allStatements := by
    have hmarked := htracks.marked
    rw [marks_of_none rfl, openMarks, List.nil_append, List.reverse_reverse] at hmarked
    exact List.forall₂_map_right_iff.mp hmarked
  have hsuffixes : ∀ opening ∈ openings true (tokens text.toList).lexemes,
      opening <:+ (tokens text.toList).lexemes :=
    fun opening hopening => suffix_of_mem_openings hopening
  refine ⟨((List.forall₂_and_left _ _).mpr ⟨hsuffixes, hspells⟩).imp ?_, ?_⟩
  · rintro _ s ⟨hsuffix, first, others, rest, rfl, hrun, hline⟩
    obtain ⟨before, after, htext, hposition⟩ := hscans.exists_before hsuffix
    refine ⟨first, others, rest, before, after, rfl, hrun, htext, hposition, ?_⟩
    rw [hline, hposition, line_placeAfter]
  · have hlines := Stmt.handOutAll_unlined [] p.statements
    rwa [List.append_nil, ← Program.allStatements, ← openingLines_of_spells hspells] at hlines

/-- Comments, empty lines and empty bodies between nested blocks. -/
theorem lines_of_parse_nested : ∃ p : Program,
    parse "# head\n\nIF $a\n SET $x = 1 # one\n\nELIF f(1)\nELSE\n FOREACH $r IN [1]\n  g($r)\n ENDFOREACH\nENDIF\n$f()\n"
      = .ok p ∧ p.allStatements.map Stmt.line = [3, 4, 8, 9, 12] ∧
    List.Forall₂ (Stmt.OpensAt p.source) (openings true (tokens p.source.toList).lexemes)
      p.allStatements ∧
    Stmt.handOutAll (openingLines (openings true (tokens p.source.toList).lexemes))
      (Stmt.unlinedAll p.statements) = (p.statements, []) := by
  let text := "# head\n\nIF $a\n SET $x = 1 # one\n\nELIF f(1)\nELSE\n FOREACH $r IN [1]\n  g($r)\n ENDFOREACH\nENDIF\n$f()\n"
  have hlines : (parse text).toOption.map (fun p => p.allStatements.map Stmt.line)
      = some [3, 4, 8, 9, 12] := by
    decide +kernel
  cases hparse : parse text with
  | error fault =>
      rw [hparse] at hlines
      cases hlines
  | ok p =>
      rw [hparse] at hlines
      have hsource : p.source = text := (parse_eq_ok_iff.mp hparse).2
      refine ⟨p, rfl, Option.some.inj hlines, ?_⟩
      rw [hsource]
      exact lines_of_parse hparse

end Rubric.Script
