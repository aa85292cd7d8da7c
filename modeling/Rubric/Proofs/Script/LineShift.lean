import Mathlib.Data.List.Forall2
import Rubric.Proofs.Script.Pieces
import Rubric.Proofs.Script.Transitions

/-!
# Moving a script down

Where a text stands further down, its tokens are the same, on later lines; and a parser does with them
what it did, but that its statements are on other lines.

* `Stmt.relined` : a statement whose line numbers are exchanged, at every depth;
* `run_relined` : a parser that reads tokens on other lines;
* `tokensFrom_lowered` : the tokens of a text that stands further down.
-/

namespace Rubric.Script

open Rubric.Text

/-! ## Statements on other lines -/

section

variable (f : Nat → Nat)

mutual

/-- A statement whose line numbers are exchanged. -/
def Stmt.relined : Stmt → Stmt
  | .assign line var path value => .assign (f line) var path value
  | .branch line condition body rest =>
    .branch (f line) condition (Stmt.relinedAll body) rest.relined
  | .foreach line var collection body => .foreach (f line) var collection (Stmt.relinedAll body)
  | .call line function args => .call (f line) function args

/-- Alternatives whose line numbers are exchanged. -/
def Alternatives.relined : Alternatives → Alternatives
  | .done => .done
  | .otherwise body => .otherwise (Stmt.relinedAll body)
  | .elif condition body rest => .elif condition (Stmt.relinedAll body) rest.relined

/-- Statements whose line numbers are exchanged. -/
def Stmt.relinedAll : List Stmt → List Stmt
  | [] => []
  | s :: ss => s.relined :: Stmt.relinedAll ss

end

/-- Each of several statements gets its own. -/
theorem relinedAll_eq_map (ss : List Stmt) : Stmt.relinedAll f ss = ss.map (Stmt.relined f) := by
  induction ss with
  | nil => rfl
  | cons s ss ih => rw [Stmt.relinedAll, ih, List.map_cons]

variable {f} in
mutual

/-- A statement whose line numbers are exchanged for themselves. -/
theorem Stmt.relined_self (h : ∀ line, f line = line) : ∀ s : Stmt, s.relined f = s
  | .assign line var path value => by rw [Stmt.relined, h]
  | .branch line condition body rest => by
      rw [Stmt.relined, h, Stmt.relinedAll_self h body, Alternatives.relined_self h rest]
  | .foreach line var collection body => by rw [Stmt.relined, h, Stmt.relinedAll_self h body]
  | .call line function args => by rw [Stmt.relined, h]

/-- Alternatives whose line numbers are exchanged for themselves. -/
theorem Alternatives.relined_self (h : ∀ line, f line = line) :
    ∀ rest : Alternatives, rest.relined f = rest
  | .done => rfl
  | .otherwise body => by rw [Alternatives.relined, Stmt.relinedAll_self h body]
  | .elif condition body rest => by
      rw [Alternatives.relined, Stmt.relinedAll_self h body, Alternatives.relined_self h rest]

/-- Statements whose line numbers are exchanged for themselves. -/
theorem Stmt.relinedAll_self (h : ∀ line, f line = line) :
    ∀ ss : List Stmt, Stmt.relinedAll f ss = ss
  | [] => rfl
  | s :: ss => by rw [Stmt.relinedAll, Stmt.relined_self h s, Stmt.relinedAll_self h ss]

end

/-! ## Parsers on other lines -/

/-- A branch whose statements are on other lines. -/
def relinedBranch (branch : Expr × List Stmt) : Expr × List Stmt :=
  (branch.1, branch.2.map (Stmt.relined f))

/-- What an expression is for, on another line. -/
def Goal.relined : Goal → Goal
  | .assign line var path => .assign (f line) var path
  | .branch line => .branch (f line)
  | .elif => .elif
  | .foreach line var => .foreach (f line) var
  | .call line => .call (f line)

/-- What a line end completes, on another line. -/
def LineEnd.relined : LineEnd → LineEnd
  | .call line function args => .call (f line) function args
  | .otherwise => .otherwise
  | .endBranch => .endBranch
  | .endForeach => .endForeach

/-- How far a line is read, on another line. -/
def Focus.relined : Focus → Focus
  | .lineStart => .lineStart
  | .assignedVar line => .assignedVar (f line)
  | .afterTarget line var path => .afterTarget (f line) var path
  | .targetField line var path => .targetField (f line) var path
  | .loopVar line => .loopVar (f line)
  | .loopIn line var => .loopIn (f line) var
  | .callOpen line function => .callOpen (f line) function
  | .operand goal frames => .operand (goal.relined f) frames
  | .operator goal frames value function => .operator (goal.relined f) frames value function
  | .member goal frames target => .member (goal.relined f) frames target
  | .lineEnd completed => .lineEnd (completed.relined f)

/-- A block that is begun on another line. -/
def Block.relined : Block → Block
  | .branch line earlier condition => .branch (f line) (earlier.map (relinedBranch f)) condition
  | .otherwise line earlier previous =>
    .otherwise (f line) (earlier.map (relinedBranch f)) (relinedBranch f previous)
  | .foreach line var collection => .foreach (f line) var collection

/-- A parser that has read the same tokens on other lines. -/
def ParseState.relined (s : ParseState) : ParseState :=
  ⟨s.focus.relined f, s.statements.map (Stmt.relined f),
    s.blocks.map fun block => (block.1.relined f, block.2.map (Stmt.relined f))⟩

/-- A closed conditional on other lines. -/
theorem relined_closeBranches (line : Nat) (last : Expr × List Stmt)
    (earlier : List (Expr × List Stmt)) (rest : Alternatives) :
    (closeBranches line last earlier rest).relined f =
      closeBranches (f line) (relinedBranch f last) (earlier.map (relinedBranch f))
        (rest.relined f) := by
  induction earlier generalizing last rest with
  | nil =>
      rw [closeBranches, Stmt.relined, relinedAll_eq_map]
      rfl
  | cons previous earlier ih =>
      rw [closeBranches, ih, Alternatives.relined, relinedAll_eq_map]
      rfl

/-- A complete call on another line. -/
theorem Focus.relined_afterCall (goal : Goal) (frames : List Frame) (function : String)
    (args : List Expr) :
    (Focus.afterCall goal frames function args).relined f
      = .afterCall (goal.relined f) frames function args := by
  cases goal <;> first | rfl | cases frames <;> rfl

section

variable {before after : Focus} {token : Token} {b b' : Block} {body : List Stmt} {s : Stmt} {line : Nat}

/-- A token within a line, on another line. -/
theorem Focus.Advances.relined (h : before.Advances token after) :
    (before.relined f).Advances token (after.relined f) := by
  cases h with
  | noArgument =>
      rw [Focus.relined_afterCall]
      exact .noArgument _ _ _
  | closeCall h =>
      rw [Focus.relined_afterCall]
      exact .closeCall h
  | binarySign hop hpush => exact .binarySign hop hpush
  | binaryWord hop hpush => exact .binaryWord hop hpush
  | nextItem h => exact .nextItem h
  | nextArgument h => exact .nextArgument h
  | closeParen h => exact .closeParen h
  | closeList h => exact .closeList h
  | closeIndex h => exact .closeIndex h
  | _ => constructor

/-- The first token of a statement, on another line. -/
theorem Focus.Begins.relined (h : Focus.Begins line token after) :
    Focus.Begins (f line) token (after.relined f) := by
  cases h <;> constructor

/-- The first token of a line of a block, on another line. -/
theorem Block.Continues.relined (h : b.Continues token after) :
    (b.relined f).Continues token (after.relined f) := by
  cases h <;> constructor

/-- The end of the line of a statement, on another line. -/
theorem Focus.Completes.relined (h : before.Completes s) :
    (before.relined f).Completes (s.relined f) := by
  cases h with
  | assign h => exact .assign h
  | call => exact .call _ _ _

/-- The end of the first line of a block, on another line. -/
theorem Focus.Enters.relined (h : before.Enters b) : (before.relined f).Enters (b.relined f) := by
  cases h with
  | branch h => exact .branch h
  | «foreach» h => exact .foreach h

/-- The end of the first line of another branch, on another line. -/
theorem Focus.Switches.relined (h : before.Switches b body b') :
    (before.relined f).Switches (b.relined f) (body.map (Stmt.relined f)) (b'.relined f) := by
  cases h with
  | elif h =>
      simp only [Block.relined, List.map_cons, relinedBranch, List.map_reverse]
      exact .elif h
  | otherwise start earlier previous =>
      simp only [Block.relined, relinedBranch, List.map_reverse]
      exact .otherwise _ _ _ _

/-- The end of the last line of a block, on another line. -/
theorem Focus.Leaves.relined (h : before.Leaves b body s) :
    (before.relined f).Leaves (b.relined f) (body.map (Stmt.relined f)) (s.relined f) := by
  cases h with
  | branch start earlier condition body =>
      rw [relined_closeBranches, relinedBranch, List.map_reverse]
      exact .branch _ _ _ _
  | otherwise start earlier previous body =>
      rw [relined_closeBranches, Alternatives.relined, relinedAll_eq_map, List.map_reverse]
      exact .otherwise _ _ _ _
  | «foreach» start var collection body =>
      rw [Stmt.relined, relinedAll_eq_map, List.map_reverse]
      exact .foreach _ _ _ _

end

namespace ParseState

/-- A token on another line does what it does on its own, on other lines. -/
theorem step_relined {s s' : ParseState} {line : Nat} {token : Token}
    (hs : s.step line token = some s') : (s.relined f).step (f line) token = some (s'.relined f) := by
  cases transition_of_step hs with
  | advance h => exact (Transition.advance (h.relined f) _ _).step
  | margin => rfl
  | begin h => exact (Transition.begin (h.relined f) _ _).step
  | «continue» h => exact (Transition.continue (h.relined f) _ _ _).step
  | complete h => exact (Transition.complete (h.relined f) _ _).step
  | enter h => exact (Transition.enter (h.relined f) _ _).step
  | switch h => exact (Transition.switch (h.relined f) _ _).step
  | leave h => exact (Transition.leave (h.relined f) _ _).step

/-- Tokens that are read on other lines. -/
theorem run_relined {s t : ParseState} {lexemes lexemes' : List Lexeme}
    (hsame : List.Forall₂ (fun lexeme lexeme' => lexeme'.token = lexeme.token ∧
      lexeme'.position.line = f lexeme.position.line) lexemes lexemes')
    (h : s.run lexemes = .ok t) : (s.relined f).run lexemes' = .ok (t.relined f) := by
  induction hsame generalizing s with
  | nil =>
      cases h
      rfl
  | cons hlexeme _ ih =>
      rw [run] at h ⊢
      rw [hlexeme.1, hlexeme.2]
      split at h
      · rename_i next hstep
        rw [step_relined f hstep]
        exact ih h
      · cases h

end ParseState

end

/-! ## Tokens further down -/

/-- A place so many lines further down. -/
def lowered (n : Nat) (p : Position) : Position := ⟨p.line + n, p.column⟩

/-- A lexeme that stands further down. -/
def Lexeme.lowered (n : Nat) (lexeme : Lexeme) : Lexeme :=
  { lexeme with position := Script.lowered n lexeme.position }

/-- From a place further down, a text leads further down. -/
theorem placeAfter_lowered (n : Nat) (p : Position) (cs : List Char) :
    placeAfter (lowered n p) cs = lowered n (placeAfter p cs) := by
  induction cs generalizing p with
  | nil => rfl
  | cons c cs ih =>
      have hstep : placeAfter (lowered n p) [c] = lowered n (placeAfter p [c]) := by
        by_cases hc : c = '\n'
        · simp only [placeAfter, List.foldl_cons, List.foldl_nil, if_pos hc, lowered]
          rw [Nat.add_right_comm]
        · simp only [placeAfter, List.foldl_cons, List.foldl_nil, if_neg hc, lowered]
      rw [← List.singleton_append, placeAfter_append, hstep, ih, placeAfter_append]

/-- A text that stands further down has its tokens there, and is read to its end where it was. -/
theorem tokensFrom_lowered (n : Nat) (state : LexState) (p : Position) (cs : List Char) :
    (tokensFrom state (lowered n p) cs).lexemes
        = (tokensFrom state p cs).lexemes.map (Lexeme.lowered n) ∧
      ((tokensFrom state (lowered n p) cs).fault = none ↔ (tokensFrom state p cs).fault = none) := by
  induction state, p, cs using tokensFrom_induction with
  | nil state p =>
      rw [tokensFrom_nil, tokensFrom_nil]
      exact ⟨rfl, Iff.rfl⟩
  | blank state p c rest hc ih =>
      rw [tokensFrom_blank _ _ hc, tokensFrom_blank _ _ hc, placeAfter_lowered]
      exact ih
  | comment state p comment rest hfeed hline ih =>
      rw [tokensFrom_comment _ _ hfeed hline, tokensFrom_comment _ _ hfeed hline, placeAfter_lowered]
      exact ih
  | token state p token t rest hread ih =>
      rw [tokensFrom_token _ hread, tokensFrom_token _ hread, placeAfter_lowered]
      exact ⟨congrArg (_ :: ·) ih.1, ih.2⟩
  | stuck state p c rest hskip hread =>
      rw [tokensFrom_stuck hskip hread, tokensFrom_stuck hskip hread]
      exact ⟨rfl, iff_of_false (by simp) (by simp)⟩

end Rubric.Script
