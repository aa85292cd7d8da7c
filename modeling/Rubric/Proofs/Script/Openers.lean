import Rubric.Proofs.Script.Transitions

/-!
# Statements that are begun

A line begins a statement, or goes on with the innermost block.  So a token begins a statement, goes on
with the one that its line began, or completes it, opens its block or closes that of another.

* `Focus.opener` : the line of the statement that is begun on the current line, if one is;
* `Focus.Advances.opener_eq` and the like : what each transition of the parser does to it;
* `newline_iff_of_step` : a line starts after the end of another, and only there.
-/

namespace Rubric.Script

/-! ## Statements that are begun -/

/-- The line of the statement that an expression is for, where its line begins one. -/
def Goal.opener : Goal → Option Nat
  | assign line _ _ => some line
  | branch line => some line
  | elif => none
  | foreach line _ => some line
  | call line => some line

/-- The line of the statement that a line end completes, where it completes one that its line began. -/
def LineEnd.opener : LineEnd → Option Nat
  | call line _ _ => some line
  | _ => none

/-- The line of the statement that is begun on the current line, if one is. -/
def Focus.opener : Focus → Option Nat
  | lineStart => none
  | assignedVar line => some line
  | afterTarget line _ _ => some line
  | targetField line _ _ => some line
  | loopVar line => some line
  | loopIn line _ => some line
  | callOpen line _ => some line
  | operand goal _ => goal.opener
  | operator goal _ _ _ => goal.opener
  | member goal _ _ => goal.opener
  | lineEnd completed => completed.opener

/-- The line on which the statement of a block begins. -/
def Block.line : Block → Nat
  | branch line _ _ => line
  | otherwise line _ _ => line
  | foreach line _ _ => line

/-- The statements of the complete branches of a block, in order. -/
def Block.bodies : Block → List Stmt
  | branch _ earlier _ => earlier.reverse.flatMap Prod.snd
  | otherwise _ earlier previous => (earlier.reverse ++ [previous]).flatMap Prod.snd
  | foreach _ _ _ => []

/-- Whether a token at the start of a line begins a statement. -/
def Token.opens : Token → Bool
  | .keyword .set => true
  | .keyword .branch => true
  | .keyword .foreach => true
  | .name _ => true
  | .var _ => true
  | _ => false

/-- Several lists of statements in a row, at every depth. -/
theorem walkAll_append (first second : List Stmt) :
    Stmt.walkAll (first ++ second) = Stmt.walkAll first ++ Stmt.walkAll second := by
  induction first with
  | nil => rfl
  | cons s ss ih => simp only [List.cons_append, Stmt.walkAll, ih, List.append_assoc]

/-- A closed conditional begins where its block did, and holds the statements of all its branches. -/
theorem walk_closeBranches (line : Nat) (last : Expr × List Stmt) (earlier : List (Expr × List Stmt))
    (rest : Alternatives) :
    (closeBranches line last earlier rest).line = line ∧
      (closeBranches line last earlier rest).walk = closeBranches line last earlier rest ::
        Stmt.walkAll (earlier.reverse.flatMap Prod.snd ++ last.2) ++ rest.walk := by
  induction earlier generalizing last rest with
  | nil => exact ⟨rfl, by simp [closeBranches, Stmt.walk]⟩
  | cons previous earlier ih =>
      obtain ⟨hline, hwalk⟩ := ih previous (.elif last.1 last.2 rest)
      refine ⟨hline, ?_⟩
      rw [closeBranches, hwalk]
      simp only [List.reverse_cons, List.flatMap_append, List.flatMap_cons, List.flatMap_nil,
        List.append_nil, walkAll_append, Alternatives.walk, List.append_assoc, List.cons_append]

/-! ## What transitions do -/

/-- A complete call belongs to the statement that its line began. -/
theorem Focus.opener_afterCall (goal : Goal) (frames : List Frame) (function : String)
    (args : List Expr) : (Focus.afterCall goal frames function args).opener = goal.opener := by
  cases goal <;> first | rfl | cases frames <;> rfl

/-- Within a line the statement is the one that the line began. -/
theorem Focus.Advances.opener_eq {f f' : Focus} {token : Token} (h : f.Advances token f') :
    f'.opener = f.opener := by
  cases h with
  | noArgument => exact Focus.opener_afterCall _ _ _ _
  | closeCall => exact Focus.opener_afterCall _ _ _ _
  | _ => rfl

/-- A line that begins a statement does so with its first token. -/
theorem Focus.Begins.opener_eq {line : Nat} {f : Focus} {token : Token}
    (h : Focus.Begins line token f) : f.opener = some line ∧ token.opens = true := by
  cases h <;> exact ⟨rfl, rfl⟩

/-- A line that goes on with a block begins no statement. -/
theorem Block.Continues.opener_eq {b : Block} {f : Focus} {token : Token} (h : b.Continues token f) :
    f.opener = none ∧ token.opens = false := by
  cases h <;> exact ⟨rfl, rfl⟩

/-- What the end of a line completes began on the line, and has no statements in it. -/
theorem Focus.Completes.opener_eq {f : Focus} {s : Stmt} (h : f.Completes s) :
    f.opener = some s.line ∧ s.walk = [s] := by
  cases h <;> exact ⟨rfl, rfl⟩

/-- A block that is opened began on the line, and has no statements yet. -/
theorem Focus.Enters.opener_eq {f : Focus} {b : Block} (h : f.Enters b) :
    f.opener = some b.line ∧ b.bodies = [] := by
  cases h <;> exact ⟨rfl, rfl⟩

/-- The next branch adds the statements of the one before it to the block. -/
theorem Focus.Switches.opener_eq {f : Focus} {b b' : Block} {body : List Stmt}
    (h : f.Switches b body b') :
    f.opener = none ∧ b'.line = b.line ∧ b'.bodies = b.bodies ++ body.reverse := by
  cases h <;> exact ⟨rfl, rfl, by simp [Block.bodies]⟩

/-- A block that is closed is a statement with all the statements of the block in it. -/
theorem Focus.Leaves.opener_eq {f : Focus} {b : Block} {body : List Stmt} {s : Stmt}
    (h : f.Leaves b body s) :
    f.opener = none ∧ s.line = b.line ∧ s.walk = s :: Stmt.walkAll (b.bodies ++ body.reverse) := by
  cases h with
  | branch start earlier condition body =>
      obtain ⟨hline, hwalk⟩ := walk_closeBranches start (condition, body.reverse) earlier .done
      exact ⟨rfl, hline, by rw [hwalk]; simp [Block.bodies, Alternatives.walk]⟩
  | otherwise start earlier previous body =>
      obtain ⟨hline, hwalk⟩ := walk_closeBranches start previous earlier (.otherwise body.reverse)
      exact ⟨rfl, hline, by rw [hwalk]; simp [Block.bodies, Alternatives.walk, walkAll_append]⟩
  | foreach start var collection body =>
      exact ⟨rfl, rfl, by simp [Stmt.walk, Block.bodies]⟩

namespace ParseState

variable {line : Nat} {token : Token} {s' : ParseState}

/-- A line starts after the end of another, and only there. -/
theorem newline_iff_of_step {s : ParseState} (hs : s.step line token = some s') :
    token = .newline ↔ s'.focus = .lineStart := by
  cases transition_of_step hs with
  | advance h => exact iff_of_false h.ne_newline h.ne_lineStart.2
  | begin h => exact iff_of_false h.ne_newline h.ne_lineStart
  | «continue» h => exact iff_of_false h.ne_newline h.ne_lineStart
  | _ => exact iff_of_true rfl rfl

/-! ## Runs -/

/-- Tokens are read on from where those before them led. -/
theorem run_append {s t : ParseState} {first : List Lexeme} (h : s.run first = .ok t)
    (later : List Lexeme) : s.run (first ++ later) = t.run later := by
  induction first generalizing s with
  | nil =>
      cases h
      rfl
  | cons lexeme first ih =>
      rw [run] at h
      rw [List.cons_append, run]
      split at h
      · exact ih h
      · cases h

/-- The first of some tokens are read where all are. -/
theorem exists_run_of_append {s t : ParseState} {first later : List Lexeme}
    (h : s.run (first ++ later) = .ok t) :
    ∃ s', s.run first = .ok s' ∧ s'.run later = .ok t := by
  induction first generalizing s with
  | nil => exact ⟨s, rfl, h⟩
  | cons lexeme first ih =>
      rw [List.cons_append, run] at h
      split at h
      · rename_i next hstep
        obtain ⟨s', hfirst, hlater⟩ := ih h
        exact ⟨s', by rw [run, hstep]; exact hfirst, hlater⟩
      · cases h

/-- A fault is that of the first token that cannot stand. -/
theorem exists_of_run_error {s : ParseState} {lexemes : List Lexeme} {fault : SyntaxFault}
    (h : s.run lexemes = .error fault) :
    ∃ first bad later t, lexemes = first ++ bad :: later ∧ s.run first = .ok t ∧
      fault = .unexpectedToken bad.position bad.text := by
  induction lexemes generalizing s with
  | nil => cases h
  | cons lexeme lexemes ih =>
      rw [run] at h
      split at h
      · rename_i next hstep
        obtain ⟨first, bad, later, t, rfl, hrun, hfault⟩ := ih h
        exact ⟨lexeme :: first, bad, later, t, rfl, by rw [run, hstep]; exact hrun, hfault⟩
      · cases h
        exact ⟨[], lexeme, lexemes, s, rfl, rfl, rfl⟩

/-- After some tokens a line starts if and only if the last one ends a line. -/
theorem newline_iff_of_run {s t : ParseState} {first : List Lexeme} {last : Lexeme}
    (h : s.run (first ++ [last]) = .ok t) : last.token = .newline ↔ t.focus = .lineStart := by
  obtain ⟨s', -, hlast⟩ := exists_run_of_append h
  rw [run] at hlast
  split at hlast
  · rename_i next hstep
    cases hlast
    exact newline_iff_of_step hstep
  · cases hlast

end ParseState

end Rubric.Script
