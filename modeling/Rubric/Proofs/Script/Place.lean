import Rubric.Proofs.Script.Transitions

/-!
# Places follow from what is open

Tokens are read by a finite automaton that knows nothing of open brackets and blocks, and parsed by
a machine with two stacks.  While a script is well formed so far, the place of the automaton can be
read off the state of the machine:

* `place_step` : a token that the machine takes moves both alike;
* `Follows` : the automaton and the machine at matching places, the start of a script included.
-/

namespace Rubric.Script

/-! ## The place of a parser state -/

/-- How a line is meant whose expression has the goal. -/
def Goal.lineKind : Goal → LineKind
  | .assign _ _ _ => .complete
  | .branch _ => .branch
  | .elif => .branch
  | .foreach _ _ => .foreach
  | .call _ => .complete

/-- How a line is meant that nothing but its end is missing of. -/
def LineEnd.lineKind : LineEnd → LineKind
  | .otherwise => .otherwise
  | _ => .complete

/-- The place before the end of a line.  After a call an operator could stand, were the call not the
whole line. -/
def LineEnd.phase : LineEnd → Phase
  | .call _ _ _ => .operator false
  | _ => .lineEnd

/-- The place of an operand right inside an open part. -/
def Frame.phase : Frame → Phase
  | .left op _ => .operand (op.level < 4) none
  | .unary .not => .operand true none
  | .unary .neg => .operand false none
  | .paren => .operand true none
  | .list [] => .operand true (some .closeBracket)
  | .list (_ :: _) => .operand true none
  | .call _ [] => .operand true (some .closeParen)
  | .call _ (_ :: _) => .operand true none
  | .index _ => .operand true none

/-- The place of an operand inside open parts. -/
def operandPhase : List Frame → Phase
  | [] => .operand true none
  | frame :: _ => frame.phase

/-- How the line that opened a block is meant. -/
def Block.lineKind : Block → LineKind
  | .branch _ _ _ => .branch
  | .otherwise _ _ _ => .otherwise
  | .foreach _ _ _ => .foreach

namespace ParseState

/-- How the line before is meant, at the start of a line. -/
def lineBefore (s : ParseState) : LineKind :=
  match s.statements, s.blocks with
  | _ :: _, _ => .complete
  | [], (block, _) :: _ => block.lineKind
  | [], [] => .leading

/-- The place of the automaton at a state of the machine. -/
def place (s : ParseState) : LexState :=
  match s.focus with
  | .lineStart => ⟨.lineStart s.lineBefore, .leading⟩
  | .assignedVar _ => ⟨.assignedVar, .complete⟩
  | .afterTarget _ _ _ => ⟨.afterTarget, .complete⟩
  | .targetField _ _ _ => ⟨.targetField, .complete⟩
  | .loopVar _ => ⟨.loopVar, .foreach⟩
  | .loopIn _ _ => ⟨.loopIn, .foreach⟩
  | .callOpen _ _ => ⟨.callOpen, .complete⟩
  | .operand goal frames => ⟨operandPhase frames, goal.lineKind⟩
  | .operator goal _ _ function => ⟨.operator function.isSome, goal.lineKind⟩
  | .member goal _ _ => ⟨.member, goal.lineKind⟩
  | .lineEnd completed => ⟨completed.phase, completed.lineKind⟩

/-! ## Steps -/

variable {s s' : ParseState} {line : Nat} {token : Token}

/-- A complete call is at the place of an operand, be it the whole line or not. -/
theorem place_afterCall (goal : Goal) (frames : List Frame) (function : String) (args : List Expr)
    (statements : List Stmt) (blocks : List (Block × List Stmt)) :
    place ⟨.afterCall goal frames function args, statements, blocks⟩
      = ⟨.operator false, goal.lineKind⟩ := by
  cases goal <;> first | rfl | cases frames <;> rfl

/-- Inside an open part every place expects an operand. -/
theorem operandPhase_eq (frames : List Frame) :
    ∃ negated close, operandPhase frames = .operand negated close := by
  rcases frames with _ | ⟨frame, frames⟩
  · exact ⟨_, _, rfl⟩
  · cases frame with
    | unary op => cases op <;> exact ⟨_, _, rfl⟩
    | list items => cases items <;> exact ⟨_, _, rfl⟩
    | call function args => cases args <;> exact ⟨_, _, rfl⟩
    | _ => exact ⟨_, _, rfl⟩

/-- What a binary operator leaves open expects an operand at the place after the operator. -/
theorem operandPhase_pushBinary {op : BinaryOp} {frames frames' : List Frame} {e : Expr}
    (h : pushBinary op frames e = some frames') :
    operandPhase frames' = .operand (op.level < 4) none := by
  unfold pushBinary at h
  split at h
  · split at h
    · split at h
      · simp at h
      · simp only [Option.some.injEq] at h
        subst h
        rfl
    · simp only [Option.some.injEq] at h
      subst h
      rfl
  · simp only [Option.some.injEq] at h
    subst h
    rfl

/-- A token within a line moves the automaton with the machine. -/
theorem place_advances {f f' : Focus} (h : f.Advances token f') (statements : List Stmt)
    (blocks : List (Block × List Stmt)) :
    place ⟨f', statements, blocks⟩ = (place ⟨f, statements, blocks⟩).next token := by
  cases h with
  | noArgument goal frames function =>
      rw [place_afterCall]
      rfl
  | closeCall => exact place_afterCall _ _ _ _ _ _
  | bool goal frames | null goal frames | var goal frames | name goal frames | not goal frames
  | neg goal frames | paren goal frames | list goal frames =>
      -- what the automaton makes of these depends on whether an operand is expected
      obtain ⟨negated, close, hphase⟩ := operandPhase_eq frames
      show _ = LexState.next ⟨operandPhase frames, goal.lineKind⟩ _
      rw [hphase]
      rfl
  | @binarySign goal frames frames' value function sign op hop hpush =>
      show (⟨operandPhase frames', goal.lineKind⟩ : LexState) = _
      rw [operandPhase_pushBinary hpush]
      cases sign <;> cases hop <;> rfl
  | @binaryWord goal frames frames' value function k op hop hpush =>
      show (⟨operandPhase frames', goal.lineKind⟩ : LexState) = _
      rw [operandPhase_pushBinary hpush]
      cases k <;> cases hop <;> rfl
  | _ => rfl

/-- A token that the machine takes moves the automaton with it, an empty first line apart. -/
theorem place_step (hs : s.step line token = some s') (hfresh : s.focus = .lineStart → token ≠ .newline) :
    s'.place = s.place.next token := by
  cases transition_of_step hs with
  | advance h statements blocks => exact place_advances h statements blocks
  | margin => exact absurd rfl (hfresh rfl)
  | begin h | «continue» h | complete h | enter h | switch h | leave h => cases h <;> rfl

end ParseState

/-! ## Matching places -/

/-- The automaton and the machine at matching places.  At the start of a script the automaton
allows an empty first line, of which the machine keeps no trace. -/
inductive Follows : LexState → ParseState → Prop where
  | start : Follows .initial .initial
  | place (s : ParseState) : Follows s.place s

/-- Matching places are kept by every token that both take. -/
theorem Follows.step {lex : LexState} {s s' : ParseState} {line : Nat} {token : Token}
    (h : Follows lex s) (haccepts : lex.phase.accepts token.kind = true)
    (hstep : s.step line token = some s') : Follows (lex.next token) s' := by
  cases h with
  | start =>
      cases ParseState.transition_of_step hstep with
      | margin => exact .place ParseState.initial
      | @begin f token h =>
          have hplace : ParseState.place ⟨f, [], []⟩ = LexState.initial.next token := by cases h <;> rfl
          rw [← hplace]
          exact .place _
      | advance h | complete h | enter h => cases h
  | place =>
      have hfresh : s.focus = .lineStart → token ≠ .newline := by
        rintro hfocus rfl
        simp [ParseState.place, hfocus, Token.kind, Phase.accepts] at haccepts
      rw [← ParseState.place_step hstep hfresh]
      exact .place s'

end Rubric.Script
