import Rubric.Script.Parser

/-!
# Transitions of the parser

What a token does to the parser is told once, as a relation with one constructor for each way.  What
every token keeps is then proved by cases on the relation, and no more by opening the parser.

* `Focus.Advances` : tokens that take the reading of a line further;
* `ParseState.Transition` : all that a token can do to the parser;
* `ParseState.transition_iff_step` : this is what the parser does.
-/

namespace Rubric.Script

/-! ## Tokens within a line -/

/-- The focus after a complete call, which may be the whole line. -/
def Focus.afterCall (goal : Goal) (frames : List Frame) (function : String) (args : List Expr) : Focus :=
  match goal, frames with
  | .call line, [] => .lineEnd (.call line function args)
  | _, _ => .operator goal frames (.call function args) none

/-- A complete call changes the focus only. -/
theorem ParseState.callRead_eq (s : ParseState) (goal : Goal) (frames : List Frame) (function : String)
    (args : List Expr) :
    s.callRead goal frames function args = s.focusOn (.afterCall goal frames function args) := by
  cases goal <;> first | rfl | cases frames <;> rfl

/-- How a token that does not end a line takes the reading of it further, once it is begun. -/
inductive Focus.Advances : Focus → Token → Focus → Prop where
  | assignedVar (start : Nat) (ident : String) :
    Advances (.assignedVar start) (.var ident) (.afterTarget start ident [])
  | dotTarget (start : Nat) (var : String) (path : List String) :
    Advances (.afterTarget start var path) (.sign .dot) (.targetField start var path)
  | targetField (start : Nat) (var ident : String) (path : List String) :
    Advances (.targetField start var path) (.name ident) (.afterTarget start var (path ++ [ident]))
  | assign (start : Nat) (var : String) (path : List String) :
    Advances (.afterTarget start var path) (.sign .assign) (.operand (.assign start var path) [])
  | loopVar (start : Nat) (ident : String) :
    Advances (.loopVar start) (.var ident) (.loopIn start ident)
  | loopIn (start : Nat) (var : String) :
    Advances (.loopIn start var) (.keyword .mem) (.operand (.foreach start var) [])
  | callOpen (start : Nat) (function : String) :
    Advances (.callOpen start function) (.sign .openParen) (.operand (.call start) [.call function []])
  -- an operand, or the beginning of one
  | number (goal : Goal) (frames : List Frame) (digits : List Char) :
    Advances (.operand goal frames) (.number digits) (.operator goal frames (.num (.ofDigits digits)) none)
  | str (goal : Goal) (frames : List Frame) (value : String) :
    Advances (.operand goal frames) (.str value) (.operator goal frames (.str value) none)
  | bool (goal : Goal) (frames : List Frame) (b : Bool) :
    Advances (.operand goal frames) (.keyword (.bool b)) (.operator goal frames (.bool b) none)
  | null (goal : Goal) (frames : List Frame) :
    Advances (.operand goal frames) (.keyword .null) (.operator goal frames .null none)
  | var (goal : Goal) (frames : List Frame) (ident : String) :
    Advances (.operand goal frames) (.var ident)
      (.operator goal frames (.var ident) (some ("$" ++ ident)))
  | name (goal : Goal) (frames : List Frame) (ident : String) :
    Advances (.operand goal frames) (.name ident) (.operator goal frames (.name ident) (some ident))
  | not (goal : Goal) (frames : List Frame) :
    Advances (.operand goal frames) (.keyword .not) (.operand goal (.unary .not :: frames))
  | neg (goal : Goal) (frames : List Frame) :
    Advances (.operand goal frames) (.sign .sub) (.operand goal (.unary .neg :: frames))
  | paren (goal : Goal) (frames : List Frame) :
    Advances (.operand goal frames) (.sign .openParen) (.operand goal (.paren :: frames))
  | list (goal : Goal) (frames : List Frame) :
    Advances (.operand goal frames) (.sign .openBracket) (.operand goal (.list [] :: frames))
  | noArgument (goal : Goal) (frames : List Frame) (function : String) :
    Advances (.operand goal (.call function [] :: frames)) (.sign .closeParen)
      (.afterCall goal frames function [])
  | noItem (goal : Goal) (frames : List Frame) :
    Advances (.operand goal (.list [] :: frames)) (.sign .closeBracket)
      (.operator goal frames (.list []) none)
  -- what follows an operand
  | dot (goal : Goal) (frames : List Frame) (value : Expr) (function : Option String) :
    Advances (.operator goal frames value function) (.sign .dot) (.member goal frames value)
  | member (goal : Goal) (frames : List Frame) (target : Expr) (ident : String) :
    Advances (.member goal frames target) (.name ident)
      (.operator goal frames (.member target ident) none)
  | index (goal : Goal) (frames : List Frame) (value : Expr) (function : Option String) :
    Advances (.operator goal frames value function) (.sign .openBracket)
      (.operand goal (.index value :: frames))
  | call (goal : Goal) (frames : List Frame) (value : Expr) (callee : String) :
    Advances (.operator goal frames value (some callee)) (.sign .openParen)
      (.operand goal (.call callee [] :: frames))
  | binarySign {goal : Goal} {frames frames' : List Frame} {value : Expr} {function : Option String}
    {sign : Sign} {op : BinaryOp} (hop : BinaryOp.ofSign? sign = some op)
    (hpush : pushBinary op frames value = some frames') :
    Advances (.operator goal frames value function) (.sign sign) (.operand goal frames')
  | binaryWord {goal : Goal} {frames frames' : List Frame} {value : Expr} {function : Option String}
    {k : Keyword} {op : BinaryOp} (hop : BinaryOp.ofKeyword? k = some op)
    (hpush : pushBinary op frames value = some frames') :
    Advances (.operator goal frames value function) (.keyword k) (.operand goal frames')
  -- the innermost bracket, once everything inside it is closed
  | nextItem {goal : Goal} {frames outer : List Frame} {value item : Expr} {function : Option String}
    {items : List Expr} (h : reduceAll frames value = (.list items :: outer, item)) :
    Advances (.operator goal frames value function) (.sign .comma)
      (.operand goal (.list (item :: items) :: outer))
  | nextArgument {goal : Goal} {frames outer : List Frame} {value arg : Expr} {function : Option String}
    {callee : String} {args : List Expr} (h : reduceAll frames value = (.call callee args :: outer, arg)) :
    Advances (.operator goal frames value function) (.sign .comma)
      (.operand goal (.call callee (arg :: args) :: outer))
  | closeParen {goal : Goal} {frames outer : List Frame} {value inner : Expr} {function : Option String}
    (h : reduceAll frames value = (.paren :: outer, inner)) :
    Advances (.operator goal frames value function) (.sign .closeParen) (.operator goal outer inner none)
  | closeCall {goal : Goal} {frames outer : List Frame} {value arg : Expr} {function : Option String}
    {callee : String} {args : List Expr} (h : reduceAll frames value = (.call callee args :: outer, arg)) :
    Advances (.operator goal frames value function) (.sign .closeParen)
      (.afterCall goal outer callee (arg :: args).reverse)
  | closeList {goal : Goal} {frames outer : List Frame} {value item : Expr} {function : Option String}
    {items : List Expr} (h : reduceAll frames value = (.list items :: outer, item)) :
    Advances (.operator goal frames value function) (.sign .closeBracket)
      (.operator goal outer (.list (item :: items).reverse) none)
  | closeIndex {goal : Goal} {frames outer : List Frame} {value position target : Expr}
    {function : Option String} (h : reduceAll frames value = (.index target :: outer, position)) :
    Advances (.operator goal frames value function) (.sign .closeBracket)
      (.operator goal outer (.index target position) none)

/-- The parser reads on as it can. -/
theorem Focus.Advances.step {f f' : Focus} {token : Token} (h : f.Advances token f') (line : Nat)
    (statements : List Stmt) (blocks : List (Block × List Stmt)) :
    (⟨f, statements, blocks⟩ : ParseState).step line token = some ⟨f', statements, blocks⟩ := by
  cases h with
  | noArgument goal frames function => exact congrArg some (ParseState.callRead_eq _ goal frames function [])
  | @binarySign goal frames frames' value function sign op hop hpush =>
      have hbinary : (⟨.operator goal frames value function, statements, blocks⟩ :
          ParseState).binaryOperator goal frames value op
            = some ⟨.operand goal frames', statements, blocks⟩ := by
        rw [ParseState.binaryOperator, hpush]
        rfl
      cases sign <;> cases hop <;> exact hbinary
  | @binaryWord goal frames frames' value function k op hop hpush =>
      show (BinaryOp.ofKeyword? k).bind _ = _
      rw [hop]
      show ParseState.binaryOperator _ goal frames value op = _
      rw [ParseState.binaryOperator, hpush]
      rfl
  | nextItem h | nextArgument h =>
      show ParseState.nextItem _ _ _ _ = _
      rw [ParseState.nextItem, h]
      rfl
  | closeParen h =>
      show ParseState.closeParen _ _ _ _ = _
      rw [ParseState.closeParen, h]
      rfl
  | closeCall h =>
      show ParseState.closeParen _ _ _ _ = _
      rw [ParseState.closeParen, h]
      exact congrArg some (ParseState.callRead_eq _ _ _ _ _)
  | closeList h | closeIndex h =>
      show ParseState.closeBracket _ _ _ _ = _
      rw [ParseState.closeBracket, h]
      rfl
  | _ => rfl

/-- Reading goes on in the middle of the line. -/
theorem Focus.Advances.ne_lineStart {f f' : Focus} {token : Token} (h : f.Advances token f') :
    f ≠ .lineStart ∧ f' ≠ .lineStart := by
  have hcall : ∀ goal frames function args, Focus.afterCall goal frames function args ≠ .lineStart := by
    intro goal frames function args
    unfold Focus.afterCall
    split <;> simp
  cases h <;> simp [hcall]

/-- No line end is read in the middle of a line. -/
theorem Focus.Advances.ne_newline {f f' : Focus} {token : Token} (h : f.Advances token f') :
    token ≠ .newline := by
  cases h <;> simp

/-! ## Line starts and line ends -/

/-- How a token begins a line that is a statement of its own, or the first line of one. -/
inductive Focus.Begins (line : Nat) : Token → Focus → Prop where
  | set : Begins line (.keyword .set) (.assignedVar line)
  | branch : Begins line (.keyword .branch) (.operand (.branch line) [])
  | foreach : Begins line (.keyword .foreach) (.loopVar line)
  | name (ident : String) : Begins line (.name ident) (.callOpen line ident)
  | var (ident : String) : Begins line (.var ident) (.callOpen line ("$" ++ ident))

/-- How a token begins a line that goes on with a block, or closes it. -/
inductive Block.Continues : Block → Token → Focus → Prop where
  | elif (line : Nat) (earlier : List (Expr × List Stmt)) (condition : Expr) :
    Continues (.branch line earlier condition) (.keyword .elif) (.operand .elif [])
  | otherwise (line : Nat) (earlier : List (Expr × List Stmt)) (condition : Expr) :
    Continues (.branch line earlier condition) (.keyword .otherwise) (.lineEnd .otherwise)
  | endBranch (line : Nat) (earlier : List (Expr × List Stmt)) (condition : Expr) :
    Continues (.branch line earlier condition) (.keyword .endBranch) (.lineEnd .endBranch)
  | endOtherwise (line : Nat) (earlier : List (Expr × List Stmt)) (previous : Expr × List Stmt) :
    Continues (.otherwise line earlier previous) (.keyword .endBranch) (.lineEnd .endBranch)
  | endForeach (line : Nat) (var : String) (collection : Expr) :
    Continues (.foreach line var collection) (.keyword .endForeach) (.lineEnd .endForeach)

/-- A line that is begun is read on. -/
theorem Focus.Begins.ne_lineStart {line : Nat} {f : Focus} {token : Token} (h : Focus.Begins line token f) :
    f ≠ .lineStart := by
  cases h <;> simp

/-- It begins with another token than a line end. -/
theorem Focus.Begins.ne_newline {line : Nat} {f : Focus} {token : Token} (h : Focus.Begins line token f) :
    token ≠ .newline := by
  cases h <;> simp

/-- A line that goes on with a block is read on. -/
theorem Block.Continues.ne_lineStart {b : Block} {f : Focus} {token : Token} (h : b.Continues token f) :
    f ≠ .lineStart := by
  cases h <;> simp

/-- It begins with another token than a line end, too. -/
theorem Block.Continues.ne_newline {b : Block} {f : Focus} {token : Token} (h : b.Continues token f) :
    token ≠ .newline := by
  cases h <;> simp

/-- The statement that the end of a line completes. -/
inductive Focus.Completes : Focus → Stmt → Prop where
  | assign {start : Nat} {var : String} {path : List String} {frames : List Frame} {value whole : Expr}
    {function : Option String} (h : reduceAll frames value = ([], whole)) :
    Completes (.operator (.assign start var path) frames value function) (.assign start var path whole)
  | call (start : Nat) (function : String) (args : List Expr) :
    Completes (.lineEnd (.call start function args)) (.call start function args)

/-- The block that the end of a line opens. -/
inductive Focus.Enters : Focus → Block → Prop where
  | branch {start : Nat} {frames : List Frame} {value whole : Expr} {function : Option String}
    (h : reduceAll frames value = ([], whole)) :
    Enters (.operator (.branch start) frames value function) (.branch start [] whole)
  | foreach {start : Nat} {var : String} {frames : List Frame} {value whole : Expr}
    {function : Option String} (h : reduceAll frames value = ([], whole)) :
    Enters (.operator (.foreach start var) frames value function) (.foreach start var whole)

/-- What the end of a line makes of a block whose last branch has some statements, the last first, where the
line begins the next branch. -/
inductive Focus.Switches : Focus → Block → List Stmt → Block → Prop where
  | elif {start : Nat} {earlier : List (Expr × List Stmt)} {previous whole : Expr} {body : List Stmt}
    {frames : List Frame} {value : Expr} {function : Option String}
    (h : reduceAll frames value = ([], whole)) :
    Switches (.operator .elif frames value function) (.branch start earlier previous) body
      (.branch start ((previous, body.reverse) :: earlier) whole)
  | otherwise (start : Nat) (earlier : List (Expr × List Stmt)) (previous : Expr) (body : List Stmt) :
    Switches (.lineEnd .otherwise) (.branch start earlier previous) body
      (.otherwise start earlier (previous, body.reverse))

/-- The statement that the end of a line makes of a block whose last part has some statements, the last
first, where the line closes the block. -/
inductive Focus.Leaves : Focus → Block → List Stmt → Stmt → Prop where
  | branch (start : Nat) (earlier : List (Expr × List Stmt)) (condition : Expr) (body : List Stmt) :
    Leaves (.lineEnd .endBranch) (.branch start earlier condition) body
      (closeBranches start (condition, body.reverse) earlier .done)
  | otherwise (start : Nat) (earlier : List (Expr × List Stmt)) (previous : Expr × List Stmt)
    (body : List Stmt) :
    Leaves (.lineEnd .endBranch) (.otherwise start earlier previous) body
      (closeBranches start previous earlier (.otherwise body.reverse))
  | foreach (start : Nat) (var : String) (collection : Expr) (body : List Stmt) :
    Leaves (.lineEnd .endForeach) (.foreach start var collection) body
      (.foreach start var collection body.reverse)

namespace ParseState

/-- What a token that starts on a line can do to a parser.  Nothing of it depends on more than the current
line and the innermost block. -/
inductive Transition (line : Nat) : ParseState → Token → ParseState → Prop where
  /-- Reading goes on within the line. -/
  | advance {f f' : Focus} {token : Token} (h : f.Advances token f') (statements : List Stmt)
    (blocks : List (Block × List Stmt)) :
    Transition line ⟨f, statements, blocks⟩ token ⟨f', statements, blocks⟩
  /-- An empty first line is passed over. -/
  | margin : Transition line ⟨.lineStart, [], []⟩ .newline ⟨.lineStart, [], []⟩
  /-- A line begins that is a statement of its own, or the first line of one. -/
  | begin {f : Focus} {token : Token} (h : Focus.Begins line token f) (statements : List Stmt)
    (blocks : List (Block × List Stmt)) :
    Transition line ⟨.lineStart, statements, blocks⟩ token ⟨f, statements, blocks⟩
  /-- A line begins that belongs to the innermost block. -/
  | continue {f : Focus} {b : Block} {token : Token} (h : b.Continues token f)
    (statements outer : List Stmt) (blocks : List (Block × List Stmt)) :
    Transition line ⟨.lineStart, statements, (b, outer) :: blocks⟩ token
      ⟨f, statements, (b, outer) :: blocks⟩
  /-- The end of a line completes its statement. -/
  | complete {f : Focus} {s : Stmt} (h : f.Completes s) (statements : List Stmt)
    (blocks : List (Block × List Stmt)) :
    Transition line ⟨f, statements, blocks⟩ .newline ⟨.lineStart, s :: statements, blocks⟩
  /-- The end of a line opens the block of its statement. -/
  | enter {f : Focus} {b : Block} (h : f.Enters b) (statements : List Stmt)
    (blocks : List (Block × List Stmt)) :
    Transition line ⟨f, statements, blocks⟩ .newline ⟨.lineStart, [], (b, statements) :: blocks⟩
  /-- The end of a line goes over to the next branch of the innermost block. -/
  | switch {f : Focus} {b b' : Block} {statements : List Stmt} (h : f.Switches b statements b')
    (outer : List Stmt) (blocks : List (Block × List Stmt)) :
    Transition line ⟨f, statements, (b, outer) :: blocks⟩ .newline ⟨.lineStart, [], (b', outer) :: blocks⟩
  /-- The end of a line closes the innermost block. -/
  | leave {f : Focus} {b : Block} {s : Stmt} {statements : List Stmt} (h : f.Leaves b statements s)
    (outer : List Stmt) (blocks : List (Block × List Stmt)) :
    Transition line ⟨f, statements, (b, outer) :: blocks⟩ .newline ⟨.lineStart, s :: outer, blocks⟩

variable {line : Nat} {token : Token} {s s' : ParseState}

/-! ## Every transition is made -/

/-- The end of a line with a complete expression does what the expression is for. -/
theorem step_operator_newline {goal : Goal} {frames : List Frame} {value whole : Expr}
    {function : Option String} (h : reduceAll frames value = ([], whole)) (line : Nat)
    (statements : List Stmt) (blocks : List (Block × List Stmt)) :
    (⟨.operator goal frames value function, statements, blocks⟩ : ParseState).step line .newline
      = endExpression ⟨.operator goal frames value function, statements, blocks⟩ goal whole := by
  show endOfOperand _ _ _ _ = _
  rw [endOfOperand, h]

/-- The parser makes every transition. -/
theorem Transition.step (h : Transition line s token s') : s.step line token = some s' := by
  cases h with
  | advance h statements blocks => exact h.step line statements blocks
  | margin => rfl
  | begin h => cases h <;> rfl
  | «continue» h => cases h <;> rfl
  | complete h =>
      cases h with
      | assign h => exact step_operator_newline h line _ _
      | call => rfl
  | enter h => cases h with | branch h | foreach h => exact step_operator_newline h line _ _
  | switch h =>
      cases h with
      | elif h => exact step_operator_newline h line _ _
      | otherwise => rfl
  | leave h => cases h <;> rfl

/-! ## No other transition is made -/

/-- A token where an operand is expected. -/
theorem advances_of_atOperand {goal : Goal} {frames : List Frame}
    (hs : s.atOperand goal frames token = some s') :
    ∃ f, (Focus.operand goal frames).Advances token f ∧ s' = s.focusOn f := by
  unfold atOperand at hs
  split at hs
  case h_11 =>
    split at hs
    · cases hs
      exact ⟨_, .noArgument _ _ _, callRead_eq _ _ _ _ _⟩
    · cases hs
  case h_12 =>
    split at hs
    · cases hs
      exact ⟨_, .noItem _ _, rfl⟩
    · cases hs
  case h_13 => cases hs
  all_goals
    cases hs
    exact ⟨_, by constructor, rfl⟩

/-- A comma after an operand. -/
theorem advances_of_nextItem {goal : Goal} {frames : List Frame} {value : Expr} {function : Option String}
    (hs : s.nextItem goal frames value = some s') :
    ∃ f, (Focus.operator goal frames value function).Advances (.sign .comma) f ∧ s' = s.focusOn f := by
  unfold nextItem at hs
  split at hs
  · cases hs
    exact ⟨_, .nextItem ‹_›, rfl⟩
  · cases hs
    exact ⟨_, .nextArgument ‹_›, rfl⟩
  · cases hs

/-- A closing parenthesis after an operand. -/
theorem advances_of_closeParen {goal : Goal} {frames : List Frame} {value : Expr}
    {function : Option String} (hs : s.closeParen goal frames value = some s') :
    ∃ f, (Focus.operator goal frames value function).Advances (.sign .closeParen) f ∧ s' = s.focusOn f := by
  unfold closeParen at hs
  split at hs
  · cases hs
    exact ⟨_, .closeParen ‹_›, rfl⟩
  · cases hs
    exact ⟨_, .closeCall ‹_›, callRead_eq _ _ _ _ _⟩
  · cases hs

/-- A closing bracket after an operand. -/
theorem advances_of_closeBracket {goal : Goal} {frames : List Frame} {value : Expr}
    {function : Option String} (hs : s.closeBracket goal frames value = some s') :
    ∃ f, (Focus.operator goal frames value function).Advances (.sign .closeBracket) f ∧
      s' = s.focusOn f := by
  unfold closeBracket at hs
  split at hs
  · cases hs
    exact ⟨_, .closeList ‹_›, rfl⟩
  · cases hs
    exact ⟨_, .closeIndex ‹_›, rfl⟩
  · cases hs

/-- A token after an operand, unless it ends the line. -/
theorem advances_of_atOperator {goal : Goal} {frames : List Frame} {value : Expr}
    {function : Option String} (htoken : token ≠ .newline)
    (hs : s.atOperator goal frames value function token = some s') :
    ∃ f, (Focus.operator goal frames value function).Advances token f ∧ s' = s.focusOn f := by
  unfold atOperator at hs
  split at hs
  case h_1 => exact absurd rfl htoken
  case h_2 =>
    cases hs
    exact ⟨_, .dot _ _ _ _, rfl⟩
  case h_3 => exact advances_of_nextItem hs
  case h_4 => exact advances_of_closeParen hs
  case h_5 => exact advances_of_closeBracket hs
  case h_6 =>
    cases hs
    exact ⟨_, .index _ _ _ _, rfl⟩
  case h_7 =>
    obtain ⟨callee, rfl, rfl⟩ := Option.map_eq_some_iff.mp hs
    exact ⟨_, .call _ _ _ _, rfl⟩
  case h_8 =>
    obtain ⟨op, hop, hbinary⟩ := Option.bind_eq_some_iff.mp hs
    obtain ⟨frames', hpush, rfl⟩ := Option.map_eq_some_iff.mp hbinary
    exact ⟨_, .binarySign hop hpush, rfl⟩
  case h_9 =>
    obtain ⟨op, hop, hbinary⟩ := Option.bind_eq_some_iff.mp hs
    obtain ⟨frames', hpush, rfl⟩ := Option.map_eq_some_iff.mp hbinary
    exact ⟨_, .binaryWord hop hpush, rfl⟩
  case h_10 => cases hs

variable {f : Focus} {statements : List Stmt} {blocks : List (Block × List Stmt)}

/-- The end of a line with a complete expression. -/
theorem transition_of_endOfOperand {goal : Goal} {frames : List Frame} {value : Expr}
    {function : Option String}
    (hs : endOfOperand ⟨.operator goal frames value function, statements, blocks⟩ goal frames value
      = some s') :
    Transition line ⟨.operator goal frames value function, statements, blocks⟩ .newline s' := by
  unfold endOfOperand at hs
  split at hs
  · rename_i whole hreduce
    cases goal with
    | assign start var path =>
        cases hs
        exact .complete (.assign hreduce) _ _
    | branch start =>
        cases hs
        exact .enter (.branch hreduce) _ _
    | foreach start var =>
        cases hs
        exact .enter (.foreach hreduce) _ _
    | elif =>
        rcases blocks with _ | ⟨⟨b, outer⟩, blocks⟩
        · cases hs
        · cases b <;> cases hs
          exact .switch (.elif hreduce) _ _
    | call start => cases hs
  · cases hs

/-- The end of a line without an open expression. -/
theorem transition_of_endLine {completed : LineEnd}
    (hs : endLine ⟨.lineEnd completed, statements, blocks⟩ completed = some s') :
    Transition line ⟨.lineEnd completed, statements, blocks⟩ .newline s' := by
  cases completed with
  | call start function args =>
      cases hs
      exact .complete (.call _ _ _) _ _
  | otherwise =>
      rcases blocks with _ | ⟨⟨b, outer⟩, blocks⟩
      · cases hs
      · cases b <;> cases hs
        exact .switch (.otherwise _ _ _ _) _ _
  | endBranch =>
      rcases blocks with _ | ⟨⟨b, outer⟩, blocks⟩
      · cases hs
      · cases b <;> cases hs
        · exact .leave (.branch _ _ _ _) _ _
        · exact .leave (.otherwise _ _ _ _) _ _
  | endForeach =>
      rcases blocks with _ | ⟨⟨b, outer⟩, blocks⟩
      · cases hs
      · cases b <;> cases hs
        exact .leave (.foreach _ _ _ _) _ _

/-- A reserved word at the start of a line. -/
theorem transition_of_startKeyword {k : Keyword}
    (hs : startKeyword ⟨.lineStart, statements, blocks⟩ line k = some s') :
    Transition line ⟨.lineStart, statements, blocks⟩ (.keyword k) s' := by
  cases k with
  | set | branch | foreach =>
      cases hs
      exact .begin (by constructor) _ _
  | elif | otherwise | endBranch | endForeach =>
      rcases blocks with _ | ⟨⟨b, outer⟩, blocks⟩
      · cases hs
      · cases b <;> cases hs <;> exact .continue (by constructor) _ _ _
  | _ => cases hs

/-- A token at the start of a line. -/
theorem transition_of_atLineStart
    (hs : atLineStart ⟨.lineStart, statements, blocks⟩ line token = some s') :
    Transition line ⟨.lineStart, statements, blocks⟩ token s' := by
  cases token with
  | newline =>
      cases blocks <;> cases statements <;> cases hs
      exact .margin
  | keyword k => exact transition_of_startKeyword hs
  | name ident =>
      cases hs
      exact .begin (.name ident) _ _
  | var ident =>
      cases hs
      exact .begin (.var ident) _ _
  | _ => cases hs

/-- The parser makes no other transition. -/
theorem transition_of_step (hs : s.step line token = some s') : Transition line s token s' := by
  obtain ⟨f, statements, blocks⟩ := s
  cases f with
  | lineStart => exact transition_of_atLineStart hs
  | operand goal frames =>
      obtain ⟨f, hadvances, rfl⟩ := advances_of_atOperand hs
      exact .advance hadvances _ _
  | operator goal frames value function =>
      by_cases htoken : token = .newline
      · subst htoken
        exact transition_of_endOfOperand hs
      · obtain ⟨f, hadvances, rfl⟩ := advances_of_atOperator htoken hs
        exact .advance hadvances _ _
  | lineEnd completed =>
      cases token with
      | newline => exact transition_of_endLine hs
      | _ => cases hs
  -- everywhere else there is one token that can come
  | assignedVar | targetField | loopVar | member =>
      cases token <;> cases hs
      exact .advance (by constructor) _ _
  | afterTarget | callOpen =>
      cases token with
      | sign sign => cases sign <;> cases hs <;> exact .advance (by constructor) _ _
      | _ => cases hs
  | loopIn =>
      cases token with
      | keyword k =>
          cases k <;> cases hs
          exact .advance (by constructor) _ _
      | _ => cases hs

/-- A step of the parser is a transition. -/
theorem transition_iff_step : Transition line s token s' ↔ s.step line token = some s' :=
  ⟨Transition.step, transition_of_step⟩

end ParseState

end Rubric.Script
