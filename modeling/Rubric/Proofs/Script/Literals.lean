import Mathlib.Algebra.GroupWithZero.Nat
import Mathlib.Tactic.SplitIfs
import Rubric.Proofs.Script.Transitions

/-!
# The strings of a script

Parsing neither drops a string nor makes one up: whatever each string weighs, the statements of a
script weigh as much together as its tokens.

* `ParseState.weight_step` : a token adds its weight to that of the machine;
* `weight_of_parseStream` : the statements weigh as much as the tokens.
-/

namespace Rubric.Script

section

variable (f : String → Nat)

/-! ## Weights -/

mutual

/-- The weight of the strings in an expression. -/
def Expr.weight : Expr → Nat
  | .str value => f value
  | .list items => Expr.weightAll items
  | .member target _ => target.weight
  | .index target key => target.weight + key.weight
  | .call _ args => Expr.weightAll args
  | .binary _ left right => left.weight + right.weight
  | .unary _ operand => operand.weight
  | _ => 0

/-- The weight of the strings in several expressions. -/
def Expr.weightAll : List Expr → Nat
  | [] => 0
  | e :: es => e.weight + Expr.weightAll es

end

mutual

/-- The weight of the strings in a statement. -/
def Stmt.weight : Stmt → Nat
  | .assign _ _ _ value => value.weight f
  | .branch _ condition body rest => condition.weight f + Stmt.weightAll body + rest.weight
  | .foreach _ _ collection body => collection.weight f + Stmt.weightAll body
  | .call _ _ args => Expr.weightAll f args

/-- The weight of the strings in alternatives. -/
def Alternatives.weight : Alternatives → Nat
  | .done => 0
  | .otherwise body => Stmt.weightAll body
  | .elif condition body rest => condition.weight f + Stmt.weightAll body + rest.weight

/-- The weight of the strings in the statements of a block. -/
def Stmt.weightAll : List Stmt → Nat
  | [] => 0
  | s :: ss => s.weight + Stmt.weightAll ss

end

/-- The weight of a token. -/
def Token.weight : Token → Nat
  | .str value => f value
  | _ => 0

/-- A string weighs what its value does. -/
@[simp] theorem Token.weight_str (value : String) : (Token.str value).weight f = f value := rfl

/-- The weight of an open part of an expression. -/
def Frame.weight : Frame → Nat
  | .left _ operand => operand.weight f
  | .list items => Expr.weightAll f items
  | .call _ args => Expr.weightAll f args
  | .index target => target.weight f
  | _ => 0

/-- The weight of the open parts of an expression. -/
def Frame.weightAll (frames : List Frame) : Nat := (frames.map (Frame.weight f)).sum

/-- The weight of what a line end completes. -/
def LineEnd.weight : LineEnd → Nat
  | .call _ _ args => Expr.weightAll f args
  | _ => 0

/-- The weight of the current line. -/
def Focus.weight : Focus → Nat
  | .operand _ frames => Frame.weightAll f frames
  | .operator _ frames value _ => Frame.weightAll f frames + value.weight f
  | .member _ frames target => Frame.weightAll f frames + target.weight f
  | .lineEnd completed => completed.weight f
  | _ => 0

/-- The weight of a branch with its condition. -/
def branchWeight (branch : Expr × List Stmt) : Nat :=
  branch.1.weight f + Stmt.weightAll f branch.2

/-- The weight of an open block. -/
def Block.weight : Block → Nat
  | .branch _ earlier condition => (earlier.map (branchWeight f)).sum + condition.weight f
  | .otherwise _ earlier previous =>
    (earlier.map (branchWeight f)).sum + branchWeight f previous
  | .foreach _ _ collection => collection.weight f

/-- The weight of the open blocks, with the statements before them. -/
def Block.weightAll (blocks : List (Block × List Stmt)) : Nat :=
  (blocks.map fun block => block.1.weight f + Stmt.weightAll f block.2).sum

/-- The weight of a state of the machine. -/
def ParseState.weight (s : ParseState) : Nat :=
  s.focus.weight f + Stmt.weightAll f s.statements + Block.weightAll f s.blocks

/-! ## Lists -/

/-- Expressions weigh as much in any grouping. -/
theorem Expr.weightAll_append (first second : List Expr) :
    Expr.weightAll f (first ++ second) =
      Expr.weightAll f first + Expr.weightAll f second := by
  induction first with
  | nil => simp [Expr.weightAll]
  | cons e first ih => simp only [List.cons_append, Expr.weightAll, ih, Nat.add_assoc]

/-- Expressions weigh as much in reverse. -/
@[simp] theorem Expr.weightAll_reverse (es : List Expr) :
    Expr.weightAll f es.reverse = Expr.weightAll f es := by
  induction es with
  | nil => rfl
  | cons e es ih =>
      rw [List.reverse_cons, Expr.weightAll_append, ih]
      simp only [Expr.weightAll]
      omega

/-- Statements weigh as much in any grouping. -/
theorem Stmt.weightAll_append (first second : List Stmt) :
    Stmt.weightAll f (first ++ second) =
      Stmt.weightAll f first + Stmt.weightAll f second := by
  induction first with
  | nil => simp [Stmt.weightAll]
  | cons s first ih => simp only [List.cons_append, Stmt.weightAll, ih, Nat.add_assoc]

/-- Statements weigh as much in reverse. -/
@[simp] theorem Stmt.weightAll_reverse (ss : List Stmt) :
    Stmt.weightAll f ss.reverse = Stmt.weightAll f ss := by
  induction ss with
  | nil => rfl
  | cons s ss ih =>
      rw [List.reverse_cons, Stmt.weightAll_append, ih]
      simp only [Stmt.weightAll]
      omega

/-- No open parts weigh nothing. -/
@[simp] theorem Frame.weightAll_nil : Frame.weightAll f [] = 0 := rfl

/-- An open part adds its weight. -/
@[simp] theorem Frame.weightAll_cons (frame : Frame) (frames : List Frame) :
    Frame.weightAll f (frame :: frames) = frame.weight f + Frame.weightAll f frames := by
  simp [Frame.weightAll]

/-- No open blocks weigh nothing. -/
@[simp] theorem Block.weightAll_nil : Block.weightAll f [] = 0 := rfl

/-- An open block adds its weight and that of the statements before it. -/
@[simp] theorem Block.weightAll_cons (block : Block × List Stmt) (blocks : List (Block × List Stmt)) :
    Block.weightAll f (block :: blocks) =
      block.1.weight f + Stmt.weightAll f block.2 + Block.weightAll f blocks := by
  simp [Block.weightAll]

/-! ## Closing expressions -/

/-- An operator adds no string. -/
theorem UnaryOp.weight_apply (op : UnaryOp) (e : Expr) : (op.apply e).weight f = e.weight f := by
  unfold UnaryOp.apply
  split
  · simp [Expr.weight]
  · simp [Expr.weight]

/-- Closing parts of an expression keeps its weight. -/
theorem weight_reduce (level : Nat) (frames : List Frame) (e : Expr) :
    Frame.weightAll f (reduce level frames e).1 + (reduce level frames e).2.weight f =
      Frame.weightAll f frames + e.weight f := by
  fun_induction reduce level frames e with
  | case1 op operand frames e hlevel ih =>
      rw [ih]
      simp only [Frame.weightAll_cons, Frame.weight, Expr.weight]
      omega
  | case2 => rfl
  | case3 op frames e hlevel ih =>
      rw [ih, UnaryOp.weight_apply]
      simp [Frame.weight]
  | case4 => rfl
  | case5 => rfl

/-- What closing parts of an expression leads to weighs as much. -/
theorem weight_of_reduce {level : Nat} {frames frames' : List Frame} {e e' : Expr}
    (h : reduce level frames e = (frames', e')) :
    Frame.weightAll f frames' + e'.weight f = Frame.weightAll f frames + e.weight f := by
  have hweight := weight_reduce f level frames e
  rwa [h] at hweight

/-- A binary operator keeps the weight of its left operand. -/
theorem weight_of_pushBinary {op : BinaryOp} {frames frames' : List Frame} {e : Expr}
    (h : pushBinary op frames e = some frames') :
    Frame.weightAll f frames' = Frame.weightAll f frames + e.weight f := by
  unfold pushBinary at h
  split at h
  · split at h
    · rename_i other operand more e' hreduce
      have hweight := weight_of_reduce f hreduce
      split at h
      · cases h
      · obtain rfl := Option.some.inj h
        simp only [Frame.weightAll_cons, Frame.weight] at hweight ⊢
        omega
    · rename_i more e' _ hreduce
      have hweight := weight_of_reduce f hreduce
      obtain rfl := Option.some.inj h
      simp only [Frame.weightAll_cons, Frame.weight] at hweight ⊢
      omega
  · have hweight := weight_reduce f op.level frames e
    obtain rfl := Option.some.inj h
    simp only [Frame.weightAll_cons, Frame.weight] at hweight ⊢
    omega

/-! ## Closing blocks -/

/-- A conditional weighs as much as its branches. -/
theorem weight_closeBranches (line : Nat) (last : Expr × List Stmt) (earlier : List (Expr × List Stmt))
    (rest : Alternatives) :
    (closeBranches line last earlier rest).weight f =
      (earlier.map (branchWeight f)).sum + branchWeight f last + rest.weight f := by
  induction earlier generalizing last rest with
  | nil => simp [closeBranches, Stmt.weight, branchWeight]
  | cons previous earlier ih =>
      rw [closeBranches, ih]
      simp only [Alternatives.weight, branchWeight, List.map_cons, List.sum_cons]
      omega

/-! ## Transitions of the parser -/

/-- A complete call weighs as much as its arguments. -/
theorem Focus.weight_afterCall (goal : Goal) (frames : List Frame) (function : String)
    (args : List Expr) :
    (Focus.afterCall goal frames function args).weight f
      = Frame.weightAll f frames + Expr.weightAll f args := by
  unfold Focus.afterCall
  split <;> simp [Focus.weight, LineEnd.weight, Expr.weight]

/-- What the end of a line completes weighs as much as the line. -/
theorem Focus.Completes.weight_eq {focus : Focus} {s : Stmt} (h : focus.Completes s) :
    s.weight f = focus.weight f := by
  cases h with
  | assign h => simpa [Stmt.weight, Focus.weight] using weight_of_reduce f h
  | call => rfl

/-- A block that is opened weighs as much as the line. -/
theorem Focus.Enters.weight_eq {focus : Focus} {b : Block} (h : focus.Enters b) :
    b.weight f = focus.weight f := by
  cases h with
  | branch h | foreach h => simpa [Block.weight, Focus.weight] using weight_of_reduce f h

/-- A block with its next branch weighs as much as before, with the statements and the line. -/
theorem Focus.Switches.weight_eq {focus : Focus} {b b' : Block} {body : List Stmt}
    (h : focus.Switches b body b') :
    b'.weight f = focus.weight f + Stmt.weightAll f body + b.weight f := by
  cases h with
  | elif h =>
      have hwhole := weight_of_reduce f h
      simp only [Block.weight, branchWeight, Focus.weight, Frame.weightAll_nil, List.map_cons,
        List.sum_cons, Stmt.weightAll_reverse] at hwhole ⊢
      omega
  | otherwise =>
      simp only [Block.weight, branchWeight, Focus.weight, LineEnd.weight, Stmt.weightAll_reverse]
      omega

/-- A block that is closed weighs as much as before, with its statements. -/
theorem Focus.Leaves.weight_eq {focus : Focus} {b : Block} {body : List Stmt} {s : Stmt}
    (h : focus.Leaves b body s) : s.weight f = focus.weight f + Stmt.weightAll f body + b.weight f := by
  cases h with
  | branch =>
      simp only [weight_closeBranches, Alternatives.weight, Block.weight, branchWeight, Focus.weight,
        LineEnd.weight, Stmt.weightAll_reverse]
      omega
  | otherwise =>
      simp only [weight_closeBranches, Alternatives.weight, Block.weight, Focus.weight, LineEnd.weight,
        Stmt.weightAll_reverse]
      omega
  | «foreach» =>
      simp only [Stmt.weight, Block.weight, Focus.weight, LineEnd.weight, Stmt.weightAll_reverse]
      omega

namespace ParseState

/-- Whether the operand that was read last weighs nothing where it may be called. -/
def CallsNames (s : ParseState) : Prop :=
  ∀ goal frames value function, s.focus = .operator goal frames value function →
    function.isSome = true → value.weight f = 0

/-- Only names and variables may be called. -/
theorem callsNames_step {s s' : ParseState} {line : Nat} {token : Token}
    (hstep : s.step line token = some s') : s'.CallsNames f := by
  intro goal frames value function hfocus hcallee
  have hcall : ∀ goal' frames' name args,
      Focus.afterCall goal' frames' name args ≠ .operator goal frames value function := by
    intro goal' frames' name args heq
    unfold Focus.afterCall at heq
    split at heq <;> cases heq
    cases hcallee
  cases transition_of_step hstep with
  | advance h =>
      cases h with
      | noArgument => exact absurd hfocus (hcall _ _ _ _)
      | closeCall => exact absurd hfocus (hcall _ _ _ _)
      | name | var =>
          cases hfocus
          rfl
      | _ => cases hfocus <;> cases hcallee
  | begin h | «continue» h => cases h <;> cases hfocus
  | _ => cases hfocus

/-- A token within a line adds its weight; an operand that may be called weighs nothing. -/
theorem weight_advances {before after : Focus} {token : Token} (h : before.Advances token after)
    {statements : List Stmt} {blocks : List (Block × List Stmt)}
    (hs : CallsNames f ⟨before, statements, blocks⟩) :
    after.weight f = before.weight f + token.weight f := by
  cases h with
  | call goal frames value callee =>
      have hnone := hs goal frames value (some callee) rfl rfl
      simp [Focus.weight, Frame.weight, Expr.weightAll, Token.weight, hnone]
  | binarySign _ hpush | binaryWord _ hpush =>
      simp only [Focus.weight, Token.weight, weight_of_pushBinary f hpush, Nat.add_zero]
  | nextItem h | nextArgument h | closeParen h | closeList h | closeIndex h =>
      have hclosed := weight_of_reduce f h
      simp only [Focus.weight, Frame.weightAll_cons, Frame.weight, Expr.weight, Expr.weightAll,
        Expr.weightAll_reverse, Token.weight] at hclosed ⊢
      omega
  | closeCall h =>
      have hclosed := weight_of_reduce f h
      rw [Focus.weight_afterCall]
      simp only [Focus.weight, Frame.weightAll_cons, Frame.weight, Expr.weightAll_reverse, Expr.weightAll,
        Token.weight] at hclosed ⊢
      omega
  | index =>
      simp only [Focus.weight, Frame.weightAll_cons, Frame.weight, Token.weight]
      omega
  | noArgument =>
      rw [Focus.weight_afterCall]
      simp [Focus.weight, Frame.weight, Expr.weightAll, Token.weight]
  | _ => simp [Focus.weight, Frame.weight, Expr.weight, Expr.weightAll, Token.weight]

/-- A token adds its weight to that of the machine. -/
theorem weight_step {s s' : ParseState} {line : Nat} {token : Token} (hs : s.CallsNames f)
    (hstep : s.step line token = some s') : s'.weight f = s.weight f + token.weight f := by
  cases transition_of_step hstep with
  | advance h statements blocks =>
      simp only [ParseState.weight, weight_advances f h hs]
      omega
  | margin => rfl
  | begin h | «continue» h =>
      cases h <;> simp [ParseState.weight, Focus.weight, LineEnd.weight, Token.weight, Frame.weightAll]
  | complete h =>
      simp only [ParseState.weight, Focus.weight, Stmt.weightAll, Token.weight, h.weight_eq]
      omega
  | enter h | switch h | leave h =>
      simp only [ParseState.weight, Focus.weight, Stmt.weightAll, Block.weightAll_cons, Token.weight,
        h.weight_eq]
      omega

/-- The tokens of a run add their weights to that of the machine. -/
theorem weight_run {s final : ParseState} {lexemes : List Lexeme} (hs : s.CallsNames f)
    (h : s.run lexemes = .ok final) :
    final.weight f = s.weight f + (lexemes.map fun lexeme => lexeme.token.weight f).sum := by
  induction lexemes generalizing s with
  | nil =>
      obtain rfl := Except.ok.inj h
      simp
  | cons lexeme lexemes ih =>
      rw [run] at h
      split at h
      · rename_i s' hstep
        rw [ih (callsNames_step f hstep) h, weight_step f hs hstep, List.map_cons, List.sum_cons]
        omega
      · cases h

end ParseState

/-! ## Whole scripts -/

/-- The statements of a script weigh as much as its tokens. -/
theorem weight_of_parseStream {stream : TokenStream} {statements : List Stmt}
    (h : parseStream stream = .ok statements) :
    Stmt.weightAll f statements = (stream.lexemes.map fun lexeme => lexeme.token.weight f).sum := by
  unfold parseStream at h
  cases hrun : ParseState.initial.run stream.lexemes with
  | error fault => simp [hrun, bind, Except.bind] at h
  | ok final =>
      have hinitial : ParseState.initial.CallsNames f := by
        intro goal frames value function hfocus
        cases hfocus
      have hweight := ParseState.weight_run f hinitial hrun
      cases hfault : stream.fault with
      | some fault => simp [hrun, hfault, bind, Except.bind] at h
      | none =>
          simp only [hrun, hfault, bind, Except.bind] at h
          split at h
          · rename_i hcomplete
            split at h
            · cases h
            · obtain rfl := Except.ok.inj h
              -- between statements outside all blocks nothing is open
              have hclosed : final.focus.weight f = 0 ∧ final.blocks = [] := by
                unfold ParseState.isComplete at hcomplete
                split at hcomplete
                · rename_i hfocus
                  rw [hfocus]
                  exact ⟨rfl, List.isEmpty_iff.mp hcomplete⟩
                · cases hcomplete
              rw [ParseState.weight, hclosed.1, hclosed.2] at hweight
              rw [Stmt.weightAll_reverse]
              simpa [ParseState.weight, ParseState.initial, Focus.weight, Stmt.weightAll] using hweight
          · cases h

end

end Rubric.Script
