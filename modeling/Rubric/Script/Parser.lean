import Rubric.Script.Lexer
import Rubric.Script.Syntax

/-!
# Parsing

A script is parsed token by token by a machine with two stacks: the open parts of the expression
on the current line, and the open blocks.  An operator first closes every part that binds at
least as tightly, so operators of one level group to the left; comparisons do not group at all.
-/

namespace Rubric.Script

open Rubric.Number Rubric.Text

/-! ## Binding strength -/

/-- How tightly an operator binds. -/
def BinaryOp.level : BinaryOp → Nat
  | or => 1
  | and => 2
  | eq | ne | lt | le | gt | ge | mem => 4
  | add | sub => 5
  | mul | div | mod => 6

/-- How tightly an operator binds. -/
def UnaryOp.level : UnaryOp → Nat
  | not => 3
  | neg => 7

/-- Comparisons, which do not group. -/
def BinaryOp.isComparison (op : BinaryOp) : Bool := op.level == 4

/-- The binary operator that a reserved word stands for. -/
def BinaryOp.ofKeyword? : Keyword → Option BinaryOp
  | .or => some .or
  | .and => some .and
  | .mem => some .mem
  | _ => none

/-- The binary operator that a sign stands for. -/
def BinaryOp.ofSign? : Sign → Option BinaryOp
  | .eq => some .eq
  | .ne => some .ne
  | .lt => some .lt
  | .le => some .le
  | .gt => some .gt
  | .ge => some .ge
  | .add => some .add
  | .sub => some .sub
  | .mul => some .mul
  | .div => some .div
  | .mod => some .mod
  | _ => none

/-- The value of a number that is written out. -/
def NumberLiteral.ofDigits (cs : List Char) : NumberLiteral :=
  if cs.contains '.' then
    match readDecimal cs with
    | .value x => .float x
    | _ => .int 0
  else .int (ofDigitList (cs.filterMap digitValue?))

/-- An operator applied to its operand; the opposite of a written number is a number. -/
def UnaryOp.apply : UnaryOp → Expr → Expr
  | neg, .num n => .num n.neg
  | op, e => .unary op e

/-! ## Open expressions -/

/-- A part of an expression that is not complete. -/
inductive Frame where
  /-- An operator with its left operand. -/
  | left (op : BinaryOp) (operand : Expr)
  | unary (op : UnaryOp)
  | paren
  /-- A list with its items so far, the last first. -/
  | list (items : List Expr)
  /-- A call with its arguments so far, the last first. -/
  | call (function : String) (args : List Expr)
  | index (target : Expr)

/-- Closes every part that binds at least as tightly as a level. -/
def reduce (level : Nat) : List Frame → Expr → List Frame × Expr
  | .left op operand :: frames, e =>
    if level ≤ op.level then reduce level frames (.binary op operand e)
    else (.left op operand :: frames, e)
  | .unary op :: frames, e =>
    if level ≤ op.level then reduce level frames (op.apply e) else (.unary op :: frames, e)
  | frames, e => (frames, e)

/-- Closes everything inside the innermost bracket. -/
def reduceAll (frames : List Frame) (e : Expr) : List Frame × Expr := reduce 0 frames e

/-- The open parts after a binary operator, its left operand closed. -/
def pushBinary (op : BinaryOp) (frames : List Frame) (e : Expr) : Option (List Frame) :=
  if op.isComparison then
    match reduce (op.level + 1) frames e with
    | (.left other operand :: frames, e) =>
      if other.isComparison then none
      else some (.left op e :: .left other operand :: frames)
    | (frames, e) => some (.left op e :: frames)
  else
    let (frames, e) := reduce op.level frames e
    some (.left op e :: frames)

/-! ## Open lines and blocks -/

/-- What the expression on a line is for. -/
inductive Goal where
  | assign (line : Nat) (var : String) (path : List String)
  | branch (line : Nat)
  | elif
  | foreach (line : Nat) (var : String)
  | call (line : Nat)

/-- What the line end completes where no expression is open. -/
inductive LineEnd where
  | call (line : Nat) (function : String) (args : List Expr)
  | otherwise
  | endBranch
  | endForeach

/-- How far a line is read. -/
inductive Focus where
  | lineStart
  | assignedVar (line : Nat)
  | afterTarget (line : Nat) (var : String) (path : List String)
  | targetField (line : Nat) (var : String) (path : List String)
  | loopVar (line : Nat)
  | loopIn (line : Nat) (var : String)
  | callOpen (line : Nat) (function : String)
  | operand (goal : Goal) (frames : List Frame)
  /-- After an operand; `function` where it is a name that may be called. -/
  | operator (goal : Goal) (frames : List Frame) (value : Expr) (function : Option String)
  | member (goal : Goal) (frames : List Frame) (target : Expr)
  | lineEnd (completed : LineEnd)

/-- A block that is not complete, without its statements. -/
inductive Block where
  /-- A branch with a condition, and the branches before it, the last first. -/
  | branch (line : Nat) (earlier : List (Expr × List Stmt)) (condition : Expr)
  /-- The last branch, the one before it, and those before that, the last first. -/
  | otherwise (line : Nat) (earlier : List (Expr × List Stmt)) (previous : Expr × List Stmt)
  | foreach (line : Nat) (var : String) (collection : Expr)

/-- A conditional from its last branch with a condition, those before it and what follows. -/
def closeBranches (line : Nat) (last : Expr × List Stmt) :
    List (Expr × List Stmt) → Alternatives → Stmt
  | [], rest => .branch line last.1 last.2 rest
  | previous :: earlier, rest => closeBranches line previous earlier (.elif last.1 last.2 rest)

/-- The state of parsing: the current line, the statements of the innermost block, the last
first, and the open blocks, each with the statements before it. -/
structure ParseState where
  focus : Focus
  statements : List Stmt
  blocks : List (Block × List Stmt)

namespace ParseState

/-- The start of a script. -/
def initial : ParseState := ⟨.lineStart, [], []⟩

/-- The state with another focus. -/
def focusOn (s : ParseState) (focus : Focus) : ParseState := { s with focus := focus }

/-- A complete statement in the innermost block. -/
def addStatement (s : ParseState) (statement : Stmt) : ParseState :=
  { s with focus := .lineStart, statements := statement :: s.statements }

/-- Opens a block. -/
def openBlock (s : ParseState) (block : Block) : ParseState :=
  ⟨.lineStart, [], (block, s.statements) :: s.blocks⟩

/-! ## Line ends -/

/-- The innermost branch goes over to its next condition. -/
def openElif (s : ParseState) (condition : Expr) : Option ParseState :=
  match s.blocks with
  | (.branch line earlier previous, outer) :: blocks =>
    let block := Block.branch line ((previous, s.statements.reverse) :: earlier) condition
    some ⟨.lineStart, [], (block, outer) :: blocks⟩
  | _ => none

/-- The innermost branch goes over to its last part. -/
def openOtherwise (s : ParseState) : Option ParseState :=
  match s.blocks with
  | (.branch line earlier previous, outer) :: blocks =>
    let block := Block.otherwise line earlier (previous, s.statements.reverse)
    some ⟨.lineStart, [], (block, outer) :: blocks⟩
  | _ => none

/-- Closes the innermost block as a conditional. -/
def closeBranch (s : ParseState) : Option ParseState :=
  match s.blocks with
  | (.branch line earlier condition, outer) :: blocks =>
    let statement := closeBranches line (condition, s.statements.reverse) earlier .done
    some ⟨.lineStart, statement :: outer, blocks⟩
  | (.otherwise line earlier previous, outer) :: blocks =>
    let statement := closeBranches line previous earlier (.otherwise s.statements.reverse)
    some ⟨.lineStart, statement :: outer, blocks⟩
  | _ => none

/-- Closes the innermost block as a loop. -/
def closeForeach (s : ParseState) : Option ParseState :=
  match s.blocks with
  | (.foreach line var collection, outer) :: blocks =>
    some ⟨.lineStart, .foreach line var collection s.statements.reverse :: outer, blocks⟩
  | _ => none

/-- A line with a complete expression ends. -/
def endExpression (s : ParseState) (goal : Goal) (value : Expr) : Option ParseState :=
  match goal with
  | .assign line var path => some (s.addStatement (.assign line var path value))
  | .branch line => some (s.openBlock (.branch line [] value))
  | .elif => s.openElif value
  | .foreach line var => some (s.openBlock (.foreach line var value))
  | .call _ => none

/-- A line without an open expression ends. -/
def endLine (s : ParseState) : LineEnd → Option ParseState
  | .call line function args => some (s.addStatement (.call line function args))
  | .otherwise => s.openOtherwise
  | .endBranch => s.closeBranch
  | .endForeach => s.closeForeach

/-! ## Line starts -/

/-- Whether the innermost block is a branch that another may follow. -/
def inBranch (s : ParseState) : Bool :=
  match s.blocks with
  | (.branch _ _ _, _) :: _ => true
  | _ => false

/-- Whether the innermost block is part of a conditional. -/
def inConditional (s : ParseState) : Bool :=
  match s.blocks with
  | (.branch _ _ _, _) :: _ => true
  | (.otherwise _ _ _, _) :: _ => true
  | _ => false

/-- Whether the innermost block is a loop. -/
def inForeach (s : ParseState) : Bool :=
  match s.blocks with
  | (.foreach _ _ _, _) :: _ => true
  | _ => false

/-- A reserved word at the start of a line. -/
def startKeyword (s : ParseState) (line : Nat) : Keyword → Option ParseState
  | .set => some (s.focusOn (.assignedVar line))
  | .branch => some (s.focusOn (.operand (.branch line) []))
  | .foreach => some (s.focusOn (.loopVar line))
  | .elif => if s.inBranch then some (s.focusOn (.operand .elif [])) else none
  | .otherwise => if s.inBranch then some (s.focusOn (.lineEnd .otherwise)) else none
  | .endBranch => if s.inConditional then some (s.focusOn (.lineEnd .endBranch)) else none
  | .endForeach => if s.inForeach then some (s.focusOn (.lineEnd .endForeach)) else none
  | _ => none

/-- Whether a script may end here, and an empty first line may stand here. -/
def isFresh (s : ParseState) : Bool := s.blocks.isEmpty && s.statements.isEmpty

/-- A token at the start of a line. -/
def atLineStart (s : ParseState) (line : Nat) : Token → Option ParseState
  | .newline => if s.isFresh then some s else none
  | .keyword k => s.startKeyword line k
  | .name ident => some (s.focusOn (.callOpen line ident))
  | .var ident => some (s.focusOn (.callOpen line ("$" ++ ident)))
  | _ => none

/-! ## Expressions -/

/-- A complete operand that cannot be called. -/
def operandRead (s : ParseState) (goal : Goal) (frames : List Frame) (value : Expr) :
    ParseState :=
  s.focusOn (.operator goal frames value none)

/-- A complete call, which may be the whole line. -/
def callRead (s : ParseState) (goal : Goal) (frames : List Frame) (function : String)
    (args : List Expr) : ParseState :=
  match goal, frames with
  | .call line, [] => s.focusOn (.lineEnd (.call line function args))
  | _, _ => s.operandRead goal frames (.call function args)

/-- A token where an operand is expected. -/
def atOperand (s : ParseState) (goal : Goal) (frames : List Frame) : Token → Option ParseState
  | .number digits => some (s.operandRead goal frames (.num (.ofDigits digits)))
  | .str value => some (s.operandRead goal frames (.str value))
  | .keyword (.bool b) => some (s.operandRead goal frames (.bool b))
  | .keyword .null => some (s.operandRead goal frames .null)
  | .keyword .not => some (s.focusOn (.operand goal (.unary .not :: frames)))
  | .var ident => some (s.focusOn (.operator goal frames (.var ident) (some ("$" ++ ident))))
  | .name ident => some (s.focusOn (.operator goal frames (.name ident) (some ident)))
  | .sign .sub => some (s.focusOn (.operand goal (.unary .neg :: frames)))
  | .sign .openParen => some (s.focusOn (.operand goal (.paren :: frames)))
  | .sign .openBracket => some (s.focusOn (.operand goal (.list [] :: frames)))
  | .sign .closeParen =>
    match frames with
    | .call function [] :: frames => some (s.callRead goal frames function [])
    | _ => none
  | .sign .closeBracket =>
    match frames with
    | .list [] :: frames => some (s.operandRead goal frames (.list []))
    | _ => none
  | _ => none

/-- A closing parenthesis after an operand. -/
def closeParen (s : ParseState) (goal : Goal) (frames : List Frame) (value : Expr) :
    Option ParseState :=
  match reduceAll frames value with
  | (.paren :: frames, value) => some (s.operandRead goal frames value)
  | (.call function args :: frames, value) =>
    some (s.callRead goal frames function (value :: args).reverse)
  | _ => none

/-- A closing bracket after an operand. -/
def closeBracket (s : ParseState) (goal : Goal) (frames : List Frame) (value : Expr) :
    Option ParseState :=
  match reduceAll frames value with
  | (.list items :: frames, value) =>
    some (s.operandRead goal frames (.list (value :: items).reverse))
  | (.index target :: frames, value) => some (s.operandRead goal frames (.index target value))
  | _ => none

/-- A comma after an operand. -/
def nextItem (s : ParseState) (goal : Goal) (frames : List Frame) (value : Expr) :
    Option ParseState :=
  match reduceAll frames value with
  | (.list items :: frames, value) =>
    some (s.focusOn (.operand goal (.list (value :: items) :: frames)))
  | (.call function args :: frames, value) =>
    some (s.focusOn (.operand goal (.call function (value :: args) :: frames)))
  | _ => none

/-- The end of the line after an operand. -/
def endOfOperand (s : ParseState) (goal : Goal) (frames : List Frame) (value : Expr) :
    Option ParseState :=
  match reduceAll frames value with
  | ([], value) => s.endExpression goal value
  | _ => none

/-- A binary operator after an operand. -/
def binaryOperator (s : ParseState) (goal : Goal) (frames : List Frame) (value : Expr)
    (op : BinaryOp) : Option ParseState :=
  (pushBinary op frames value).map fun frames => s.focusOn (.operand goal frames)

/-- A token after an operand. -/
def atOperator (s : ParseState) (goal : Goal) (frames : List Frame) (value : Expr)
    (function : Option String) : Token → Option ParseState
  | .newline => s.endOfOperand goal frames value
  | .sign .dot => some (s.focusOn (.member goal frames value))
  | .sign .comma => s.nextItem goal frames value
  | .sign .closeParen => s.closeParen goal frames value
  | .sign .closeBracket => s.closeBracket goal frames value
  | .sign .openBracket => some (s.focusOn (.operand goal (.index value :: frames)))
  | .sign .openParen =>
    function.map fun callee => s.focusOn (.operand goal (.call callee [] :: frames))
  | .sign sign => (BinaryOp.ofSign? sign).bind (s.binaryOperator goal frames value)
  | .keyword k => (BinaryOp.ofKeyword? k).bind (s.binaryOperator goal frames value)
  | _ => none

/-! ## Whole scripts -/

/-- The state after a token that starts on a line; `none` where the token cannot stand. -/
def step (s : ParseState) (line : Nat) (token : Token) : Option ParseState :=
  match s.focus, token with
  | .lineStart, token => s.atLineStart line token
  | .assignedVar start, .var ident => some (s.focusOn (.afterTarget start ident []))
  | .afterTarget start var path, .sign .dot => some (s.focusOn (.targetField start var path))
  | .afterTarget start var path, .sign .assign =>
    some (s.focusOn (.operand (.assign start var path) []))
  | .targetField start var path, .name ident =>
    some (s.focusOn (.afterTarget start var (path ++ [ident])))
  | .loopVar start, .var ident => some (s.focusOn (.loopIn start ident))
  | .loopIn start var, .keyword .mem => some (s.focusOn (.operand (.foreach start var) []))
  | .callOpen start function, .sign .openParen =>
    some (s.focusOn (.operand (.call start) [.call function []]))
  | .operand goal frames, token => s.atOperand goal frames token
  | .operator goal frames value function, token => s.atOperator goal frames value function token
  | .member goal frames target, .name ident =>
    some (s.operandRead goal frames (.member target ident))
  | .lineEnd completed, .newline => s.endLine completed
  | _, _ => none

/-- The state after some tokens, or the fault of the first that cannot stand. -/
def run (s : ParseState) : List Lexeme → Except SyntaxFault ParseState
  | [] => .ok s
  | lexeme :: rest =>
    match s.step lexeme.position.line lexeme.token with
    | some s => s.run rest
    | none => .error (.unexpectedToken lexeme.position lexeme.text)

/-- Whether a script may end: between statements, outside all blocks. -/
def isComplete (s : ParseState) : Bool :=
  match s.focus with
  | .lineStart => s.blocks.isEmpty
  | _ => false

end ParseState

/-- The place that the end of a script is reported at: that of its last token. -/
def endPosition (lexemes : List Lexeme) : Position :=
  (lexemes.getLast?.map Lexeme.position).getD ⟨1, 1⟩

/-- The number of digits of an integer that is written with too many. -/
def oversized? (lexeme : Lexeme) : Option Nat :=
  match lexeme.token with
  | .number digits =>
    if !digits.contains '.' && integerDigitLimit < digits.length then some digits.length
    else none
  | _ => none

/-- The statements of a token stream. -/
def parseStream (stream : TokenStream) : Except SyntaxFault (List Stmt) := do
  let final ← ParseState.initial.run stream.lexemes
  match stream.fault with
  | some fault => .error fault
  | none =>
    if final.isComplete then
      match stream.lexemes.findSome? oversized? with
      | some count => .error (.oversizedNumber count)
      | none => .ok final.statements.reverse
    else .error (.unexpectedEnd (endPosition stream.lexemes))

/-- Parses a script. -/
def parse (text : String) : Except Fault Program :=
  match parseStream (tokens text.toList) with
  | .ok statements => .ok ⟨statements, text⟩
  | .error fault => .error (.malformed fault)

end Rubric.Script
