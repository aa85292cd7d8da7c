import Rubric.Number.Decimal

/-!
# Scripts

The abstract syntax of the rule language, and the names, calls and reads that occur in it.
-/

namespace Rubric.Script

open Rubric.Number

/-! ## Expressions -/

/-- A number as it is written in a script. -/
inductive NumberLiteral where
  | int (n : Int)
  | float (x : Binary64)
  deriving DecidableEq, Repr

/-- The opposite number. -/
def NumberLiteral.neg : NumberLiteral → NumberLiteral
  | int n => int (-n)
  | float x => float x.neg

/-- The text of a number. -/
def NumberLiteral.text : NumberLiteral → String
  | int n => intText n
  | float x => x.toText

/-- The binary operators. -/
inductive BinaryOp where
  | or | and
  | eq | ne | lt | le | gt | ge | mem
  | add | sub
  | mul | div | mod
  deriving DecidableEq, Repr

/-- The sign or keyword of an operator. -/
def BinaryOp.text : BinaryOp → String
  | or => "OR"
  | and => "AND"
  | eq => "=="
  | ne => "!="
  | lt => "<"
  | le => "<="
  | gt => ">"
  | ge => ">="
  | mem => "IN"
  | add => "+"
  | sub => "-"
  | mul => "*"
  | div => "/"
  | mod => "%"

/-- The unary operators. -/
inductive UnaryOp where
  | not | neg
  deriving DecidableEq, Repr

/-- The sign or keyword of an operator. -/
def UnaryOp.text : UnaryOp → String
  | not => "NOT"
  | neg => "-"

/-- An expression.  Variables are named without their dollar sign, called functions with it. -/
inductive Expr where
  | str (value : String)
  | num (value : NumberLiteral)
  | bool (value : Bool)
  | null
  | var (ident : String)
  | name (ident : String)
  | list (items : List Expr)
  | member (target : Expr) (field : String)
  | index (target key : Expr)
  | call (function : String) (args : List Expr)
  | binary (op : BinaryOp) (left right : Expr)
  | unary (op : UnaryOp) (operand : Expr)
  deriving Repr, Inhabited

/-! ## Statements -/

mutual

/-- A statement with the line it starts on.  An assignment without a path sets a variable, one
with a path a field of what the variable holds. -/
inductive Stmt where
  | assign (line : Nat) (var : String) (path : List String) (value : Expr)
  | branch (line : Nat) (condition : Expr) (body : List Stmt) (rest : Alternatives)
  | foreach (line : Nat) (var : String) (collection : Expr) (body : List Stmt)
  | call (line : Nat) (function : String) (args : List Expr)

/-- What follows the first branch of a conditional. -/
inductive Alternatives where
  | done
  | otherwise (body : List Stmt)
  | elif (condition : Expr) (body : List Stmt) (rest : Alternatives)

end

instance : Inhabited Stmt := ⟨.call 0 "" []⟩
instance : Inhabited Alternatives := ⟨.done⟩

/-- A script: its statements and the text they were read from. -/
structure Program where
  statements : List Stmt
  source : String
  deriving Inhabited

/-- The line that a statement starts on. -/
def Stmt.line : Stmt → Nat
  | assign line _ _ _ => line
  | branch line _ _ _ => line
  | foreach line _ _ _ => line
  | call line _ _ => line

/-! ## Child blocks -/

/-- The place of a block in its statement. -/
inductive BlockLabel where
  | ifThen | elif | ifElse | foreach
  deriving DecidableEq, Repr

/-- The name of a place. -/
def BlockLabel.name : BlockLabel → String
  | ifThen => "if_then"
  | elif => "elif"
  | ifElse => "if_else"
  | foreach => "foreach"

/-- Whether a block is run for every element of a collection. -/
def BlockLabel.isLoop : BlockLabel → Bool
  | foreach => true
  | _ => false

/-- The blocks of the alternatives, in order. -/
def Alternatives.blocks : Alternatives → List (BlockLabel × List Stmt)
  | done => []
  | otherwise body => [(.ifElse, body)]
  | elif _ body rest => (.elif, body) :: rest.blocks

/-- The conditions of the alternatives, in order. -/
def Alternatives.conditions : Alternatives → List Expr
  | done => []
  | otherwise _ => []
  | elif condition _ rest => condition :: rest.conditions

/-- The body of the last alternative, where it has no condition. -/
def Alternatives.otherwise? : Alternatives → Option (List Stmt)
  | done => none
  | otherwise body => some body
  | elif _ _ rest => rest.otherwise?

/-- The blocks of a statement, in order. -/
def Stmt.blocks : Stmt → List (BlockLabel × List Stmt)
  | branch _ _ body rest => (.ifThen, body) :: rest.blocks
  | foreach _ _ _ body => [(.foreach, body)]
  | _ => []

/-- The expressions of a statement outside its blocks. -/
def Stmt.expressions : Stmt → List Expr
  | assign _ _ _ value => [value]
  | branch _ condition _ rest => condition :: rest.conditions
  | foreach _ _ collection _ => [collection]
  | call _ function args => [.call function args]

/-! ## Subexpressions -/

mutual

/-- An expression and all its parts, each before its own. -/
def Expr.walk : Expr → List Expr
  | .list items => .list items :: Expr.walkAll items
  | .member target field => .member target field :: target.walk
  | .index target key => .index target key :: (target.walk ++ key.walk)
  | .call function args => .call function args :: Expr.walkAll args
  | .binary op left right => .binary op left right :: (left.walk ++ right.walk)
  | .unary op operand => .unary op operand :: operand.walk
  | e => [e]

/-- The expressions and all their parts. -/
def Expr.walkAll : List Expr → List Expr
  | [] => []
  | e :: es => e.walk ++ Expr.walkAll es

end

/-- Whether the function of a call is named by a variable. -/
def isVariableName (function : String) : Bool := function.startsWith "$"

/-! ## Statements at every depth -/

mutual

/-- A statement and all statements in its blocks, each before its own. -/
def Stmt.walk : Stmt → List Stmt
  | .branch line condition body rest =>
    .branch line condition body rest :: (Stmt.walkAll body ++ rest.walk)
  | .foreach line var collection body =>
    .foreach line var collection body :: Stmt.walkAll body
  | s => [s]

/-- The statements of the alternatives at every depth. -/
def Alternatives.walk : Alternatives → List Stmt
  | .done => []
  | .otherwise body => Stmt.walkAll body
  | .elif _ body rest => Stmt.walkAll body ++ rest.walk

/-- The statements of a block at every depth. -/
def Stmt.walkAll : List Stmt → List Stmt
  | [] => []
  | s :: ss => s.walk ++ Stmt.walkAll ss

end

/-- The variable that a statement sets or runs over, with its dollar sign. -/
def Stmt.assigned? : Stmt → Option String
  | .assign _ var [] _ => some ("$" ++ var)
  | .foreach _ var _ _ => some ("$" ++ var)
  | _ => none

/-- The function that an expression calls. -/
def Expr.called? : Expr → Option String
  | .call function _ => some function
  | _ => none

namespace Program

/-- The statements at every depth. -/
def allStatements (p : Program) : List Stmt := Stmt.walkAll p.statements

/-- The number of statements at every depth. -/
def statementCount (p : Program) : Nat := p.allStatements.length

/-- The variables that are set or run over, with their dollar signs. -/
def assignedVariables (p : Program) : List String := p.allStatements.filterMap Stmt.assigned?

/-- The functions that are called. -/
def calledFunctions (p : Program) : List String :=
  (p.allStatements.flatMap fun s => Expr.walkAll s.expressions).filterMap Expr.called?

/-- The shown form of a script. -/
def shown (p : Program) : String := s!"ScriptIR({p.statements.length} stmts)"

end Program

/-! ## Shown forms -/

mutual

/-- The shown form of an expression. -/
def Expr.shown : Expr → String
  | .str value => "StringValue(\"" ++ value ++ "\")"
  | .num value => s!"NumberValue({value.text})"
  | .bool value => if value then "BoolValue(True)" else "BoolValue(False)"
  | .null => "NullValue()"
  | .var ident => s!"VarRef(${ident})"
  | .name ident => s!"NameRef({ident})"
  | .list items => "ListLiteral([" ++ Text.join ", " (Expr.shownAll items) ++ "])"
  | .member target field => s!"Member({target.shown}.{field})"
  | .index target key => s!"Index(target={target.shown}, key={key.shown})"
  | .call function args => s!"Call({function}, {args.length} args)"
  | .binary op left right => s!"BinaryOp({left.shown} {op.text} {right.shown})"
  | .unary op operand => s!"UnaryOp(op='{op.text}', operand={operand.shown})"

/-- The shown forms of several expressions. -/
def Expr.shownAll : List Expr → List String
  | [] => []
  | e :: es => e.shown :: Expr.shownAll es

end

/-- The number of branches with a condition after the first. -/
def Alternatives.count : Alternatives → Nat
  | done => 0
  | otherwise _ => 0
  | elif _ _ rest => rest.count + 1

/-- The shown form of a statement. -/
def Stmt.shown : Stmt → String
  | .assign _ var [] value => s!"SetVariable(${var} = {value.shown})"
  | .assign _ var path value =>
    let dottedPath := Text.join "." path
    s!"SetField(${var}.{dottedPath} = {value.shown})"
  | .branch _ _ _ rest =>
    let last := match rest.otherwise? with
      | some body => s!", else={body.length} stmts"
      | none => ""
    s!"IfBlock({rest.count + 1} branches{last})"
  | .foreach _ var collection body =>
    s!"ForeachBlock(${var} IN {collection.shown}, {body.length} stmts)"
  | .call line function args =>
    s!"CallStatement(call={(Expr.call function args).shown}, line_number={line})"

end Rubric.Script
