import Rubric.Script.Builtin
import Rubric.Script.Lint
import Rubric.Script.Parser

/-!
# Running scripts

A script runs for one item.  Names that are bound are read from the binder; bound fields read and
write the item; every other variable is local to the run.  A fault of a statement is reported with
the line of the innermost statement that it arose in, and what was written before it stays
written.
-/

namespace Rubric.Script

open Rubric.Text

/-- The local variables of a run with their dollar signs, in order of their first assignment. -/
abbrev Locals := List (String × Value)

/-- The state of a run: the contents of the values, and the local variables. -/
structure RunState where
  store : Store
  locals : Locals
  deriving Inhabited

/-- A part of a run.  What it wrote and assigned before a fault stays. -/
abbrev Exec := EStateM Fault RunState

namespace Exec

/-- An action on values as a part of a run. -/
def ofEval {α : Type} (action : Locals → Eval α) : Exec α := fun s =>
  match action s.locals s.store with
  | .ok a σ => .ok a { s with store := σ }
  | .error fault σ => .error fault { s with store := σ }

/-- Gives a local variable a value. -/
def setLocal (name : String) (value : Value) : Exec Unit :=
  modify fun s => { s with locals := Value.setNamed name value s.locals }

/-- A part of a run whose faults are located at the line of its statement. -/
def atLine {α : Type} (line : Nat) (action : Exec α) : Exec α := fun s =>
  match action s with
  | .ok a s => .ok a s
  | .error fault s => .error (fault.located line) s

end Exec

/-! ## Names -/

/-- The value of a binding; a bound field is read from the item. -/
def bindingValue (env : Environment) (binding : Binding) : Eval Value :=
  match binding.kind, binding.value with
  | .target, .null => return .null
  | .target, .target s assign => (Target.mk s assign).read env.item
  | .target, v => do throw (.access (.noAttribute (v.typeName (← get)) "read"))
  | _, v => return v

/-- The value of a variable: a local before a bound one. -/
def lookupVar (env : Environment) (locals : Locals) (name : String) : Eval Value :=
  match locals.lookup name with
  | some v => return v
  | none =>
    match env.binder.get? name with
    | some binding => bindingValue env binding
    | none => throw (.name (.undefinedVariable name))

/-- The value of a bare name, which must be bound. -/
def lookupName (env : Environment) (name : String) : Eval Value :=
  match env.binder.get? name with
  | some binding => bindingValue env binding
  | none => throw (.name (.unknownName name))

/-- Refuses attributes whose names mark them as private. -/
def checkPublic (name : String) : Except Fault Unit :=
  if name.startsWith "_" then .error (.access (.privateAttribute name)) else .ok ()

/-! ## Expressions -/

/-- The number of a literal as a value. -/
def NumberLiteral.toValue : NumberLiteral → Value
  | int n => .int n
  | float x => .float x

/-- The sum of two values, or their texts joined where one is a string. -/
def plus (left right : Value) : Eval Value :=
  match left, right with
  | .str _, _ => do return .str (concatenated (← get) [left, right])
  | _, .str _ => do return .str (concatenated (← get) [left, right])
  | _, _ => left.add right

/-- The value of an operator whose operands are both known. -/
def BinaryOp.applyTo (op : BinaryOp) (left right : Value) : Eval Value :=
  match op with
  | .or => do let σ ← get; return .bool (left.truthy σ || right.truthy σ)
  | .and => do let σ ← get; return .bool (left.truthy σ && right.truthy σ)
  | .add => plus left right
  | .sub => left.sub right
  | .mul => left.mul right
  | .div => left.div right
  | .mod => left.mod right
  | op => do return .bool (← Eval.ofExcept (left.compareText (← get) op.text right))

/-- Whether the left operand alone decides an operator. -/
def BinaryOp.decided (σ : Store) (op : BinaryOp) (left : Value) : Bool :=
  match op with
  | .or => left.truthy σ
  | .and => !left.truthy σ
  | _ => false

/-- The value of an operator on its operand. -/
def UnaryOp.applyTo (op : UnaryOp) (operand : Value) : Eval Value :=
  match op with
  | .not => do return .bool (!operand.truthy (← get))
  | .neg => operand.neg

/-- Calls what a name of a call stands for. -/
def callValue (function : String) (callee : Value) (args : List Value) : Eval Value :=
  match callee with
  | .target s assign => do
    let record ← Eval.ofExcept (oneArgument "FieldTarget.read" 1 args)
    (Target.mk s assign).read record
  | v => if v.isCallable then v.call args else throw (.type (.notCallable function))

/-- Calls a function by name: a variable, a bound name, or a built-in. -/
def callNamed (env : Environment) (locals : Locals) (function : String) (args : List Value) :
    Eval Value := do
  if isVariableName function then callValue function (← lookupVar env locals function) args
  else
    match env.binder.get? function with
    | some binding => callValue function (← bindingValue env binding) args
    | none =>
      match Builtin.ofName? function with
      | some b => b.call env args
      | none => throw (.name (.unknownFunction function))

mutual

/-- The value of an expression. -/
def Expr.eval (env : Environment) (locals : Locals) : Expr → Eval Value
  | .str value => return .str value
  | .num value => return value.toValue
  | .bool value => return .bool value
  | .null => return .null
  | .var ident => lookupVar env locals ("$" ++ ident)
  | .name ident => lookupName env ident
  | .list items => do Eval.newList (← Expr.evalAll env locals items)
  | .member target field => do
    Eval.ofExcept (checkPublic field)
    let base ← target.eval env locals
    Eval.ofExcept (base.readAttribute (← get) field)
  | .index target key => do
    let container ← target.eval env locals
    if container.isNull then return .null
    else
      let place ← key.eval env locals
      Eval.ofExcept (container.subscript (← get) place)
  | .call function args => do
    let values ← Expr.evalAll env locals args
    callNamed env locals function values
  | .binary op left right => do
    let first ← left.eval env locals
    if op.decided (← get) first then return .bool (op == .or)
    else
      let second ← right.eval env locals
      op.applyTo first second
  | .unary op operand => do
    let value ← operand.eval env locals
    op.applyTo value

/-- The values of several expressions, from left to right. -/
def Expr.evalAll (env : Environment) (locals : Locals) : List Expr → Eval (List Value)
  | [] => return []
  | e :: es => do
    let v ← e.eval env locals
    return v :: (← Expr.evalAll env locals es)

end

/-! ## Statements -/

/-- Writes a bound field of the item. -/
def assignBound (env : Environment) (binding : Binding) (value : Value) : Eval Unit :=
  match binding.kind, binding.value with
  | .target, .null => throw (.name (.unboundTarget binding.name))
  | .target, .target s assign => (Target.mk s assign).write env.item value
  | .target, v => do throw (.access (.noAttribute (v.typeName (← get)) "write"))
  | _, _ => throw (.name (.assignToBinding binding.name))

/-- Assigns a variable: a local, unless the name is bound and not yet local. -/
def assignVar (env : Environment) (name : String) (value : Value) : Exec Unit := do
  match (← get).locals.lookup name, env.binder.get? name with
  | none, some binding => Exec.ofEval fun _ => assignBound env binding value
  | _, _ => Exec.setLocal name value

/-- Assigns a field of what a variable holds; the field is checked before the value is
computed. -/
def assignField (env : Environment) (locals : Locals) (name : String) (path : List String)
    (value : Expr) : Eval Unit := do
  let base ← lookupVar env locals name
  Eval.ofExcept (path.forM checkPublic)
  let v ← value.eval env locals
  base.writePath path v

/-- The value of an expression of a statement. -/
def evaluate (env : Environment) (e : Expr) : Exec Value :=
  Exec.ofEval fun locals => e.eval env locals

/-- Whether a condition holds. -/
def conditionHolds (env : Environment) (condition : Expr) : Exec Bool := do
  let v ← evaluate env condition
  return v.truthy (← get).store

/-- The number of entries of a mapping, which may not change while it is run over. -/
def entryCount? (σ : Store) : Value → Option Nat
  | .mapping address => some (σ.entries address).length
  | _ => none

/-- The elements that a loop runs over, of which there are none where the collection counts as
false, and the number of entries that they belong to. -/
def loopElements (env : Environment) (collection : Expr) (locals : Locals) :
    Eval (Value × Option Nat × List Value) := do
  let v ← collection.eval env locals
  let σ ← get
  if v.truthy σ then return (v, entryCount? σ v, ← Eval.ofExcept (v.items σ))
  else return (.null, none, [])

/-- Refuses a collection that lost or gained entries. -/
def checkEntries (collection : Value) (entries : Option Nat) : Exec Unit := do
  if entryCount? (← get).store collection ≠ entries then
    throw (.access .changedDuringIteration)

/-- Runs over elements, checking before each and at the end that their collection still has its
entries. -/
def runOver (collection : Value) (entries : Option Nat) (body : Value → Exec Unit) :
    List Value → Exec Unit
  | [] => checkEntries collection entries
  | element :: rest => do
    checkEntries collection entries
    body element
    runOver collection entries body rest

mutual

/-- Runs a statement. -/
def Stmt.run (env : Environment) : Stmt → Exec Unit
  | .assign line var path value => Exec.atLine line do
    match path with
    | [] => assignVar env ("$" ++ var) (← evaluate env value)
    | _ :: _ => Exec.ofEval fun locals => assignField env locals ("$" ++ var) path value
  | .branch line condition body rest => Exec.atLine line do
    if ← conditionHolds env condition then Stmt.runAll env body else rest.run env
  | .foreach line var collection body => Exec.atLine line do
    let name := "$" ++ var
    if env.binder.contains name then throw (.name (.shadowing name))
    else
      let (v, entries, elements) ← Exec.ofEval (loopElements env collection)
      runOver v entries (fun element => do
        Exec.setLocal name element
        Stmt.runAll env body) elements
  | .call line function args => Exec.atLine line do
    let _ ← evaluate env (.call function args)
    return ()

/-- Runs the first of the alternatives whose condition holds. -/
def Alternatives.run (env : Environment) : Alternatives → Exec Unit
  | .done => return ()
  | .otherwise body => Stmt.runAll env body
  | .elif condition body rest => do
    if ← conditionHolds env condition then Stmt.runAll env body else rest.run env

/-- Runs statements one after the other. -/
def Stmt.runAll (env : Environment) : List Stmt → Exec Unit
  | [] => return ()
  | s :: ss => do
    s.run env
    Stmt.runAll env ss

end

/-! ## Scripts -/

/-- Runs a script and returns its local variables. -/
def Program.run (p : Program) (env : Environment) : Eval Locals := fun σ =>
  match Stmt.runAll env p.statements ⟨σ, []⟩ with
  | .ok _ s => .ok s.locals s.store
  | .error fault s => .error fault s.store

/-- The program of a script text, its spelling repaired where `repaired` says so. -/
def compileText (repaired : Bool) (text : String) : Except Fault Program :=
  parse (if repaired then (lint text false).text else text)

/-- The program of a value, which must be a text. -/
def compile (σ : Store) (repaired : Bool) (script : Value) : Except Fault Program := do
  script.requireHashable σ
  match script with
  | .str text => compileText repaired text
  | v => .error (.access (.noAttribute (v.typeName σ) "replace"))

/-- The programs of the texts that were compiled before. -/
abbrev ProgramCache := List (String × Program)

/-- The program of a value, and the programs kept from then on; a text that was compiled before is
not compiled again. -/
def compileCached (σ : Store) (repaired : Bool) (cache : ProgramCache) (script : Value) :
    Except Fault (Program × ProgramCache) := do
  script.requireHashable σ
  match script with
  | .str text =>
    match cache.lookup text with
    | some program => .ok (program, cache)
    | none => (compileText repaired text).map fun program => (program, (text, program) :: cache)
  | v => .error (.access (.noAttribute (v.typeName σ) "replace"))

end Rubric.Script
