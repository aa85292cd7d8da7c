import Rubric.Record.Access
import Rubric.Value.Key

/-!
# Calling selectors, setters and functions

What compiled selectors read, what setters write, and what happens when a value is called.  A
composite selector reads a tuple, and a composite setter takes a sequence of as many values as it
has parts and writes them one after the other.
-/

namespace Rubric

open Rubric.Text

/-! ## Arguments -/

/-- The one argument of a callable that takes a single record; `own` counts the arguments that
the callable adds itself. -/
def oneArgument (callee : String) (own : Nat) : List Value → Except Fault Value
  | [record] => .ok record
  | [] => .error (.call (.missing callee ["record"]))
  | args => .error (.call (.surplus callee (own + 1) (own + 1) (own + args.length)))

/-- The two arguments of a callable with the given parameters. -/
def twoArguments (callee first second : String) (own : Nat) :
    List Value → Except Fault (Value × Value)
  | [a, b] => .ok (a, b)
  | [_] => .error (.call (.missing callee [second]))
  | [] => .error (.call (.missing callee [first, second]))
  | args => .error (.call (.surplus callee (own + 2) (own + 2) (own + args.length)))

/-! ## Setters -/

mutual

/-- Writes a value through a setter; a composite one takes as many values as it has parts. -/
def Setter.assign : Setter → Value → Value → Eval Unit
  | .path _ names, record, value => record.writePath names value
  | .composite parts, record, value => do
    let refused : Eval Unit := do
      throw (.name (.compositeWidth parts.length (value.shown (← get))))
    match value.sequence? with
    | some items =>
      if items.length = parts.length then Setter.assignEach parts record items else refused
    | none => refused
termination_by structural s => s

/-- Writes values one after the other. -/
def Setter.assignEach : List Setter → Value → List Value → Eval Unit
  | part :: parts, record, value :: values => do
    part.assign record value
    Setter.assignEach parts record values
  | _, _, _ => return ()
termination_by structural s => s

end

/-! ## Selectors and functions -/

/-- The name that a function shows. -/
def Function.name : Function → String
  | .field _ => "get"
  | .failing _ => "boom"
  | .constant _ => "const"
  | .arguments => "args"
  | _ => "equivalent"

mutual

/-- The value that a selector reads from a record. -/
def Selector.read : Selector → Value → Eval Value
  | .path _ names, record => do Eval.ofExcept (record.readPath (← get) names)
  | .composite parts, record => do return .tuple (← Selector.readAll parts record)
  | .computed _ callee, record => Value.call callee [record]
  | .display inner, record => do
    let value ← Selector.read inner record
    return .str (value.label (← get))
  | .key inner, record => do
    let value ← Selector.read inner record
    Eval.ofExcept (value.keyForm (← get))
termination_by structural s => s

/-- The values that several selectors read. -/
def Selector.readAll : List Selector → Value → Eval (List Value)
  | [], _ => return []
  | part :: parts, record => do
    let value ← Selector.read part record
    return value :: (← Selector.readAll parts record)
termination_by structural s => s

/-- Calls a value. -/
def Value.call : Value → List Value → Eval Value
  | .function _ body, args => Function.call body args
  | .selector s, args => do
    let record ← Eval.ofExcept (oneArgument "Selector.__call__" 1 args)
    Selector.read s record
  | .setter s, args => do
    let (record, value) ← Eval.ofExcept (twoArguments "Setter.__call__" "record" "value" 1 args)
    s.assign record value
    return .null
  | v, _ => do throw (.type (.notCallable s!"'{v.typeName (← get)}' object"))

/-- Calls a function. -/
def Function.call : Function → List Value → Eval Value
  | .field name, args => do
    let record ← Eval.ofExcept (oneArgument "get" 0 args)
    Eval.ofExcept (record.subscript (← get) (.str name))
  | .failing message, _ => throw (.refused message)
  | .constant value, _ => return value
  | .arguments, args => Eval.newList args
  | .always, args => do
    let _ ← Eval.ofExcept (twoArguments "equivalent" "record" "item" 0 args)
    return .bool true
  | .never, args => do
    let _ ← Eval.ofExcept (twoArguments "equivalent" "record" "item" 0 args)
    return .bool false
  | .sameKey key, args => do
    let (record, item) ←
      Eval.ofExcept (twoArguments "same_key.<locals>.equivalent" "record" "item" 0 args)
    let left ← Selector.read key record
    let right ← Selector.read key item
    return .bool (← Eval.ofExcept (left.equal (← get) right))
  | .comparing names operator, args => do
    let (record, item) ← Eval.ofExcept (twoArguments "equivalent" "record" "item" 0 args)
    let σ ← get
    let left ← Eval.ofExcept (record.readPath σ names)
    let right ← Eval.ofExcept (item.readPath σ names)
    return .bool (← Eval.ofExcept (left.compareText σ operator right))
  | .failingRelation message, args => do
    let _ ← Eval.ofExcept (twoArguments "equivalent" "record" "item" 0 args)
    throw (.refused message)
termination_by structural f => f

end

/-! ## Targets -/

/-- A field that scripts read and, where it has a setter, write. -/
structure Target where
  selector : Selector
  setter : Option Setter
  deriving Inhabited

namespace Target

/-- A target as a value. -/
def toValue (t : Target) : Value := .target t.selector t.setter

/-- The target that a value is. -/
def ofValue? : Value → Option Target
  | .target s assign => some ⟨s, assign⟩
  | _ => none

/-- The expression that a target was compiled from. -/
def expression (t : Target) : String := t.selector.expression

/-- Whether a target can be written. -/
def isAssignable (t : Target) : Bool := t.setter.isSome

/-- Reads the field. -/
def read (t : Target) (record : Value) : Eval Value := t.selector.read record

/-- Writes the field. -/
def write (t : Target) (record value : Value) : Eval Unit :=
  match t.setter with
  | some s => s.assign record value
  | none => throw (.access (.notAssignable t.expression))

end Target

/-! ## Relations -/

/-- Whether a relation holds between a record and an item. -/
def related (relation : Value) (record item : Value) : Eval Bool := do
  let answer ← relation.call [record, item]
  return answer.truthy (← get)

end Rubric
