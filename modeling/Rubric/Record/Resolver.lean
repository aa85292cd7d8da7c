import Rubric.Record.Call
import Rubric.Record.Shape

/-!
# Compiling selectors

A resolver knows the shape of the records and turns selector expressions into selectors, setters
and targets: an attribute name, a flattened name, a dotted path, several of those, or something
that can be called.  An expression that does not fit the shape is refused before any record is
read.
-/

namespace Rubric

open Rubric.Text

/-- The shape of the records and its flattened names. -/
structure Resolver where
  shape : RecordShape
  names : List (String × List String)
  deriving Inhabited

namespace Resolver

/-- The resolver of a shape whose flattened names are distinct. -/
def ofShape (shape : RecordShape) : Except Fault Resolver :=
  shape.flatten.map fun names => ⟨shape, names⟩

/-! ## Paths -/

/-- The attribute path of a dotted expression, checked against the shape. -/
def checkPath (r : Resolver) (expression : String) (path : List String) :
    Except Fault (List String) :=
  if path.any String.isEmpty then .error (.selector (.malformedPath (quoted expression)))
  else
    let first := path.head?.getD ""
    match r.shape.attribute? first with
    | none =>
      .error (.selector (.unknownAttribute first (quoted expression) r.shape.shown))
    | some a =>
      match path with
      | _ :: second :: _ =>
        if a.children.isEmpty || a.hasChild second then .ok path
        else .error (.selector (.unknownChild second first (quoted expression)))
      | _ => .ok path

/-- The path of an attribute name, a flattened name or a dotted path. -/
def path (r : Resolver) (expression : String) : Except Fault (List String) :=
  let name := trimmed expression
  if name.isEmpty then .error (.selector .emptyExpression)
  else
    match r.names.lookup name with
    | some found => .ok found
    | none => r.checkPath expression ((dotted name).map trimmed)

/-! ## Selectors -/

mutual

/-- Compiles a selector expression. -/
def compile (r : Resolver) (σ : Store) : Value → Except Fault Selector
  | .selector s => .ok s
  | .str expression => (r.path expression).map (.path expression)
  | .list _ items => compileParts r σ items
  | .tuple items => compileParts r σ items
  | .row _ _ items => compileParts r σ items
  | .function tag body => .ok (.computed body.name (.function tag body))
  | .setter s => .ok (.computed "<callable>" (.setter s))
  | v => .error (.selector (.unsupportedExpression (v.shown σ)))

/-- Compiles the parts of a composite expression. -/
def compileParts (r : Resolver) (σ : Store) (items : List Value) : Except Fault Selector :=
  if items.isEmpty then .error (.selector .emptyComposite)
  else (compileAll r σ items).map .composite

/-- Compiles several selector expressions. -/
def compileAll (r : Resolver) (σ : Store) : List Value → Except Fault (List Selector)
  | [] => .ok []
  | v :: vs =>
    match compile r σ v with
    | .error fault => .error fault
    | .ok s => (compileAll r σ vs).map (s :: ·)

end

/-- Compiles an expression whose value is read as text. -/
def compileDisplay (r : Resolver) (σ : Store) (v : Value) : Except Fault Selector :=
  (r.compile σ v).map .display

/-- Compiles an expression whose value is read in its key form. -/
def compileKey (r : Resolver) (σ : Store) (v : Value) : Except Fault Selector :=
  (r.compile σ v).map .key

/-! ## Setters and targets -/

mutual

/-- The setter of a compiled selector. -/
def setterOfSelector : Selector → Except Fault Setter
  | .composite parts => (settersOfSelectors parts).map .composite
  | s =>
    match s.path? with
    | some path => .ok (.path s.expression path)
    | none => .error (.selector (.computedTarget (quoted s.expression)))

/-- The setters of several compiled selectors. -/
def settersOfSelectors : List Selector → Except Fault (List Setter)
  | [] => .ok []
  | s :: ss =>
    match setterOfSelector s with
    | .error fault => .error fault
    | .ok assign => (settersOfSelectors ss).map (assign :: ·)

end

mutual

/-- Compiles an assignment target. -/
def compileSetter (r : Resolver) (σ : Store) : Value → Except Fault Setter
  | .setter s => .ok s
  | .selector s => setterOfSelector s
  | .str expression => (r.path expression).map (.path expression)
  | .list _ items => compileSetterParts r σ items
  | .tuple items => compileSetterParts r σ items
  | .row _ _ items => compileSetterParts r σ items
  | v => .error (.selector (.unsupportedTarget (v.shown σ)))

/-- Compiles the parts of a composite target. -/
def compileSetterParts (r : Resolver) (σ : Store) (items : List Value) : Except Fault Setter :=
  if items.isEmpty then .error (.selector .emptyTarget)
  else (compileSetters r σ items).map .composite

/-- Compiles several assignment targets. -/
def compileSetters (r : Resolver) (σ : Store) : List Value → Except Fault (List Setter)
  | [] => .ok []
  | v :: vs =>
    match compileSetter r σ v with
    | .error fault => .error fault
    | .ok s => (compileSetters r σ vs).map (s :: ·)

end

/-- Whether a selector can be written through: it reads a path, or all its parts do. -/
def isAssignable : Selector → Bool
  | .composite parts => parts.all fun p => p.path?.isSome
  | s => s.path?.isSome

/-- Compiles a field that is read and, where it can be, written. -/
def compileTarget (r : Resolver) (σ : Store) (v : Value) : Except Fault Target :=
  match r.compile σ v with
  | .error fault => .error fault
  | .ok s =>
    if isAssignable s then (setterOfSelector s).map fun assign => ⟨s, some assign⟩
    else .ok ⟨s, none⟩

end Resolver

end Rubric
