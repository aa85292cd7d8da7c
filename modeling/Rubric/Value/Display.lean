import Rubric.Value.Basic

/-!
# The text of values

Every value has a shown form, in which strings stand between quotes; a string alone is its own
text.  A collection met inside itself is shown by three dots.
-/

namespace Rubric

open Rubric.Number Rubric.Text

/-- A collection that is being shown. -/
inductive Enclosing where
  | list (tag : Tag)
  | mapping (address : Nat)
  | object (address : Nat)
  deriving DecidableEq, Repr

/-! ## Selectors and setters -/

/-- The shown form of a path: a tuple of names. -/
def shownPath (path : List String) : String :=
  match path with
  | [name] => s!"({quoted name},)"
  | names => "(" ++ join ", " (names.map quoted) ++ ")"

/-- The shown form of an optional path. -/
def shownPath? : Option (List String) → String
  | some path => shownPath path
  | none => "None"

/-- A list of shown forms as a tuple. -/
def shownTuple : List String → String
  | [only] => s!"({only},)"
  | parts => "(" ++ join ", " parts ++ ")"

mutual

/-- The shown form of a selector. -/
def Selector.shown : Selector → String
  | .composite parts =>
    let expression := quoted (Selector.composite parts).expression
    s!"CompositeSelector(expression={expression}, path=None, parts=" ++
      shownTuple (Selector.shownAll parts) ++ ")"
  | s => s!"Selector(expression={quoted s.expression}, path={shownPath? s.path?})"

/-- The shown forms of the parts. -/
def Selector.shownAll : List Selector → List String
  | [] => []
  | part :: parts => Selector.shown part :: Selector.shownAll parts

end

/-- The shown form of a setter. -/
def Setter.shown (s : Setter) : String :=
  s!"Setter(expression={quoted s.expression}, width={s.width})"

/-- The shown form of a target. -/
def shownTarget (s : Selector) (assign : Option Setter) : String :=
  let setter := (assign.map Setter.shown).getD "None"
  s!"FieldTarget(selector={s.shown}, setter={setter})"

namespace Value

/-! ## Values over the text of places -/

mutual

/-- The shown form of a value, given that of the values that live in the store. -/
def shownWith (places : List Enclosing → Enclosing → String) (around : List Enclosing) :
    Value → String
  | null => "None"
  | bool b => if b then "True" else "False"
  | int n => intText n
  | float x => x.toText
  | nan _ => "nan"
  | str s => quoted s
  | list tag items =>
    if around.contains (.list tag) then "[...]"
    else "[" ++ join ", " (allShownWith places (.list tag :: around) items) ++ "]"
  | tuple items => shownTuple (allShownWith places around items)
  | row _ type items =>
    let shown := allShownWith places around items
    type.name ++ "(" ++ join ", " (List.zipWith (fun f s => f ++ "=" ++ s) type.fields shown) ++
      ")"
  | set frozen items =>
    match frozen, items with
    | false, [] => "set()"
    | true, [] => "frozenset()"
    | false, items => "\x7b" ++ join ", " (allShownWith places around items) ++ "\x7d"
    | true, items => "frozenset(\x7b" ++ join ", " (allShownWith places around items) ++ "\x7d)"
  | mapping address => places around (.mapping address)
  | object address => places around (.object address)
  | function _ _ => "<function>"
  | selector s => s.shown
  | setter s => s.shown
  | target s assign => shownTarget s assign

/-- The shown forms of several values. -/
def allShownWith (places : List Enclosing → Enclosing → String) (around : List Enclosing) :
    List Value → List String
  | [] => []
  | v :: vs => shownWith places around v :: allShownWith places around vs

end

end Value

/-! ## Values in a store -/

/-- The shown form of a value that lives in the store, entering at most `fuel` of them. -/
def Store.shownPlace (σ : Store) : Nat → List Enclosing → Enclosing → String
  | 0, _, _ => "..."
  | fuel + 1, around, .mapping address =>
    if around.contains (.mapping address) then "\x7b...\x7d"
    else
      let inside := Value.shownWith (shownPlace σ fuel) (.mapping address :: around)
      let entries := (σ.entries address).map fun e => inside e.1 ++ ": " ++ inside e.2
      "\x7b" ++ join ", " entries ++ "\x7d"
  | fuel + 1, around, .object address =>
    let o := σ.object address
    if !o.type.structured then "<" ++ o.type.name ++ " object>"
    else if around.contains (.object address) then "..."
    else
      let inside := Value.shownWith (shownPlace σ fuel) (.object address :: around)
      let fields := o.type.fields.map fun name =>
        name ++ "=" ++ inside ((o.attributes.lookup name).getD .null)
      o.type.name ++ "(" ++ join ", " fields ++ ")"
  | _ + 1, _, .list _ => "[...]"

namespace Value

/-- The shown form of a value. -/
def shown (σ : Store) (v : Value) : String := shownWith (σ.shownPlace (σ.nesting + 1)) [] v

/-- The text of a value: a string itself, any other value in its shown form. -/
def text (σ : Store) : Value → String
  | str s => s
  | v => v.shown σ

/-- The text of a value, empty for null. -/
def label (σ : Store) : Value → String
  | null => ""
  | v => v.text σ

/-- The label of a string is the string. -/
theorem label_str (σ : Store) (s : String) : (str s).label σ = s := rfl

/-- The label of null is empty. -/
theorem label_null (σ : Store) : null.label σ = "" := rfl

end Value

end Rubric
