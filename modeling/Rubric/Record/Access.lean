import Rubric.Value.Arithmetic

/-!
# Reading and writing attributes

An attribute of a record is an entry of a mapping or an attribute of an object.  Reading through
null gives null; writing through null fails.  A path is a list of attribute names, read from the
outside in.
-/

namespace Rubric

open Rubric.Text

namespace Value

/-! ## Reading -/

/-- The attributes that compiled selectors, setters and targets show. -/
def compiledAttribute? (v : Value) (name : String) : Option Value :=
  match v with
  | selector s =>
    if name = "expression" then some (str s.expression)
    else if name = "path" then
      some (match s.path? with | some p => tuple (p.map str) | none => null)
    else if name = "parts" then
      match s with
      | .composite parts => some (tuple (parts.map selector))
      | _ => none
    else none
  | setter s =>
    if name = "expression" then some (str s.expression)
    else if name = "width" then some (int s.width)
    else none
  | target s assign =>
    if name = "expression" then some (str s.expression)
    else if name = "selector" then some (selector s)
    else if name = "setter" then
      some (match assign with | some a => setter a | none => null)
    else none
  | _ => none

/-- One attribute of a value. -/
def readAttribute (σ : Store) (v : Value) (name : String) : Except Fault Value :=
  let missing : Except Fault Value := .error (.access (.noAttribute (v.typeName σ) name))
  match v with
  | null => .ok null
  | mapping address => (lookup σ (str name) (σ.entries address)).map fun found => found.getD null
  | object address =>
    match (σ.object address).attributes.lookup name with
    | some found => .ok found
    | none => missing
  | row _ type items =>
    match (type.fields.zip items).lookup name with
    | some found => .ok found
    | none => missing
  | v =>
    match v.compiledAttribute? name with
    | some found => .ok found
    | none => missing

/-- The value at the end of a path. -/
def readPath (σ : Store) (v : Value) (path : List String) : Except Fault Value :=
  path.foldlM (readAttribute σ) v

/-! ## Writing -/

/-- Entries with a new value under a name, at the end where the name is new. -/
def setEntry (σ : Store) (name : String) (value : Value) :
    List (Value × Value) → Except Fault (List (Value × Value))
  | [] => .ok [(str name, value)]
  | (k, v) :: rest =>
    match found σ k (str name) with
    | .error fault => .error fault
    | .ok true => .ok ((k, value) :: rest)
    | .ok false => (setEntry σ name value rest).map ((k, v) :: ·)

/-- Attributes with a new value under a name, at the end where the name is new. -/
def setNamed {α : Type} (name : String) (value : α) : List (String × α) → List (String × α)
  | [] => [(name, value)]
  | (n, a) :: rest => if n = name then (n, value) :: rest else (n, a) :: setNamed name value rest

/-- Writes one attribute of a value. -/
def setAttribute (v : Value) (name : String) (value : Value) : Eval Unit := do
  let σ ← get
  match v with
  | null => throw (.access (.setOnNone name))
  | mapping address =>
    let entries ← Eval.ofExcept (setEntry σ name value (σ.entries address))
    modify fun store => store.setEntries address entries
  | object address =>
    let o := σ.object address
    if o.type.structured && o.type.frozen then throw (.access (.frozen name))
    else modify fun store => store.setAttributes address (setNamed name value o.attributes)
  | row _ type _ =>
    if type.fields.contains name then throw (.access .readOnly)
    else throw (.access (.noAttribute type.name name))
  | selector _ => throw (.access (.frozen name))
  | setter _ => throw (.access (.frozen name))
  | target _ _ => throw (.access (.frozen name))
  | v => throw (.access (.noAttribute (v.typeName σ) name))

/-- Writes the attribute at the end of a path. -/
def writePath (v : Value) (path : List String) (value : Value) : Eval Unit := do
  let parent ← Eval.ofExcept (readPath (← get) v path.dropLast)
  match path.getLast? with
  | none => throw (.access (.outOfRange "list"))
  | some name =>
    if parent.isNull && path.length > 1 then
      throw (.access (.setThroughNone (join "." path) (join "." path.dropLast)))
    else parent.setAttribute name value

end Value

end Rubric
