import Rubric.Record.Shape

/-!
# Shapes of declared record types

A declared type gives its fields with type expressions.  The children of an attribute are the
attributes of its type, where that is a declared type or such a type or nothing.
-/

namespace Rubric

open Rubric.Text

/-- A type expression, as fields are annotated with. -/
inductive TypeExpr where
  /-- A type without attributes of its own. -/
  | plain (name : String)
  /-- The type of null. -/
  | nothing
  | declared (name : String)
  /-- A name in quotes, looked up when the fields are enumerated. -/
  | forward (name : String)
  | union (members : List TypeExpr)
  | list (item : TypeExpr)
  | mapping (key value : TypeExpr)
  deriving Repr, Inhabited

/-- The ways in which a record type is declared. -/
inductive Declaration where
  /-- Fields with a constructor, shown and compared by them. -/
  | structured
  | namedTuple
  | typedMapping
  /-- A plain class with annotations. -/
  | annotated
  deriving DecidableEq, Repr

/-- A declared record type. -/
structure TypeDecl where
  declaration : Declaration
  name : String
  fields : List (String × TypeExpr)
  base : Option String
  frozen : Bool
  byValue : Bool

namespace TypeExpr

mutual

/-- Equality of type expressions. -/
def same : TypeExpr → TypeExpr → Bool
  | plain a, plain b => a == b
  | nothing, nothing => true
  | declared a, declared b => a == b
  | forward a, forward b => a == b
  | union as, union bs => sameAll as bs
  | list a, list b => same a b
  | mapping a b, mapping c d => same a c && same b d
  | _, _ => false

/-- Equality of lists of type expressions. -/
def sameAll : List TypeExpr → List TypeExpr → Bool
  | [], [] => true
  | a :: as, b :: bs => same a b && sameAll as bs
  | _, _ => false

end

/-- Whether an expression is the type of null. -/
def isNothing : TypeExpr → Bool
  | nothing => true
  | _ => false

/-- The union of expressions: nested unions opened, repeated members dropped, and a single
member alone. -/
def unionOf (members : List TypeExpr) : TypeExpr :=
  let opened := members.flatMap fun m => match m with | union ms => ms | m => [m]
  let distinct := opened.foldl (fun ms m => if ms.any (same m) then ms else ms ++ [m]) []
  match distinct with
  | [only] => only
  | ms => union ms

/-- The parts of a compound expression. -/
def arguments : TypeExpr → List TypeExpr
  | union ms => ms
  | list item => [item]
  | mapping key value => [key, value]
  | _ => []

/-- An expression with two parts of which one is the type of null stands for the other. -/
def withoutNothing (t : TypeExpr) : TypeExpr :=
  if t.arguments.any isNothing then
    match t.arguments.filter fun a => !a.isNothing with
    | [only] => only
    | _ => t
  else t

/-- The name that a type expression shows. -/
def name : TypeExpr → String
  | plain n => n
  | nothing => "NoneType"
  | declared n => n
  | forward n => n
  | union ms => if ms.length = 2 && ms.any isNothing then "Optional" else "Union"
  | list _ => "list"
  | mapping _ _ => "dict"

end TypeExpr

/-- The names of types that are known without a declaration. -/
def knownNames : List String :=
  ["None", "bool", "bytes", "complex", "dict", "float", "frozenset", "int", "list", "object",
    "range", "set", "str", "tuple", "type"]

/-- The declared types, the latest declaration of a name first. -/
structure TypeTable where
  decls : List TypeDecl

namespace TypeTable

/-- The declaration of a name. -/
def decl? (table : TypeTable) (name : String) : Option TypeDecl :=
  table.decls.find? fun d => d.name == name

/-- A declaration after its ancestors, visiting at most `fuel` of them. -/
def lineageFrom (table : TypeTable) : Nat → TypeDecl → List TypeDecl
  | 0, d => [d]
  | fuel + 1, d =>
    match d.base.bind table.decl? with
    | some b => lineageFrom table fuel b ++ [d]
    | none => [d]

/-- A declaration after its ancestors. -/
def lineage (table : TypeTable) (d : TypeDecl) : List TypeDecl :=
  table.lineageFrom table.decls.length d

mutual

/-- A type expression with its quoted names looked up, or the first name that is unknown. -/
def resolve (table : TypeTable) : TypeExpr → Except String TypeExpr
  | .forward name =>
    if (table.decl? name).isSome then .ok (.declared name)
    else if name = "None" then .ok .nothing
    else if knownNames.contains name then .ok (.plain name)
    else .error name
  | .union members => (resolveAll table members).map TypeExpr.unionOf
  | .list item => (resolve table item).map .list
  | .mapping key value =>
    match resolve table key with
    | .error name => .error name
    | .ok k => (resolve table value).map (.mapping k)
  | t => .ok t

/-- Several type expressions with their quoted names looked up. -/
def resolveAll (table : TypeTable) : List TypeExpr → Except String (List TypeExpr)
  | [] => .ok []
  | t :: ts =>
    match resolve table t with
    | .error name => .error name
    | .ok r => (resolveAll table ts).map (r :: ·)

end

/-- Fields with one more, in the place of an earlier one of that name. -/
def noteField {α : Type} (fields : List (String × α)) (field : String × α) : List (String × α) :=
  if fields.any fun f => f.1 == field.1 then
    fields.map fun f => if f.1 = field.1 then field else f
  else fields ++ [field]

/-- The annotations of a declaration and its ancestors, those of ancestors first. -/
def annotations (table : TypeTable) (d : TypeDecl) : List (String × TypeExpr) :=
  ((table.lineage d).flatMap TypeDecl.fields).foldl noteField []

/-- The annotations, resolved. -/
def resolvedAnnotations (table : TypeTable) (d : TypeDecl) :
    Except Fault (List (String × TypeExpr)) :=
  let all := (table.lineage d).flatMap TypeDecl.fields
  match all.mapM fun f => (table.resolve f.2).map fun t => (f.1, t) with
  | .ok fields => .ok (fields.foldl noteField [])
  | .error name => .error (.shape (.unresolvedTypes (quoted d.name) name))

/-- Whether a declaration or an ancestor has a constructor with fields. -/
def isStructured (table : TypeTable) (d : TypeDecl) : Bool :=
  (table.lineage d).any fun a => a.declaration == .structured

/-- The constructor's fields of a structured declaration. -/
def constructorFields (table : TypeTable) (d : TypeDecl) : List String :=
  let ancestors := (table.lineage d).filter fun a => a.declaration == .structured
  ((ancestors.flatMap TypeDecl.fields).foldl noteField []).map Prod.fst

/-- The attributes of a type with their types; `none` for types without attributes. -/
def attributeTypes? (table : TypeTable) (t : TypeExpr) :
    Except Fault (Option (List (String × TypeExpr))) :=
  match t.withoutNothing with
  | .declared name =>
    match table.decl? name with
    | none => .ok none
    | some d =>
      (table.resolvedAnnotations d).map fun hints =>
        if table.isStructured d then
          some ((table.constructorFields d).map fun f =>
            (f, (hints.lookup f).getD (.plain "Any")))
        else
          match d.declaration with
          | .annotated =>
            let visible := hints.filter fun f => !f.1.startsWith "_"
            if visible.isEmpty then none else some visible
          | _ => some hints
  | _ => .ok none

/-- An attribute with the names of its type's attributes as children. -/
def describeField (table : TypeTable) (field : String × TypeExpr) : Except Fault Attribute :=
  (table.attributeTypes? field.2).map fun children =>
    ⟨field.1, (children.getD []).map Prod.fst⟩

/-- The shape of a declared record type. -/
def shape (table : TypeTable) (t : TypeExpr) : Except Fault RecordShape :=
  match table.attributeTypes? t with
  | .error fault => .error fault
  | .ok none => .error (.shape (.noAttributes (quoted t.name)))
  | .ok (some fields) =>
    (fields.mapM (describeField table)).map fun attributes => ⟨t.name, attributes⟩

/-- What instances of a declared type know about it. -/
def recordType (table : TypeTable) (d : TypeDecl) : RecordType :=
  let structured := table.isStructured d
  let nearest := ((table.lineage d).reverse.find? fun a => a.declaration == .structured).getD d
  { name := d.name
    fields := if structured then table.constructorFields d else (table.annotations d).map Prod.fst
    structured := structured
    byValue := structured && nearest.byValue
    frozen := structured && nearest.frozen }

end TypeTable

end Rubric
