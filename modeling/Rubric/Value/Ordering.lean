import Rubric.Value.Equality

/-!
# Order and membership

The order comparisons of numbers, strings, sequences and sets, membership in collections, and
the comparison operators of scripts, under which null is neither above nor below anything.
-/

namespace Rubric

/-- The order comparisons. -/
inductive OrderOp where
  | lt | le | gt | ge
  deriving DecidableEq, Repr

namespace OrderOp

/-- The operator sign. -/
def text : OrderOp → String
  | lt => "<"
  | le => "<="
  | gt => ">"
  | ge => ">="

/-- Whether an order of two things satisfies the comparison. -/
def holds : OrderOp → Ordering → Bool
  | lt, o => o == .lt
  | le, o => o != .gt
  | gt, o => o == .gt
  | ge, o => o != .lt

end OrderOp

namespace Value

/-! ## Order -/

mutual

/-- An order comparison, given equality of distinct places. -/
def orderWith (σ : Store) (op : OrderOp) : Value → Value → Except Fault Bool
  | str s, str t => .ok (op.holds (compare s t))
  | list _ xs, list _ ys => itemsOrderWith σ op xs ys
  | tuple xs, tuple ys => itemsOrderWith σ op xs ys
  | tuple xs, row _ _ ys => itemsOrderWith σ op xs ys
  | row _ _ xs, tuple ys => itemsOrderWith σ op xs ys
  | row _ _ xs, row _ _ ys => itemsOrderWith σ op xs ys
  | set _ xs, set _ ys =>
    let within := allFoundWith σ.samePlace xs ys
    let covers := allFoundWith σ.samePlace ys xs
    match op with
    | .lt => settled (within.map (· && xs.length < ys.length))
    | .le => settled within
    | .gt => settled (covers.map (· && ys.length < xs.length))
    | .ge => settled covers
  | a, b =>
    match a.number?, b.number? with
    | some x, some y =>
      match x.compare? y with
      | some o => .ok (op.holds o)
      | none => .ok false
    | _, _ => .error (.type (.unordered op.text (a.typeName σ) (b.typeName σ)))

/-- Sequences compare by their first items that differ, or else by length. -/
def itemsOrderWith (σ : Store) (op : OrderOp) : List Value → List Value → Except Fault Bool
  | x :: xs, y :: ys =>
    match matchWith σ.samePlace x y with
    | some true => itemsOrderWith σ op xs ys
    | some false => orderWith σ op x y
    | none => .error .tooDeep
  | xs, ys => .ok (op.holds (compare xs.length ys.length))

end

/-- An order comparison of two values. -/
def order (σ : Store) (op : OrderOp) (a b : Value) : Except Fault Bool := orderWith σ op a b

/-! ## Hashable values -/

mutual

/-- The type of a part that keeps a value from being looked up, if there is one. -/
def unhashableWith (objects : Nat → Option String) : Value → Option String
  | list _ _ => some "list"
  | mapping _ => some "dict"
  | set frozen _ => if frozen then none else some "set"
  | tuple items => anyUnhashableWith objects items
  | row _ _ items => anyUnhashableWith objects items
  | object address => objects address
  | _ => none

/-- The first such type in a list. -/
def anyUnhashableWith (objects : Nat → Option String) : List Value → Option String
  | [] => none
  | v :: vs =>
    match unhashableWith objects v with
    | some type => some type
    | none => anyUnhashableWith objects vs

end

/-- The type that keeps an object from being looked up: its own where it is compared by value
and can change, else that of a field. -/
def unhashableObject (σ : Store) : Nat → Nat → Option String
  | 0, _ => none
  | fuel + 1, address =>
    let o := σ.object address
    if !(o.type.structured && o.type.byValue) then none
    else if !o.type.frozen then some o.type.name
    else anyUnhashableWith (unhashableObject σ fuel) (Store.fieldValues o)

/-- The type that keeps a value from being looked up. -/
def unhashable? (σ : Store) (v : Value) : Option String :=
  unhashableWith (unhashableObject σ (σ.nesting + 1)) v

/-- Refuses values that cannot be looked up. -/
def requireHashable (σ : Store) (v : Value) : Except Fault Unit :=
  match v.unhashable? σ with
  | some type => .error (.type (.unhashable type))
  | none => .ok ()

/-! ## Membership -/

/-- Whether a text occurs in another. -/
def occursIn (part : List Char) : List Char → Bool
  | [] => part.isEmpty
  | c :: rest => part.isPrefixOf (c :: rest) || occursIn part rest

/-- Membership of a value in a collection. -/
def memberOf (σ : Store) (a : Value) : Value → Except Fault Bool
  | str t =>
    match a with
    | str s => .ok (occursIn s.toList t.toList)
    | _ => .error (.type (.substring (a.typeName σ)))
  | list _ items => a.foundIn σ items
  | tuple items => a.foundIn σ items
  | row _ _ items => a.foundIn σ items
  | set _ items =>
    match a with
    | set false members => (set true members).foundIn σ items
    | _ => (a.requireHashable σ).bind fun _ => a.foundIn σ items
  | mapping address =>
    (a.requireHashable σ).bind fun _ => (lookup σ a (σ.entries address)).map Option.isSome
  | b => .error (.type (.membership (b.typeName σ)))

/-! ## The comparison operators of scripts -/

/-- The comparison that an operator sign stands for. -/
def compareText (σ : Store) (left : Value) (operator : String) (right : Value) :
    Except Fault Bool :=
  if operator = "==" then left.equal σ right
  else if operator = "!=" then (left.equal σ right).map (!·)
  else if operator = "IN" then
    if right.isNull then .ok false else memberOf σ left right
  else if left.isNull || right.isNull then .ok false
  else if operator = "<" then order σ .lt left right
  else if operator = "<=" then order σ .le left right
  else if operator = ">" then order σ .gt left right
  else if operator = ">=" then order σ .ge left right
  else .error (.name (.unknownComparison operator))

end Value

end Rubric
