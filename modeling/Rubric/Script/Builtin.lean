import Rubric.Binder
import Rubric.Record.Call

/-!
# Built-in functions

The functions that every script can call: aggregates over collections of records, searches in
them, conversions of single values, and the descriptions of classification labels.
-/

namespace Rubric.Script

open Rubric.Text

/-! ## What a script runs against -/

/-- The bindings and the label descriptions that a script sees; a null description table has no
labels. -/
structure Environment where
  binder : Binder
  classes : Value
  subclasses : Value

namespace Environment

/-- An environment whose empty tables are null, so that labels added to them later stay unknown. -/
def make (σ : Store) (binder : Binder) (classes subclasses : Value) : Environment :=
  let table (v : Value) := if v.truthy σ then v else .null
  ⟨binder, table classes, table subclasses⟩

/-- The value bound to a name, null where there is none. -/
def valueOf (env : Environment) (name : String) : Value :=
  ((env.binder.get? name).map Binding.value).getD .null

/-- The item that the script runs for. -/
def item (env : Environment) : Value := env.valueOf "$ctxI"

end Environment

/-! ## Collections -/

/-- The items of a collection, of which there are none where it counts as false. -/
def itemsOrNone (collection : Value) : Eval (List Value) := do
  let σ ← get
  if collection.truthy σ then Eval.ofExcept (collection.items σ) else return []

/-- The value that a selector, a field or a field name reads from a record; null reads the record
itself. -/
def selectFrom (selector record : Value) : Eval Value :=
  match selector with
  | .null => return record
  | .target s assign => (Target.mk s assign).read record
  | .str name => do Eval.ofExcept (record.readPath (← get) (dotted name))
  | v => do
    if v.isCallable then v.call [record]
    else throw (.type (.notASelector (v.shown (← get))))

/-- The values that a selector reads from the items of a collection; null has no items. -/
def selectAll (collection selector : Value) : Eval (List Value) := do
  if collection.isNull then return []
  else (← Eval.ofExcept (collection.items (← get))).mapM (selectFrom selector)

/-- The values that a selector reads, without the nulls. -/
def selectPresent (collection selector : Value) : Eval (List Value) := do
  return (← selectAll collection selector).filter fun v => !v.isNull

/-- The elements that pass a test, in order. -/
def keepWhere {α : Type} (test : α → Eval Bool) : List α → Eval (List α)
  | [] => return []
  | a :: rest => do
    let keep ← test a
    let others ← keepWhere test rest
    return if keep then a :: others else others

/-- Whether the comparison of a record's value holds. -/
def comparesTo (selector operator value record : Value) : Eval Bool := do
  let left ← selectFrom selector record
  let σ ← get
  Eval.ofExcept (left.compareText σ (operator.text σ) value)

/-- The values that are not found among those kept before them. -/
def distinctValues (σ : Store) (kept : List Value) : List Value → Except Fault (List Value)
  | [] => .ok kept
  | v :: vs => do
    if ← v.foundIn σ kept then distinctValues σ kept vs
    else distinctValues σ (kept ++ [v]) vs

/-! ## The functions -/

/-- The built-in functions. -/
inductive Builtin where
  | count | sum | avg | min | max | values | filter | distinct | related
  | round | abs | str | num | len | concat | coalesce
  | describe | subclass | hasClass
  deriving DecidableEq, Repr

/-- The parameters of a function: those that must be given, how many more may be, and whether any
number may. -/
structure Signature where
  callee : String
  required : List String
  optional : Nat
  variadic : Bool
  deriving DecidableEq, Repr

/-- Whether a number of arguments fits; the environment counts as one more. -/
def Signature.check (s : Signature) (given : Nat) : Except Fault Unit :=
  let least := s.required.length
  if given < least then .error (.call (.missing s.callee (s.required.drop given)))
  else if !s.variadic && least + s.optional < given then
    .error (.call (.surplus s.callee (least + 1) (least + s.optional + 1) (given + 1)))
  else .ok ()

namespace Builtin

/-- All functions. -/
def all : List Builtin :=
  [count, sum, avg, min, max, values, filter, distinct, related, round, abs, str, num, len,
    concat, coalesce, describe, subclass, hasClass]

/-- The name that scripts call a function by. -/
def name : Builtin → String
  | count => "COUNT"
  | sum => "SUM"
  | avg => "AVG"
  | min => "MIN"
  | max => "MAX"
  | values => "VALUES"
  | filter => "WHERE"
  | distinct => "DISTINCT"
  | related => "RELATED"
  | round => "ROUND"
  | abs => "ABS"
  | str => "STR"
  | num => "NUM"
  | len => "LEN"
  | concat => "CONCAT"
  | coalesce => "COALESCE"
  | describe => "DESCRIBE"
  | subclass => "SUBCLASS"
  | hasClass => "HASCLASS"

/-- The function of a name in any case. -/
def ofName? (s : String) : Option Builtin :=
  all.find? fun b => b.name == String.ofList (s.toList.map Char.toUpper)

/-- The parameters of a function. -/
def signature : Builtin → Signature
  | count => ⟨"_count", ["collection"], 1, false⟩
  | sum => ⟨"_sum", ["collection"], 1, false⟩
  | avg => ⟨"_avg", ["collection"], 1, false⟩
  | min => ⟨"_min", ["collection"], 1, false⟩
  | max => ⟨"_max", ["collection"], 1, false⟩
  | values => ⟨"_pluck", ["collection", "selector"], 0, false⟩
  | filter => ⟨"_where", ["collection", "selector", "op", "value"], 0, false⟩
  | distinct => ⟨"_distinct", ["values"], 0, false⟩
  | related => ⟨"_related", ["record"], 1, false⟩
  | round => ⟨"_round", ["value"], 1, false⟩
  | abs => ⟨"_abs", ["value"], 0, false⟩
  | str => ⟨"_str", ["value"], 0, false⟩
  | num => ⟨"_num", ["value"], 0, false⟩
  | len => ⟨"_len", ["value"], 0, false⟩
  | concat => ⟨"_concat", [], 0, true⟩
  | coalesce => ⟨"_coalesce", [], 0, true⟩
  | describe => ⟨"_describe", ["label"], 0, false⟩
  | subclass => ⟨"_subclass", ["label"], 0, false⟩
  | hasClass => ⟨"_hasclass", ["label"], 0, false⟩

end Builtin

/-! ## What the functions compute -/

/-- How many items a collection has, or how many of their values are not null. -/
def countOf (collection selector : Value) : Eval Value := do
  if selector.isNull then return .int (← itemsOrNone collection).length
  else return .int (← selectPresent collection selector).length

/-- The mean of the values, null where there are none. -/
def meanOf (collection selector : Value) : Eval Value := do
  match ← selectPresent collection selector with
  | [] => return .null
  | values => do (← Value.sum values).div (.int values.length)

/-- The least or greatest of the values, null where there are none. -/
def extremeOf (op : OrderOp) (collection selector : Value) : Eval Value := do
  match ← selectPresent collection selector with
  | [] => return .null
  | first :: rest => do Eval.ofExcept (Value.extreme (← get) op first rest)

/-- The records of a collection, or of the context, that are related to a record. -/
def relatedTo (env : Environment) (record collection : Value) : Eval Value := do
  let relation := (← Eval.ofExcept (env.binder.get "$pkAll")).value
  if relation.isNull then throw (.name .unboundPredicate)
  else
    let pool ←
      if collection.isNull then itemsOrNone (env.valueOf "$ctxC")
      else do Eval.ofExcept (collection.items (← get))
    Eval.newList (← keepWhere (fun r => related relation r record) pool)

/-- A value rounded to a number of places, null where it is null. -/
def roundTo (value places : Value) : Eval Value := do
  if value.isNull then return .null
  else value.round (← Eval.ofExcept (places.toInteger (← get)))

/-- The characters that mark a text as a decimal. -/
def isDecimalMark (c : Char) : Bool := c = '.' || c = 'e' || c = 'E'

/-- A value as a number: numbers and null as they are, others as their text denotes. -/
def numberOf (value : Value) : Eval Value := do
  if value.isNull || value.number?.isSome then return value
  else
    let text := trimmed (value.text (← get))
    if text.toList.any isDecimalMark then
      match ← Eval.ofExcept (Value.decimalOfText text) with
      | some x => return .float x
      | none => Eval.ofFloat none
    else return .int (← Eval.ofExcept (Value.integerOfText text))

/-- The length of a collection, zero for null. -/
def lengthOf (value : Value) : Eval Value := do
  if value.isNull then return .int 0
  else return .int (← Eval.ofExcept (value.length (← get)))

/-- The texts of values joined, null being empty. -/
def concatenated (σ : Store) (parts : List Value) : String :=
  String.join (parts.map (Value.label σ))

/-- The first value that is not null. -/
def firstPresent (values : List Value) : Value :=
  (values.find? fun v => !v.isNull).getD .null

/-- What a description table says about a label, with a value for unknown labels. -/
def descriptionIn (table label default : Value) : Eval Value := do
  let σ ← get
  match table with
  | .null => return default
  | .mapping address =>
    return (← Eval.ofExcept (Value.lookup σ (.str (label.label σ)) (σ.entries address))).getD
      default
  | v => throw (.access (.noAttribute (v.typeName σ) "get"))

/-- Whether a description table knows a label. -/
def knownIn (table label : Value) : Eval Bool := do
  let σ ← get
  if table.isNull then return false
  else Eval.ofExcept ((Value.str (label.label σ)).memberOf σ table)

/-- The value of a function for arguments that fit its parameters; optional ones are null where
they are not given. -/
def Builtin.value (env : Environment) (b : Builtin) (args : List Value) : Eval Value :=
  let arg (i : Nat) : Value := args.getD i .null
  match b with
  | .count => countOf (arg 0) (arg 1)
  | .sum => do Value.sum (← selectPresent (arg 0) (arg 1))
  | .avg => meanOf (arg 0) (arg 1)
  | .min => extremeOf .lt (arg 0) (arg 1)
  | .max => extremeOf .gt (arg 0) (arg 1)
  | .values => do Eval.newList (← selectAll (arg 0) (arg 1))
  | .filter => do
    let items ← itemsOrNone (arg 0)
    Eval.newList (← keepWhere (comparesTo (arg 1) (arg 2) (arg 3)) items)
  | .distinct => do
    let items ← itemsOrNone (arg 0)
    Eval.newList (← Eval.ofExcept (distinctValues (← get) [] items))
  | .related => relatedTo env (arg 0) (arg 1)
  | .round => roundTo (arg 0) (args.getD 1 (.int 0))
  | .abs => if (arg 0).isNull then return .null else (arg 0).abs
  | .str => do return .str ((arg 0).label (← get))
  | .num => numberOf (arg 0)
  | .len => lengthOf (arg 0)
  | .concat => do return .str (concatenated (← get) args)
  | .coalesce => return firstPresent args
  | .describe => descriptionIn env.classes (arg 0) (.str "")
  | .subclass => descriptionIn env.subclasses (arg 0) .null
  | .hasClass => do
    if ← knownIn env.classes (arg 0) then return .bool true
    else return .bool (← knownIn env.subclasses (arg 0))

/-- Calls a function. -/
def Builtin.call (env : Environment) (b : Builtin) (args : List Value) : Eval Value := do
  Eval.ofExcept (b.signature.check args.length)
  b.value env args

end Rubric.Script
