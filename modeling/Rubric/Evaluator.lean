import Rubric.Classification
import Rubric.Grouping
import Rubric.Record.Resolver
import Rubric.Script.Interpreter
import Rubric.Value.Mapping

/-!
# Evaluation runs

An evaluator runs a script once for every distinct item of a dataset, with the context of the item
bound, and classifies the items by what the script left in their result field.  A full run binds
everything that a script can ask for; a simplified run binds the item key and the result only.  A
run never fails: a fault ends it, empties the classification and becomes its outcome.
-/

namespace Rubric

open Rubric.Script

/-! ## Sessions -/

/-- A record with its place in the dataset. -/
structure Record where
  position : Nat
  value : Value
  deriving Inhabited

/-- The records of a dataset. -/
def Record.numbered (values : List Value) : List Record :=
  values.zipIdx.map fun entry => ⟨entry.2, entry.1⟩

/-- What is done for an item, in this order. -/
inductive Step where
  | before | execute | classify | after
  deriving DecidableEq, Repr

/-- A step for an item with its context; the store, and what was bound as the current item and
context, when it began. -/
structure Event where
  step : Step
  item : Record
  context : List Record
  store : Store
  boundItem : Value
  boundContext : Value

/-- What an evaluator keeps from run to run.  The journal lists the steps of all runs; the programs
are those of the scripts that were prepared. -/
structure Session where
  store : Store
  binder : Binder
  classification : Classification Record
  description : String
  journal : List Event
  programs : ProgramCache

/-- An action of an evaluator.  What it changed before a fault stays changed. -/
abbrev Action := EStateM Fault Session

namespace Action

/-- A computation on values as an action. -/
def ofEval {α : Type} (action : Eval α) : Action α := fun s =>
  match action s.store with
  | .ok a σ => .ok a { s with store := σ }
  | .error fault σ => .error fault { s with store := σ }

/-- Changes the value of a bound name. -/
def bind (name : String) (value : Value) : Action Unit := fun s =>
  match s.binder.set name value none with
  | .ok binder => .ok () { s with binder := binder }
  | .error fault => .error fault s

/-- The value of a bound name. -/
def bound (name : String) : Action Value := fun s =>
  match s.binder.get name with
  | .ok binding => .ok binding.value s
  | .error fault => .error fault s

end Action

/-- A function that is called before or after each item, with the item and its context. -/
abbrev Hook := Record → List Record → Action Unit

/-- The hook that does nothing. -/
def Hook.none : Hook := fun _ _ => return ()

/-- What runs scripts: it prepares a script once, with the programs prepared before at hand, and runs
it for every item. -/
abbrev Engine := Value → StateT ProgramCache Eval (Environment → Eval Unit)

/-- A program as what is run for every item. -/
def programJob (program : Program) (env : Environment) : Eval Unit := do
  let _ ← program.run env
  return ()

/-- The engine of the script language, which repairs the spelling of scripts. -/
def scriptEngine : Engine := fun script cache => do
  let (program, cache) ← Eval.ofExcept (compileCached (← get) true cache script)
  return (programJob program, cache)

/-- An evaluator: the shape of its records, its engine and its hooks. -/
structure Evaluator where
  resolver : Resolver
  engine : Engine
  before : Hook
  after : Hook

namespace Evaluator

/-! ## Construction -/

/-- The names that runs bind, and the kinds of what they stand for. -/
def reservedBindings : List (String × BindingKind) :=
  [("$ctxI", .literal),
   ("$ctxC", .collection),
   ("$pkAll", .predicate),
   ("$result", .target),
   ("$obs", .target),
   ("$classes", .mapping),
   ("$subclasses", .mapping),
   ("evalKey", .selector),
   ("evalKeyDisplayValue", .selector),
   ("evalBasedKey", .selector),
   ("evalBasedKeyDisplayValue", .selector),
   ("itemKey", .selector),
   ("resultKey", .selector)]

/-- The names of the attributes that scripts can use. -/
def fields (e : Evaluator) : List String := e.resolver.names.map Prod.fst

/-- A binder with the attributes of a shape. -/
def bindFields (resolver : Resolver) (binder : Binder) : List String → Except Fault Binder
  | [] => .ok binder
  | name :: rest => do
    let selector ← resolver.compile .empty (.str name)
    let binder ← binder.add name (.selector selector) (some .selector)
    bindFields resolver binder rest

/-- A binder with the reserved names, not yet bound to anything. -/
def bindReserved (binder : Binder) : List (String × BindingKind) → Except Fault Binder
  | [] => .ok binder
  | (name, kind) :: rest => do
    let binder ← binder.add name .null (some kind)
    bindReserved binder rest

/-- The binder of a new evaluator. -/
def initialBinder (e : Evaluator) : Except Fault Binder := do
  let binder ← bindFields e.resolver .empty e.fields
  bindReserved binder reservedBindings

/-- The session of a new evaluator. -/
def start (e : Evaluator) (σ : Store) : Except Fault Session :=
  e.initialBinder.map fun binder => ⟨σ, binder, .empty, "", [], []⟩

/-! ## Requests and outcomes -/

/-- What a full run is asked to do.  A null relation stands for having the same item key. -/
structure Request where
  itemDisplay : Value
  itemKey : Value
  relation : Value
  evalKey : Value
  evalBasedKey : Value
  evalBasedDisplay : Value
  resultKey : Value
  obsKey : Value
  script : Value
  classes : Value
  subclasses : Value

/-- What a simplified run is asked to do.  A null result key stands for the one bound before. -/
structure SimpleRequest where
  itemKey : Value
  relation : Value
  script : Value
  classes : Value
  subclasses : Value
  resultKey : Value

/-- How a run ended. -/
inductive Outcome where
  | completed (report : String) (items : Nat)
  | failed (fault : Fault)
  deriving DecidableEq, Repr

/-- Whether a run was completed. -/
def Outcome.isSuccess : Outcome → Bool
  | completed _ _ => true
  | failed _ => false

/-- The report of a run, empty where it failed. -/
def Outcome.report : Outcome → String
  | completed report _ => report
  | failed _ => ""

/-- How many items were processed, none where the run failed. -/
def Outcome.items : Outcome → Nat
  | completed _ items => items
  | failed _ => 0

/-- The message of a full run that took the given time. -/
def Outcome.message (elapsed : String) : Outcome → String
  | completed _ _ => s!"RecordEval\nCompleted successfully in {elapsed} seconds"
  | failed fault => fault.message

/-- The status text of a simplified run. -/
def Outcome.status : Outcome → String
  | completed _ _ => "Success"
  | failed fault => fault.message

/-! ## Items -/

/-- Notes that a step begins. -/
def note (step : Step) (item : Record) (context : List Record) : Action Unit :=
  modify fun s =>
    let value (name : String) := ((s.binder.get? name).map Binding.value).getD .null
    let event : Event := ⟨step, item, context, s.store, value "$ctxI", value "$ctxC"⟩
    { s with journal := s.journal ++ [event] }

/-- Runs a prepared script with the current bindings. -/
def execute (job : Environment → Eval Unit) (classes subclasses : Value) : Action Unit := do
  let s ← get
  Action.ofEval (job (Environment.make s.store s.binder classes subclasses))

/-- Puts an item under the label of its result. -/
def classify (target : Target) (item : Record) : Action Unit := do
  let result ← Action.ofEval (target.read item.value)
  modify fun s =>
    { s with classification := s.classification.add (result.label s.store) item }

/-- What a run does for every item. -/
structure Plan where
  key : Selector
  relation : Value
  result : Target
  job : Environment → Eval Unit
  classes : Value
  subclasses : Value

/-- The key of a record. -/
def Plan.keyOf (p : Plan) (r : Record) : Eval Value := p.key.read r.value

/-- Whether a record is in the context of an item. -/
def Plan.relates (p : Plan) (r item : Record) : Eval Bool := related p.relation r.value item.value

/-- What is done for an item: its context, the hook before, the script, its label, and the hook
after. -/
def handleItem (e : Evaluator) (p : Plan) (records : List Record) (item : Record) :
    Action Unit := do
  let context ← Action.ofEval (contextOf p.relates item records)
  note .before item context
  e.before item context
  Action.bind "$ctxI" item.value
  Action.bind "$ctxC" (← Action.ofEval (Eval.newList (context.map Record.value)))
  note .execute item context
  execute p.job p.classes p.subclasses
  note .classify item context
  classify p.result item
  note .after item context
  e.after item context

/-- Processes an item, with tags of its own. -/
def processItem (e : Evaluator) (p : Plan) (records : List Record) (item : Record) :
    Action Unit := do
  let outer ← Action.ofEval (Eval.openItem item.position)
  handleItem e p records item
  Action.ofEval (Eval.resumeTags outer)

/-- Processes the items among some records.  The key of a record is read when its turn comes, so
what was written for the items before it counts. -/
def processFrom (e : Evaluator) (p : Plan) (records : List Record) (seen : SeenKeys)
    (count : Nat) : List Record → Action Nat
  | [] => return count
  | record :: rest => do
    match ← Action.ofEval (firstOfKey? p.keyOf seen record) with
    | some seen => do
      processItem e p records record
      processFrom e p records seen (count + 1) rest
    | none => processFrom e p records seen count rest

/-! ## Runs -/

/-- How many places a report has: more in a full run. -/
def reportPlaces (full : Bool) : Int := if full then 3 else 1

/-- The relation of a run, which begins here: the given one, or that of having the same key. -/
def relationOr (key : Selector) (relation : Value) : Eval Value := do
  Eval.openRun
  if relation.truthy (← get) then return relation
  else return .function (← Eval.freshTag) (.sameKey key)

/-- Binds the relation and the descriptions of labels. -/
def bindShared (relation classes subclasses : Value) : Action Unit := do
  Action.bind "$pkAll" relation
  Action.bind "$classes" (← Action.ofEval classes.copyMapping)
  Action.bind "$subclasses" (← Action.ofEval subclasses.copyMapping)

/-- Prepares a script, and keeps the programs that this leaves. -/
def prepare (e : Evaluator) (script : Value) : Action (Environment → Eval Unit) := do
  let (job, programs) ← Action.ofEval (e.engine script (← get).programs)
  modify fun s => { s with programs := programs }
  return job

/-- Prepares the script, counts the items, processes them and reports. -/
def finish (e : Evaluator) (records : List Record) (full : Bool) (key : Selector)
    (relation : Value) (result : Target) (script classes subclasses : Value) :
    Action (String × Nat) := do
  let job ← e.prepare script
  let plan : Plan := ⟨key, relation, result, job, classes, subclasses⟩
  let total ← Action.ofEval (countDistinct plan.keyOf records)
  let processed ← processFrom e plan records .empty 0 records
  let classification := (← get).classification
  let report ← Action.ofEval (classification.report (.int total) (reportPlaces full))
  modify fun s => { s with description := report }
  return (report, processed)

/-- Compiles an expression to a value that can be bound. -/
def compiled {α : Type} (e : Evaluator) (compile : Resolver → Store → Value → Except Fault α)
    (expression : Value) : Action α := do
  Action.ofEval (Eval.ofExcept (compile e.resolver (← get).store expression))

/-- Compiles an expression to a selector and binds it. -/
def bindCompiled (e : Evaluator) (name : String)
    (compile : Resolver → Store → Value → Except Fault Selector) (expression : Value) :
    Action Unit := do
  Action.bind name (.selector (← e.compiled compile expression))

/-- The steps of a full run. -/
def fullRun (e : Evaluator) (records : List Record) (request : Request) :
    Action (String × Nat) := do
  let key ← e.compiled Resolver.compileKey request.itemKey
  let result ← e.compiled Resolver.compileTarget request.resultKey
  let obs ← e.compiled Resolver.compileTarget request.obsKey
  e.bindCompiled "evalKey" Resolver.compile request.evalKey
  e.bindCompiled "evalKeyDisplayValue" Resolver.compileDisplay request.itemDisplay
  e.bindCompiled "evalBasedKey" Resolver.compile request.evalBasedKey
  e.bindCompiled "evalBasedKeyDisplayValue" Resolver.compileDisplay request.evalBasedDisplay
  Action.bind "itemKey" (.selector key)
  Action.bind "resultKey" result.toValue
  Action.bind "$result" result.toValue
  Action.bind "$obs" obs.toValue
  let relation ← Action.ofEval (relationOr key request.relation)
  bindShared relation request.classes request.subclasses
  finish e records true key relation result request.script request.classes request.subclasses

/-- Binds the result field that simplified runs use. -/
def bindResultKey (e : Evaluator) (expression : Value) : Action Target := do
  let target ← e.compiled Resolver.compileTarget expression
  Action.bind "resultKey" target.toValue
  return target

/-- The result field of a simplified run: the one asked for, or the one bound before. -/
def resultTarget (e : Evaluator) (expression : Value) : Action Target := do
  if !expression.isNull then e.bindResultKey expression
  else
    let v ← Action.bound "resultKey"
    if v.isNull then throw (.selector .unboundResultKey)
    else
      match Target.ofValue? v with
      | some target => return target
      | none => e.bindResultKey v

/-- The steps of a simplified run. -/
def simpleRun (e : Evaluator) (records : List Record) (request : SimpleRequest) :
    Action (String × Nat) := do
  let key ← e.compiled Resolver.compileKey request.itemKey
  let result ← e.resultTarget request.resultKey
  Action.bind "itemKey" (.selector key)
  Action.bind "$result" result.toValue
  let relation ← Action.ofEval (relationOr key request.relation)
  bindShared relation request.classes request.subclasses
  finish e records false key relation result request.script request.classes request.subclasses

/-- The outcome of the steps of a run, from an empty classification; a fault empties the
classification and the description. -/
def settle (steps : Action (String × Nat)) (s : Session) : Outcome × Session :=
  match steps { s with classification := .empty } with
  | .ok (report, items) s => (.completed report items, s)
  | .error fault s => (.failed fault, { s with classification := .empty, description := "" })

/-- A full run over the records. -/
def run (e : Evaluator) (records : List Record) (request : Request) (s : Session) :
    Outcome × Session :=
  settle (e.fullRun records request) s

/-- A simplified run over the records. -/
def runSimple (e : Evaluator) (records : List Record) (request : SimpleRequest) (s : Session) :
    Outcome × Session :=
  settle (e.simpleRun records request) s

end Evaluator

end Rubric
