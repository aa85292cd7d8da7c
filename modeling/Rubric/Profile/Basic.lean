import Rubric.Evaluator
import Rubric.Files

/-!
# Run profiles

A profile names everything that a run needs: the selector expressions, the descriptions of labels,
and the script or the file that holds it.  Profiles are read from a configuration, which is checked
profile by profile; the first thing that is wrong is reported.
-/

namespace Rubric

open Rubric.Text

/-! ## Profiles -/

/-- The variants of runs. -/
inductive RunMode where
  | full | simple
  deriving DecidableEq, Repr

/-- The name of a variant. -/
def RunMode.name : RunMode → String
  | full => "full"
  | simple => "simple"

/-- A configured run.  Null stands for what is not given. -/
structure RunProfile where
  name : Value
  itemKey : Value
  script : Value
  scriptPath : Value
  mode : RunMode
  itemDisplay : Value
  /-- The attributes in which related records agree; none means those of the item key. -/
  equivalence : List String
  evalKey : Value
  evalBasedKey : Value
  evalBasedDisplay : Value
  resultKey : Value
  obsKey : Value
  classes : List (String × String)
  subclasses : List (String × String)

/-- The profiles of a configuration by name, and the name of the one used by default. -/
structure ProfileConfig where
  profiles : List (Value × RunProfile)
  default : Value

/-! ## Reading profiles -/

/-- The value of an option, if it is given. -/
def option? (σ : Store) (options : List (Value × Value)) (name : String) :
    Except Fault (Option Value) :=
  Value.lookup σ (.str name) options

/-- The value of an option, null where it is not given. -/
def optionValue (σ : Store) (options : List (Value × Value)) (name : String) :
    Except Fault Value :=
  (option? σ options name).map fun found => found.getD .null

/-- The variant of runs that a value names. -/
def readMode (σ : Store) (name : String) : Value → Except Fault RunMode
  | .str "full" => .ok .full
  | .str "simple" => .ok .simple
  | v => .error (.profile (.unknownMode name (v.text σ)))

/-- The options that a full run cannot do without. -/
def requiredOptions : List String := ["result_key", "obs_key", "eval_key", "eval_based_key"]

/-- The names among some that are not given, or null. -/
def missingOptions (σ : Store) (options : List (Value × Value)) (names : List String) :
    Except Fault (List String) :=
  names.filterM fun name => (optionValue σ options name).map Value.isNull

/-- Refuses full runs that lack an option. -/
def checkComplete (σ : Store) (name : String) (options : List (Value × Value)) :
    RunMode → Except Fault Unit
  | .simple => .ok ()
  | .full => do
    match ← missingOptions σ options requiredOptions with
    | [] => return ()
    | missing => .error (.profile (.missingFields name missing))

/-- The attributes that a value names: one, or several. -/
def readEquivalence (σ : Store) (v : Value) : Except Fault (List String) :=
  if !v.truthy σ then .ok []
  else
    match v with
    | .str s => .ok [s]
    | v => (v.items σ).map fun items => items.map (Value.text σ)

/-- Descriptions with one more; a label met again keeps its place. -/
def noteDescription (σ : Store) (table : List (String × String)) (entry : Value × Value) :
    List (String × String) :=
  Value.setNamed (entry.1.text σ) (entry.2.text σ) table

/-- The descriptions of labels that a value gives. -/
def readDescriptions (σ : Store) (v : Value) : Except Fault (List (String × String)) :=
  if !v.truthy σ then .ok []
  else
    match v with
    | .mapping address => .ok ((σ.entries address).foldl (noteDescription σ) [])
    | v => .error (.access (.noAttribute (v.typeName σ) "items"))

/-- The options of a profile. -/
def profileOptions (σ : Store) (path name : String) :
    Value → Except Fault (List (Value × Value))
  | .mapping address => .ok (σ.entries address)
  | _ => .error (.profile (.notAMapping name path))

/-- The profile of a name in a configuration. -/
def readProfile (σ : Store) (path : String) (key : Value) (data : Value) :
    Except Fault RunProfile := do
  let name := key.text σ
  let options ← profileOptions σ path name data
  let value := optionValue σ options
  match ← option? σ options "item_key" with
  | none => .error (.profile (.missingItemKey name path))
  | some itemKey => do
    let mode ← readMode σ name ((← option? σ options "mode").getD (.str "full"))
    checkComplete σ name options mode
    let script ← value "script"
    let scriptPath ← value "script_path"
    if script.isNull && scriptPath.isNull then .error (.profile (.missingScript name))
    else
      return {
        name := key
        itemKey := itemKey
        script := script
        scriptPath := scriptPath
        mode := mode
        itemDisplay := ← value "item_display"
        equivalence := ← readEquivalence σ (← value "equivalence")
        evalKey := ← value "eval_key"
        evalBasedKey := ← value "eval_based_key"
        evalBasedDisplay := ← value "eval_based_display"
        resultKey := ← value "result_key"
        obsKey := ← value "obs_key"
        classes := ← readDescriptions σ (← value "classes")
        subclasses := ← readDescriptions σ (← value "subclasses") }

/-- The entries of a configuration's profiles. -/
def profileEntries (σ : Store) (path : String) (raw : Value) :
    Except Fault (List (Value × Value) × List (Value × Value)) := do
  let malformed : Fault := .profile (.missingProfiles path)
  match raw with
  | .mapping address =>
    match ← optionValue σ (σ.entries address) "profiles" with
    | .mapping profiles => return (σ.entries address, σ.entries profiles)
    | _ => .error malformed
  | _ => .error malformed

/-- The shown form of the names of profiles. -/
def shownNames (σ : Store) (profiles : List (Value × RunProfile)) : String :=
  (Value.list default (profiles.map Prod.fst)).shown σ

/-- The profiles of a configuration that was read from a path. -/
def readConfig (σ : Store) (path : String) (raw : Value) : Except Fault ProfileConfig := do
  let (settings, entries) ← profileEntries σ path raw
  let profiles ← entries.mapM fun entry =>
    (readProfile σ path entry.1 entry.2).map fun profile => (entry.1, profile)
  match profiles with
  | [] => .error (.profile (.noProfiles path))
  | first :: _ => do
    let default := (← option? σ settings "default_profile").getD first.1
    default.requireHashable σ
    if (← Value.lookup σ default entries).isNone then
      .error (.profile (.unknownDefault (default.text σ) (shownNames σ profiles)))
    else return ⟨profiles, default⟩

namespace ProfileConfig

/-- The profile of a name, by identity or equality of names. -/
def find? (σ : Store) (name : Value) : List (Value × RunProfile) →
    Except Fault (Option RunProfile)
  | [] => .ok none
  | (key, profile) :: rest => do
    if ← key.found σ name then return some profile else find? σ name rest

/-- The profile of a name; names that count as false stand for the default. -/
def get (σ : Store) (config : ProfileConfig) (name : Value) : Except Fault RunProfile := do
  let wanted := if name.truthy σ then name else config.default
  wanted.requireHashable σ
  match ← find? σ wanted config.profiles with
  | some profile => return profile
  | none =>
    .error (.unknownProfile
      s!"Profile '{wanted.text σ}' not found. Available: {shownNames σ config.profiles}")

end ProfileConfig

/-! ## Scripts of profiles -/

namespace RunProfile

/-- The path of the script file: relative ones start from the directory of the program. -/
def resolvedScriptPath (files : Files) (σ : Store) (p : RunProfile) :
    Except Fault (Option String) :=
  match p.scriptPath with
  | .null => .ok none
  | .str path => .ok (some (pathFrom files.root path))
  | v => .error (.type (.pathText (v.typeName σ)))

/-- The script: the one given, or the text of its file. -/
def loadScript (files : Files) (σ : Store) (p : RunProfile) : Except Fault Value := do
  if !p.script.isNull then return p.script
  else
    let name := p.name.text σ
    match ← p.resolvedScriptPath files σ with
    | none => .error (.profile (.noScript name))
    | some path =>
      if files.has path then return .str (← files.readText path)
      else .error (.file (.scriptMissing name path))

/-- The relation of records that agree in the attributes of the profile, null where it names
none. -/
def relation (p : RunProfile) (resolver : Resolver) : Eval Value := do
  if p.equivalence.isEmpty then return .null
  else
    let expression := Value.list (← Eval.freshTag) (p.equivalence.map Value.str)
    let key ← Eval.ofExcept (resolver.compileKey (← get) expression)
    return .function (← Eval.freshTag) (.sameKey key)

/-- Descriptions of labels as a mapping. -/
def descriptionTable (table : List (String × String)) : Eval Value :=
  Eval.newMapping (table.map fun entry => (.str entry.1, .str entry.2))

/-- A value, or another where it is null. -/
def orElse (v other : Value) : Value := if v.isNull then other else v

/-- The full run that a profile asks for. -/
def request (p : RunProfile) (script relation classes subclasses : Value) :
    Evaluator.Request where
  itemDisplay := orElse p.itemDisplay p.itemKey
  itemKey := p.itemKey
  relation := relation
  evalKey := p.evalKey
  evalBasedKey := p.evalBasedKey
  evalBasedDisplay := orElse p.evalBasedDisplay p.evalBasedKey
  resultKey := p.resultKey
  obsKey := p.obsKey
  script := script
  classes := classes
  subclasses := subclasses

/-- The simplified run that a profile asks for. -/
def simpleRequest (p : RunProfile) (script relation classes subclasses : Value) :
    Evaluator.SimpleRequest where
  itemKey := p.itemKey
  relation := relation
  script := script
  classes := classes
  subclasses := subclasses
  resultKey := p.resultKey

/-- Runs a profile over records; a script that is not null replaces that of the profile. -/
def execute (p : RunProfile) (files : Files) (e : Evaluator) (records : List Record)
    (script : Value) : Action Evaluator.Outcome := do
  let text ← Action.ofEval do
    if script.isNull then Eval.ofExcept (p.loadScript files (← get)) else return script
  let relation ← Action.ofEval (p.relation e.resolver)
  let classes ← Action.ofEval (descriptionTable p.classes)
  let subclasses ← Action.ofEval (descriptionTable p.subclasses)
  modifyGet fun s =>
    match p.mode with
    | .full => e.run records (p.request text relation classes subclasses) s
    | .simple => e.runSimple records (p.simpleRequest text relation classes subclasses) s

end RunProfile

end Rubric
