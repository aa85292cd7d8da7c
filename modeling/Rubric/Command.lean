import Rubric.Command.Arguments
import Rubric.Profile.Shipped
import Rubric.Script.Check

/-!
# Command lines

The three programs: evaluating a data file with a profile, repairing a script, and checking a
script.  Each maps its arguments and the files to what it prints and how it ends.
-/

namespace Rubric.Command

open Rubric.Number Rubric.Script Rubric.Text

/-! ## Results -/

/-- How a program ends: with an exit code, or with a fault that it does not handle. -/
abbrev Ending := Except Fault Nat

/-- What a program prints and how it ends.  Output may tell the time that a run took. -/
structure Result where
  stdout : String → String
  stderr : String
  ending : Ending

/-- A program that prints some lines and exits. -/
def printing (lines : List String) (code : Nat) : Result :=
  ⟨fun _ => String.join (lines.map (· ++ "\n")), "", .ok code⟩

/-- A program that reports an error and exits. -/
def erroring (message : String) : Result := printing [s!"Error: {message}"] 1

/-- A program that stops with a fault before it prints anything. -/
def escaping (fault : Fault) : Result := ⟨fun _ => "", "", .error fault⟩

/-! ## Repairing scripts -/

/-- The confidence of a repair, with two places. -/
def confidenceText (percent : Nat) : String :=
  s!"{percent / 100}." ++ String.ofList (padLeft 2 '0' (digitsOf (percent % 100)))

/-- What a repair replaced, as a line of a report. -/
def repairText (r : Repair) : String :=
  s!"L{r.line} [{r.kind.name}] {quoted r.replaced} -> {quoted r.replacement}"

/-- The report on some repairs; nothing for none. -/
def repairReport (repairs : List Repair) : String :=
  if repairs.isEmpty then ""
  else
    s!"\n--- {repairs.length} repairs made ---\n" ++
      String.join (repairs.map fun r =>
        s!"  {repairText r} (confidence={confidenceText r.kind.confidence})\n")

/-- Repairs a script: the first argument names its file, else it is the standard input. -/
def linter (files : Files) (args : List String) (stdin : String) : Result :=
  let text : Except Fault String :=
    match args with
    | [] => .ok stdin
    | path :: _ => files.readText path
  match text with
  | .error fault => escaping fault
  | .ok text =>
    let result := lint text true
    ⟨fun _ => result.text, repairReport result.changes, .ok 0⟩

/-! ## Checking scripts -/

/-- The lines of a report's findings. -/
def findingLines (report : CheckReport) : List String :=
  report.findings.map fun f => "  " ++ f.shown

/-- The exit code of a check. -/
def checkCode (report : CheckReport) : Nat := if report.hasErrors then 1 else 0

/-- Checks the script in the file that the first argument names. -/
def checker (files : Files) (args : List String) : Result :=
  match args with
  | [] => printing ["Usage: python script_checks.py <script_file>"] 1
  | arg :: _ =>
    let path := cleanPath arg
    if !files.has path then erroring s!"File not found: {path}"
    else
      let program : Except Fault Program := do
        let text ← files.readText path
        parse (lint text false).text
      match program with
      | .error fault => escaping fault
      | .ok p =>
        let report := check p [] defaultTargets
        printing (report.summary :: findingLines report) (checkCode report)

/-- Checks a script on behalf of the evaluating program, which tells the repairs too. -/
def checkScript (files : Files) (path : String) : Result :=
  if !files.has path then erroring s!"File not found: {path}"
  else
    match files.readText path with
    | .error fault => escaping fault
    | .ok text =>
      let repaired := lint text false
      let repairs := repaired.changes.map fun r => "  lint " ++ repairText r
      match parse repaired.text with
      | .error fault => printing (repairs ++ [s!"Error: {fault.message}"]) 1
      | .ok p =>
        let report := check p [] defaultTargets
        let summary := s!"{p.statementCount} statements, {report.summary}"
        printing (repairs ++ summary :: findingLines report) (checkCode report)

/-! ## Evaluating data -/

/-- A given text; an empty one counts as not given. -/
def given (text : Option String) : Option String := text.filter fun s => !s.isEmpty

/-- The profiles of the configuration at a path, or of the one that comes with the program. -/
def loadConfig (files : Files) (config : Option String) : Eval ProfileConfig := do
  let path := ((given config).map cleanPath).getD (Shipped.configPath files.root)
  if !files.has path then throw (.file (.configMissing path))
  else
    let raw ← files.readData path
    Eval.ofExcept (readConfig (← get) path raw)

/-- The profile of a name in a configuration. -/
def loadProfile (files : Files) (config : Option String) (name : Value) : Eval RunProfile := do
  let profiles ← loadConfig files config
  Eval.ofExcept (profiles.get (← get) name)

/-- The path of the script file of the profile that the options name, if it has one. -/
def profileScript? (files : Files) (o : Options) : Option String :=
  let find : Eval (Option String) := do
    let profile ← loadProfile files o.config ((o.profile.map Value.str).getD .null)
    Eval.ofExcept (profile.resolvedScriptPath files (← get))
  match find .empty with
  | .ok path _ => path
  | .error _ _ => none

/-- The records in a data file. -/
def loadRecords (files : Files) (path : String) : Eval (List Value) := do
  match ← files.readData path with
  | .list _ records => return records
  | _ => throw (.file (.notAList path))

/-- The script in a file, null where none is given. -/
def loadScript (files : Files) (path : Option String) : Except Fault Value :=
  match given path with
  | some path => (files.readText (cleanPath path)).map .str
  | none => .ok .null

/-- An evaluator for mapping records without hooks. -/
def mappingEvaluator (σ : Store) (records : List Value) : Except Fault Evaluator := do
  let resolver ← Resolver.ofShape (← RecordShape.ofSamples σ records)
  return ⟨resolver, scriptEngine, Hook.none, Hook.none⟩

/-- A run that was carried out: its variant, its outcome, the records and the final session. -/
structure Evaluation where
  mode : RunMode
  outcome : Evaluator.Outcome
  records : List Value
  session : Session

/-- Loads what the options name and runs it. -/
def carryOut (files : Files) (o : Options) (dataPath : String) (σ : Store) :
    Except Fault Evaluation := do
  let load : Eval (RunProfile × List Value × Value) := do
    let name := (o.profile.map Value.str).getD .null
    let profile ← loadProfile files o.config name
    let records ← loadRecords files dataPath
    let script ← Eval.ofExcept (loadScript files o.script)
    return (if o.simple then { profile with mode := .simple } else profile, records, script)
  match load σ with
  | .error fault _ => .error fault
  | .ok (profile, records, script) σ => do
    let evaluator ← mappingEvaluator σ records
    let session ← evaluator.start σ
    match profile.execute files evaluator (Record.numbered records) script session with
    | .error fault _ => .error fault
    | .ok outcome session => return ⟨profile.mode, outcome, records, session⟩

/-- Faults that the evaluating program reports as errors; others it does not handle. -/
def isReported (fault : Fault) : Bool :=
  match fault.kind with
  | .typeError | .attributeError | .indexError | .nameError | .zeroDivisionError
  | .overflowError | .runtimeError | .recursionError | .memoryError
  | .frozenInstanceError => false
  | _ => true

/-- The message of a run. -/
def Evaluation.message (e : Evaluation) (elapsed : String) : String :=
  match e.mode with
  | .full => e.outcome.message elapsed
  | .simple => e.outcome.status

/-- What the evaluating program prints about a run. -/
def Evaluation.present (e : Evaluation) (dump : Bool) : Result :=
  let report (elapsed : String) := e.message elapsed ++ "\n" ++ e.session.description
  match e.outcome with
  | .failed fault => erroring fault.message
  | .completed _ _ =>
    if dump then
      let records := Value.list default e.records
      match Json.write e.session.store records with
      | .ok text => ⟨fun elapsed => report elapsed ++ text ++ "\n", "", .ok 0⟩
      | .error fault => ⟨report, "", .error fault⟩
    else ⟨report, "", .ok 0⟩

/-- Evaluates the data file that the options name. -/
def evaluateData (files : Files) (o : Options) (data : String) : Result :=
  let path := cleanPath data
  if !files.has path then erroring s!"File not found: {path}"
  else
    match carryOut files o path .empty with
    | .ok evaluation => evaluation.present o.dump
    | .error fault => if isReported fault then erroring fault.message else escaping fault

/-- The evaluating program. -/
def evaluator (files : Files) (args : List String) : Result :=
  match readArguments args with
  | .misused => ⟨fun _ => "", usage, .ok 2⟩
  | .help => ⟨fun _ => helpText, "", .ok 0⟩
  | .options o =>
    match given o.check with
    | some path => checkScript files (cleanPath path)
    | none =>
      match given o.data with
      | some data => evaluateData files o data
      | none => ⟨fun _ => usage, "", .ok 1⟩

end Rubric.Command
