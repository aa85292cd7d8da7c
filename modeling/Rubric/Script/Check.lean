import Rubric.Script.Builtin
import Rubric.Script.Parser

/-!
# Checking scripts

What can be said about a script before it runs: variables that are read before they are set or
never read, assignments to names that are bound to something else, names that stand for nothing,
empty blocks, and a result that is never assigned.
-/

namespace Rubric.Script

open Rubric.Text

/-! ## Findings -/

/-- How grave a finding is. -/
inductive Severity where
  | error | warning | info
  deriving DecidableEq, Repr

/-- The name of a severity. -/
def Severity.name : Severity → String
  | error => "error"
  | warning => "warning"
  | info => "info"

/-- What a finding is about. -/
inductive Category where
  | variableFlow | assignment | unknownName | form
  deriving DecidableEq, Repr

namespace Category

/-- The name of a category. -/
def name : Category → String
  | variableFlow => "variable_flow"
  | assignment => "assignment"
  | unknownName => "unknown_name"
  | form => "structure"

/-- All categories. -/
def all : List Category := [variableFlow, assignment, unknownName, form]

end Category

/-- The causes of findings. -/
inductive Issue where
  | usedBeforeDefinition (ident : String)
  | neverRead (ident : String)
  | readOnlyAssignment (ident : String)
  | readOnlyLoop (ident : String)
  | unknownFunction (name : String)
  | unknownName (name : String)
  | emptyBlock (label : BlockLabel)
  | resultNeverAssigned
  deriving DecidableEq, Repr

namespace Issue

/-- How grave an issue is. -/
def severity : Issue → Severity
  | usedBeforeDefinition _ => .warning
  | neverRead _ => .info
  | readOnlyAssignment _ | readOnlyLoop _ => .error
  | unknownFunction _ | unknownName _ => .error
  | emptyBlock _ => .info
  | resultNeverAssigned => .warning

/-- What an issue is about. -/
def category : Issue → Category
  | usedBeforeDefinition _ | neverRead _ => .variableFlow
  | readOnlyAssignment _ | readOnlyLoop _ => .assignment
  | unknownFunction _ | unknownName _ => .unknownName
  | emptyBlock _ | resultNeverAssigned => .form

/-- The wording of an issue. -/
def message : Issue → String
  | usedBeforeDefinition v => s!"Variable {v} used before definition"
  | neverRead v => s!"Variable {v} is set but never read"
  | readOnlyAssignment v => s!"Assignment to read-only binding {v}"
  | readOnlyLoop v => s!"Loop variable shadows read-only binding {v}"
  | unknownFunction f => s!"Unknown function {f}"
  | unknownName n => s!"Unknown name {n}"
  | emptyBlock label => s!"Empty {label.name} block"
  | resultNeverAssigned => "Script never assigns $result"

/-- What can be done about an issue; empty where there is nothing to say. -/
def suggestion : Issue → String
  | usedBeforeDefinition v => s!"Add SET {v} = ... before this point"
  | readOnlyAssignment _ | readOnlyLoop _ => "Use a new $name for script-local values"
  | unknownFunction _ =>
    "Builtins: " ++ join ", " (sorted (Builtin.all.map Builtin.name))
  | resultNeverAssigned => "Every item without a result lands in the '' bucket"
  | _ => ""

end Issue

/-- An issue and the line it is on, zero where it is on none. -/
structure Finding where
  line : Nat
  issue : Issue
  deriving DecidableEq, Repr

/-- The shown form of a finding. -/
def Finding.shown (f : Finding) : String :=
  let place := if f.line = 0 then "" else s!" (line {f.line})"
  let advice := if f.issue.suggestion.isEmpty then "" else s!" -> {f.issue.suggestion}"
  s!"[{f.issue.severity.name}] {f.issue.category.name}{place}: {f.issue.message}{advice}"

/-! ## Variable flow -/

/-- The variable that an expression reads itself, with its dollar sign. -/
def Expr.readVar? : Expr → Option String
  | .var ident => some ("$" ++ ident)
  | .call function _ => if isVariableName function then some function else none
  | _ => none

/-- The variable whose field a statement sets. -/
def Stmt.fieldOwner? : Stmt → Option String
  | .assign _ var (_ :: _) _ => some ("$" ++ var)
  | _ => none

/-- The variables that a statement reads outside its blocks. -/
def Stmt.reads (s : Stmt) : List String :=
  (Expr.walkAll s.expressions).filterMap Expr.readVar? ++ s.fieldOwner?.toList

/-- The variables that are neither defined nor known, in order of their names. -/
def undefinedAmong (known defined : List String) (names : List String) : List String :=
  sorted (names.eraseDups.filter fun n => !defined.contains n && !known.contains n)

/-- The findings of one statement on undefined variables, and the variables defined after it; a
variable is reported once. -/
def checkReads (known defined : List String) (s : Stmt) : List String × List Finding :=
  let missing := undefinedAmong known defined s.reads
  let found := missing.map fun v => ⟨s.line, .usedBeforeDefinition v⟩
  let assigned := s.assigned?.toList.filter fun v => !known.contains v
  (assigned ++ missing ++ defined, found)

/-- The findings on undefined variables of statements listed in the order of the text. -/
def checkFlow (known defined : List String) : List Stmt → List Finding
  | [] => []
  | s :: ss =>
    let (defined, found) := checkReads known defined s
    found ++ checkFlow known defined ss

/-- The variables that are set, each with the line of the first time. -/
def firstDefinitions (known : List String) (seen : List String) : List Stmt → List (String × Nat)
  | [] => []
  | s :: ss =>
    match s.assigned? with
    | some v =>
      if known.contains v || seen.contains v then firstDefinitions known seen ss
      else (v, s.line) :: firstDefinitions known (v :: seen) ss
    | none => firstDefinitions known seen ss

/-- The findings on variables that are set and never read. -/
def checkUnread (known : List String) (statements : List Stmt) : List Finding :=
  let reads := statements.flatMap Stmt.reads
  (firstDefinitions known [] statements).filterMap fun d =>
    if reads.contains d.1 then none else some ⟨d.2, .neverRead d.1⟩

/-! ## Assignments, names and structure -/

/-- The findings on an assignment to a name that is bound to something other than a field. -/
def checkAssignment (known targets : List String) (s : Stmt) : List Finding :=
  match s.assigned? with
  | none => []
  | some v =>
    if known.contains v && !targets.contains v then
      match s with
      | .foreach line _ _ _ => [⟨line, .readOnlyLoop v⟩]
      | s => [⟨s.line, .readOnlyAssignment v⟩]
    else []

/-- The issue of a name or a call in an expression that stands for nothing known. -/
def Expr.nameIssue? (known : List String) : Expr → Option Issue
  | .call function _ =>
    if isVariableName function || known.contains function ||
        (Builtin.ofName? function).isSome then none
    else some (.unknownFunction function)
  | .name ident => if known.contains ident then none else some (.unknownName ident)
  | _ => none

/-- The findings on names and calls of a statement outside its blocks. -/
def checkNames (known : List String) (s : Stmt) : List Finding :=
  (Expr.walkAll s.expressions).filterMap fun e =>
    (e.nameIssue? known).map fun issue => ⟨s.line, issue⟩

/-- The finding on an empty block. -/
def emptyBlock (line : Nat) (label : BlockLabel) (body : List Stmt) : List Finding :=
  if body.isEmpty then [⟨line, .emptyBlock label⟩] else []

mutual

/-- The findings on empty blocks of a statement, each before those inside the next. -/
def Stmt.emptyBlocks : Stmt → List Finding
  | .branch line _ body rest =>
    emptyBlock line .ifThen body ++ Stmt.allEmptyBlocks body ++ rest.emptyBlocks line
  | .foreach line _ _ body => emptyBlock line .foreach body ++ Stmt.allEmptyBlocks body
  | _ => []

/-- The findings on empty blocks of alternatives. -/
def Alternatives.emptyBlocks (line : Nat) : Alternatives → List Finding
  | .done => []
  | .otherwise body => emptyBlock line .ifElse body ++ Stmt.allEmptyBlocks body
  | .elif _ body rest =>
    emptyBlock line .elif body ++ Stmt.allEmptyBlocks body ++ rest.emptyBlocks line

/-- The findings on empty blocks of statements. -/
def Stmt.allEmptyBlocks : List Stmt → List Finding
  | [] => []
  | s :: ss => s.emptyBlocks ++ Stmt.allEmptyBlocks ss

end

/-- The findings on a script that has a result and never assigns it. -/
def checkResult (targets : List String) (p : Program) : List Finding :=
  if targets.contains "$result" && !p.assignedVariables.contains "$result" then
    [⟨0, .resultNeverAssigned⟩]
  else []

/-! ## Reports -/

/-- The findings on a script, in order. -/
structure CheckReport where
  findings : List Finding
  deriving DecidableEq, Repr

namespace CheckReport

/-- How many findings are of a severity. -/
def count (r : CheckReport) (severity : Severity) : Nat :=
  r.findings.countP fun f => f.issue.severity == severity

/-- Whether there is a finding of the gravest kind. -/
def hasErrors (r : CheckReport) : Bool := r.count .error != 0

/-- The findings about a category. -/
def inCategory (r : CheckReport) (category : Category) : List Finding :=
  r.findings.filter fun f => f.issue.category == category

/-- The numbers of findings. -/
def summary (r : CheckReport) : String :=
  s!"CheckReport: {r.count .error} errors, {r.count .warning} warnings, {r.count .info} info"

end CheckReport

/-- The fields that a run writes, where nothing else is said. -/
def defaultTargets : List String := ["$result", "$obs"]

/-- Checks a script against the bound names and those of them that are fields.  Without bound
names nothing is said about bare names. -/
def check (p : Program) (known targets : List String) : CheckReport :=
  let all := p.allStatements
  let names := if known.isEmpty then [] else all.flatMap (checkNames known)
  ⟨checkFlow known [] all ++ checkUnread known all ++
    all.flatMap (checkAssignment known targets) ++ names ++
    Stmt.allEmptyBlocks p.statements ++ checkResult targets p⟩

end Rubric.Script
