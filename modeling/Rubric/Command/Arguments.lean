import Rubric.Text.Basic

/-!
# Arguments

How the evaluating program reads its command line.  Arguments are first told apart by their form:
plain texts, options (whose names may be cut short as long as they stay unique), and the mark
after which all arguments are plain.  The forms are then read in order.
-/

namespace Rubric.Command

open Rubric.Text

/-! ## Options -/

/-- What the arguments of the evaluating program ask for. -/
structure Options where
  data : Option String
  profile : Option String
  config : Option String
  script : Option String
  simple : Bool
  dump : Bool
  check : Option String
  deriving DecidableEq, Repr, Inhabited

/-- No options. -/
def Options.none : Options := ⟨.none, .none, .none, .none, false, false, .none⟩

/-- The options by name. -/
inductive OptionName where
  | help | profile | config | script | simple | dump | check | verbose
  deriving DecidableEq, Repr

namespace OptionName

/-- All options. -/
def all : List OptionName := [help, profile, config, script, simple, dump, check, verbose]

/-- The text of an option. -/
def text : OptionName → String
  | help => "--help"
  | profile => "--profile"
  | config => "--config"
  | script => "--script"
  | simple => "--simple"
  | dump => "--dump"
  | check => "--check"
  | verbose => "--verbose"

/-- The option of a letter. -/
def ofLetter? : Char → Option OptionName
  | 'h' => some help
  | 'v' => some verbose
  | _ => none

/-- Whether a value follows an option. -/
def takesValue : OptionName → Bool
  | profile | config | script | check => true
  | help | simple | dump | verbose => false

/-- The options whose text starts with a text. -/
def startingWith (beginning : String) : List OptionName :=
  all.filter fun o => beginning.toList.isPrefixOf o.text.toList

end OptionName

/-- The options with a value given, or a switch set. -/
def Options.with (o : Options) (name : OptionName) (value : String) : Options :=
  match name with
  | .profile => { o with profile := some value }
  | .config => { o with config := some value }
  | .script => { o with script := some value }
  | .simple => { o with simple := true }
  | .dump => { o with dump := true }
  | .check => { o with check := some value }
  | .help | .verbose => o

/-- The files that the options name. -/
def Options.paths (o : Options) : List String :=
  [o.data, o.config, o.script, o.check].filterMap id

/-! ## Forms of arguments -/

/-- An argument by its form. -/
inductive Argument where
  | plain (text : String)
  | option (name : OptionName) (value : Option String)
  | letters (names : List OptionName)
  /-- The mark after which all arguments are plain. -/
  | mark
  | unknown
  deriving DecidableEq, Repr

/-- Whether a text is a negative number: digits, or a point before digits. -/
def isNegativeNumber (s : String) : Bool :=
  match s.toList with
  | '-' :: rest =>
    match rest.dropWhile Char.isDigit with
    | [] => !rest.isEmpty
    | '.' :: fraction => !fraction.isEmpty && fraction.all Char.isDigit
    | _ => false
  | _ => false

/-- The name and the value of an argument that holds both. -/
def splitArgument (arg : String) : String × Option String :=
  match splitOn '=' arg.toList with
  | name :: part :: parts =>
    (String.ofList name, some (String.ofList (joinWith ['='] (part :: parts))))
  | _ => (arg, none)

/-- The form of an argument that names no option. -/
def unnamedForm (arg : String) : Argument :=
  if isNegativeNumber arg || arg.toList.contains ' ' then .plain arg else .unknown

/-- The form of an argument with a long option; `none` where several options fit. -/
def longForm (arg : String) : Option Argument :=
  let (name, value) := splitArgument arg
  match OptionName.all.find? fun o => o.text == name with
  | some o => some (.option o value)
  | none =>
    match OptionName.startingWith name with
    | [] => some (unnamedForm arg)
    | [o] => some (.option o value)
    | _ => none

/-- The form of an argument with options of one letter. -/
def letterForm (arg : String) : Argument :=
  match (arg.toList.drop 1).map OptionName.ofLetter? with
  | none :: _ => unnamedForm arg
  | letters => if letters.all Option.isSome then .letters (letters.filterMap id) else .unknown

/-- The form of an argument; `none` where it is ambiguous. -/
def Argument.ofText (arg : String) : Option Argument :=
  if arg = "--" then some .mark
  else if arg.startsWith "--" then longForm arg
  else if arg.startsWith "-" && arg != "-" then some (letterForm arg)
  else some (.plain arg)

/-- The forms of arguments; `none` where one is ambiguous. -/
def forms : List String → Option (List Argument)
  | [] => some []
  | arg :: rest =>
    match Argument.ofText arg with
    | none => none
    | some .mark => some (.mark :: rest.map .plain)
    | some form => (forms rest).map (form :: ·)

/-! ## Reading -/

/-- What a command line comes to. -/
inductive Reading where
  | options (o : Options)
  | help
  | misused
  deriving DecidableEq, Repr

/-- A reading in which something was found that does not fit: only the wish for help is heard. -/
def Reading.spoiled : Reading → Reading
  | .help => .help
  | _ => .misused

/-- Reads the forms of arguments in order. -/
def readForms (o : Options) : List Argument → Reading
  | [] => .options o
  | .mark :: rest => readForms o rest
  | .plain text :: rest =>
    if o.data.isSome then (readForms o rest).spoiled
    else readForms { o with data := some text } rest
  | .option name (some value) :: rest =>
    if name.takesValue then readForms (o.with name value) rest else .misused
  | .option name none :: .plain value :: rest =>
    if name.takesValue then readForms (o.with name value) rest
    else if name = .help then .help
    else readForms (o.with name "") (.plain value :: rest)
  | .option name none :: rest =>
    if name.takesValue then .misused
    else if name = .help then .help
    else readForms (o.with name "") rest
  | .letters names :: rest => if names.contains .help then .help else readForms o rest
  | .unknown :: rest => (readForms o rest).spoiled

/-- Reads a command line. -/
def readArguments (args : List String) : Reading :=
  match forms args with
  | some found => readForms .none found
  | none => .misused

/-! ## Texts -/

/-- How the evaluating program is used. -/
def usage : String :=
  "usage: recordeval [-h] [--profile PROFILE] [--config CONFIG] [--script SCRIPT]\n" ++
  "                  [--simple] [--dump] [--check FILE] [--verbose]\n" ++
  "                  [data]\n"

/-- What the evaluating program tells those who ask for help. -/
def helpText : String :=
  usage ++
  "\nRecordEval: classify a dataset with an evaluation script\n" ++
  "\npositional arguments:\n" ++
  "  data               JSON file holding a list of records\n" ++
  "\noptions:\n" ++
  "  -h, --help         show this help message and exit\n" ++
  "  --profile PROFILE  Run profile name\n" ++
  "  --config CONFIG    Run profile YAML config\n" ++
  "  --script SCRIPT    Script file overriding the profile's\n" ++
  "  --simple           Use the simplified run variant\n" ++
  "  --dump             Print evaluated records as JSON\n" ++
  "  --check FILE       Check a script and exit\n" ++
  "  --verbose, -v      Debug logging\n"

end Rubric.Command
