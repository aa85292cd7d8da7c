import Rubric.Command

/-!
# The program

Runs one of the three command lines on real files: `lint`, `check`, or `evaluate`, which is meant
where none is named.  Configurations are read as JSON.
-/

namespace Rubric.Command

/-- What is at a path, if anything. -/
def readEntry (path : String) : IO (Option FileEntry) := do
  try
    let bytes ← IO.FS.readBinFile path
    match String.fromUTF8? bytes with
    | some content => return some (.text content)
    | none => throw (IO.userError s!"{path}: not a text in UTF-8")
  catch
    | .userError message => throw (.userError message)
    | .noFileOrDirectory .. => return none
    | _ => return some .directory

/-- The table with what is at some paths. -/
def readEntries (files : Files) (paths : List String) : IO Files := do
  let found ← paths.filterMapM fun path => do
    return (← readEntry path).map fun entry => (pathFrom files.current path, entry)
  return { files with entries := found ++ files.entries }

/-- The files that the evaluating program may look at. -/
def readNamed (files : Files) (args : List String) : IO Files := do
  match readArguments args with
  | .options o =>
    let named ← readEntries files o.paths
    match profileScript? named o with
    | some path => if named.has path then return named else readEntries named [path]
    | none => return named
  | _ => return files

/-- A time in seconds, with three places. -/
def secondsText (milliseconds : Nat) : String :=
  s!"{milliseconds / 1000}." ++
    String.ofList (Text.padLeft 3 '0' (Number.digitsOf (milliseconds % 1000)))

/-- Carries out a program and tells how long it took. -/
def timed (program : Unit → Result) : IO (Result × String) := do
  let start ← IO.monoMsNow
  let result ← IO.lazyPure program
  return (result, secondsText ((← IO.monoMsNow) - start))

/-- Prints what a program gives; the exit code is that of the program. -/
def Result.print (result : Result) (elapsed : String) : IO UInt32 := do
  IO.print (result.stdout elapsed)
  IO.eprint result.stderr
  match result.ending with
  | .ok code => return code.toUInt32
  | .error fault =>
    IO.eprintln s!"{fault.kind.name}: {fault.message}"
    return 1

/-- The files that come with the program, seen from the current directory. -/
def installedFiles : IO Files := do
  let current := (← IO.currentDir).toString
  return ⟨current, current, Shipped.entries current⟩

/-- The command line that the first argument names. -/
def choose (args : List String) : IO (Unit → Result) := do
  let installed ← installedFiles
  match args with
  | "lint" :: rest => do
    let files ← readEntries installed (rest.take 1)
    let stdin ← if rest.isEmpty then (← IO.getStdin).readToEnd else pure ""
    return fun _ => linter files rest (Files.plainLines stdin)
  | "check" :: rest => do
    let files ← readEntries installed (rest.take 1)
    return fun _ => checker files rest
  | "evaluate" :: rest | rest => do
    let files ← readNamed installed rest
    return fun _ => evaluator files rest

end Rubric.Command

/-- Runs the command line. -/
def main (args : List String) : IO UInt32 := do
  let (result, elapsed) ← Rubric.Command.timed (← Rubric.Command.choose args)
  result.print elapsed
