import Rubric.Document.Json

/-!
# Files

Paths, and a table of the files that a program can see.  Texts are read with every line end as a
line feed.
-/

namespace Rubric

open Rubric.Text

/-! ## Paths -/

/-- Whether a path starts at the root. -/
def isAbsolute (path : String) : Bool := path.startsWith "/"

/-- The start of an absolute path: one slash, but exactly two are kept. -/
def pathRoot (path : String) : String :=
  match (path.toList.takeWhile (· == '/')).length with
  | 0 => ""
  | 2 => "//"
  | _ => "/"

/-- The names in a path, without empty ones and those that stay in place. -/
def pathParts (path : String) : List String :=
  ((splitOn '/' path.toList).map String.ofList).filter fun p => !p.isEmpty && p != "."

/-- A path without repeated slashes and names that stay in place. -/
def cleanPath (path : String) : String :=
  let clean := pathRoot path ++ join "/" (pathParts path)
  if clean.isEmpty then "." else clean

/-- A path as seen from a directory. -/
def pathFrom (directory path : String) : String :=
  if isAbsolute path then cleanPath path else cleanPath (directory ++ "/" ++ path)

/-- The names in a path, each step back taken. -/
def resolvedParts (path : String) : List String :=
  (pathParts path).foldl (fun parts p => if p = ".." then parts.dropLast else parts ++ [p]) []

/-! ## The file table -/

/-- What is at a path. -/
inductive FileEntry where
  | text (content : String)
  /-- A file of structured data. -/
  | data (document : Eval Value)
  | directory

/-- The files that a program can see. -/
structure Files where
  /-- The directory that relative paths start from. -/
  current : String
  /-- The directory that the program is installed in. -/
  root : String
  entries : List (String × FileEntry)

namespace Files

/-- What is at a path, if anything. -/
def entry? (files : Files) (path : String) : Option FileEntry :=
  let wanted := resolvedParts (pathFrom files.current path)
  let isAt (entry : String × FileEntry) := resolvedParts entry.1 == wanted
  let isIn (entry : String × FileEntry) :=
    wanted.isPrefixOf (resolvedParts entry.1)
  match files.entries.find? isAt with
  | some entry => some entry.2
  | none =>
    if files.entries.any isIn || wanted.isPrefixOf (resolvedParts files.current) then
      some .directory
    else none

/-- Whether there is something at a path. -/
def has (files : Files) (path : String) : Bool := (files.entry? path).isSome

/-- A text with line feeds as its line ends. -/
def plainLines (text : String) : String := String.ofList (unixLineEnds text.toList)

/-- The text of a file. -/
def readText (files : Files) (path : String) : Except Fault String :=
  match files.entry? path with
  | some (.text content) => .ok (plainLines content)
  | some (.data _) => .ok ""
  | some .directory => .error (.file (.directory path))
  | none => .error (.file (.missing path))

/-- The structured data of a file; texts are read as JSON. -/
def readData (files : Files) (path : String) : Eval Value :=
  match files.entry? path with
  | some (.data document) => document
  | _ => do
    let text ← Eval.ofExcept (files.readText path)
    (← Eval.ofExcept (Json.read text)).toValue

end Files

end Rubric
