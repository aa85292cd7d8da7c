import Rubric.Script.Lexer

/-!
# Repairing script texts

Mistakes of hand-written scripts that can be put right without parsing: foreign line ends and
tabs, a fence of backticks around the script, keywords in another case or spelling, branches
outside any conditional, blocks that are not closed, and a missing line end.  Each pass takes a
text to a text and lists its repairs.
-/

namespace Rubric.Script

open Rubric.Text

/-! ## Repairs -/

/-- What a repair puts right. -/
inductive RepairKind where
  | whitespace | fence | keyword | block | trailingNewline
  deriving DecidableEq, Repr

namespace RepairKind

/-- The name of a kind. -/
def name : RepairKind → String
  | whitespace => "whitespace"
  | fence => "fence"
  | keyword => "keyword"
  | block => "structure"
  | trailingNewline => "trailing_newline"

/-- How certain a repair is, in percent. -/
def confidence : RepairKind → Nat
  | whitespace => 100
  | fence => 100
  | keyword => 95
  | block => 80
  | trailingNewline => 100

end RepairKind

/-- A repair: its line, or zero for the whole text, and what it replaced by what. -/
structure Repair where
  line : Nat
  kind : RepairKind
  replaced : String
  replacement : String
  deriving DecidableEq, Repr

/-- A text and the repairs that led to it. -/
structure Repaired where
  text : List Char
  repairs : List Repair
  deriving DecidableEq, Repr

/-- A pass over a text whose repairs are added to those made before. -/
def Repaired.andThen (r : Repaired) (pass : List Char → Repaired) : Repaired :=
  let next := pass r.text
  ⟨next.text, r.repairs ++ next.repairs⟩

/-- The beginning of a text, as repairs quote it. -/
def excerpt (cs : List Char) : String := String.ofList (cs.take 40)

/-! ## Line ends, tabs and fences -/

/-- How many columns a tab stop has. -/
def tabStop : Nat := 2

/-- The text with line feeds as line ends and without tabs. -/
def plainWhitespace (cs : List Char) : List Char := expandTabs tabStop (unixLineEnds cs)

/-- Replaces foreign line ends and tabs. -/
def repairWhitespace (cs : List Char) : Repaired :=
  let fixed := plainWhitespace cs
  if fixed = cs then ⟨cs, []⟩
  else ⟨fixed, [⟨0, .whitespace, "<crlf/tabs>", "<lf/spaces>"⟩]⟩

/-- The three backticks of a fence. -/
def fenceMark : List Char := ['`', '`', '`']

/-- What follows the last line feed of a run of blanks, and the rest; `none` where the run has no
line feed. -/
def afterLastLineFeed (run : List Char) : Option (List Char) :=
  if run.contains '\n' then some ((run.reverse.takeWhile (· != '\n')).reverse) else none

/-- The text inside a fence: after the line of the opening mark, which may carry a word, and before
the closing mark. -/
def fenced? (cs : List Char) : Option (List Char) :=
  let stripped := trim cs
  if fenceMark.isPrefixOf stripped then
    let afterWord := (stripped.drop fenceMark.length).dropWhile isWord
    match afterLastLineFeed (leadingBlanks afterWord) with
    | none => none
    | some indent =>
      let body := indent ++ trimLeft afterWord
      if fenceMark.isSuffixOf body then some (body.take (body.length - fenceMark.length))
      else none
  else none

/-- Removes a fence around the whole script. -/
def repairFence (cs : List Char) : Repaired :=
  match fenced? cs with
  | some inside => ⟨inside, [⟨1, .fence, "```...```", "<unwrapped>"⟩]⟩
  | none => ⟨cs, []⟩

/-! ## Code, strings and comments -/

/-- How many characters a string at the start of a text has, its quotes included. -/
def literalLength? : List Char → Option Nat
  | [] => none
  | c :: rest =>
    if c = '"' || c = '\'' then (stringLength? c rest).map (· + 1) else none

/-- The code of a line and its comment, which starts at the first number sign outside strings. -/
def splitComment : List Char → List Char × List Char
  | [] => ([], [])
  | c :: rest =>
    match literalLength? (c :: rest) with
    | some n =>
      let (code, comment) := splitComment (rest.drop (n - 1))
      (c :: rest.take (n - 1) ++ code, comment)
    | none =>
      if c = '#' then ([], c :: rest)
      else
        let (code, comment) := splitComment rest
        (c :: code, comment)
  termination_by cs => cs.length
  decreasing_by all_goals simp only [List.length_drop, List.length_cons]; omega

/-- The code of a line and its comment make up the line. -/
theorem splitComment_append (cs : List Char) : (splitComment cs).1 ++ (splitComment cs).2 = cs := by
  fun_induction splitComment cs with
  | case1 => rfl
  | case2 c rest n h code comment split ih =>
    rw [split] at ih
    simp only [List.append_assoc, ih, List.cons_append]
    rw [List.take_append_drop]
  | case3 rest h => rfl
  | case4 c rest h hc code comment split ih =>
    rw [split] at ih
    simp only [List.cons_append, ih]

/-! ## Keywords -/

/-- A part of a spelling: letters in any case, or at least so many blanks. -/
inductive SpellingPart where
  | letters (word : String)
  | blanks (least : Nat)
  deriving DecidableEq, Repr

/-- Spellings of keywords in several words or without a space, at the start of a line, and what
they stand for. -/
def spellings : List (List SpellingPart × Keyword) :=
  [([.letters "END", .blanks 1, .letters "IF"], .endBranch),
   ([.letters "ELSE", .blanks 1, .letters "IF"], .elif),
   ([.letters "ELSEIF"], .elif),
   ([.letters "END", .blanks 1, .letters "FOR", .blanks 0, .letters "EACH"], .endForeach),
   ([.letters "FOR", .blanks 1, .letters "EACH"], .foreach)]

/-- Whether a character is a letter in either case, its dotted, dotless and long variants
included. -/
def isLetter (letter c : Char) : Bool :=
  c = letter || c = letter.toLower || (letter = 'I' && (c = 'İ' || c = 'ı')) ||
    (letter = 'S' && c = 'ſ')

/-- What follows letters in any case. -/
def afterLetters : List Char → List Char → Option (List Char)
  | [], cs => some cs
  | _ :: _, [] => none
  | letter :: letters, c :: cs => if isLetter letter c then afterLetters letters cs else none

/-- What follows a part of a spelling. -/
def SpellingPart.rest? : SpellingPart → List Char → Option (List Char)
  | letters word, cs => afterLetters word.toList cs
  | blanks least, cs => if least ≤ (leadingBlanks cs).length then some (trimLeft cs) else none

/-- What follows a spelling that ends where a word ends. -/
def afterSpelling (parts : List SpellingPart) (cs : List Char) : Option (List Char) :=
  match parts.foldlM (fun rest part => part.rest? rest) cs with
  | some (c :: rest) => if isWord c then none else some (c :: rest)
  | answer => answer

/-- Replaces a spelling at the start of a line. -/
def respell (spelling : List SpellingPart × Keyword) (cs : List Char) : List Char :=
  match afterSpelling spelling.1 cs with
  | some rest => spelling.2.text.toList ++ rest
  | none => cs

/-- Replaces the spellings at the start of a line, one after the other. -/
def respellAll (cs : List Char) : List Char :=
  spellings.foldl (fun cs spelling => respell spelling cs) cs

/-- A word in upper case where that is a keyword. -/
def keywordCase (word : List Char) : List Char :=
  let upper := word.map Char.toUpper
  if (Keyword.ofText? (String.ofList upper)).isSome then upper else word

/-- Keywords in upper case, outside strings.  A word that follows a dollar sign, a full stop or a
word character without a gap is no keyword; `glued` says whether the character before is one. -/
def upperKeywords (glued : Bool) (cs : List Char) : List Char :=
  match cs with
  | [] => []
  | c :: rest =>
    match literalLength? (c :: rest) with
    | some n => c :: rest.take (n - 1) ++ upperKeywords false (rest.drop (n - 1))
    | none =>
      if !glued && isIdentStart c then
        let more := (rest.takeWhile isIdentRest).length
        keywordCase (c :: rest.take more) ++ upperKeywords true (rest.drop more)
      else c :: upperKeywords (c = '$' || c = '.' || isWord c) rest
  termination_by cs.length
  decreasing_by all_goals simp only [List.length_drop, List.length_cons]; omega

/-- The keywords of a line's code in their spelling and case. -/
def canonicalCode (body : List Char) : List Char := upperKeywords false (respellAll body)

/-- A line with its keywords in their spelling and case; `number` counts lines. -/
def repairLine (number : Nat) (line : List Char) : List Char × List Repair :=
  let (code, comment) := splitComment line
  let body := trim code
  let fixed := canonicalCode body
  if fixed = body then (line, [])
  else
    (leadingBlanks code ++ fixed ++ trailingBlanks code ++ comment,
      [⟨number, .keyword, excerpt body, excerpt fixed⟩])

/-- Repairs lines one by one, the first having the given number. -/
def repairLines (number : Nat) : List (List Char) → List (List Char) × List Repair
  | [] => ([], [])
  | line :: rest =>
    let (line, repairs) := repairLine number line
    let (others, more) := repairLines (number + 1) rest
    (line :: others, repairs ++ more)

/-- Puts keywords into their spelling and case. -/
def repairKeywords (cs : List Char) : Repaired :=
  let (fixed, repairs) := repairLines 1 (lines cs)
  ⟨unlines fixed, repairs⟩

/-! ## Blocks -/

/-- The keyword that the code of a line starts with. -/
def leadingKeyword? (line : List Char) : Option Keyword :=
  Keyword.ofText? (String.ofList (firstWord (splitComment line).1))

/-- How many conditionals are open after a line that starts with a keyword. -/
def depthAfter (depth : Nat) : Option Keyword → Nat
  | some .branch => depth + 1
  | some .endBranch => depth - 1
  | _ => depth

/-- The keyword of a further branch, which needs an open conditional. -/
def furtherBranch? : Option Keyword → Option Keyword
  | some .otherwise => some .otherwise
  | some .elif => some .elif
  | _ => none

/-- The keyword of a further branch that stands outside any conditional. -/
def orphan? (depth : Nat) (line : List Char) : Option Keyword :=
  if depth = 0 then furtherBranch? (leadingKeyword? line) else none

/-- The repair that removes a line. -/
def removal (number : Nat) (line : List Char) (word : Keyword) : Repair :=
  ⟨number, .block, excerpt (trim line), s!"<removed orphan {word.text}>"⟩

/-- Removes lines with a further branch outside any conditional, `depth` conditionals being open
before the lines. -/
def removeOrphans (number depth : Nat) : List (List Char) → List (List Char) × List Repair
  | [] => ([], [])
  | line :: rest =>
    let (others, repairs) :=
      removeOrphans (number + 1) (depthAfter depth (leadingKeyword? line)) rest
    match orphan? depth line with
    | some word => (others, removal number line word :: repairs)
    | none => (line :: others, repairs)

/-- Removes lines with a further branch outside any conditional. -/
def repairOrphans (cs : List Char) : Repaired :=
  let (kept, repairs) := removeOrphans 1 0 (lines cs)
  ⟨unlines kept, repairs⟩

/-- The open blocks after a line, the innermost first: a closing keyword closes the innermost block
of its kind. -/
def openBlocksAfter (blocks : List Keyword) (line : List Char) : List Keyword :=
  match leadingKeyword? line with
  | some .branch => .branch :: blocks
  | some .foreach => .foreach :: blocks
  | some .endBranch => blocks.erase .branch
  | some .endForeach => blocks.erase .foreach
  | _ => blocks

/-- The blocks that are open after some lines, the innermost first. -/
def openBlocks (ls : List (List Char)) : List Keyword := ls.foldl openBlocksAfter []

/-- The text that closes a block. -/
def closerOf (opener : Keyword) : String := "END" ++ opener.text

/-- Closes the blocks that are open at the end, the innermost first. -/
def repairBlocks (cs : List Char) : Repaired :=
  let ls := lines cs
  match openBlocks ls with
  | [] => ⟨cs, []⟩
  | blocks =>
    let closers := blocks.map closerOf
    let closing := closers.flatMap fun closer => closer.toList ++ ['\n']
    ⟨dropTrailing (· == '\n') cs ++ '\n' :: closing,
      closers.map fun closer => ⟨ls.length, .block, "<unclosed>", closer⟩⟩

/-! ## The end of the text -/

/-- Ends the last line. -/
def repairEnd (cs : List Char) : Repaired :=
  match cs.getLast? with
  | none => ⟨cs, []⟩
  | some c =>
    if c = '\n' then ⟨cs, []⟩
    else ⟨cs ++ ['\n'], [⟨(lines cs).length, .trailingNewline, "<no newline>", "\\n"⟩]⟩

/-! ## All passes -/

/-- The result of repairing a script. -/
structure LintResult where
  text : String
  changes : List Repair
  deriving DecidableEq, Repr

/-- Whether anything was repaired. -/
def LintResult.wasModified (r : LintResult) : Bool := !r.changes.isEmpty

/-- Repairs a script text; blocks are repaired only on request. -/
def lint (text : String) (blocks : Bool) : LintResult :=
  let plain := (repairWhitespace text.toList).andThen repairFence
  let spelled := plain.andThen repairKeywords
  let structured :=
    if blocks then (spelled.andThen repairOrphans).andThen repairBlocks else spelled
  let final := structured.andThen repairEnd
  ⟨String.ofList final.text, final.repairs⟩

end Rubric.Script
