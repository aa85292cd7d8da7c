import Rubric.Text.Character

/-!
# Plain text operations

Trimming, splitting into lines and words, joining, line ends and tab stops, all on lists of
characters.  Splitting at line feeds and joining with them are inverse to each other.
-/

namespace Rubric.Text

/-! ## Trimming -/

/-- The text without its leading blanks. -/
def trimLeft (cs : List Char) : List Char := cs.dropWhile isBlank

/-- The text without the characters of the class at its end. -/
def dropTrailing (p : Char → Bool) (cs : List Char) : List Char :=
  (cs.reverse.dropWhile p).reverse

/-- The text without its trailing blanks. -/
def trimRight (cs : List Char) : List Char := dropTrailing isBlank cs

/-- The text without leading and trailing blanks. -/
def trim (cs : List Char) : List Char := trimRight (trimLeft cs)

/-- The leading blanks. -/
def leadingBlanks (cs : List Char) : List Char := cs.takeWhile isBlank

/-- The trailing blanks. -/
def trailingBlanks (cs : List Char) : List Char := (cs.reverse.takeWhile isBlank).reverse

/-- A text is its leading blanks and the rest. -/
theorem leadingBlanks_append_trimLeft (cs : List Char) :
    leadingBlanks cs ++ trimLeft cs = cs := by
  simp [leadingBlanks, trimLeft, List.takeWhile_append_dropWhile]

/-- A text is what trimming leaves and its trailing blanks. -/
theorem trimRight_append_trailingBlanks (cs : List Char) :
    trimRight cs ++ trailingBlanks cs = cs := by
  rw [trimRight, dropTrailing, trailingBlanks, ← List.reverse_append,
    List.takeWhile_append_dropWhile, List.reverse_reverse]

/-! ## Lines and words -/

/-- The parts between occurrences of a separator; a text with `n` of them has `n + 1` parts. -/
def splitOn (separator : Char) : List Char → List (List Char)
  | [] => [[]]
  | c :: rest =>
    if c = separator then [] :: splitOn separator rest
    else
      match splitOn separator rest with
      | [] => [[c]]
      | part :: parts => (c :: part) :: parts

/-- The parts joined with a separator between neighbours. -/
def joinWith (separator : List Char) : List (List Char) → List Char
  | [] => []
  | [part] => part
  | part :: next :: parts => part ++ separator ++ joinWith separator (next :: parts)

/-- The lines of a text, without their line feeds. -/
def lines (cs : List Char) : List (List Char) := splitOn '\n' cs

/-- The text of the lines, a line feed between neighbours. -/
def unlines (ls : List (List Char)) : List Char := joinWith ['\n'] ls

/-- Splitting never yields an empty list. -/
theorem splitOn_ne_nil (separator : Char) (cs : List Char) : splitOn separator cs ≠ [] := by
  cases cs with
  | nil => simp [splitOn]
  | cons c rest =>
    unfold splitOn
    split
    · simp
    · split <;> simp

/-- Joining what was split gives the text back. -/
theorem joinWith_splitOn (separator : Char) (cs : List Char) :
    joinWith [separator] (splitOn separator cs) = cs := by
  induction cs with
  | nil => rfl
  | cons c rest ih =>
    unfold splitOn
    split
    · rename_i hc
      cases hparts : splitOn separator rest with
      | nil => exact absurd hparts (splitOn_ne_nil separator rest)
      | cons part parts =>
        rw [hparts] at ih
        simp [joinWith, ih, hc]
    · cases hparts : splitOn separator rest with
      | nil => exact absurd hparts (splitOn_ne_nil separator rest)
      | cons part parts =>
        rw [hparts] at ih
        cases parts with
        | nil => simpa [joinWith] using ih
        | cons next more => simpa [joinWith] using ih

/-- The lines of a text make up the text. -/
theorem unlines_lines (cs : List Char) : unlines (lines cs) = cs :=
  joinWith_splitOn '\n' cs

/-- The first word of a text: the characters up to a blank, after leading blanks. -/
def firstWord (cs : List Char) : List Char := (trimLeft cs).takeWhile fun c => !isBlank c

/-! ## Line ends and tab stops -/

/-- Carriage returns, alone or before a line feed, become line feeds. -/
def unixLineEnds : List Char → List Char
  | [] => []
  | '\r' :: '\n' :: rest => '\n' :: unixLineEnds rest
  | '\r' :: rest => '\n' :: unixLineEnds rest
  | c :: rest => c :: unixLineEnds rest

/-- Tabs become spaces up to the next multiple of `stop`, `column` being the column of the first
character; columns start again after each line feed. -/
def expandTabsFrom (stop column : Nat) : List Char → List Char
  | [] => []
  | '\t' :: rest =>
    let width := stop - column % stop
    List.replicate width ' ' ++ expandTabsFrom stop (column + width) rest
  | '\n' :: rest => '\n' :: expandTabsFrom stop 0 rest
  | c :: rest => c :: expandTabsFrom stop (column + 1) rest

/-- Tabs become spaces up to the next tab stop. -/
def expandTabs (stop : Nat) (cs : List Char) : List Char := expandTabsFrom stop 0 cs

/-! ## Strings -/

/-- Left padding to a width. -/
def padLeft (width : Nat) (fill : Char) (cs : List Char) : List Char :=
  List.replicate (width - cs.length) fill ++ cs

/-- The strings joined with a separator between neighbours. -/
def join (separator : String) (parts : List String) : String := separator.intercalate parts

/-- The strings in the order of their characters. -/
def sorted (parts : List String) : List String := parts.mergeSort fun a b => a ≤ b

/-- The parts of a string between its full stops. -/
def dotted (s : String) : List String := (splitOn '.' s.toList).map String.ofList

/-- A string without leading and trailing blanks. -/
def trimmed (s : String) : String := String.ofList (trim s.toList)

end Rubric.Text
