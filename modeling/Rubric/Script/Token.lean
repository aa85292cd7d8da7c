import Rubric.Text.Basic

/-!
# Tokens

The words, signs and literals that a script is written with, and the text of each.
-/

namespace Rubric.Script

open Rubric.Text

/-! ## Keywords and signs -/

/-- The reserved words. -/
inductive Keyword where
  | set
  | branch | elif | otherwise | endBranch
  | foreach | mem | endForeach
  | or | and | not
  | bool (b : Bool)
  | null
  deriving DecidableEq, Repr

namespace Keyword

/-- All reserved words. -/
def all : List Keyword :=
  [set, branch, elif, otherwise, endBranch, foreach, mem, endForeach, or, and, not,
    bool true, bool false, null]

/-- The text of a reserved word. -/
def text : Keyword → String
  | set => "SET"
  | branch => "IF"
  | elif => "ELIF"
  | otherwise => "ELSE"
  | endBranch => "ENDIF"
  | foreach => "FOREACH"
  | mem => "IN"
  | endForeach => "ENDFOREACH"
  | or => "OR"
  | and => "AND"
  | not => "NOT"
  | bool b => if b then "TRUE" else "FALSE"
  | null => "NULL"

/-- The reserved word with that text. -/
def ofText? (s : String) : Option Keyword := all.find? fun k => k.text == s

/-- Every reserved word is listed. -/
theorem mem_all (k : Keyword) : k ∈ all := by
  cases k <;> first | decide | (rename_i b; cases b <;> decide)

end Keyword

/-- The signs. -/
inductive Sign where
  | eq | ne | le | ge | lt | gt
  | assign
  | add | sub | mul | div | mod
  | dot | comma
  | openParen | closeParen | openBracket | closeBracket
  deriving DecidableEq, Repr

namespace Sign

/-- All signs, each before those that it starts with. -/
def all : List Sign :=
  [eq, ne, le, ge, lt, gt, assign, add, sub, mul, div, mod, dot, comma, openParen, closeParen,
    openBracket, closeBracket]

/-- The characters of a sign. -/
def chars : Sign → List Char
  | eq => ['=', '=']
  | ne => ['!', '=']
  | le => ['<', '=']
  | ge => ['>', '=']
  | lt => ['<']
  | gt => ['>']
  | assign => ['=']
  | add => ['+']
  | sub => ['-']
  | mul => ['*']
  | div => ['/']
  | mod => ['%']
  | dot => ['.']
  | comma => [',']
  | openParen => ['(']
  | closeParen => [')']
  | openBracket => ['[']
  | closeBracket => [']']

/-- Every sign is listed. -/
theorem mem_all (s : Sign) : s ∈ all := by cases s <;> decide

end Sign

/-! ## Tokens -/

/-- A token.  Line ends, with the blank lines and comments after them, are one token.  Strings
hold their value, numbers their digits. -/
inductive Token where
  | newline
  | keyword (k : Keyword)
  | name (ident : String)
  | var (ident : String)
  | number (digits : List Char)
  | str (value : String)
  | sign (s : Sign)
  deriving DecidableEq, Repr

/-- What kind a token is of; the kind of a reserved word or a sign is the word or sign itself. -/
inductive TokenKind where
  | newline
  | keyword (k : Keyword)
  | name
  | var
  | number
  | str
  | sign (s : Sign)
  deriving DecidableEq, Repr

/-- The kind of a token. -/
def Token.kind : Token → TokenKind
  | newline => .newline
  | keyword k => .keyword k
  | name _ => .name
  | var _ => .var
  | number _ => .number
  | str _ => .str
  | sign s => .sign s

/-! ## Strings -/

/-- The character that an escape stands for; other characters keep their backslash. -/
def escapedChar (c : Char) : List Char :=
  if c = 'n' then ['\n']
  else if c = 't' then ['\t']
  else if c = '\\' || c = '"' || c = '\'' then [c]
  else ['\\', c]

/-- The value of the text between the quotes of a string. -/
def unescape : List Char → List Char
  | [] => []
  | ['\\'] => ['\\']
  | '\\' :: c :: rest => escapedChar c ++ unescape rest
  | c :: rest => c :: unescape rest

/-- A character as it is written between double quotes. -/
def escapeChar (c : Char) : List Char :=
  if c = '\\' || c = '"' then ['\\', c]
  else if c = '\n' then ['\\', 'n']
  else [c]

/-- A text as it is written between double quotes. -/
def escape (cs : List Char) : List Char := cs.flatMap escapeChar

/-- A plain character is read as itself. -/
theorem unescape_cons (c : Char) (rest : List Char) (h : c ≠ '\\') :
    unescape (c :: rest) = c :: unescape rest := by
  rw [unescape]
  · intro hc _
    exact h hc
  · intro d more hc
    exact absurd hc h

/-- A written character is read as itself. -/
theorem unescape_escapeChar (c : Char) (rest : List Char) :
    unescape (escapeChar c ++ rest) = c :: unescape rest := by
  unfold escapeChar
  split
  · rename_i h
    simp only [Bool.or_eq_true, decide_eq_true_eq] at h
    rcases h with rfl | rfl <;> simp [unescape, escapedChar]
  · split
    · rename_i h
      subst h
      simp [unescape, escapedChar]
    · rename_i h _
      simp only [Bool.or_eq_true, decide_eq_true_eq, not_or] at h
      exact unescape_cons c rest h.1

/-- Reading what was written gives the text back. -/
theorem unescape_escape (cs : List Char) : unescape (escape cs) = cs := by
  induction cs with
  | nil => rfl
  | cons c rest ih =>
    rw [escape, List.flatMap_cons, unescape_escapeChar, ← escape, ih]

end Rubric.Script
