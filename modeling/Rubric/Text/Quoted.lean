import Rubric.Text.Basic

/-!
# Quoted text

How a text is shown between quotes in messages and inside collections: single quotes, unless the
text holds a single quote and no double quote; the quote in use, the backslash and line ends
escaped; characters without a printed form as numeric escapes.
-/

namespace Rubric.Text

/-- The hexadecimal digits of a number, in lower case, padded with zeros. -/
def hexPadded (width n : Nat) : List Char := padLeft width '0' (Nat.toDigits 16 n)

/-- The escape of a character's code, of two, four or eight digits. -/
def codeEscape (c : Char) : List Char :=
  if c.toNat < 0x100 then '\\' :: 'x' :: hexPadded 2 c.toNat
  else if c.toNat < 0x10000 then '\\' :: 'u' :: hexPadded 4 c.toNat
  else '\\' :: 'U' :: hexPadded 8 c.toNat

/-- A character inside quotes. -/
def quoteChar (quote : Char) (c : Char) : List Char :=
  if c = quote || c = '\\' then ['\\', c]
  else if c = '\n' then ['\\', 'n']
  else if c = '\r' then ['\\', 'r']
  else if c = '\t' then ['\\', 't']
  else if isPrintable c then [c]
  else codeEscape c

/-- The quote that a text is shown in. -/
def quoteFor (cs : List Char) : Char :=
  if cs.contains '\'' && !cs.contains '"' then '"' else '\''

/-- A text as it is shown between quotes. -/
def quotedChars (cs : List Char) : List Char :=
  let quote := quoteFor cs
  quote :: cs.flatMap (quoteChar quote) ++ [quote]

/-- A string as it is shown between quotes. -/
def quoted (s : String) : String := String.ofList (quotedChars s.toList)

/-- A character as ASCII: itself, or the escape of its code. -/
def asciiChar (c : Char) : List Char := if c.toNat < 0x80 then [c] else codeEscape c

/-- A text with every character beyond ASCII escaped. -/
def asciiText (s : String) : String := String.ofList (s.toList.flatMap asciiChar)

end Rubric.Text
