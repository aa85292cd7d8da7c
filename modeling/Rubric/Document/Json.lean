import Rubric.Document.Basic
import Rubric.Value.Display

/-!
# The JSON format

Reading JSON texts into documents, and writing values as indented JSON.  Reading allows infinities
and the value that is no number; writing escapes every character beyond ASCII.
-/

namespace Rubric.Json

open Rubric.Number Rubric.Text

/-! ## Faults -/

/-- Why a text is no JSON, with what was left to read. -/
inductive ReadFault where
  | malformed (cause : String) (rest : List Char)
  | oversizedNumber (count : Nat)

/-- The fault of a text that could not be read. -/
def ReadFault.toFault (text : List Char) : ReadFault → Fault
  | malformed cause rest =>
    let before := text.take (text.length - rest.length)
    let line := (before.filter (· == '\n')).length + 1
    let column := (before.reverse.takeWhile (· != '\n')).length + 1
    .file (.malformedData cause line column before.length)
  | oversizedNumber count => .number (.tooManyDigits integerDigitLimit count)

/-- What reading the start of a text gives: something and the rest of the text. -/
abbrev Reading (α : Type) := Except ReadFault (α × List Char)

/-- A fault at the start of a text. -/
def fail {α : Type} (cause : String) (rest : List Char) : Except ReadFault α :=
  .error (.malformed cause rest)

/-! ## Reading -/

/-- Blanks between the parts of a text. -/
def isSpace (c : Char) : Bool := c = ' ' || c = '\t' || c = '\n' || c = '\r'

/-- The text after blanks. -/
def skipSpace (cs : List Char) : List Char := cs.dropWhile isSpace

/-- The value of a hexadecimal digit. -/
def hexValue? (c : Char) : Option Nat :=
  if c.isDigit then some (c.toNat - '0'.toNat)
  else if 'a' ≤ c && c ≤ 'f' then some (c.toNat - 'a'.toNat + 10)
  else if 'A' ≤ c && c ≤ 'F' then some (c.toNat - 'A'.toNat + 10)
  else none

/-- The code of four hexadecimal digits, which something must follow. -/
def readCode (start : List Char) : Reading Nat :=
  match start with
  | _ :: a :: b :: c :: d :: next :: rest =>
    match hexValue? a, hexValue? b, hexValue? c, hexValue? d with
    | some a, some b, some c, some d =>
      .ok (((a * 16 + b) * 16 + c) * 16 + d, next :: rest)
    | _, _, _, _ => fail "Invalid \\uXXXX escape" start
  | _ => fail "Invalid \\uXXXX escape" start

/-- Whether a code is the first half of a pair. -/
def isHighHalf (code : Nat) : Bool := 0xd800 ≤ code && code ≤ 0xdbff

/-- Whether a code is the second half of a pair. -/
def isLowHalf (code : Nat) : Bool := 0xdc00 ≤ code && code ≤ 0xdfff

/-- The character of a code, or of a pair of codes; half of a pair alone is replaced. -/
def readCodePoint (start : List Char) : Reading Char :=
  match readCode start with
  | .error fault => .error fault
  | .ok (high, rest) =>
    let alone : Reading Char :=
      .ok (if isHighHalf high || isLowHalf high then '\uFFFD' else Char.ofNat high, rest)
    if isHighHalf high then
      match rest with
      | '\\' :: 'u' :: more =>
        match readCode ('u' :: more) with
        | .ok (low, rest) =>
          if isLowHalf low then
            .ok (Char.ofNat (0x10000 + (high - 0xd800) * 0x400 + (low - 0xdc00)), rest)
          else alone
        | .error _ => alone
      | _ => alone
    else alone

/-- The character of an escape of one letter. -/
def escapedLetter? (c : Char) : Option Char :=
  if c = '"' || c = '\\' || c = '/' then some c
  else if c = 'b' then some '\x08'
  else if c = 'f' then some '\x0c'
  else if c = 'n' then some '\n'
  else if c = 'r' then some '\r'
  else if c = 't' then some '\t'
  else none

/-- The rest of a string up to its closing quote; `start` is the text from its opening quote on. -/
def readString (start : List Char) : Nat → List Char → Reading (List Char)
  | 0, _ => fail "Unterminated string starting at" start
  | _ + 1, [] => fail "Unterminated string starting at" start
  | fuel + 1, c :: rest =>
    let more (found : Char) (rest : List Char) : Reading (List Char) :=
      (readString start fuel rest).map fun r => (found :: r.1, r.2)
    if c = '"' then .ok ([], rest)
    else if c = '\\' then
      match rest with
      | [] => fail "Unterminated string starting at" start
      | 'u' :: after =>
        match readCodePoint ('u' :: after) with
        | .ok (found, rest) => more found rest
        | .error fault => .error fault
      | letter :: after =>
        match escapedLetter? letter with
        | some found => more found after
        | none => fail "Invalid \\escape" (c :: rest)
    else if c.toNat ≤ 0x1f then fail "Invalid control character at" (c :: rest)
    else more c rest

/-- The digits at the start of a text. -/
def digitsAt (cs : List Char) : List Char := cs.takeWhile Char.isDigit

/-- The fraction of a number at the start of a text, empty where there is none. -/
def fractionAt : List Char → List Char
  | '.' :: rest => if (digitsAt rest).isEmpty then [] else '.' :: digitsAt rest
  | _ => []

/-- The exponent of a number at the start of a text, empty where there is none. -/
def exponentAt : List Char → List Char
  | [] => []
  | c :: rest =>
    if c = 'e' || c = 'E' then
      let sign := rest.takeWhile fun d => d = '-' || d = '+'
      let sign := sign.take 1
      let digits := digitsAt (rest.drop sign.length)
      if digits.isEmpty then [] else c :: sign ++ digits
    else []

/-- A number. -/
def readNumber (start : List Char) : Reading Document :=
  let sign := if start.head? = some '-' then ['-'] else []
  let unsigned := start.drop sign.length
  let whole := if unsigned.head? = some '0' then ['0'] else digitsAt unsigned
  if whole.isEmpty then fail "Expecting value" start
  else
    let afterWhole := unsigned.drop whole.length
    let fraction := fractionAt afterWhole
    let exponent := exponentAt (afterWhole.drop fraction.length)
    let text := sign ++ whole ++ fraction ++ exponent
    let rest := start.drop text.length
    if fraction.isEmpty && exponent.isEmpty then
      match readInteger text with
      | .value n => .ok (.int n, rest)
      | .tooManyDigits count => .error (.oversizedNumber count)
      | .malformed => fail "Expecting value" start
    else
      match readDecimal text with
      | .value x => .ok (.float x, rest)
      | _ => fail "Expecting value" start

/-- The words for values. -/
def words : List (String × Document) :=
  [("null", .null), ("true", .bool true), ("false", .bool false), ("NaN", .nan),
   ("Infinity", .float (.infinite false)), ("-Infinity", .float (.infinite true))]

/-- A word or a number. -/
def readScalar (start : List Char) : Reading Document :=
  match words.find? fun w => w.1.toList.isPrefixOf start with
  | some (word, value) => .ok (value, start.drop word.length)
  | none => readNumber start

mutual

/-- A value. -/
def readValue : Nat → List Char → Reading Document
  | 0, start => fail "Expecting value" start
  | fuel + 1, start =>
    match start with
    | '"' :: rest =>
      (readString start (rest.length + 1) rest).map fun r => (.str (String.ofList r.1), r.2)
    | '[' :: rest =>
      match skipSpace rest with
      | ']' :: rest => .ok (.list [], rest)
      | rest => (readItems fuel rest).map fun r => (.list r.1, r.2)
    | '\x7b' :: rest =>
      match skipSpace rest with
      | '\x7d' :: rest => .ok (.mapping [], rest)
      | rest => (readEntries fuel rest).map fun r => (.mapping r.1, r.2)
    | start => readScalar start

/-- The items of a list up to its closing bracket. -/
def readItems : Nat → List Char → Reading (List Document)
  | 0, start => fail "Expecting value" start
  | fuel + 1, start =>
    match readValue fuel start with
    | .error fault => .error fault
    | .ok (item, rest) =>
      match skipSpace rest with
      | ']' :: rest => .ok ([item], rest)
      | ',' :: rest =>
        (readItems fuel (skipSpace rest)).map fun r => (item :: r.1, r.2)
      | rest => fail "Expecting ',' delimiter" rest

/-- The entries of a mapping up to its closing brace. -/
def readEntries : Nat → List Char → Reading (List (String × Document))
  | 0, start => fail "Expecting value" start
  | fuel + 1, start =>
    match start with
    | '"' :: body =>
      match readString start (body.length + 1) body with
      | .error fault => .error fault
      | .ok (key, rest) =>
        match skipSpace rest with
        | ':' :: rest =>
          match readValue fuel (skipSpace rest) with
          | .error fault => .error fault
          | .ok (value, rest) =>
            let entry := (String.ofList key, value)
            match skipSpace rest with
            | '\x7d' :: rest => .ok ([entry], rest)
            | ',' :: rest =>
              (readEntries fuel (skipSpace rest)).map fun r => (entry :: r.1, r.2)
            | rest => fail "Expecting ',' delimiter" rest
        | rest => fail "Expecting ':' delimiter" rest
    | start => fail "Expecting property name enclosed in double quotes" start

end

/-- The document of a whole text. -/
def readAll (cs : List Char) : Except ReadFault Document :=
  match cs with
  | '\uFEFF' :: _ => fail "Unexpected UTF-8 BOM (decode using utf-8-sig)" cs
  | cs =>
    match readValue (2 * cs.length + 2) (skipSpace cs) with
    | .error fault => .error fault
    | .ok (document, rest) =>
      match skipSpace rest with
      | [] => .ok document
      | rest => fail "Extra data" rest

/-- The document of a text. -/
def read (text : String) : Except Fault Document :=
  match readAll text.toList with
  | .ok document => .ok document
  | .error fault => .error (fault.toFault text.toList)

/-! ## Writing -/

/-- A code as an escape. -/
def codeEscape (code : Nat) : List Char := '\\' :: 'u' :: hexPadded 4 code

/-- A character inside a JSON string. -/
def writeChar (c : Char) : List Char :=
  if c = '"' || c = '\\' then ['\\', c]
  else if c = '\n' then ['\\', 'n']
  else if c = '\r' then ['\\', 'r']
  else if c = '\t' then ['\\', 't']
  else if c = '\x0c' then ['\\', 'f']
  else if c = '\x08' then ['\\', 'b']
  else if 0x20 ≤ c.toNat && c.toNat ≤ 0x7e then [c]
  else if c.toNat < 0x10000 then codeEscape c.toNat
  else
    let offset := c.toNat - 0x10000
    codeEscape (0xd800 + offset / 0x400) ++ codeEscape (0xdc00 + offset % 0x400)

/-- A string in quotes. -/
def writeString (s : String) : String :=
  String.ofList ('"' :: s.toList.flatMap writeChar ++ ['"'])

/-- A double. -/
def writeFloat : Binary64 → String
  | .infinite negative => if negative then "-Infinity" else "Infinity"
  | x => x.toText

/-- The key of an entry. -/
def writeKey (σ : Store) : Value → Except Fault String
  | .str s => .ok s
  | .bool b => .ok (if b then "true" else "false")
  | .null => .ok "null"
  | .int n => .ok (intText n)
  | .float x => .ok (writeFloat x)
  | .nan _ => .ok "NaN"
  | v => .error (.type (.jsonKey (v.typeName σ)))

/-- A line end and the indentation of a depth. -/
def lineBreak (depth : Nat) : String := "\n" ++ String.ofList (List.replicate (2 * depth) ' ')

/-- Parts between brackets, each on a line of its own. -/
def bracketed (opening closing : String) (depth : Nat) (parts : List String) : String :=
  if parts.isEmpty then opening ++ closing
  else
    opening ++ lineBreak (depth + 1) ++ join ("," ++ lineBreak (depth + 1)) parts ++
      lineBreak depth ++ closing

mutual

/-- A value as JSON, given that of mappings; values that JSON has not are written as their
text. -/
def writeWith (σ : Store) (mappings : Nat → Nat → Except Fault String) (depth : Nat) :
    Value → Except Fault String
  | .null => .ok "null"
  | .bool b => .ok (if b then "true" else "false")
  | .int n => .ok (intText n)
  | .float x => .ok (writeFloat x)
  | .nan _ => .ok "NaN"
  | .str s => .ok (writeString s)
  | .list _ items => (writeAll σ mappings (depth + 1) items).map (bracketed "[" "]" depth)
  | .tuple items => (writeAll σ mappings (depth + 1) items).map (bracketed "[" "]" depth)
  | .row _ _ items => (writeAll σ mappings (depth + 1) items).map (bracketed "[" "]" depth)
  | .mapping address => mappings depth address
  | v => .ok (writeString (v.text σ))

/-- Several values as JSON. -/
def writeAll (σ : Store) (mappings : Nat → Nat → Except Fault String) (depth : Nat) :
    List Value → Except Fault (List String)
  | [] => .ok []
  | v :: vs =>
    match writeWith σ mappings depth v with
    | .error fault => .error fault
    | .ok s => (writeAll σ mappings depth vs).map (s :: ·)

end

/-- A mapping as JSON, entering at most `fuel` of them; `around` are those that it lies in. -/
def writeMapping (σ : Store) : Nat → List Nat → Nat → Nat → Except Fault String
  | 0, _, _, _ => .error (.file .circular)
  | fuel + 1, around, depth, address =>
    if around.contains address then .error (.file .circular)
    else do
      let inside := writeMapping σ fuel (address :: around)
      let parts ← (σ.entries address).mapM fun entry => do
        let key ← writeKey σ entry.1
        let value ← writeWith σ inside (depth + 1) entry.2
        return writeString key ++ ": " ++ value
      return bracketed "\x7b" "\x7d" depth parts

/-- A value as indented JSON. -/
def write (σ : Store) (v : Value) : Except Fault String :=
  writeWith σ (writeMapping σ (σ.mappings.size + 1) []) 0 v

end Rubric.Json
