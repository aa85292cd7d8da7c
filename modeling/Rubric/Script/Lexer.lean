import Rubric.Fault
import Rubric.Script.Token

/-!
# Reading tokens

Which tokens are tried depends on the place: a reserved word that cannot stand at a place is an
ordinary name there, and where no name can stand a reserved word is read even when letters follow
it.  What can stand at a place follows from the tokens before it on the same line and from how the
line before was meant, so tokens are read by a finite automaton.
-/

namespace Rubric.Script

open Rubric.Text

/-! ## Places -/

/-- How a line is meant, as far as it decides what may start the next one. -/
inductive LineKind where
  /-- No line: the start of a script. -/
  | leading
  /-- A complete statement. -/
  | complete
  /-- The condition of a branch. -/
  | branch
  /-- The start of the last branch. -/
  | otherwise
  /-- The head of a loop. -/
  | foreach
  deriving DecidableEq, Repr

/-- A place between two tokens. -/
inductive Phase where
  | scriptStart
  | lineStart (previous : LineKind)
  | assignedVar
  | afterTarget
  | targetField
  | loopVar
  | loopIn
  | callOpen
  | lineEnd
  /-- Before an operand; `negated` where it may start with `NOT`, and perhaps a bracket that
  closes an empty list. -/
  | operand (negated : Bool) (close : Option Sign)
  /-- After an operand; `called` where it may be a function that arguments follow. -/
  | operator (called : Bool)
  | member
  deriving DecidableEq, Repr

/-- Whether a line may start with a reserved word, given the line before. -/
def LineKind.allows : LineKind → Keyword → Bool
  | _, .set | _, .branch | _, .foreach => true
  | complete, .elif | complete, .otherwise | complete, .endBranch | complete, .endForeach => true
  | branch, .elif | branch, .otherwise | branch, .endBranch => true
  | otherwise, .endBranch => true
  | foreach, .endForeach => true
  | _, _ => false

namespace Phase

/-- Whether a kind of token can stand at a place. -/
def accepts : Phase → TokenKind → Bool
  | scriptStart, .newline | scriptStart, .name | scriptStart, .var => true
  | scriptStart, .keyword k => LineKind.leading.allows k
  | lineStart _, .name | lineStart _, .var => true
  | lineStart previous, .keyword k => previous.allows k
  | assignedVar, .var => true
  | afterTarget, .sign s => s = .dot || s = .assign
  | targetField, .name => true
  | loopVar, .var => true
  | loopIn, .keyword k => k = .mem
  | callOpen, .sign s => s = .openParen
  | lineEnd, .newline => true
  | operand negated _, .keyword k =>
    match k with
    | .bool _ | .null => true
    | .not => negated
    | _ => false
  | operand _ close, .sign s =>
    s = .openParen || s = .openBracket || s = .sub || close = some s
  | operand _ _, .name | operand _ _, .var | operand _ _, .number | operand _ _, .str => true
  | operator _, .newline => true
  | operator _, .keyword k => k = .or || k = .and || k = .mem
  | operator called, .sign s =>
    if s = .openParen then called else s != .assign
  | member, .name => true
  | _, _ => false

/-- The place after an operator or a bracket that an expression goes on from. -/
def afterSign : Sign → Phase
  | .openParen | .openBracket | .comma | .assign => operand true none
  | .closeParen | .closeBracket => operator false
  | .dot => member
  | _ => operand false none

/-- The place after a reserved word that starts a line or stands in an expression. -/
def afterKeyword : Keyword → Phase
  | .set => assignedVar
  | .foreach => loopVar
  | .otherwise | .endBranch | .endForeach => lineEnd
  | .branch | .elif | .mem | .or | .and | .not => operand true none
  | .bool _ | .null => operator false

end Phase

/-- The place where reading goes on, and how the current line is meant. -/
structure LexState where
  phase : Phase
  line : LineKind
  deriving DecidableEq, Repr

namespace LexState

/-- The start of a script. -/
def initial : LexState := ⟨.scriptStart, .leading⟩

/-- How a line is meant that starts with a reserved word. -/
def lineOf : Keyword → LineKind
  | .branch | .elif => .branch
  | .otherwise => .otherwise
  | .foreach => .foreach
  | _ => .complete

/-- Whether a place is the start of a line. -/
def atLineStart (s : LexState) : Bool :=
  match s.phase with
  | .scriptStart | .lineStart _ => true
  | _ => false

/-- The place after a reserved word.  The `IN` of a loop allows `NOT` after it, the one of a
comparison does not. -/
def afterKeyword (s : LexState) (k : Keyword) : LexState :=
  if s.atLineStart then ⟨.afterKeyword k, lineOf k⟩
  else if k = .mem && s.phase != .loopIn then { s with phase := .operand false none }
  else { s with phase := .afterKeyword k }

/-- The place after a name. -/
def afterName (s : LexState) : LexState :=
  if s.atLineStart then ⟨.callOpen, .complete⟩
  else
    match s.phase with
    | .targetField => { s with phase := .afterTarget }
    | .member => { s with phase := .operator false }
    | _ => { s with phase := .operator true }

/-- The place after a variable. -/
def afterVar (s : LexState) : LexState :=
  if s.atLineStart then ⟨.callOpen, .complete⟩
  else
    match s.phase with
    | .assignedVar => { s with phase := .afterTarget }
    | .loopVar => { s with phase := .loopIn }
    | _ => { s with phase := .operator true }

/-- The place after a sign: an opening bracket may be closed at once where it starts a list of
operands. -/
def afterSign (s : LexState) (sign : Sign) : LexState :=
  match s.phase, sign with
  | .afterTarget, .dot => { s with phase := .targetField }
  | .callOpen, .openParen => { s with phase := .operand true (some .closeParen) }
  | .operator _, .openParen => { s with phase := .operand true (some .closeParen) }
  | .operand _ _, .openBracket => { s with phase := .operand true (some .closeBracket) }
  | _, _ => { s with phase := .afterSign sign }

/-- The place after a token. -/
def next (s : LexState) : Token → LexState
  | .newline => ⟨.lineStart s.line, .leading⟩
  | .keyword k => s.afterKeyword k
  | .name _ => s.afterName
  | .var _ => s.afterVar
  | .number _ => { s with phase := .operator false }
  | .str _ => { s with phase := .operator false }
  | .sign sign => s.afterSign sign

end LexState

/-! ## Single tokens -/

/-- How many characters after a line end belong to it: blanks, comments and further line ends. -/
def marginLength : Bool → List Char → Nat
  | _, [] => 0
  | _, '\n' :: rest => marginLength false rest + 1
  | true, _ :: rest => marginLength true rest + 1
  | false, '\r' :: '\n' :: rest => marginLength false rest + 2
  | false, ' ' :: rest => marginLength false rest + 1
  | false, '\t' :: rest => marginLength false rest + 1
  | false, '#' :: rest => marginLength true rest + 1
  | false, _ :: _ => 0

/-- How many characters a number has: digits, perhaps with a point and digits after it. -/
def numberLength (cs : List Char) : Nat :=
  let whole := (cs.takeWhile isDecimal).length
  match cs.drop whole with
  | '.' :: rest =>
    let places := (rest.takeWhile isDecimal).length
    if places = 0 then whole else whole + 1 + places
  | _ => whole

/-- How many characters the rest of a string has, its closing quote included; a string ends on its
line. -/
def stringLength? (quote : Char) : List Char → Option Nat
  | [] => none
  | c :: rest =>
    if c = quote then some 1
    else if c = '\n' then none
    else if c = '\\' then
      match rest with
      | [] => none
      | d :: more => if d = '\n' then none else (stringLength? quote more).map (· + 2)
    else (stringLength? quote rest).map (· + 1)

/-- A word: a reserved word where that can stand, else a name; where no name can stand, a reserved
word at its start. -/
def readWord (accepts : TokenKind → Bool) (cs : List Char) : Option (Token × Nat) :=
  if accepts .name then
    let word := cs.takeWhile isIdentRest
    let text := String.ofList word
    match Keyword.ofText? text with
    | some k =>
      let token := if accepts (.keyword k) then Token.keyword k else Token.name text
      some (token, word.length)
    | none => some (.name text, word.length)
  else
    (Keyword.all.find? fun k => accepts (.keyword k) && k.text.toList.isPrefixOf cs).map
      fun k => (.keyword k, k.text.length)

/-- A variable, whose dollar sign is read already. -/
def readVar (cs : List Char) : Option (Token × Nat) :=
  match cs with
  | c :: _ =>
    if isIdentStart c then
      let word := cs.takeWhile isIdentRest
      some (.var (String.ofList word), word.length + 1)
    else none
  | [] => none

/-- A string, whose opening quote is read already. -/
def readString (quote : Char) (cs : List Char) : Option (Token × Nat) :=
  (stringLength? quote cs).map fun n =>
    (.str (String.ofList (unescape (cs.take (n - 1)))), n + 1)

/-- A line end. -/
def readNewline : List Char → Option (Token × Nat)
  | '\n' :: rest => some (.newline, marginLength false rest + 1)
  | '\r' :: '\n' :: rest => some (.newline, marginLength false rest + 2)
  | _ => none

/-- The longest sign that can stand at a place. -/
def readSign (accepts : TokenKind → Bool) (cs : List Char) : Option (Token × Nat) :=
  (Sign.all.find? fun s => accepts (.sign s) && s.chars.isPrefixOf cs).map
    fun s => (.sign s, s.chars.length)

/-- A token that can stand at a place. -/
def keepAccepted (accepts : TokenKind → Bool) (found : Option (Token × Nat)) :
    Option (Token × Nat) :=
  found.filter fun t => accepts t.1.kind

/-- The token of an accepted kind at the start of a text, and its length. -/
def readToken (accepts : TokenKind → Bool) : List Char → Option (Token × Nat)
  | [] => none
  | c :: rest =>
    if isIdentStart c then readWord accepts (c :: rest)
    else if c = '$' then keepAccepted accepts (readVar rest)
    else if isDecimal c then
      let n := numberLength (c :: rest)
      keepAccepted accepts (some (.number ((c :: rest).take n), n))
    else if c = '"' || c = '\'' then keepAccepted accepts (readString c rest)
    else if c = '\n' || c = '\r' then keepAccepted accepts (readNewline (c :: rest))
    else readSign accepts (c :: rest)

/-- How many characters are passed over at the start of a text: a blank or a comment. -/
def skipLength : List Char → Nat
  | ' ' :: _ => 1
  | '\t' :: _ => 1
  | '#' :: rest => (rest.takeWhile (· != '\n')).length + 1
  | _ => 0

/-! ## Token streams -/

/-- The place after some characters. -/
def placeAfter (p : Position) (cs : List Char) : Position :=
  cs.foldl (fun p c => if c = '\n' then ⟨p.line + 1, 1⟩ else ⟨p.line, p.column + 1⟩) p

/-- A token, the characters it is written with, and its place. -/
structure Lexeme where
  token : Token
  text : String
  position : Position
  deriving DecidableEq, Repr

/-- The tokens of a text up to its end, or up to a place where nothing fits. -/
structure TokenStream where
  lexemes : List Lexeme
  fault : Option SyntaxFault
  deriving DecidableEq, Repr

/-- The fault at a place where no token fits: the token that would stand there elsewhere, or the
single character. -/
def unreadable (position : Position) (cs : List Char) : SyntaxFault :=
  match readToken (fun _ => true) cs with
  | some (_, n) => .unexpectedToken position (String.ofList (cs.take n))
  | none => .unexpectedCharacter position (cs.headD ' ')

/-- The tokens of the rest of a text. -/
def tokensFrom (state : LexState) (position : Position) (cs : List Char) : TokenStream :=
  match cs with
  | [] => ⟨[], none⟩
  | c :: rest =>
    match skipLength (c :: rest) with
    | n + 1 =>
      tokensFrom state (placeAfter position (c :: rest.take n)) (rest.drop n)
    | 0 =>
      match readToken state.phase.accepts (c :: rest) with
      | some (token, n) =>
        let text := c :: rest.take (n - 1)
        let others := tokensFrom (state.next token) (placeAfter position text) (rest.drop (n - 1))
        { others with lexemes := ⟨token, String.ofList text, position⟩ :: others.lexemes }
      | none => ⟨[], some (unreadable position (c :: rest))⟩
  termination_by cs.length
  decreasing_by
    all_goals simp only [List.length_drop, List.length_cons]; omega

/-- The tokens of a script. -/
def tokens (cs : List Char) : TokenStream := tokensFrom .initial ⟨1, 1⟩ cs

end Rubric.Script
