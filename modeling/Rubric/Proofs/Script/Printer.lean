import Rubric.Proofs.Script.Scan
import Rubric.Script.Parser

/-!
# Printing scripts

Every statement header is printed on a line of its own, strings between double quotes, and
parentheses only around operands that bind less tightly than their place requires.

* `Program.print` : the text of a script;
* `Program.isPrintable` : which scripts have one, their names and numbers being such;
* `legible_written` : no printed token runs into the next.
-/

namespace Rubric.Script

open Rubric.Number Rubric.Text

/-! ## What can be printed -/

/-- Whether a text can stand as a bare name: an identifier that is not reserved. -/
def isBareName (s : String) : Bool := isIdentifier s && (Keyword.ofText? s).isNone

/-- The identifier of a variable that a function is named by. -/
def variableOf? (function : String) : Option String :=
  match function.toList with
  | '$' :: ident => some (String.ofList ident)
  | _ => none

/-- Whether a text can stand as the function of a call: a variable or a bare name. -/
def isCallee (function : String) : Bool :=
  match variableOf? function with
  | some ident => isIdentifier ident
  | none => isBareName function

/-- Numbers. -/
def Expr.isNumber : Expr → Bool
  | .num _ => true
  | _ => false

mutual

/-- Whether an expression has a text: its numbers are integers of a class, its names can be written,
and no sign stands before a number that could be taken for the number's own. -/
def Expr.isPrintable (numbers : Int → Bool) : Expr → Bool
  | .str _ => true
  | .num (.int n) => numbers n
  | .num (.float _) => false
  | .bool _ => true
  | .null => true
  | .var ident => isIdentifier ident
  | .name ident => isBareName ident
  | .list items => Expr.arePrintable numbers items
  | .member target field => target.isPrintable numbers && isIdentifier field
  | .index target key => target.isPrintable numbers && key.isPrintable numbers
  | .call function args => isCallee function && Expr.arePrintable numbers args
  | .binary _ left right => left.isPrintable numbers && right.isPrintable numbers
  | .unary op operand => !(op = .neg && operand.isNumber) && operand.isPrintable numbers

/-- Whether all expressions have a text. -/
def Expr.arePrintable (numbers : Int → Bool) : List Expr → Bool
  | [] => true
  | e :: es => e.isPrintable numbers && Expr.arePrintable numbers es

end

mutual

/-- Whether a statement has a text. -/
def Stmt.isPrintable (numbers : Int → Bool) : Stmt → Bool
  | .assign _ var path value =>
    isIdentifier var && path.all isIdentifier && value.isPrintable numbers
  | .branch _ condition body rest =>
    condition.isPrintable numbers && Stmt.arePrintable numbers body && rest.isPrintable numbers
  | .foreach _ var collection body =>
    isIdentifier var && collection.isPrintable numbers && Stmt.arePrintable numbers body
  | .call _ function args => isCallee function && Expr.arePrintable numbers args

/-- Whether the alternatives have a text. -/
def Alternatives.isPrintable (numbers : Int → Bool) : Alternatives → Bool
  | .done => true
  | .otherwise body => Stmt.arePrintable numbers body
  | .elif condition body rest =>
    condition.isPrintable numbers && Stmt.arePrintable numbers body && rest.isPrintable numbers

/-- Whether all statements have a text. -/
def Stmt.arePrintable (numbers : Int → Bool) : List Stmt → Bool
  | [] => true
  | s :: ss => s.isPrintable numbers && Stmt.arePrintable numbers ss

end

/-- Whether a script can be printed: its numbers are integers of a class. -/
def Program.isPrintable (numbers : Int → Bool) (p : Program) : Bool :=
  Stmt.arePrintable numbers p.statements

/-! ## Printed expressions -/

/-- The token of a binary operator. -/
def BinaryOp.token : BinaryOp → Token
  | or => .keyword .or
  | and => .keyword .and
  | mem => .keyword .mem
  | eq => .sign .eq
  | ne => .sign .ne
  | lt => .sign .lt
  | le => .sign .le
  | gt => .sign .gt
  | ge => .sign .ge
  | add => .sign .add
  | sub => .sign .sub
  | mul => .sign .mul
  | div => .sign .div
  | mod => .sign .mod

/-- How tightly the left operand of an operator must bind: operators group to the left, apart from
comparisons, which do not group. -/
def BinaryOp.leftLevel (op : BinaryOp) : Nat := if op.isComparison then op.level + 1 else op.level

/-- How tightly operands bind that members are read of: nothing binds more. -/
def atomLevel : Nat := 8

/-- The token that names the function of a call. -/
def calleeToken (function : String) : Token :=
  match variableOf? function with
  | some ident => .var ident
  | none => .name function

/-- What is written between parentheses where they are needed, and as it is elsewhere. -/
def enclose (needed : Bool) (gap : Nat) (inside : Nat → List Written) : List Written :=
  if needed then ⟨gap, .sign .openParen⟩ :: (inside 0 ++ [⟨0, .sign .closeParen⟩]) else inside gap

mutual

/-- The tokens of an expression at a place that requires it to bind at least as tightly as a level,
and after some spaces. -/
def Expr.written (level gap : Nat) : Expr → List Written
  | .str value => [⟨gap, .str value⟩]
  | .num (.int n) =>
    if n < 0 then
      enclose (UnaryOp.neg.level < level) gap fun gap =>
        [⟨gap, .sign .sub⟩, ⟨0, .number (digitsOf n.natAbs)⟩]
    else [⟨gap, .number (digitsOf n.natAbs)⟩]
  | .num (.float x) => [⟨gap, .number x.toText.toList⟩]
  | .bool b => [⟨gap, .keyword (.bool b)⟩]
  | .null => [⟨gap, .keyword .null⟩]
  | .var ident => [⟨gap, .var ident⟩]
  | .name ident => [⟨gap, .name ident⟩]
  | .list items =>
    ⟨gap, .sign .openBracket⟩ :: (Expr.writtenItems items ++ [⟨0, .sign .closeBracket⟩])
  | .member target field =>
    target.written atomLevel gap ++ [⟨0, .sign .dot⟩, ⟨0, .name field⟩]
  | .index target key =>
    target.written atomLevel gap ++
      ⟨0, .sign .openBracket⟩ :: (key.written 0 0 ++ [⟨0, .sign .closeBracket⟩])
  | .call function args =>
    ⟨gap, calleeToken function⟩ :: ⟨0, .sign .openParen⟩ ::
      (Expr.writtenItems args ++ [⟨0, .sign .closeParen⟩])
  | .binary op left right =>
    enclose (op.level < level) gap fun gap =>
      left.written op.leftLevel gap ++ ⟨1, op.token⟩ :: right.written (op.level + 1) 1
  | .unary .not operand =>
    enclose (UnaryOp.not.level < level) gap fun gap =>
      ⟨gap, .keyword .not⟩ :: operand.written UnaryOp.not.level 1
  | .unary .neg operand =>
    enclose (UnaryOp.neg.level < level) gap fun gap =>
      ⟨gap, .sign .sub⟩ :: operand.written UnaryOp.neg.level 0

/-- The tokens of expressions with commas between them. -/
def Expr.writtenItems : List Expr → List Written
  | [] => []
  | e :: es => e.written 0 0 ++ Expr.writtenMore es

/-- The tokens of expressions with a comma before each. -/
def Expr.writtenMore : List Expr → List Written
  | [] => []
  | e :: es => ⟨0, .sign .comma⟩ :: (e.written 0 1 ++ Expr.writtenMore es)

end

/-! ## Printed statements -/

/-- The tokens of the path of a field. -/
def writtenPath (path : List String) : List Written :=
  path.flatMap fun field => [⟨0, .sign .dot⟩, ⟨0, .name field⟩]

/-- A line that consists of a reserved word. -/
def writtenLine (depth : Nat) (k : Keyword) : List Written :=
  [⟨2 * depth, .keyword k⟩, ⟨0, .newline⟩]

/-- A line that a reserved word starts and an expression ends. -/
def writtenHead (depth : Nat) (k : Keyword) (e : Expr) : List Written :=
  ⟨2 * depth, .keyword k⟩ :: (e.written 0 1 ++ [⟨0, .newline⟩])

mutual

/-- The lines of a statement at a depth. -/
def Stmt.written (depth : Nat) : Stmt → List Written
  | .assign _ var path value =>
    ⟨2 * depth, .keyword .set⟩ :: ⟨1, .var var⟩ ::
      (writtenPath path ++ ⟨1, .sign .assign⟩ :: (value.written 0 1 ++ [⟨0, .newline⟩]))
  | .branch _ condition body rest =>
    writtenHead depth .branch condition ++ (Stmt.writtenAll (depth + 1) body ++ rest.written depth)
  | .foreach _ var collection body =>
    ⟨2 * depth, .keyword .foreach⟩ :: ⟨1, .var var⟩ :: ⟨1, .keyword .mem⟩ ::
      (collection.written 0 1 ++ ⟨0, .newline⟩ ::
        (Stmt.writtenAll (depth + 1) body ++ writtenLine depth .endForeach))
  | .call _ function args =>
    ⟨2 * depth, calleeToken function⟩ :: ⟨0, .sign .openParen⟩ ::
      (Expr.writtenItems args ++ [⟨0, .sign .closeParen⟩, ⟨0, .newline⟩])

/-- The lines of the alternatives of a conditional, its last line included. -/
def Alternatives.written (depth : Nat) : Alternatives → List Written
  | .done => writtenLine depth .endBranch
  | .otherwise body =>
    writtenLine depth .otherwise ++
      (Stmt.writtenAll (depth + 1) body ++ writtenLine depth .endBranch)
  | .elif condition body rest =>
    writtenHead depth .elif condition ++ (Stmt.writtenAll (depth + 1) body ++ rest.written depth)

/-- The lines of several statements. -/
def Stmt.writtenAll (depth : Nat) : List Stmt → List Written
  | [] => []
  | s :: ss => s.written depth ++ Stmt.writtenAll depth ss

end

/-- The lines of a script. -/
def Program.written (p : Program) : List Written := Stmt.writtenAll 0 p.statements

/-- The text of a script. -/
def Program.print (p : Program) : String := String.ofList (render p.written)

/-! ## Texts that words end before -/

/-- Words and numbers end before a character that continues neither. -/
theorem delimits_cons {c : Char} (rest : List Char) (hword : isIdentRest c = false)
    (hdecimal : isDecimal c = false) (hdot : c ≠ '.') : Delimits (c :: rest) := by
  constructor
  · simp [hword, hdecimal]
  · rintro d more h
    exact absurd (List.cons.inj h).1 hdot

/-! ## Tokens in a row -/

section

variable {numbers : Int → Bool}

/-- Whether tokens start with a space. -/
def Spaced (ws : List Written) : Prop := ∀ tail, ∃ more, render (ws ++ tail) = ' ' :: more

/-- Whether words and numbers end before some tokens. -/
def Stops (ws : List Written) : Prop := ∀ tail, Delimits (render (ws ++ tail))

/-- Whether tokens are legible before whatever ends words and numbers. -/
def Flows (numbers : Int → Bool) (ws : List Written) : Prop :=
  ∀ tail, Legible numbers tail → Delimits (render tail) → Legible numbers (ws ++ tail)

/-- A token after a space. -/
theorem spaced_cons (gap : Nat) (token : Token) (ws : List Written) :
    Spaced (⟨gap + 1, token⟩ :: ws) := by
  intro tail
  exact ⟨_, rfl⟩

/-- Tokens that start with a space start with it before others. -/
theorem Spaced.append {first : List Written} (h : Spaced first) (second : List Written) :
    Spaced (first ++ second) := by
  intro tail
  rw [List.append_assoc]
  exact h (second ++ tail)

/-- Words and numbers end before a space. -/
theorem Spaced.stops {ws : List Written} (h : Spaced ws) : Stops ws := by
  intro tail
  obtain ⟨more, hmore⟩ := h tail
  rw [hmore]
  exact delimits_cons more (by decide) (by decide) (by decide)

/-- Words and numbers end before a sign other than a point. -/
theorem stops_sign {s : Sign} (hs : s ≠ .dot) (ws : List Written) :
    Stops (⟨0, .sign s⟩ :: ws) := by
  intro tail
  cases s with
  | dot => exact absurd rfl hs
  | _ => exact delimits_cons _ (by decide) (by decide) (by decide)

/-- Words and numbers end before a point that no digit follows. -/
theorem stops_dot {field : String} (hfield : isIdentifier field = true) (ws : List Written) :
    Stops (⟨0, .sign .dot⟩ :: ⟨0, .name field⟩ :: ws) := by
  intro tail
  obtain ⟨c, rest, hchars, hc, -⟩ := isIdentifier_iff.mp hfield
  have hrender : render (⟨0, .sign .dot⟩ :: ⟨0, .name field⟩ :: ws ++ tail)
      = '.' :: c :: (rest ++ render (ws ++ tail)) := by
    simp [render, Written.chars, Token.chars, Sign.chars, hchars]
  rw [hrender]
  constructor
  · rintro d hd
    rw [List.head?_cons, Option.mem_some_iff] at hd
    subst hd
    decide
  · rintro d more h
    simp only [List.cons.injEq, true_and] at h
    rw [← h.1]
    exact isDecimal_of_isIdentStart hc

/-- No tokens are legible. -/
theorem flows_nil : Flows numbers [] := by
  intro tail htail _
  exact htail

/-- A word, a number or a string. -/
theorem flows_word {token : Token} (gap : Nat) (hspelled : token.WellSpelled numbers)
    (hnewline : token ≠ .newline) (hsign : ∀ s, token ≠ .sign s) :
    Flows numbers [⟨gap, token⟩] := by
  intro tail htail hdelimits
  refine ⟨⟨hspelled, ?_, fun h => absurd h hnewline⟩, htail⟩
  cases token with
  | sign s => exact absurd rfl (hsign s)
  | newline => exact absurd rfl hnewline
  | str value => trivial
  | _ => exact hdelimits

/-- A sign that starts no longer one. -/
theorem flows_sign {s : Sign} {ws : List Written} (gap : Nat) (hs : s.mayGrow = false)
    (h : Flows numbers ws) : Flows numbers (⟨gap, .sign s⟩ :: ws) := by
  intro tail htail hdelimits
  refine ⟨⟨trivial, fun hgrow => ?_, fun h => Token.noConfusion h⟩, h tail htail hdelimits⟩
  rw [hs] at hgrow
  exact absurd hgrow (by decide)

/-- A sign before a space. -/
theorem flows_sign_spaced {ws : List Written} (gap : Nat) (s : Sign) (hspaced : Spaced ws)
    (h : Flows numbers ws) : Flows numbers (⟨gap, .sign s⟩ :: ws) := by
  intro tail htail hdelimits
  refine ⟨⟨trivial, fun _ => ?_, fun h => Token.noConfusion h⟩, h tail htail hdelimits⟩
  obtain ⟨more, hmore⟩ := hspaced tail
  simp [hmore]

/-- Tokens in two parts. -/
theorem Flows.append {first second : List Written} (hfirst : Flows numbers first)
    (hstops : Stops second) (hsecond : Flows numbers second) :
    Flows numbers (first ++ second) := by
  intro tail htail hdelimits
  rw [List.append_assoc]
  exact hfirst (second ++ tail) (hsecond tail htail hdelimits) (hstops tail)

/-- A word before tokens that it ends before. -/
theorem flows_word_cons {token : Token} {ws : List Written} (gap : Nat)
    (hspelled : token.WellSpelled numbers) (hnewline : token ≠ .newline)
    (hsign : ∀ s, token ≠ .sign s) (hstops : Stops ws) (h : Flows numbers ws) :
    Flows numbers (⟨gap, token⟩ :: ws) :=
  (flows_word gap hspelled hnewline hsign).append hstops h

/-- A reserved word before tokens that it ends before. -/
theorem flows_keyword_cons {ws : List Written} (gap : Nat) (k : Keyword) (hstops : Stops ws)
    (h : Flows numbers ws) : Flows numbers (⟨gap, .keyword k⟩ :: ws) :=
  flows_word_cons gap trivial (by simp) (by simp) hstops h

/-- A variable before tokens that it ends before. -/
theorem flows_var_cons {ident : String} {ws : List Written} (gap : Nat)
    (hident : isIdentifier ident = true) (hstops : Stops ws) (h : Flows numbers ws) :
    Flows numbers (⟨gap, .var ident⟩ :: ws) :=
  flows_word_cons gap hident (by simp) (by simp) hstops h

/-! ## Legible expressions -/

/-- The function of a call is named by a variable or by a bare name. -/
theorem calleeToken_cases {function : String} (h : isCallee function = true) :
    (∃ ident, function = "$" ++ ident ∧ calleeToken function = .var ident ∧
        isIdentifier ident = true) ∨
      (calleeToken function = .name function ∧ isBareName function = true) := by
  unfold isCallee at h
  unfold calleeToken
  cases hvariable : variableOf? function with
  | none =>
      rw [hvariable] at h
      exact .inr ⟨rfl, h⟩
  | some ident =>
      rw [hvariable] at h
      refine .inl ⟨ident, ?_, rfl, h⟩
      unfold variableOf? at hvariable
      split at hvariable
      · rename_i chars hchars
        simp only [Option.some.injEq] at hvariable
        subst hvariable
        rw [← String.ofList_toList (s := function), hchars]
        simp
      · simp at hvariable

/-- A bare name is an identifier. -/
theorem isIdentifier_of_isBareName {s : String} (h : isBareName s = true) :
    isIdentifier s = true := by
  unfold isBareName at h
  rw [Bool.and_eq_true] at h
  exact h.1

/-- The function of a call before its arguments. -/
theorem flows_callee {function : String} {ws : List Written} (gap : Nat)
    (h : isCallee function = true) (hstops : Stops ws) (hflows : Flows numbers ws) :
    Flows numbers (⟨gap, calleeToken function⟩ :: ws) := by
  rcases calleeToken_cases h with ⟨ident, -, htoken, hident⟩ | ⟨htoken, hname⟩
  · rw [htoken]
    exact flows_var_cons gap hident hstops hflows
  · rw [htoken]
    exact flows_word_cons gap (isIdentifier_of_isBareName hname) (by simp) (by simp) hstops hflows

/-- A closing bracket. -/
theorem flows_close {s : Sign} (hs : s.mayGrow = false) : Flows numbers [⟨0, .sign s⟩] :=
  flows_sign 0 hs flows_nil

/-- Tokens between parentheses where they are needed. -/
theorem flows_enclose {inside : Nat → List Written} (needed : Bool) (gap : Nat)
    (h : ∀ gap, Flows numbers (inside gap)) : Flows numbers (enclose needed gap inside) := by
  unfold enclose
  split
  · exact flows_sign gap rfl ((h 0).append (stops_sign (by decide) _) (flows_close rfl))
  · exact h gap

/-- Tokens between parentheses where they are needed, after a space. -/
theorem spaced_enclose {inside : Nat → List Written} (needed : Bool) (gap : Nat)
    (h : Spaced (inside (gap + 1))) : Spaced (enclose needed (gap + 1) inside) := by
  unfold enclose
  split
  · exact spaced_cons gap _ _
  · exact h

/-- An expression starts with the spaces before it. -/
theorem spaced_written (e : Expr) (level gap : Nat) : Spaced (e.written level (gap + 1)) := by
  match e with
  | .num (.int n) =>
      rw [Expr.written]
      split
      · exact spaced_enclose _ gap (spaced_cons gap _ _)
      · exact spaced_cons gap _ _
  | .member target field | .index target key =>
      rw [Expr.written]
      exact (spaced_written target atomLevel gap).append _
  | .binary op left right =>
      rw [Expr.written]
      exact spaced_enclose _ gap ((spaced_written left op.leftLevel gap).append _)
  | .unary .not operand | .unary .neg operand =>
      rw [Expr.written]
      exact spaced_enclose _ gap (spaced_cons gap _ _)
  | .num (.float x) | .str value | .bool b | .null | .var ident | .name ident | .list items
  | .call function args => exact spaced_cons gap _ _

/-- A binary operator before its second operand. -/
theorem flows_operator (op : BinaryOp) {ws : List Written} (hspaced : Spaced ws)
    (h : Flows numbers ws) : Flows numbers (⟨1, op.token⟩ :: ws) := by
  cases op
  case or => exact flows_keyword_cons 1 .or hspaced.stops h
  case and => exact flows_keyword_cons 1 .and hspaced.stops h
  case mem => exact flows_keyword_cons 1 .mem hspaced.stops h
  all_goals exact flows_sign_spaced 1 _ hspaced h

/-- What follows the first item of a list: a comma or a closing bracket. -/
theorem stops_writtenMore (es : List Expr) {close : Sign} (hclose : close ≠ .dot) :
    Stops (Expr.writtenMore es ++ [⟨0, .sign close⟩]) := by
  cases es with
  | nil => exact stops_sign hclose _
  | cons e es => exact stops_sign (by decide) _

mutual

/-- Printed expressions are legible. -/
theorem flows_written (e : Expr) (h : e.isPrintable numbers = true) (level gap : Nat) :
    Flows numbers (e.written level gap) := by
  match e with
  | .str value => exact flows_word gap trivial (by simp) (by simp)
  | .num (.int n) =>
      have hdigits : Flows numbers [⟨0, .number (digitsOf n.natAbs)⟩] :=
        flows_word 0 ⟨n, h, rfl⟩ (by simp) (by simp)
      rw [Expr.written]
      split
      · exact flows_enclose _ gap fun gap => flows_sign gap rfl hdigits
      · exact flows_word gap ⟨n, h, rfl⟩ (by simp) (by simp)
  | .num (.float x) => exact absurd h (by simp [Expr.isPrintable])
  | .bool b => exact flows_word gap trivial (by simp) (by simp)
  | .null => exact flows_word gap trivial (by simp) (by simp)
  | .var ident => exact flows_word gap h (by simp) (by simp)
  | .name ident => exact flows_word gap (isIdentifier_of_isBareName h) (by simp) (by simp)
  | .list items =>
      rw [Expr.written]
      exact flows_sign gap rfl (flows_writtenItems items h rfl (by decide))
  | .member target field =>
      simp only [Expr.isPrintable, Bool.and_eq_true] at h
      rw [Expr.written]
      refine (flows_written target h.1 atomLevel gap).append (stops_dot h.2 []) ?_
      exact flows_sign 0 rfl (flows_word 0 h.2 (by simp) (by simp))
  | .index target key =>
      simp only [Expr.isPrintable, Bool.and_eq_true] at h
      rw [Expr.written]
      refine (flows_written target h.1 atomLevel gap).append (stops_sign (by decide) _) ?_
      refine flows_sign 0 rfl ((flows_written key h.2 0 0).append (stops_sign (by decide) _) ?_)
      exact flows_close rfl
  | .call function args =>
      simp only [Expr.isPrintable, Bool.and_eq_true] at h
      rw [Expr.written]
      refine flows_callee gap h.1 (stops_sign (by decide) _) (flows_sign 0 rfl ?_)
      exact flows_writtenItems args h.2 rfl (by decide)
  | .binary op left right =>
      simp only [Expr.isPrintable, Bool.and_eq_true] at h
      rw [Expr.written]
      refine flows_enclose _ gap fun gap => ?_
      -- the spaces around the operator keep it apart from both operands
      have hspaced := spaced_written right (op.level + 1) 0
      refine (flows_written left h.1 op.leftLevel gap).append (spaced_cons 0 _ _).stops ?_
      exact flows_operator op hspaced (flows_written right h.2 (op.level + 1) 1)
  | .unary .not operand =>
      simp only [Expr.isPrintable, Bool.and_eq_true] at h
      rw [Expr.written]
      refine flows_enclose _ gap fun gap => ?_
      have hspaced := spaced_written operand UnaryOp.not.level 0
      exact flows_keyword_cons gap .not hspaced.stops
        (flows_written operand h.2 UnaryOp.not.level 1)
  | .unary .neg operand =>
      simp only [Expr.isPrintable, Bool.and_eq_true] at h
      rw [Expr.written]
      exact flows_enclose _ gap fun gap =>
        flows_sign gap rfl (flows_written operand h.2 UnaryOp.neg.level 0)

/-- Printed items with a closing bracket are legible. -/
theorem flows_writtenItems (es : List Expr) (h : Expr.arePrintable numbers es = true)
    {close : Sign} (hgrow : close.mayGrow = false) (hclose : close ≠ .dot) :
    Flows numbers (Expr.writtenItems es ++ [⟨0, .sign close⟩]) := by
  match es with
  | [] => exact flows_close hgrow
  | e :: es =>
      simp only [Expr.arePrintable, Bool.and_eq_true] at h
      rw [Expr.writtenItems, List.append_assoc]
      exact (flows_written e h.1 0 0).append (stops_writtenMore es hclose)
        (flows_writtenMore es h.2 hgrow hclose)

/-- Printed items after the first with a closing bracket are legible. -/
theorem flows_writtenMore (es : List Expr) (h : Expr.arePrintable numbers es = true)
    {close : Sign} (hgrow : close.mayGrow = false) (hclose : close ≠ .dot) :
    Flows numbers (Expr.writtenMore es ++ [⟨0, .sign close⟩]) := by
  match es with
  | [] => exact flows_close hgrow
  | e :: es =>
      simp only [Expr.arePrintable, Bool.and_eq_true] at h
      rw [Expr.writtenMore, List.cons_append, List.append_assoc]
      exact flows_sign 0 rfl ((flows_written e h.1 0 1).append (stops_writtenMore es hclose)
        (flows_writtenMore es h.2 hgrow hclose))

end

/-! ## Legible scripts -/

/-- Whether tokens are legible at the start of a line that is not empty. -/
def StartsLine (numbers : Int → Bool) (ws : List Written) : Prop :=
  Legible numbers ws ∧ ∀ next ∈ ws.head?, next.token ≠ .newline

/-- Whether tokens are whole lines, legible before further lines. -/
def Lines (numbers : Int → Bool) (ws : List Written) : Prop :=
  ∀ tail, StartsLine numbers tail → StartsLine numbers (ws ++ tail)

/-- No lines. -/
theorem lines_nil : Lines numbers [] := by
  intro tail htail
  exact htail

/-- Lines after lines. -/
theorem Lines.append {first second : List Written} (hfirst : Lines numbers first)
    (hsecond : Lines numbers second) : Lines numbers (first ++ second) := by
  intro tail htail
  rw [List.append_assoc]
  exact hfirst _ (hsecond tail htail)

/-- One line. -/
theorem lines_line {w : Written} {ws : List Written} (h : Flows numbers (w :: ws))
    (hnewline : w.token ≠ .newline) : Lines numbers (w :: (ws ++ [⟨0, .newline⟩])) := by
  rintro tail ⟨htail, hhead⟩
  have hend : Legible numbers (⟨0, .newline⟩ :: tail) := ⟨⟨trivial, trivial, fun _ => hhead⟩, htail⟩
  have hdelimits : Delimits (render (⟨0, .newline⟩ :: tail)) :=
    delimits_cons _ (by decide) (by decide) (by decide)
  have hline := h _ hend hdelimits
  rw [List.cons_append, List.append_assoc, List.singleton_append]
  exact ⟨hline, by simpa using hnewline⟩

/-- A line that consists of a reserved word. -/
theorem lines_writtenLine (depth : Nat) (k : Keyword) : Lines numbers (writtenLine depth k) := by
  have h : Flows numbers [⟨2 * depth, .keyword k⟩] := flows_word _ trivial (by simp) (by simp)
  exact lines_line h (by simp)

/-- A line that a reserved word starts and an expression ends. -/
theorem lines_writtenHead (depth : Nat) (k : Keyword) {e : Expr}
    (h : e.isPrintable numbers = true) : Lines numbers (writtenHead depth k e) :=
  lines_line (flows_keyword_cons _ k (spaced_written e 0 0).stops (flows_written e h 0 1)) (by simp)

/-- A path before tokens that words end before. -/
theorem flows_writtenPath {path : List String} {ws : List Written}
    (h : path.all isIdentifier = true) (hstops : Stops ws) (hflows : Flows numbers ws) :
    Flows numbers (writtenPath path ++ ws) ∧ Stops (writtenPath path ++ ws) := by
  induction path with
  | nil => exact ⟨hflows, hstops⟩
  | cons field path ih =>
      rw [List.all_cons, Bool.and_eq_true] at h
      obtain ⟨hpath, hends⟩ := ih h.2
      rw [writtenPath, List.flatMap_cons, ← writtenPath]
      simp only [List.cons_append, List.nil_append]
      refine ⟨flows_sign 0 rfl ?_, stops_dot h.1 _⟩
      exact flows_word_cons 0 h.1 (by simp) (by simp) hends hpath

/-- The line of an assignment. -/
theorem lines_assign (depth line : Nat) {var : String} {path : List String} {value : Expr}
    (hvar : isIdentifier var = true) (hpath : path.all isIdentifier = true)
    (hvalue : value.isPrintable numbers = true) :
    Lines numbers ((Stmt.assign line var path value).written depth) := by
  have hspaced := spaced_written value 0 0
  have hassign : Flows numbers (⟨1, .sign .assign⟩ :: value.written 0 1) :=
    flows_sign_spaced 1 .assign hspaced (flows_written value hvalue 0 1)
  obtain ⟨hflows, hstops⟩ := flows_writtenPath hpath (spaced_cons 0 _ _).stops hassign
  have hset := flows_keyword_cons (2 * depth) .set (spaced_cons 0 _ _).stops
    (flows_var_cons 1 hvar hstops hflows)
  have hline := lines_line hset (by simp)
  simpa [Stmt.written] using hline

/-- The line of a call. -/
theorem lines_call (depth line : Nat) {function : String} {args : List Expr}
    (hfunction : isCallee function = true) (hargs : Expr.arePrintable numbers args = true) :
    Lines numbers ((Stmt.call line function args).written depth) := by
  have hitems : Flows numbers (Expr.writtenItems args ++ [⟨0, .sign .closeParen⟩]) :=
    flows_writtenItems args hargs rfl (by decide)
  have hopen : Flows numbers
      (⟨0, .sign .openParen⟩ :: (Expr.writtenItems args ++ [⟨0, .sign .closeParen⟩])) :=
    flows_sign 0 rfl hitems
  have hcall := flows_callee (2 * depth) hfunction (stops_sign (by decide) _) hopen
  have hnewline : calleeToken function ≠ .newline := by
    rcases calleeToken_cases hfunction with ⟨_, -, htoken, -⟩ | ⟨htoken, -⟩
    · simp [htoken]
    · simp [htoken]
  have hline := lines_line hcall hnewline
  simpa [Stmt.written] using hline

/-- The first line of a loop. -/
theorem lines_loopHead (depth : Nat) {var : String} {collection : Expr}
    (hvar : isIdentifier var = true) (hcollection : collection.isPrintable numbers = true) :
    Lines numbers (⟨2 * depth, .keyword .foreach⟩ :: ⟨1, .var var⟩ :: ⟨1, .keyword .mem⟩ ::
      (collection.written 0 1 ++ [⟨0, .newline⟩])) := by
  have hmem := flows_keyword_cons 1 .mem (spaced_written collection 0 0).stops
    (flows_written collection hcollection 0 1)
  have hloop := flows_keyword_cons (2 * depth) .foreach (spaced_cons 0 _ _).stops
    (flows_var_cons 1 hvar (spaced_cons 0 _ _).stops hmem)
  exact lines_line hloop (by simp)

mutual

/-- Printed statements are legible lines. -/
theorem lines_written (s : Stmt) (h : s.isPrintable numbers = true) (depth : Nat) :
    Lines numbers (s.written depth) := by
  match s with
  | .assign line var path value =>
      simp only [Stmt.isPrintable, Bool.and_eq_true] at h
      exact lines_assign depth line h.1.1 h.1.2 h.2
  | .branch line condition body rest =>
      simp only [Stmt.isPrintable, Bool.and_eq_true] at h
      rw [Stmt.written]
      exact (lines_writtenHead depth .branch h.1.1).append
        ((lines_writtenAll body h.1.2 (depth + 1)).append (lines_writtenRest rest h.2 depth))
  | .foreach line var collection body =>
      simp only [Stmt.isPrintable, Bool.and_eq_true] at h
      have hlines := (lines_loopHead depth h.1.1 h.1.2).append
        ((lines_writtenAll body h.2 (depth + 1)).append (lines_writtenLine depth .endForeach))
      simpa [Stmt.written] using hlines
  | .call line function args =>
      simp only [Stmt.isPrintable, Bool.and_eq_true] at h
      exact lines_call depth line h.1 h.2

/-- Printed alternatives are legible lines. -/
theorem lines_writtenRest (rest : Alternatives) (h : rest.isPrintable numbers = true)
    (depth : Nat) : Lines numbers (rest.written depth) := by
  match rest with
  | .done => exact lines_writtenLine depth .endBranch
  | .otherwise body =>
      rw [Alternatives.written]
      exact (lines_writtenLine depth .otherwise).append
        ((lines_writtenAll body h (depth + 1)).append (lines_writtenLine depth .endBranch))
  | .elif condition body rest =>
      simp only [Alternatives.isPrintable, Bool.and_eq_true] at h
      rw [Alternatives.written]
      exact (lines_writtenHead depth .elif h.1.1).append
        ((lines_writtenAll body h.1.2 (depth + 1)).append (lines_writtenRest rest h.2 depth))

/-- Printed blocks are legible lines. -/
theorem lines_writtenAll (ss : List Stmt) (h : Stmt.arePrintable numbers ss = true)
    (depth : Nat) : Lines numbers (Stmt.writtenAll depth ss) := by
  match ss with
  | [] => exact lines_nil
  | s :: ss =>
      simp only [Stmt.arePrintable, Bool.and_eq_true] at h
      rw [Stmt.writtenAll]
      exact (lines_written s h.1 depth).append (lines_writtenAll ss h.2 depth)

end

/-- Printed scripts are legible. -/
theorem legible_written {p : Program} (h : p.isPrintable numbers = true) :
    Legible numbers p.written := by
  have hlines := lines_writtenAll p.statements h 0 [] ⟨trivial, by simp⟩
  rw [List.append_nil] at hlines
  exact hlines.1

end

end Rubric.Script
