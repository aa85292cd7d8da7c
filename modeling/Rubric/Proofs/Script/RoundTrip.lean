import Mathlib.Algebra.Group.Nat.Defs
import Rubric.Proofs.Script.Reading

/-!
# Parsing what was printed

A printed script is parsed back to the statements it was printed from, whatever their nesting and
their expressions, provided that its integers have no more digits than a numeral may have.

* `parse_print` : printing and then parsing gives the same statements, line numbers aside;
* `parse_print_oversized` : an integer with too many digits is printed, but not parsed back.
-/

namespace Rubric.Script

open Rubric.Number Rubric.Text

/-- Whether an integer has no more digits than a numeral may have. -/
def isReadableInt (n : Int) : Bool := decide ((digitsOf n.natAbs).length ≤ integerDigitLimit)

/-- The tokens of a printed script, as the machine sees them. -/
theorem scan_print {numbers : Int → Bool} {p : Program} (h : p.isPrintable numbers = true) :
    ∃ lexemes statements, tokens p.print.toList = ⟨lexemes, none⟩ ∧
      lexemes.map Lexeme.token = p.written.map Written.token ∧
      ParseState.initial.run lexemes = .ok ⟨.lineStart, statements.reverse, []⟩ ∧
      Stmt.unlinedAll statements = Stmt.unlinedAll p.statements := by
  have hleads := Stmt.areRead p.statements h 0 [] []
  obtain ⟨lexemes, final, hread, htokens, hrun, statements, hstatements, rfl⟩ :=
    scan_render ⟨1, 1⟩ Follows.start (legible_written h) hleads
  rw [List.append_nil] at hrun
  refine ⟨lexemes, statements, ?_, htokens, hrun, hstatements⟩
  rw [Program.print, String.toList_ofList]
  exact hread

/-- A printed script is parsed unless one of its numbers is too long. -/
theorem parse_print_eq {numbers : Int → Bool} {p : Program} (h : p.isPrintable numbers = true) :
    ∃ (lexemes : List Lexeme) (statements : List Stmt),
      lexemes.map Lexeme.token = p.written.map Written.token ∧
      Stmt.unlinedAll statements = Stmt.unlinedAll p.statements ∧
      parse p.print =
        match lexemes.findSome? oversized? with
        | some count => .error (.malformed (.oversizedNumber count))
        | none => .ok ⟨statements, p.print⟩ := by
  obtain ⟨lexemes, statements, hread, htokens, hrun, hstatements⟩ := scan_print h
  refine ⟨lexemes, statements, htokens, hstatements, ?_⟩
  unfold parse parseStream
  rw [hread, hrun]
  simp only [bind, Except.bind, ParseState.isComplete, List.isEmpty_nil, if_true,
    List.reverse_reverse]
  cases lexemes.findSome? oversized? <;> rfl

/-- The tokens of legible text can be written. -/
theorem Legible.wellSpelled {numbers : Int → Bool} {ws : List Written}
    (h : Legible numbers ws) : ∀ w ∈ ws, w.token.WellSpelled numbers := by
  induction ws with
  | nil => simp
  | cons w ws ih => exact List.forall_mem_cons.mpr ⟨h.1.1, ih h.2⟩

/-- The digits of readable integers are not too many. -/
theorem oversized?_eq_none {lexeme : Lexeme} (h : lexeme.token.WellSpelled isReadableInt) :
    oversized? lexeme = none := by
  unfold oversized?
  split
  · rename_i digits htoken
    rw [htoken] at h
    obtain ⟨n, hn, rfl⟩ := h
    have hlength : (digitsOf n.natAbs).length ≤ integerDigitLimit := of_decide_eq_true hn
    simp [Nat.not_lt.mpr hlength]
  · rfl

/-- Printing a script and parsing the text gives the same statements, line numbers aside. -/
theorem parse_print (p : Program) (h : p.isPrintable isReadableInt = true) :
    ∃ q, parse p.print = .ok q ∧ q.source = p.print ∧
      Stmt.unlinedAll q.statements = Stmt.unlinedAll p.statements := by
  obtain ⟨lexemes, statements, htokens, hstatements, hparse⟩ := parse_print_eq h
  have hfind : lexemes.findSome? oversized? = none := by
    rw [List.findSome?_eq_none_iff]
    intro lexeme hlexeme
    have hmem : lexeme.token ∈ p.written.map Written.token := by
      rw [← htokens]
      exact List.mem_map_of_mem hlexeme
    obtain ⟨w, hw, htoken⟩ := List.mem_map.mp hmem
    have hspelled := (legible_written h).wellSpelled w hw
    rw [htoken] at hspelled
    exact oversized?_eq_none hspelled
  rw [hfind] at hparse
  exact ⟨⟨statements, p.print⟩, hparse, rfl, hstatements⟩

/-- Statements of all kinds, with operands that need parentheses and reserved words as members, are
printed and parsed back. -/
theorem parse_print_nested :
    ∃ p : Program, p.isPrintable isReadableInt = true ∧ p.statements.length = 2 ∧
      ∃ q, parse p.print = .ok q ∧ q.source = p.print ∧
        Stmt.unlinedAll q.statements = Stmt.unlinedAll p.statements := by
  let difference : Expr :=
    .binary .sub (.num (.int (-3))) (.binary .sub (.var "x") (.unary .not (.name "y")))
  let p : Program :=
    ⟨[.assign 1 "x" ["IF", "b"] difference,
      .branch 2 (.binary .eq (.binary .eq .null (.bool true)) (.member (.num (.int (-1))) "IN"))
        [.foreach 3 "r" (.list [.str "a\"", .index (.var "x") difference]) []]
        (.elif (.call "f" [difference]) [] (.otherwise [.call 4 "$g" []]))], ""⟩
  exact ⟨p, by decide, rfl, parse_print p (by decide)⟩

/-- A printed integer with too many digits keeps a script from being parsed. -/
theorem parse_print_oversized {numbers : Int → Bool} {p : Program}
    (h : p.isPrintable numbers = true) {w : Written} {n : Nat} (hw : w ∈ p.written)
    (htoken : w.token = .number (digitsOf n)) (hlength : integerDigitLimit < (digitsOf n).length) :
    ∃ count, parse p.print = .error (.malformed (.oversizedNumber count)) := by
  obtain ⟨lexemes, statements, htokens, -, hparse⟩ := parse_print_eq h
  have hmem : Token.number (digitsOf n) ∈ lexemes.map Lexeme.token := by
    rw [htokens, ← htoken]
    exact List.mem_map_of_mem hw
  obtain ⟨lexeme, hlexeme, hnumber⟩ := List.mem_map.mp hmem
  cases hfind : lexemes.findSome? oversized? with
  | some count =>
      rw [hfind] at hparse
      exact ⟨count, hparse⟩
  | none =>
      have hnone := List.findSome?_eq_none_iff.mp hfind lexeme hlexeme
      simp [oversized?, hnumber, hlength, dot_notMem_digitsOf] at hnone

/-- The least integer that has too many digits, as the value of a variable. -/
def oversizedProgram : Program :=
  ⟨[.assign 1 "x" [] (.num (.int (10 ^ integerDigitLimit : Nat)))], ""⟩

/-- An integer with too many digits can be printed, but is not parsed back. -/
theorem not_parse_print_of_any_integer :
    ¬ ∀ p : Program, p.isPrintable (fun _ => true) = true →
      ∃ q, parse p.print = .ok q ∧ Stmt.unlinedAll q.statements = Stmt.unlinedAll p.statements := by
  intro hall
  obtain ⟨q, hq, -⟩ := hall oversizedProgram rfl
  have hlength : integerDigitLimit < (digitsOf (10 ^ integerDigitLimit)).length := by
    rw [← Nat.not_le, digitsOf, Nat.length_toDigits_le_iff (by decide) (by decide)]
    exact Nat.lt_irrefl _
  have hwritten : ∀ n : Nat, (⟨1, .number (digitsOf n)⟩ : Written)
      ∈ (⟨[.assign 1 "x" [] (.num (.int n))], ""⟩ : Program).written := by
    intro n
    have hsign : ¬ (n : Int) < 0 := by omega
    simp [Program.written, Stmt.writtenAll, Stmt.written, writtenPath, Expr.written, hsign]
  have hprintable : oversizedProgram.isPrintable (fun _ => true) = true := rfl
  obtain ⟨count, hcount⟩ := parse_print_oversized hprintable (hwritten _) rfl hlength
  rw [hcount] at hq
  exact absurd hq (by simp)

end Rubric.Script
