import Rubric.Proofs.Number.Decimal
import Rubric.Script.Lexer

/-!
# Written tokens are read back

How each token is written, what may follow it without being taken for a part of it, and that at a
place where it can stand it is read as itself.

* `readToken_chars` : the written token is read back, whatever delimiting text follows.
-/

namespace Rubric.Script

open Rubric.Number Rubric.Text

/-! ## Identifiers -/

/-- Whether a text has the shape of an identifier. -/
def isIdentifier (s : String) : Bool :=
  match s.toList with
  | [] => false
  | c :: rest => isIdentStart c && rest.all isIdentRest

/-- An identifier starts with a letter and goes on with letters and digits. -/
theorem isIdentifier_iff {s : String} :
    isIdentifier s = true ↔
      ∃ c rest, s.toList = c :: rest ∧ isIdentStart c = true ∧ ∀ d ∈ rest, isIdentRest d = true := by
  unfold isIdentifier
  cases s.toList with
  | nil => simp
  | cons c rest =>
      simp only [Bool.and_eq_true, List.all_eq_true, List.cons.injEq]
      constructor
      · rintro ⟨hc, hrest⟩
        exact ⟨c, rest, ⟨rfl, rfl⟩, hc, hrest⟩
      · rintro ⟨_, _, ⟨rfl, rfl⟩, hc, hrest⟩
        exact ⟨hc, hrest⟩

/-- All characters of an identifier may continue one. -/
theorem isIdentRest_of_mem {s : String} (h : isIdentifier s = true) :
    ∀ c ∈ s.toList, isIdentRest c = true := by
  obtain ⟨c, rest, hs, hc, hrest⟩ := isIdentifier_iff.mp h
  rw [hs]
  intro d hd
  rcases List.mem_cons.mp hd with rfl | hd
  · exact isIdentRest_of_isIdentStart d hc
  · exact hrest d hd

/-- Reserved words have the shape of identifiers. -/
theorem isIdentifier_text (k : Keyword) : isIdentifier k.text = true := by
  cases k <;> first | decide | (rename_i b; cases b <;> decide)

/-- A reserved word is found by its text. -/
theorem ofText?_text (k : Keyword) : Keyword.ofText? k.text = some k := by
  cases k <;> first | decide | (rename_i b; cases b <;> decide)

/-- The text of a reserved word determines it. -/
theorem text_of_ofText? {s : String} {k : Keyword} (h : Keyword.ofText? s = some k) :
    k.text = s := by
  have hfound := List.find?_some h
  exact eq_of_beq hfound

/-! ## Written tokens -/

namespace Token

/-- The characters that a token is written with. -/
def chars : Token → List Char
  | newline => ['\n']
  | keyword k => k.text.toList
  | name ident => ident.toList
  | var ident => '$' :: ident.toList
  | number digits => digits
  | str value => '"' :: (escape value.toList ++ ['"'])
  | sign s => s.chars

/-- Whether what a token holds can be written: identifiers are such, and numbers are the digits of
an integer, of which perhaps not all may occur. -/
def WellSpelled (numbers : Int → Bool) : Token → Prop
  | name ident => isIdentifier ident = true
  | var ident => isIdentifier ident = true
  | number digits => ∃ n, numbers n = true ∧ digits = digitsOf n.natAbs
  | _ => True

end Token

/-- A text that is no continuation of a word or a number. -/
def Delimits (rest : List Char) : Prop :=
  (∀ c ∈ rest.head?, isIdentRest c = false ∧ isDecimal c = false) ∧
    ∀ c more, rest = '.' :: c :: more → isDecimal c = false

/-- Signs that a longer one starts with. -/
def Sign.mayGrow : Sign → Bool
  | lt | gt | assign => true
  | _ => false

/-- Whether a token ends where a text follows.  A line end takes the blanks after it along, so where
it ends is settled between lines. -/
def Token.EndsBefore : Token → List Char → Prop
  | newline, _ => True
  | str _, _ => True
  | sign s, rest => s.mayGrow = true → rest.head? ≠ some '='
  | _, rest => Delimits rest

/-- Whether a token is read as itself at a place: it can stand there, and a name that is a reserved
word is not read as one. -/
def Phase.Tells (phase : Phase) (token : Token) : Prop :=
  phase.accepts token.kind = true ∧
    ∀ ident k, token = .name ident → Keyword.ofText? ident = some k →
      phase.accepts (.keyword k) = false

/-! ## Words -/

/-- A run of characters of a class ends where a text follows that does not go on with it. -/
theorem takeWhile_append_stop {p : Char → Bool} {word rest : List Char}
    (hword : ∀ c ∈ word, p c = true) (hrest : ∀ c ∈ rest.head?, p c = false) :
    (word ++ rest).takeWhile p = word := by
  rw [List.takeWhile_append_of_pos hword]
  cases rest with
  | nil => simp
  | cons c rest => simp [hrest c (by simp)]

/-- A word is read whole where a name can stand. -/
theorem readWord_name {accepts : TokenKind → Bool} {word rest : List Char}
    (haccepts : accepts .name = true) (hword : ∀ c ∈ word, isIdentRest c = true)
    (hrest : Delimits rest) :
    readWord accepts (word ++ rest) =
      match Keyword.ofText? (String.ofList word) with
      | some k => some (if accepts (.keyword k) then .keyword k else .name (String.ofList word),
          word.length)
      | none => some (.name (String.ofList word), word.length) := by
  have htake := takeWhile_append_stop hword fun c hc => (hrest.1 c hc).1
  unfold readWord
  rw [if_pos haccepts]
  cases hk : Keyword.ofText? (String.ofList word) with
  | none => simp only [htake, hk]
  | some k => simp only [htake, hk]

/-- A name is read as itself. -/
theorem readWord_ident {phase : Phase} {ident : String} {rest : List Char}
    (hident : isIdentifier ident = true) (htells : phase.Tells (.name ident))
    (hrest : Delimits rest) :
    readWord phase.accepts (ident.toList ++ rest) = some (.name ident, ident.toList.length) := by
  rw [readWord_name htells.1 (isIdentRest_of_mem hident) hrest, String.ofList_toList]
  cases hk : Keyword.ofText? ident with
  | none => rfl
  | some k => simp [htells.2 ident k rfl hk]

/-- Where reserved words but no names can stand, these are operators of an expression. -/
theorem operator_of_accepts {phase : Phase} {k : Keyword}
    (hname : phase.accepts .name = false) (hk : phase.accepts (.keyword k) = true) :
    k = .or ∨ k = .and ∨ k = .mem := by
  cases phase with
  | operator called => simpa [Phase.accepts, or_assoc] using hk
  | loopIn => simp_all [Phase.accepts]
  | _ => simp_all [Phase.accepts]

/-- No operator word starts with another. -/
theorem operator_unique {j k : Keyword} {rest : List Char} (hj : j = .or ∨ j = .and ∨ j = .mem)
    (hk : k = .or ∨ k = .and ∨ k = .mem)
    (h : j.text.toList.isPrefixOf (k.text.toList ++ rest) = true) : j = k := by
  rcases hj with rfl | rfl | rfl <;> rcases hk with rfl | rfl | rfl <;>
    first | rfl | simp [Keyword.text] at h

/-- Where no name can stand, an operator word that can is the one a text starts with. -/
theorem find?_operator {phase : Phase} {k : Keyword} {rest : List Char}
    (hname : phase.accepts .name = false) (hk : phase.accepts (.keyword k) = true) :
    (Keyword.all.find? fun j =>
      phase.accepts (.keyword j) && j.text.toList.isPrefixOf (k.text.toList ++ rest)) = some k := by
  have hop := operator_of_accepts hname hk
  cases hfound : Keyword.all.find? fun j =>
      phase.accepts (.keyword j) && j.text.toList.isPrefixOf (k.text.toList ++ rest) with
  | none =>
      have hnot := List.find?_eq_none.mp hfound k (Keyword.mem_all k)
      simp [hk] at hnot
  | some j =>
      have hj := List.find?_some hfound
      simp only [Bool.and_eq_true] at hj
      rw [operator_unique (operator_of_accepts hname hj.1) hop hj.2]

/-- A reserved word is read as itself where it can stand. -/
theorem readWord_keyword {phase : Phase} {k : Keyword} {rest : List Char}
    (hk : phase.accepts (.keyword k) = true) (hrest : Delimits rest) :
    readWord phase.accepts (k.text.toList ++ rest) = some (.keyword k, k.text.toList.length) := by
  by_cases hname : phase.accepts .name = true
  · rw [readWord_name hname (isIdentRest_of_mem (isIdentifier_text k)) hrest,
      String.ofList_toList, ofText?_text]
    simp [hk]
  · rw [Bool.not_eq_true] at hname
    unfold readWord
    simp [hname, find?_operator hname hk, String.length_toList]

/-! ## Variables, numbers and strings -/

/-- A variable is read as itself. -/
theorem readVar_ident {ident : String} {rest : List Char} (hident : isIdentifier ident = true)
    (hrest : Delimits rest) :
    readVar (ident.toList ++ rest) = some (.var ident, ident.toList.length + 1) := by
  have htake := takeWhile_append_stop (isIdentRest_of_mem hident) fun c hc => (hrest.1 c hc).1
  obtain ⟨c, more, hident', hc, -⟩ := isIdentifier_iff.mp hident
  rw [hident', List.cons_append] at htake ⊢
  unfold readVar
  simp only [hc, if_true, htake]
  rw [← hident', String.ofList_toList]

/-- The digits of ASCII are decimal digits. -/
theorem isDecimal_of_isDigit {c : Char} (h : c.isDigit = true) : isDecimal c = true := by
  simp [isDecimal, digitValue?, h]

/-- The code points of letters and underscores. -/
theorem toNat_of_isIdentStart {c : Char} (h : isIdentStart c = true) :
    (65 ≤ c.toNat ∧ c.toNat ≤ 90) ∨ c.toNat = 95 ∨ (97 ≤ c.toNat ∧ c.toNat ≤ 122) := by
  unfold isIdentStart Char.isAlpha Char.isUpper Char.isLower at h
  simp only [Bool.or_eq_true, Bool.and_eq_true, decide_eq_true_eq, beq_iff_eq] at h
  rcases h with (h | h) | rfl
  · exact .inl h
  · exact .inr (.inr h)
  · exact .inr (.inl rfl)

/-- Digits do not start identifiers. -/
theorem isIdentStart_of_isDigit {c : Char} (h : c.isDigit = true) : isIdentStart c = false := by
  have hdigit : 48 ≤ c.toNat ∧ c.toNat ≤ 57 := Char.isDigit_iff_toNat.mp h
  rw [Bool.eq_false_iff]
  intro hstart
  have hletter := toNat_of_isIdentStart hstart
  omega

/-- Letters are no decimal digits. -/
theorem isDecimal_of_isIdentStart {c : Char} (h : isIdentStart c = true) : isDecimal c = false := by
  have hbound : c.toNat < 128 := by
    have hletter := toNat_of_isIdentStart h
    omega
  have hdigit : c.isDigit = false := by
    cases hc : c.isDigit with
    | false => rfl
    | true => simp [isIdentStart_of_isDigit hc] at h
  have hzeros : ∀ first ∈ digitZeros, 128 ≤ first := by decide
  have hnone : (digitZeros.find? fun first => first ≤ c.toNat && c.toNat < first + 10) = none := by
    rw [List.find?_eq_none]
    intro first hfirst
    have := hzeros first hfirst
    simp only [Bool.and_eq_true, decide_eq_true_eq, not_and]
    omega
  simp [isDecimal, digitValue?, hdigit, hnone]

/-- Decimal digits do not start identifiers. -/
theorem isIdentStart_of_isDecimal {c : Char} (h : isDecimal c = true) : isIdentStart c = false := by
  cases hstart : isIdentStart c with
  | false => rfl
  | true =>
      rw [isDecimal_of_isIdentStart hstart] at h
      exact absurd h (by decide)

/-- A whole number ends before a text that does not go on with it. -/
theorem numberLength_append {digits rest : List Char} (hdigits : ∀ c ∈ digits, c.isDigit = true)
    (hrest : Delimits rest) : numberLength (digits ++ rest) = digits.length := by
  have htake := takeWhile_append_stop (fun c hc => isDecimal_of_isDigit (hdigits c hc))
    fun c hc => (hrest.1 c hc).2
  unfold numberLength
  simp only [htake, List.drop_left]
  split
  · rename_i more
    have hnone : more.takeWhile isDecimal = [] := by
      cases more with
      | nil => rfl
      | cons c more => simp [hrest.2 c more rfl]
    simp [hnone]
  · rfl

/-- A closing quote ends a string. -/
theorem stringLength?_quote (quote : Char) (rest : List Char) :
    stringLength? quote (quote :: rest) = some 1 := by
  unfold stringLength?
  simp

/-- An escape is two characters of a string. -/
theorem stringLength?_escaped {quote : Char} (c : Char) (rest : List Char) (hquote : quote ≠ '\\')
    (hc : c ≠ '\n') :
    stringLength? quote ('\\' :: c :: rest) = (stringLength? quote rest).map (· + 2) := by
  rw [stringLength?]
  simp [hquote.symm, hc]

/-- A plain character is one character of a string. -/
theorem stringLength?_plain {quote c : Char} (rest : List Char) (hquote : c ≠ quote)
    (hline : c ≠ '\n') (hescape : c ≠ '\\') :
    stringLength? quote (c :: rest) = (stringLength? quote rest).map (· + 1) := by
  rw [stringLength?.eq_def]
  simp [hquote, hline, hescape]

/-- A written string ends at its closing quote. -/
theorem stringLength?_escape (cs rest : List Char) :
    stringLength? '"' (escape cs ++ '"' :: rest) = some ((escape cs).length + 1) := by
  induction cs with
  | nil => exact stringLength?_quote '"' rest
  | cons c cs ih =>
      rw [escape, List.flatMap_cons, ← escape, List.append_assoc, List.length_append]
      unfold escapeChar
      split
      · rename_i hc
        have hline : c ≠ '\n' := by
          rintro rfl
          simp at hc
        simp only [List.cons_append, List.nil_append, List.length_cons, List.length_nil]
        rw [stringLength?_escaped c _ (by decide) hline, ih, Option.map_some, Option.some.injEq]
        omega
      · rename_i hc
        simp only [Bool.or_eq_true, decide_eq_true_eq, not_or] at hc
        split
        · simp only [List.cons_append, List.nil_append, List.length_cons, List.length_nil]
          rw [stringLength?_escaped 'n' _ (by decide) (by decide), ih, Option.map_some,
            Option.some.injEq]
          omega
        · rename_i hline
          simp only [List.cons_append, List.nil_append, List.length_cons, List.length_nil]
          rw [stringLength?_plain _ hc.2 hline hc.1, ih, Option.map_some, Option.some.injEq]
          omega

/-- A string is read as its value. -/
theorem readString_escape (value : String) (rest : List Char) :
    readString '"' (escape value.toList ++ '"' :: rest)
      = some (.str value, (escape value.toList).length + 2) := by
  unfold readString
  rw [stringLength?_escape, Option.map_some, Nat.add_sub_cancel, List.take_left,
    unescape_escape, String.ofList_toList]

/-! ## Signs -/

/-- A sign starts with a character that starts nothing else. -/
theorem Sign.chars_eq (s : Sign) :
    ∃ c more, s.chars = c :: more ∧ isIdentStart c = false ∧ isDecimal c = false ∧ c ≠ '$' ∧
      (c ≠ '"' ∧ c ≠ '\'') ∧ (c ≠ '\n' ∧ c ≠ '\r') := by
  cases s <;> exact ⟨_, _, rfl, by decide⟩

/-- A sign is read as itself where it can stand, and where no longer one follows. -/
theorem readSign_chars {accepts : TokenKind → Bool} {sign : Sign} {rest : List Char}
    (haccepts : accepts (.sign sign) = true)
    (hrest : sign.mayGrow = true → rest.head? ≠ some '=') :
    readSign accepts (sign.chars ++ rest) = some (.sign sign, sign.chars.length) := by
  cases rest with
  | nil => cases sign <;> simp [readSign, Sign.all, Sign.chars, haccepts]
  | cons c rest =>
      have hc : sign.mayGrow = true → ¬ '=' = c := fun hgrow h => hrest hgrow (by rw [← h]; rfl)
      cases sign <;> simp_all [readSign, Sign.all, Sign.chars, Sign.mayGrow]

/-! ## Tokens -/

/-- A written token other than a line end is read back at a place where it can stand. -/
theorem readToken_chars {numbers : Int → Bool} {phase : Phase} {token : Token} {rest : List Char}
    (hnewline : token ≠ .newline) (hspelled : token.WellSpelled numbers) (htells : phase.Tells token)
    (hends : token.EndsBefore rest) :
    readToken phase.accepts (token.chars ++ rest) = some (token, token.chars.length) := by
  cases token with
  | newline => exact absurd rfl hnewline
  | keyword k =>
      obtain ⟨c, more, htext, hc, -⟩ := isIdentifier_iff.mp (isIdentifier_text k)
      have hread : readWord phase.accepts (k.text.toList ++ rest) = _ :=
        readWord_keyword htells.1 hends
      simp only [Token.chars, htext, List.cons_append] at hread ⊢
      simp [readToken, hc, hread]
  | name ident =>
      obtain ⟨c, more, htext, hc, -⟩ := isIdentifier_iff.mp hspelled
      have hread := readWord_ident hspelled htells hends
      simp only [Token.chars, htext, List.cons_append] at hread ⊢
      simp [readToken, hc, hread]
  | var ident =>
      have hread := readVar_ident hspelled hends
      have hdollar : isIdentStart '$' = false := by decide
      simp [Token.chars, readToken, hdollar, hread, keepAccepted, htells.1]
  | number digits =>
      obtain ⟨n, -, rfl⟩ := hspelled
      have hlength : numberLength (digitsOf n.natAbs ++ rest) = (digitsOf n.natAbs).length :=
        numberLength_append (fun _ h => isDigit_of_mem_digitsOf h) hends
      cases hdigits : digitsOf n.natAbs with
      | nil => exact absurd hdigits Nat.toDigits_ne_nil
      | cons d digits =>
          have hd : d.isDigit = true := isDigit_of_mem_digitsOf (n := n.natAbs) (by simp [hdigits])
          have hdollar : d ≠ '$' := by
            rintro rfl
            simp at hd
          rw [hdigits, List.cons_append] at hlength
          have haccepts : phase.accepts (Token.number (d :: digits)).kind = true := htells.1
          simp [Token.chars, readToken, isIdentStart_of_isDigit hd, hdollar,
            isDecimal_of_isDigit hd, keepAccepted, hlength, haccepts]
  | str value =>
      have hquote : isIdentStart '"' = false := by decide
      have hdecimal : isDecimal '"' = false := by decide
      simp [Token.chars, readToken, hquote, hdecimal, readString_escape, keepAccepted, htells.1]
  | sign s =>
      have hread := readSign_chars htells.1 hends
      obtain ⟨c, more, hchars, hstart, hdecimal, hdollar, hquotes, hline⟩ := s.chars_eq
      simp only [Token.chars, hchars, List.cons_append] at hread ⊢
      simp [readToken, hstart, hdecimal, hdollar, hquotes, hline, hread]

end Rubric.Script
