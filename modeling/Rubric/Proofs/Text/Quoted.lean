import Mathlib.Algebra.Group.Nat.Defs
import Rubric.Text.Quoted

/-!
# Quoted texts and their texts

A text can be read back from how it is shown between quotes, so different texts are shown differently.

* `hexValue_hexPadded` : the number of a padded escape;
* `readQuoteChar_quoteChar` : a character inside quotes is read back, whatever follows it;
* `quoted_injective` : different texts are shown differently.
-/

namespace Rubric.Text

/-! ## Hexadecimal digits -/

/-- The number that a hexadecimal digit stands for. -/
def hexDigitValue (c : Char) : Nat :=
  if c.isDigit then c.toNat - '0'.toNat else c.toNat - 'a'.toNat + 10

/-- The number that hexadecimal digits denote. -/
def hexValue (cs : List Char) : Nat := cs.foldl (fun n c => 16 * n + hexDigitValue c) 0

/-- A digit stands for its number. -/
theorem hexDigitValue_digitChar {d : Nat} (h : d < 16) : hexDigitValue d.digitChar = d := by
  have hall : ∀ d : Fin 16, hexDigitValue d.val.digitChar = d := by decide
  exact hall ⟨d, h⟩

/-- One more digit. -/
theorem hexValue_concat (cs : List Char) {d : Nat} (h : d < 16) :
    hexValue (cs ++ [d.digitChar]) = 16 * hexValue cs + d := by
  rw [hexValue, List.foldl_append, List.foldl_cons, List.foldl_nil, hexDigitValue_digitChar h]
  rfl

/-- Written digits denote their number. -/
theorem hexValue_toDigits (n : Nat) : hexValue (Nat.toDigits 16 n) = n := by
  induction n using Nat.strongRecOn with
  | ind n ih =>
      rw [Nat.toDigits_eq_if (by decide)]
      split
      · rename_i h
        exact (hexValue_concat [] h).trans (Nat.zero_add n)
      · rw [hexValue_concat _ (Nat.mod_lt n (by decide)), ih (n / 16) (by omega)]
        omega

/-- So do they where they are padded. -/
theorem hexValue_hexPadded (width n : Nat) : hexValue (hexPadded width n) = n := by
  have hzeros : ∀ k, (List.replicate k '0').foldl (fun n c => 16 * n + hexDigitValue c) 0 = 0 := by
    intro k
    induction k with
    | zero => rfl
    | succ k ih => exact ih
  rw [hexPadded, padLeft, hexValue, List.foldl_append, hzeros]
  exact hexValue_toDigits n

/-- A number of few digits is padded to the width. -/
theorem length_hexPadded {width n : Nat} (hwidth : 0 < width) (h : n < 16 ^ width) :
    (hexPadded width n).length = width := by
  have hlength := (Nat.length_toDigits_le_iff (by decide) hwidth).mpr h
  rw [hexPadded, padLeft, List.length_append, List.length_replicate]
  omega

/-! ## Characters inside quotes -/

/-- The character that an escape of a code begins with, after the letter of its width. -/
def readCode (width : Nat) (cs : List Char) : Option (Char × List Char) :=
  some (Char.ofNat (hexValue (cs.take width)), cs.drop width)

/-- The first character of a text inside quotes, and what follows it. -/
def readQuoteChar : List Char → Option (Char × List Char)
  | [] => none
  | '\\' :: c :: rest =>
    match c with
    | 'n' => some ('\n', rest)
    | 'r' => some ('\r', rest)
    | 't' => some ('\t', rest)
    | 'x' => readCode 2 rest
    | 'u' => readCode 4 rest
    | 'U' => readCode 8 rest
    | c => some (c, rest)
  | c :: rest => some (c, rest)

/-- The code of a character is read back. -/
theorem readCode_hexPadded {width : Nat} (hwidth : 0 < width) {c : Char} (h : c.toNat < 16 ^ width)
    (rest : List Char) : readCode width (hexPadded width c.toNat ++ rest) = some (c, rest) := by
  have hlength := length_hexPadded hwidth h
  rw [readCode, List.take_left' hlength, List.drop_left' hlength, hexValue_hexPadded, Char.ofNat_toNat]

/-- The escape of a code is read back. -/
theorem readQuoteChar_codeEscape (c : Char) (rest : List Char) :
    readQuoteChar (codeEscape c ++ rest) = some (c, rest) := by
  rw [codeEscape]
  split
  · exact readCode_hexPadded (by decide) ‹_› rest
  · split
    · exact readCode_hexPadded (by decide) ‹_› rest
    · exact readCode_hexPadded (by decide) c.val.toNat_lt rest

/-- A character inside quotes is read back, whatever follows it. -/
theorem readQuoteChar_quoteChar {quote : Char} (hquote : quote = '\'' ∨ quote = '"') (c : Char)
    (rest : List Char) : readQuoteChar (quoteChar quote c ++ rest) = some (c, rest) := by
  simp only [quoteChar, Bool.or_eq_true, decide_eq_true_eq]
  split
  · rename_i h
    obtain rfl | rfl | rfl : c = '\'' ∨ c = '"' ∨ c = '\\' := by
      rcases h with rfl | rfl
      · exact hquote.imp_right .inl
      · exact .inr (.inr rfl)
    all_goals rfl
  · rename_i h
    split
    · rename_i hc
      rw [hc]
      rfl
    split
    · rename_i hc
      rw [hc]
      rfl
    split
    · rename_i hc
      rw [hc]
      rfl
    split
    · have hbackslash : c ≠ '\\' := fun hc => h (.inr hc)
      cases rest <;> simp [readQuoteChar, hbackslash]
    · exact readQuoteChar_codeEscape c rest

/-- Inside the same quotes different texts are shown differently. -/
theorem flatMap_quoteChar_injective {quote : Char} (hquote : quote = '\'' ∨ quote = '"') :
    ∀ {cs ds : List Char}, cs.flatMap (quoteChar quote) = ds.flatMap (quoteChar quote) → cs = ds
  | [], [], _ => rfl
  | [], d :: ds, h => by
      have hread := readQuoteChar_quoteChar hquote d (ds.flatMap (quoteChar quote))
      rw [← List.flatMap_cons, ← h] at hread
      cases hread
  | c :: cs, [], h => by
      have hread := readQuoteChar_quoteChar hquote c (cs.flatMap (quoteChar quote))
      rw [← List.flatMap_cons, h] at hread
      cases hread
  | c :: cs, d :: ds, h => by
      have hread := readQuoteChar_quoteChar hquote c (cs.flatMap (quoteChar quote))
      rw [← List.flatMap_cons, h, List.flatMap_cons, readQuoteChar_quoteChar hquote] at hread
      obtain ⟨rfl, hrest⟩ := Prod.mk.inj (Option.some.inj hread)
      rw [flatMap_quoteChar_injective hquote hrest.symm]

/-- A text is shown in single or double quotes. -/
theorem quoteFor_eq (cs : List Char) : quoteFor cs = '\'' ∨ quoteFor cs = '"' := by
  rw [quoteFor]
  split
  · exact .inr rfl
  · exact .inl rfl

/-- Different texts are shown differently. -/
theorem quoted_injective : Function.Injective quoted := by
  intro s t h
  have hchars : quotedChars s.toList = quotedChars t.toList := String.ofList_injective h
  rw [quotedChars, quotedChars, List.cons_append, List.cons_append] at hchars
  obtain ⟨hquote, hinside⟩ := List.cons.inj hchars
  rw [hquote] at hinside
  exact String.toList_injective
    (flatMap_quoteChar_injective (quoteFor_eq _) (List.append_cancel_right hinside))

end Rubric.Text
