import Rubric.Proofs.Value.RenamedReads
import Rubric.Value.Template

/-!
# Templates with renamed tags

A template filled with a value whose tags are renamed gives the same text.  What is left to take values
from has its tags renamed all along.
-/

namespace Rubric

open Value (retagEntries)

variable {ρ : Tag → Tag} {σ : Store} {next : Tag}

namespace Supply

/-- A supply with the tags of its values renamed. -/
def retag (ρ : Tag → Tag) (s : Supply) : Supply :=
  ⟨s.rest.map (Value.retag ρ), s.keyed.map (retagEntries ρ), s.mayRemain⟩

/-- The supply that a value is. -/
theorem ofValue_retag (v : Value) :
    ofValue (σ.retag ρ next) (v.retag ρ) = (ofValue σ v).retag ρ := by
  cases v with
  | tuple items => simp only [Value.retag, ofValue, retag, Value.retagAll_eq_map, Option.map_none]
  | row _ _ items => simp only [Value.retag, ofValue, retag, Value.retagAll_eq_map, Option.map_none]
  | mapping address =>
      simp only [Value.retag, ofValue, retag, Store.entries_retag, List.map_cons, List.map_nil, Option.map_some]
  | _ => rfl

/-- The next value. -/
theorem next_retag (s : Supply) :
    (s.retag ρ).next = s.next.map fun taken => (taken.1.retag ρ, taken.2.retag ρ) := by
  obtain ⟨rest, keyed, mayRemain⟩ := s
  cases rest <;> rfl

end Supply

/-- What is read before a letter, with the tags of what is left to take values from renamed. -/
def retagRead {α β : Type} (ρ : Tag → Tag) (read : α × Supply × β) : α × Supply × β :=
  (read.1, read.2.1.retag ρ, read.2.2)

/-- Reading a width. -/
theorem readWidth_retag (c : Conversion) (s : Supply) (cs : List Char) :
    readWidth c (s.retag ρ) cs = (readWidth c s cs).map (retagRead ρ) := by
  unfold readWidth
  split
  · rw [Supply.next_retag]
    cases s.next with
    | error fault => rfl
    | ok taken =>
        simp only [Except.map, Value.asInt?_retag]
        cases taken.1.asInt? with
        | none => rfl
        | some n =>
            dsimp only
            cases c.withWidth n <;> rfl
  · dsimp only
    split <;> rfl

/-- Reading a precision. -/
theorem readPrecision_retag (c : Conversion) (s : Supply) (cs : List Char) :
    readPrecision c (s.retag ρ) cs = (readPrecision c s cs).map (retagRead ρ) := by
  unfold readPrecision
  split
  · rw [Supply.next_retag]
    cases s.next with
    | error fault => rfl
    | ok taken =>
        simp only [Except.map, Value.asInt?_retag]
        cases taken.1.asInt? with
        | none => rfl
        | some n =>
            dsimp only
            cases c.withPrecision n <;> rfl
  · dsimp only
    split <;> rfl
  · rfl

/-- Choosing by a key. -/
theorem chooseKeyed_retag (hρ : Function.Injective ρ) (s : Supply) (key : String) :
    chooseKeyed (σ.retag ρ next) (s.retag ρ) key = (chooseKeyed σ s key).map (.retag ρ) := by
  obtain ⟨rest, keyed, mayRemain⟩ := s
  cases keyed with
  | none => rfl
  | some entries =>
      have hlookup : Value.lookup (σ.retag ρ next) (.str key) (retagEntries ρ entries)
          = (Value.lookup σ (.str key) entries).map (Option.map (Value.retag ρ)) :=
        Value.lookup_retag hρ (.str key) entries
      simp only [chooseKeyed, Supply.retag, Option.map_some, hlookup]
      rcases Value.lookup σ (.str key) entries with fault | _ | v <;> rfl

/-- A width, then a precision, then what comes after them. -/
theorem readNumbers_retag {rest : Conversion × Supply × List Char → Except Fault (Directive × Supply)}
    (hrest : ∀ c s cs, rest (c, s.retag ρ, cs) = (rest (c, s, cs)).map fun read => (read.1, read.2.retag ρ))
    (c : Conversion) (s : Supply) (cs : List Char) :
    ((readWidth c (s.retag ρ) cs).bind fun wide => (readPrecision wide.1 wide.2.1 wide.2.2).bind rest)
      = ((readWidth c s cs).bind fun wide => (readPrecision wide.1 wide.2.1 wide.2.2).bind rest).map
        fun read => (read.1, read.2.retag ρ) := by
  rw [readWidth_retag]
  cases readWidth c s cs with
  | error fault => rfl
  | ok wide =>
      show (readPrecision wide.1 (wide.2.1.retag ρ) wide.2.2).bind rest
        = ((readPrecision wide.1 wide.2.1 wide.2.2).bind rest).map _
      rw [readPrecision_retag]
      cases readPrecision wide.1 wide.2.1 wide.2.2 with
      | error fault => rfl
      | ok precise => exact hrest _ _ _

/-- Reading what follows a percent sign. -/
theorem readDirective_retag (hρ : Function.Injective ρ) (s : Supply) (cs : List Char) :
    readDirective (σ.retag ρ next) (s.retag ρ) cs
      = (readDirective σ s cs).map fun read => (read.1, read.2.retag ρ) := by
  have hremains : (s.retag ρ).mayRemain = s.mayRemain := rfl
  unfold readDirective
  simp only [bind, hremains]
  split
  · split
    · cases readKey 0 [] _ with
      | none => rfl
      | some read =>
          simp only [chooseKeyed_retag hρ]
          cases chooseKeyed σ s (String.ofList read.1) with
          | error fault => rfl
          | ok chosen =>
              refine readNumbers_retag (fun c s cs => ?_) _ chosen _
              dsimp only
              split <;> rfl
    · rfl
  · refine readNumbers_retag (fun c s cs => ?_) _ s _
    dsimp only
    split <;> rfl

/-- The text of one value. -/
theorem convert_retag (hρ : Function.Injective ρ) (c : Conversion) (letter : Char) (index : Nat) (v : Value) :
    convert (σ.retag ρ next) c letter index (v.retag ρ) = convert σ c letter index v := by
  have hname : (v.retag ρ).typeName (σ.retag ρ next) = v.typeName σ := Value.typeName_retag v
  have hinteger (letter : Char) :
      integerForDecimal (σ.retag ρ next) letter (v.retag ρ) = integerForDecimal σ letter v := by
    cases v <;> simp only [Value.retag] at hname <;>
      simp only [Value.retag, integerForDecimal, Value.asInt?, hname]
  have hreal : realForDecimal (σ.retag ρ next) (v.retag ρ) = realForDecimal σ v := by
    cases v <;> simp only [Value.retag] at hname <;>
      simp only [Value.retag, realForDecimal, Value.asInt?, hname]
  have hcharacter : characterOf (v.retag ρ) = characterOf v := by
    cases v <;> simp only [Value.retag, characterOf, Value.asInt?]
  unfold convert
  rw [Value.text_retag hρ, Value.shown_retag hρ, hinteger, hreal, hcharacter, hname, Value.asInt?_retag]

/-- The rest of a template. -/
theorem fillFrom_retag (hρ : Function.Injective ρ) (size fuel : Nat) : ∀ (s : Supply) (cs : List Char),
    fillFrom (σ.retag ρ next) size fuel (s.retag ρ) cs = fillFrom σ size fuel s cs := by
  induction fuel with
  | zero =>
      intro s cs
      cases cs with
      | nil => simp only [fillFrom, Supply.retag, List.isEmpty_map]
      | cons c cs => rfl
  | succ fuel ih =>
      intro s cs
      unfold fillFrom
      split
      · simp only [Supply.retag, List.isEmpty_map]
      · rename_i hzero _
        cases hzero
      · rename_i heq
        cases heq
        simp only [ih]
      · rename_i heq
        cases heq
        rw [readDirective_retag hρ]
        cases readDirective σ s _ with
        | error fault => rfl
        | ok read =>
            simp only [Except.map, Supply.next_retag]
            cases read.2.next with
            | error fault => rfl
            | ok taken => simp only [convert_retag hρ, ih]
      · rename_i heq
        cases heq
        simp only [ih]

/-- A template filled with a value. -/
theorem fillTemplate_retag (hρ : Function.Injective ρ) (template : String) (v : Value) :
    fillTemplate (σ.retag ρ next) template (v.retag ρ) = fillTemplate σ template v := by
  rw [fillTemplate, fillTemplate, Supply.ofValue_retag, fillFrom_retag hρ]

end Rubric
