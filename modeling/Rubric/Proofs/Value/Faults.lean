import Rubric.Proofs.Sequencing
import Rubric.Record.Call

/-!
# Faults of operations on values

Operations on values fail for reasons that lie in the values.  They never say that a name of a script
stands for nothing, and they know no lines.

* `Value.raises_call`, `Selector.raises_read`, `Target.raises_write` : whatever is called, read or
  written, the fault is one of values.
-/

namespace Rubric

/-- Whether a fault lies in the values, and not in the names or the text of a script. -/
def Fault.isOfValues : Fault → Bool
  | .name (.undefinedVariable _) => false
  | .name (.unknownName _) => false
  | .name (.unknownFunction _) => false
  | .name (.assignToBinding _) => false
  | .name (.shadowing _) => false
  | .malformed _ => false
  | .atLine _ _ => false
  | _ => true

/-- Whether a computed answer, where it is a fault, is one of values. -/
def OfValues {α : Type} (answer : Except Fault α) : Prop :=
  ∀ fault, answer = .error fault → fault.isOfValues

/-- Whether a computation raises faults of values only. -/
abbrev RaisesOfValues {σ α : Type} (action : EStateM Fault σ α) : Prop :=
  RaisesOnly (fun fault => fault.isOfValues) action

section

variable {σ α β : Type}

@[simp] theorem ofValues_ok (a : α) : OfValues (.ok a) := fun _ h => by cases h

@[simp] theorem ofValues_error {fault : Fault} :
    OfValues (.error fault : Except Fault α) ↔ fault.isOfValues :=
  ⟨fun h => h fault rfl, fun h _ herror => by cases herror; exact h⟩

/-- What is computed from an answer fails where the answer does, or afterwards. -/
theorem OfValues.bind {answer : Except Fault α} {next : α → Except Fault β} (h : OfValues answer)
    (hnext : ∀ a, OfValues (next a)) : OfValues (answer >>= next) := by
  cases answer with
  | error fault => exact fun fault' herror => by cases herror; exact h fault rfl
  | ok a => exact hnext a

/-- A changed answer fails where the answer does. -/
theorem OfValues.map {answer : Except Fault α} {f : α → β} (h : OfValues answer) :
    OfValues (answer.map f) := by
  cases answer with
  | error fault => exact fun fault' herror => by cases herror; exact h fault rfl
  | ok a => exact ofValues_ok (f a)

/-- Going through a list fails where a step does. -/
theorem ofValues_foldlM {f : β → α → Except Fault β} (h : ∀ b a, OfValues (f b a)) (as : List α) :
    ∀ b, OfValues (as.foldlM f b) := by
  induction as with
  | nil => exact fun b => ofValues_ok b
  | cons a as ih =>
      intro b
      rw [List.foldlM_cons]
      exact (h b a).bind ih

/-- A computed answer as a computation. -/
theorem raises_ofExcept {answer : Except Fault α} (h : OfValues answer) :
    RaisesOfValues (Eval.ofExcept answer) := by
  cases answer with
  | error fault => exact raisesOnly_throw (h fault rfl)
  | ok a => exact raisesOnly_pure a

/-- An answer that is computed from the store. -/
theorem raises_reads {answer : Store → Except Fault α} (h : ∀ σ, OfValues (answer σ)) :
    RaisesOfValues (get >>= fun σ => Eval.ofExcept (answer σ)) :=
  raisesOnly_get_bind fun σ => raises_ofExcept (h σ)

end

namespace Value

variable (σ : Store)

/-! ## Equality, order and membership -/

theorem ofValues_settled {α : Type} (answer : Option α) : OfValues (settled answer) := by
  cases answer <;> simp [settled, Fault.isOfValues]

theorem ofValues_equal (a b : Value) : OfValues (a.equal σ b) := ofValues_settled _

theorem ofValues_found (a b : Value) : OfValues (a.found σ b) := ofValues_settled _

theorem ofValues_foundIn (a : Value) (items : List Value) : OfValues (a.foundIn σ items) :=
  ofValues_settled _

theorem ofValues_lookup (key : Value) (entries : List (Value × Value)) :
    OfValues (lookup σ key entries) := ofValues_settled _

theorem ofValues_keyForm (v : Value) : OfValues (v.keyForm σ) := ofValues_settled _

mutual

theorem ofValues_orderWith (op : OrderOp) (a b : Value) : OfValues (orderWith σ op a b) := by
  unfold orderWith
  split
  · exact ofValues_ok _
  · exact ofValues_itemsOrderWith op _ _
  · exact ofValues_itemsOrderWith op _ _
  · exact ofValues_itemsOrderWith op _ _
  · exact ofValues_itemsOrderWith op _ _
  · exact ofValues_itemsOrderWith op _ _
  · cases op <;> exact ofValues_settled _
  · split
    · split <;> exact ofValues_ok _
    · exact ofValues_error.mpr rfl

theorem ofValues_itemsOrderWith (op : OrderOp) (xs ys : List Value) :
    OfValues (itemsOrderWith σ op xs ys) := by
  unfold itemsOrderWith
  split
  · split
    · exact ofValues_itemsOrderWith op _ _
    · exact ofValues_orderWith op _ _
    · exact ofValues_error.mpr rfl
  · exact ofValues_ok _

end

theorem ofValues_requireHashable (v : Value) : OfValues (v.requireHashable σ) := by
  unfold requireHashable
  split
  · exact ofValues_error.mpr rfl
  · exact ofValues_ok _

theorem ofValues_memberOf (a b : Value) : OfValues (memberOf σ a b) := by
  unfold memberOf
  split
  · split
    · exact ofValues_ok _
    · exact ofValues_error.mpr rfl
  · exact ofValues_foundIn σ a _
  · exact ofValues_foundIn σ a _
  · exact ofValues_foundIn σ a _
  · split
    · exact ofValues_foundIn σ _ _
    · exact (ofValues_requireHashable σ a).bind fun _ => ofValues_foundIn σ a _
  · exact (ofValues_requireHashable σ a).bind fun _ => (ofValues_lookup σ a _).map
  · exact ofValues_error.mpr rfl

theorem ofValues_compareText (a : Value) (operator : String) (b : Value) :
    OfValues (compareText σ a operator b) := by
  have horder (op : OrderOp) : OfValues (order σ op a b) := ofValues_orderWith σ op a b
  unfold compareText
  split
  · exact ofValues_equal σ a b
  split
  · exact (ofValues_equal σ a b).map
  split
  · split
    · exact ofValues_ok _
    · exact ofValues_memberOf σ a b
  split
  · exact ofValues_ok _
  split
  · exact horder _
  split
  · exact horder _
  split
  · exact horder _
  split
  · exact horder _
  · exact ofValues_error.mpr rfl

/-! ## Numbers, sequences and collections -/

theorem ofValues_toDouble (x : NumberView) : OfValues x.toDouble := by
  unfold NumberView.toDouble
  split
  · rename_i n
    cases Number.Binary64.ofInt? n <;> simp [Fault.isOfValues]
  · exact ofValues_ok _
  · exact ofValues_ok _

theorem ofValues_repeatCount (tooLong : NumberFault) (length : Nat) (times : Int) :
    OfValues (repeatCount tooLong length times) := by
  unfold repeatCount
  split
  · exact ofValues_error.mpr rfl
  split
  · exact ofValues_error.mpr rfl
  split
  · exact ofValues_error.mpr rfl
  · exact ofValues_ok _

theorem ofValues_without (removed items : List Value) : OfValues (without σ removed items) := by
  induction items with
  | nil => exact ofValues_ok _
  | cons v vs ih =>
      exact (ofValues_foundIn σ v removed).bind fun _ => ih.bind fun _ => ofValues_ok _

theorem ofValues_integerOfText (s : String) : OfValues (integerOfText s) := by
  unfold integerOfText
  split <;> simp [Fault.isOfValues]

theorem ofValues_toInteger (v : Value) : OfValues (v.toInteger σ) := by
  unfold toInteger
  split
  · exact ofValues_integerOfText _
  split
  · exact ofValues_ok _
  · split <;> simp [Fault.isOfValues]
  · simp [Fault.isOfValues]
  · simp [Fault.isOfValues]

theorem ofValues_decimalOfText (s : String) : OfValues (decimalOfText s) := by
  unfold decimalOfText
  split <;> simp [Fault.isOfValues]

theorem ofValues_items (v : Value) : OfValues (v.items σ) := by
  cases v <;> simp [items, Fault.isOfValues]

theorem ofValues_length (v : Value) : OfValues (v.length σ) := by
  cases v <;> simp [length, Fault.isOfValues]

theorem ofValues_itemAt (sequence : String) (xs : List Value) (key : Value) :
    OfValues (itemAt σ sequence xs key) := by
  unfold itemAt
  split
  · exact ofValues_error.mpr rfl
  split
  · exact ofValues_error.mpr rfl
  extract_lets place
  split
  · exact ofValues_error.mpr rfl
  split <;> simp [Fault.isOfValues]

theorem ofValues_subscript (container key : Value) : OfValues (container.subscript σ key) := by
  unfold subscript
  split
  · exact ofValues_itemAt σ _ _ _
  · exact ofValues_itemAt σ _ _ _
  · exact ofValues_itemAt σ _ _ _
  · exact ofValues_itemAt σ _ _ _
  · refine (ofValues_requireHashable σ key).bind fun _ => (ofValues_lookup σ key _).bind fun found => ?_
    cases found <;> simp [Fault.isOfValues]
  · exact ofValues_error.mpr rfl

theorem ofValues_extreme (op : OrderOp) (first : Value) (rest : List Value) :
    OfValues (extreme σ op first rest) :=
  ofValues_foldlM (fun best v =>
    (ofValues_orderWith σ op v best).bind fun _ => ofValues_ok _) rest first

end Value

/-! ## Templates -/

section

variable (σ : Store)

theorem ofValues_next (s : Supply) : OfValues s.next := by
  unfold Supply.next
  split <;> simp [Fault.isOfValues]

theorem ofValues_withWidth (c : Conversion) (n : Int) : OfValues (c.withWidth n) := by
  unfold Conversion.withWidth
  split
  · exact ofValues_error.mpr rfl
  split <;> exact ofValues_ok _

theorem ofValues_withPrecision (c : Conversion) (n : Int) : OfValues (c.withPrecision n) := by
  unfold Conversion.withPrecision
  split <;> simp [Fault.isOfValues]

/-- A number that a template takes from the values it is given. -/
theorem ofValues_nextInteger {α : Type} (s : Supply) {use : Int → Supply → Except Fault α}
    (huse : ∀ n rest, OfValues (use n rest)) :
    OfValues (match s.next with
      | .error fault => .error fault
      | .ok (v, rest) =>
        match v.asInt? with
        | none => .error (.template .starNeedsInteger)
        | some n => use n rest) := by
  have hnext := ofValues_next s
  split
  · rename_i fault herror
    exact ofValues_error.mpr (hnext fault herror)
  · split
    · exact ofValues_error.mpr rfl
    · exact huse _ _

theorem ofValues_readWidth (c : Conversion) (s : Supply) (cs : List Char) :
    OfValues (readWidth c s cs) := by
  unfold readWidth
  split
  · exact ofValues_nextInteger s fun n _ => (ofValues_withWidth c n).map
  · dsimp only
    split <;> simp [Fault.isOfValues]

theorem ofValues_readPrecision (c : Conversion) (s : Supply) (cs : List Char) :
    OfValues (readPrecision c s cs) := by
  unfold readPrecision
  split
  · exact ofValues_nextInteger s fun n _ => (ofValues_withPrecision c n).map
  · dsimp only
    split <;> simp [Fault.isOfValues]
  · exact ofValues_ok _

theorem ofValues_chooseKeyed (s : Supply) (key : String) : OfValues (chooseKeyed σ s key) := by
  unfold chooseKeyed
  split
  · exact ofValues_error.mpr rfl
  · rename_i entries _
    have hlookup := Value.ofValues_lookup σ (.str key) entries
    split
    · rename_i fault herror
      exact ofValues_error.mpr (hlookup fault herror)
    · exact ofValues_error.mpr rfl
    · exact ofValues_ok _

theorem ofValues_readDirective (s : Supply) (cs : List Char) :
    OfValues (readDirective σ s cs) := by
  unfold readDirective
  dsimp only
  split
  · split
    · split
      · exact ofValues_error.mpr rfl
      · exact (ofValues_chooseKeyed σ s _).bind fun _ => (ofValues_readWidth _ _ _).bind fun _ =>
          (ofValues_readPrecision _ _ _).bind fun _ => by split <;> simp [Fault.isOfValues]
    · exact ofValues_error.mpr rfl
  · exact (ofValues_readWidth _ _ _).bind fun _ =>
      (ofValues_readPrecision _ _ _).bind fun _ => by split <;> simp [Fault.isOfValues]

theorem ofValues_integerForDecimal (letter : Char) (v : Value) :
    OfValues (integerForDecimal σ letter v) := by
  unfold integerForDecimal
  split
  · split <;> simp [Fault.isOfValues]
  · exact ofValues_error.mpr rfl
  · split <;> simp [Fault.isOfValues]

theorem ofValues_realForDecimal (v : Value) : OfValues (realForDecimal σ v) := by
  unfold realForDecimal
  split
  · exact ofValues_ok _
  · exact ofValues_ok _
  · split
    · rename_i n _
      cases Number.Binary64.ofInt? n <;> simp [Fault.isOfValues]
    · exact ofValues_error.mpr rfl

theorem ofValues_characterOf (v : Value) : OfValues (characterOf v) := by
  unfold characterOf
  split
  · split <;> simp [Fault.isOfValues]
  · split
    · split <;> simp [Fault.isOfValues]
    · exact ofValues_error.mpr rfl

theorem ofValues_convert (c : Conversion) (letter : Char) (index : Nat) (v : Value) :
    OfValues (convert σ c letter index v) := by
  have hinteger := (ofValues_integerForDecimal σ letter v).map (f := c.ofInteger letter)
  unfold convert
  split
  · exact ofValues_ok _
  · exact ofValues_ok _
  · exact ofValues_ok _
  all_goals first
    | exact hinteger
    | exact (ofValues_realForDecimal σ v).map
    | exact (ofValues_characterOf v).map
    | exact ofValues_error.mpr rfl
    | (split <;> simp [Fault.isOfValues])

theorem ofValues_fillFrom (size fuel : Nat) :
    ∀ (s : Supply) (cs : List Char), OfValues (fillFrom σ size fuel s cs) := by
  induction fuel with
  | zero =>
      intro s cs
      cases cs with
      | nil => unfold fillFrom; split <;> simp [Fault.isOfValues]
      | cons c cs => exact ofValues_ok _
  | succ fuel ih =>
      intro s cs
      unfold fillFrom
      split
      · split <;> simp [Fault.isOfValues]
      · exact ofValues_ok _
      · rename_i heq
        cases heq
        exact (ih _ _).map
      · rename_i supply _ _ _ _ rest _ heq
        cases heq
        have hdirective := ofValues_readDirective σ supply rest
        split
        · rename_i fault herror
          exact ofValues_error.mpr (hdirective fault herror)
        · rename_i d chosen _
          have hnext := ofValues_next chosen
          split
          · rename_i fault herror
            exact ofValues_error.mpr (hnext fault herror)
          · rename_i v remaining _
            have hconvert := ofValues_convert σ d.conversion d.letter (size - d.rest.length - 1) v
            split
            · exact ofValues_error.mpr rfl
            split
            · rename_i fault herror
              exact ofValues_error.mpr (hconvert fault herror)
            · exact (ih _ _).map
      · rename_i heq
        cases heq
        exact (ih _ _).map

theorem ofValues_fillTemplate (template : String) (v : Value) :
    OfValues (fillTemplate σ template v) := (ofValues_fillFrom σ _ _ _ _).map

end

/-! ## Operators -/

section

variable {σ α : Type}

/-- A fault that is told with the state in view. -/
theorem raises_get_throw {fault : σ → Fault} (h : ∀ s, (fault s).isOfValues) :
    RaisesOfValues (get >>= fun s => throw (fault s) : EStateM Fault σ α) :=
  raisesOnly_get_bind fun s => raisesOnly_throw (h s)

end

/-- Making a list raises nothing. -/
theorem raises_newList (items : List Value) : RaisesOfValues (Eval.newList items) := by
  intro σ fault τ h
  cases h

/-- The value of arithmetic raises nothing. -/
theorem raises_ofFloat (x : Option Number.Binary64) : RaisesOfValues (Eval.ofFloat x) := by
  intro σ fault τ h
  cases x <;> cases h

namespace Value

theorem raises_onDoubles (op : Number.Binary64 → Number.Binary64 → Option Number.Binary64)
    (a b : NumberView) : RaisesOfValues (onDoubles op a b) := by
  refine (raises_ofExcept (ofValues_toDouble a)).bind fun x =>
    (raises_ofExcept (ofValues_toDouble b)).bind fun y => ?_
  split <;> exact raises_ofFloat _

theorem raises_onNumbers {ints : Int → Int → Eval Value}
    {doubles : Number.Binary64 → Number.Binary64 → Option Number.Binary64}
    (hints : ∀ n m, RaisesOfValues (ints n m)) (a b : NumberView) :
    RaisesOfValues (onNumbers ints doubles a b) := by
  unfold onNumbers
  split
  · exact hints _ _
  · exact raises_onDoubles _ _ _

theorem raises_operandFault {α : Type} (operator : String) (a b : Value) :
    RaisesOfValues (operandFault operator a b : Eval α) := raises_get_throw fun _ => rfl

theorem raises_add (a b : Value) : RaisesOfValues (a.add b) := by
  unfold add
  split
  · exact raises_onNumbers (fun n m => raisesOnly_pure _) _ _
  split
  · exact raises_newList _
  · exact raises_get_throw fun _ => rfl
  · exact raisesOnly_pure _
  · exact raisesOnly_pure _
  · exact raisesOnly_pure _
  · exact raisesOnly_pure _
  · exact raises_get_throw fun _ => rfl
  · exact raises_get_throw fun _ => rfl
  · exact raises_operandFault _ _ _

theorem raises_sub (a b : Value) : RaisesOfValues (a.sub b) := by
  unfold sub
  split
  · exact raises_onNumbers (fun n m => raisesOnly_pure _) _ _
  split
  · exact raisesOnly_get_bind fun σ =>
      (raises_ofExcept (ofValues_without σ _ _)).bind fun _ => raisesOnly_pure _
  · exact raises_operandFault _ _ _

theorem raises_repeat? {a : Value} {times : Int} {action : Eval Value}
    (h : a.repeat? times = some action) : RaisesOfValues action := by
  have hcount (tooLong : NumberFault) (length : Nat) :
      RaisesOfValues (Eval.ofExcept (repeatCount tooLong length times)) :=
    raises_ofExcept (ofValues_repeatCount tooLong length times)
  cases a with
  | str s =>
      cases h
      exact (hcount _ _).bind fun n => raisesOnly_pure _
  | list _ items =>
      cases h
      exact (hcount _ _).bind fun n => raises_newList _
  | tuple items | row _ _ items =>
      cases h
      exact (hcount _ _).bind fun n => raisesOnly_pure _
  | _ => cases h

/-- Repeating a sequence as often as a value says, or failing. -/
theorem raises_repeatBy (a times : Value) {fault : Eval Value} (hfault : RaisesOfValues fault) :
    RaisesOfValues (match times.asInt? with
      | some n => (a.repeat? n).getD fault
      | none => do throw (.type (.repetition (times.typeName (← get))))) := by
  split
  · rename_i n _
    cases h : a.repeat? n with
    | none => exact hfault
    | some action => exact raises_repeat? h
  · exact raises_get_throw fun _ => rfl

theorem raises_mul (a b : Value) : RaisesOfValues (a.mul b) := by
  have hfault : RaisesOfValues (operandFault "*" a b : Eval Value) := raises_operandFault _ _ _
  unfold mul
  split
  · exact raises_onNumbers (fun n m => raisesOnly_pure _) _ _
  split
  · exact raises_repeatBy a b hfault
  split
  · exact raises_repeatBy b a hfault
  · exact hfault

theorem raises_divInts (n m : Int) : RaisesOfValues (divInts n m) := by
  unfold divInts
  cases Number.Binary64.ofQuotient? n m with
  | some x => exact raisesOnly_pure _
  | none => exact raisesOnly_throw rfl

theorem raises_div (a b : Value) : RaisesOfValues (a.div b) := by
  unfold div
  split
  · exact raisesOnly_throw rfl
  split
  · exact raises_onNumbers raises_divInts _ _
  · exact raises_operandFault _ _ _

theorem raises_mod (a b : Value) : RaisesOfValues (a.mod b) := by
  unfold mod
  split
  · exact raisesOnly_throw rfl
  split
  · exact raises_onNumbers (fun n m => raisesOnly_pure _) _ _
  split
  · exact raisesOnly_get_bind fun σ =>
      (raises_ofExcept (ofValues_fillTemplate σ _ _)).bind fun _ => raisesOnly_pure _
  · exact raises_operandFault _ _ _

theorem raises_neg (a : Value) : RaisesOfValues a.neg := by
  unfold neg
  split
  · exact raisesOnly_pure _
  · exact raisesOnly_pure _
  · exact raises_ofFloat _
  · exact raises_get_throw fun _ => rfl

theorem raises_abs (a : Value) : RaisesOfValues a.abs := by
  unfold abs
  split
  · exact raisesOnly_pure _
  · exact raisesOnly_pure _
  · exact raises_ofFloat _
  · exact raises_get_throw fun _ => rfl

theorem raises_round (a : Value) (places : Int) : RaisesOfValues (a.round places) := by
  unfold round
  split
  · exact raisesOnly_pure _
  · split
    · exact raisesOnly_pure _
    · exact raisesOnly_throw rfl
  · exact raises_ofFloat _
  · exact raises_get_throw fun _ => rfl

theorem raises_sum (vs : List Value) : RaisesOfValues (Value.sum vs) :=
  raisesOnly_foldlM raises_add vs _

/-! ## Attributes -/

theorem ofValues_readAttribute (σ : Store) (v : Value) (name : String) :
    OfValues (v.readAttribute σ name) := by
  unfold readAttribute
  extract_lets missing
  have hmissing : OfValues missing := ofValues_error.mpr rfl
  split
  · exact ofValues_ok _
  · exact (ofValues_lookup σ _ _).map
  · split
    · exact ofValues_ok _
    · exact hmissing
  · split
    · exact ofValues_ok _
    · exact hmissing
  · split
    · exact ofValues_ok _
    · exact hmissing

theorem ofValues_readPath (σ : Store) (v : Value) (path : List String) :
    OfValues (v.readPath σ path) := ofValues_foldlM (ofValues_readAttribute σ) path v

theorem ofValues_setEntry (σ : Store) (name : String) (value : Value)
    (entries : List (Value × Value)) : OfValues (setEntry σ name value entries) := by
  induction entries with
  | nil => exact ofValues_ok _
  | cons entry entries ih =>
      obtain ⟨k, v⟩ := entry
      have hfound := ofValues_found σ k (str name)
      rw [setEntry]
      split
      · rename_i fault herror
        exact ofValues_error.mpr (hfound fault herror)
      · exact ofValues_ok _
      · exact ih.map

theorem raises_modify {σ : Type} (f : σ → σ) :
    RaisesOfValues (modify f : EStateM Fault σ PUnit) := by
  intro s fault s' h
  cases h

theorem raises_setAttribute (v : Value) (name : String) (value : Value) :
    RaisesOfValues (v.setAttribute name value) := by
  refine raisesOnly_get_bind fun σ => ?_
  split
  · exact raisesOnly_throw rfl
  · exact (raises_ofExcept (ofValues_setEntry σ _ _ _)).bind fun _ => raises_modify _
  · extract_lets o
    split
    · exact raisesOnly_throw rfl
    · exact raises_modify _
  · split <;> exact raisesOnly_throw rfl
  · exact raisesOnly_throw rfl
  · exact raisesOnly_throw rfl
  · exact raisesOnly_throw rfl
  · exact raisesOnly_throw rfl

theorem raises_writePath (v : Value) (path : List String) (value : Value) :
    RaisesOfValues (v.writePath path value) := by
  refine raisesOnly_get_bind fun σ =>
    (raises_ofExcept (ofValues_readPath σ v _)).bind fun parent => ?_
  split
  · exact raisesOnly_throw rfl
  split
  · exact raisesOnly_throw rfl
  · exact raises_setAttribute _ _ _

end Value

/-! ## Calls -/

theorem ofValues_oneArgument (callee : String) (own : Nat) (args : List Value) :
    OfValues (oneArgument callee own args) := by
  unfold oneArgument
  split <;> simp [Fault.isOfValues]

theorem ofValues_twoArguments (callee first second : String) (own : Nat) (args : List Value) :
    OfValues (twoArguments callee first second own args) := by
  unfold twoArguments
  split <;> simp [Fault.isOfValues]

mutual

theorem Setter.raises_assign :
    ∀ (s : Setter) (record value : Value), RaisesOfValues (s.assign record value)
  | .path _ names, record, value => by
      rw [Setter.assign]
      exact Value.raises_writePath _ _ _
  | .composite parts, record, value => by
      rw [Setter.assign]
      split
      · split
        · exact Setter.raises_assignEach parts record _
        · exact raises_get_throw fun _ => rfl
      · exact raises_get_throw fun _ => rfl

theorem Setter.raises_assignEach :
    ∀ (parts : List Setter) (record : Value) (values : List Value),
      RaisesOfValues (Setter.assignEach parts record values)
  | [], _, _ | part :: parts, record, [] => by
      rw [Setter.assignEach]
      · exact raisesOnly_pure ()
      · simp
  | part :: parts, record, value :: values => by
      rw [Setter.assignEach]
      exact (Setter.raises_assign part record value).bind fun _ =>
        Setter.raises_assignEach parts record values

end

mutual

/-- What a selector raises lies in the values. -/
theorem Selector.raises_read : ∀ (s : Selector) (record : Value), RaisesOfValues (s.read record)
  | .path _ names, record => by
      rw [Selector.read]
      exact raises_reads fun σ => Value.ofValues_readPath σ record names
  | .composite parts, record => by
      rw [Selector.read]
      exact (Selector.raises_readAll parts record).bind fun _ => raisesOnly_pure _
  | .computed _ callee, record => by
      rw [Selector.read]
      exact Value.raises_call callee [record]
  | .display inner, record => by
      rw [Selector.read]
      exact (Selector.raises_read inner record).bind fun _ =>
        raisesOnly_get_bind fun _ => raisesOnly_pure _
  | .key inner, record => by
      rw [Selector.read]
      exact (Selector.raises_read inner record).bind fun value =>
        raises_reads fun σ => Value.ofValues_keyForm σ value

theorem Selector.raises_readAll :
    ∀ (parts : List Selector) (record : Value), RaisesOfValues (Selector.readAll parts record)
  | [], _ => by
      rw [Selector.readAll]
      exact raisesOnly_pure _
  | part :: parts, record => by
      rw [Selector.readAll]
      exact (Selector.raises_read part record).bind fun _ =>
        (Selector.raises_readAll parts record).bind fun _ => raisesOnly_pure _

/-- What a call of a value raises lies in the values. -/
theorem Value.raises_call : ∀ (v : Value) (args : List Value), RaisesOfValues (v.call args)
  | .function _ body, args => by
      rw [Value.call]
      exact Function.raises_call body args
  | .selector s, args => by
      rw [Value.call]
      exact (raises_ofExcept (ofValues_oneArgument _ _ _)).bind fun record =>
        Selector.raises_read s record
  | .setter s, args => by
      rw [Value.call]
      exact (raises_ofExcept (ofValues_twoArguments _ _ _ _ _)).bind fun pair =>
        (Setter.raises_assign s _ _).bind fun _ => raisesOnly_pure _
  | .null, _ | .bool _, _ | .int _, _ | .float _, _ | .nan _, _ | .str _, _ | .list _ _, _
  | .tuple _, _ | .row _ _ _, _ | .set _ _, _ | .mapping _, _ | .object _, _
  | .target _ _, _ => by
      rw [Value.call]
      · exact raises_get_throw fun _ => rfl
      all_goals simp

/-- What a supplied function raises lies in the values. -/
theorem Function.raises_call : ∀ (f : Function) (args : List Value), RaisesOfValues (f.call args)
  | .field name, args => by
      rw [Function.call]
      exact (raises_ofExcept (ofValues_oneArgument _ _ _)).bind fun record =>
        raises_reads fun σ => Value.ofValues_subscript σ record _
  | .failing message, _ => by
      rw [Function.call]
      exact raisesOnly_throw rfl
  | .constant value, _ => by
      rw [Function.call]
      exact raisesOnly_pure _
  | .arguments, args => by
      rw [Function.call]
      exact raises_newList _
  | .always, args | .never, args => by
      rw [Function.call]
      exact (raises_ofExcept (ofValues_twoArguments _ _ _ _ _)).bind fun _ => raisesOnly_pure _
  | .sameKey key, args => by
      rw [Function.call]
      exact (raises_ofExcept (ofValues_twoArguments _ _ _ _ _)).bind fun pair =>
        (Selector.raises_read key _).bind fun left => (Selector.raises_read key _).bind fun right =>
          raisesOnly_get_bind fun σ =>
            (raises_ofExcept (Value.ofValues_equal σ left right)).bind fun _ => raisesOnly_pure _
  | .comparing names operator, args => by
      rw [Function.call]
      exact (raises_ofExcept (ofValues_twoArguments _ _ _ _ _)).bind fun pair =>
        raisesOnly_get_bind fun σ =>
          (raises_ofExcept (Value.ofValues_readPath σ _ _)).bind fun left =>
            (raises_ofExcept (Value.ofValues_readPath σ _ _)).bind fun right =>
              (raises_ofExcept (Value.ofValues_compareText σ left operator right)).bind fun _ =>
                raisesOnly_pure _
  | .failingRelation message, args => by
      rw [Function.call]
      exact (raises_ofExcept (ofValues_twoArguments _ _ _ _ _)).bind fun _ => raisesOnly_throw rfl

end

theorem raises_related (relation record item : Value) :
    RaisesOfValues (related relation record item) :=
  (Value.raises_call relation _).bind fun _ => raisesOnly_get_bind fun _ => raisesOnly_pure _

namespace Target

theorem raises_read (t : Target) (record : Value) : RaisesOfValues (t.read record) :=
  Selector.raises_read t.selector record

theorem raises_write (t : Target) (record value : Value) :
    RaisesOfValues (t.write record value) := by
  unfold write
  split
  · exact Setter.raises_assign _ record value
  · exact raisesOnly_throw rfl

end Target

end Rubric
