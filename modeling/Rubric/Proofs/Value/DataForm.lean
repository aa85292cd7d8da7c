import Mathlib.Data.List.Perm.Subperm
import Rubric.Proofs.Value.Growth
import Rubric.Proofs.Value.PlainForm

/-!
# Data compared by what it shows

Data are the values that are built from nothing, numbers and texts by tuples, lists and mappings with
plain keys.  Each has a form, in which a mapping is a function from the plain forms of its keys to the
forms of what it holds under them.  Data are found in each other's place where their forms are the same,
however deep they are nested and in whatever order mappings list their entries.  So among data equality
never lacks an answer, and identity or equality is an equivalence.

* `HasForm` : what form a value has in a store;
* `HasForm.grown` : a value keeps its form while the store grows;
* `byForms_placesEqual` : mappings are equal where they have one form;
* `HasForm.found` : so are values found.
-/

namespace Rubric

namespace Value

/-! ## Searches that have an answer -/

/-- Whether a search has an answer, which is yes exactly where something holds. -/
def Answers (search : Option Bool) (P : Prop) : Prop :=
  ∃ answer, search = some answer ∧ (answer = true ↔ P)

/-- The answer is the same to an equivalent question. -/
theorem Answers.congr {search : Option Bool} {P Q : Prop} (h : Answers search P) (hiff : P ↔ Q) :
    Answers search Q := by
  obtain ⟨answer, hanswer, hP⟩ := h
  exact ⟨answer, hanswer, hP.trans hiff⟩

/-- A search that finds nothing answers what does not hold. -/
theorem answers_false {P : Prop} (h : ¬ P) : Answers (some false) P := ⟨false, rfl, by simp [h]⟩

/-- A search that finds something answers what holds. -/
theorem answers_true {P : Prop} (h : P) : Answers (some true) P := ⟨true, rfl, by simp [h]⟩

/-- A search for an element that does not pass answers whether all pass. -/
theorem answers_allTrue {α β : Type} {test : α → Option Bool} {P : β → Prop} {as : List α}
    {bs : List β} (h : List.Forall₂ (fun a b => Answers (test a) (P b)) as bs) :
    Answers (allTrue test as) (∀ b ∈ bs, P b) := by
  induction h with
  | nil => exact answers_true (by simp)
  | cons hab _ ih =>
      obtain ⟨answer, hanswer, hP⟩ := hab
      rw [allTrue, hanswer]
      cases answer with
      | true => exact ih.congr (by simp [hP.mp rfl])
      | false => exact answers_false (by simp [← hP])

/-- A search for an element that passes answers whether one does. -/
theorem answers_anyTrue {α : Type} {test : α → Option Bool} {P : α → Prop} {as : List α}
    (h : ∀ a ∈ as, Answers (test a) (P a)) : Answers (anyTrue test as) (∃ a ∈ as, P a) := by
  induction as with
  | nil => exact answers_false (by simp)
  | cons a as ih =>
      obtain ⟨ha, has⟩ := List.forall_mem_cons.mp h
      obtain ⟨answer, hanswer, hP⟩ := ha
      rw [anyTrue, hanswer]
      cases answer with
      | true => exact answers_true (by simp [hP.mp rfl])
      | false => exact (ih has).congr (by simp [← hP])

/-! ## Forms -/

/-- Nothing, a truth value, a number or a text. -/
def IsScalar : Value → Prop
  | null | bool _ | int _ | float _ | nan _ | str _ => True
  | _ => False

/-- What data are compared by. -/
inductive DataForm where
  | scalar (form : PlainForm)
  | tuple (items : List DataForm)
  | list (items : List DataForm)
  /-- What is held under each key. -/
  | mapping (held : PlainForm → Option DataForm)

mutual

/-- The form of a value, given that of mappings. -/
def dataFormWith (mappings : Nat → Option DataForm) : Value → Option DataForm
  | tuple items => (dataFormsWith mappings items).map .tuple
  | list _ items => (dataFormsWith mappings items).map .list
  | mapping address => mappings address
  | v => v.plainForm?.map .scalar

/-- The forms of several values. -/
def dataFormsWith (mappings : Nat → Option DataForm) : List Value → Option (List DataForm)
  | [] => some []
  | v :: vs => do return (← dataFormWith mappings v) :: (← dataFormsWith mappings vs)

end

/-- The forms of the keys and the values of entries. -/
def entryForms? (form? : Value → Option DataForm) :
    List (Value × Value) → Option (List (PlainForm × DataForm))
  | [] => some []
  | (k, v) :: entries => do return (← k.plainForm?, ← form? v) :: (← entryForms? form? entries)

open Classical in
/-- What is held under a key. -/
noncomputable def heldIn (forms : List (PlainForm × DataForm)) (key : PlainForm) : Option DataForm :=
  forms.lookup key

open Classical in
/-- The form of a mapping of the store, for which at most so many mappings are entered one inside of the
other.  Its keys have different plain forms. -/
noncomputable def mappingDataForm (σ : Store) : Nat → Nat → Option DataForm
  | 0, _ => none
  | fuel + 1, address =>
    if address < σ.mappings.size then
      match entryForms? (dataFormWith (mappingDataForm σ fuel)) (σ.entries address) with
      | some forms => if (forms.map Prod.fst).Nodup then some (.mapping (heldIn forms)) else none
      | none => none
    else none

/-- Whether a value has a form in a store, where mappings may be entered to any depth. -/
def HasForm (σ : Store) (v : Value) (form : DataForm) : Prop :=
  ∃ fuel, dataFormWith (mappingDataForm σ fuel) v = some form

/-! ### Reading forms off -/

section

variable {mappings mappings' : Nat → Option DataForm}

/-- Several values have forms where each has one. -/
theorem dataFormsWith_eq_some {vs : List Value} {forms : List DataForm} :
    dataFormsWith mappings vs = some forms ↔
      List.Forall₂ (fun v form => dataFormWith mappings v = some form) vs forms := by
  induction vs generalizing forms with
  | nil => simp [dataFormsWith, eq_comm]
  | cons v vs ih =>
      simp only [dataFormsWith, Option.bind_eq_bind, Option.bind_eq_some_iff, Option.pure_def,
        Option.some.injEq, List.forall₂_cons_left_iff, ih]
      constructor
      · rintro ⟨form, hform, forms, hforms, rfl⟩
        exact ⟨form, forms, hform, hforms, rfl⟩
      · rintro ⟨form, forms, hform, hforms, rfl⟩
        exact ⟨form, hform, forms, hforms, rfl⟩

/-- Entries have forms where each has one. -/
theorem entryForms?_eq_some {form? : Value → Option DataForm} {entries : List (Value × Value)}
    {forms : List (PlainForm × DataForm)} :
    entryForms? form? entries = some forms ↔
      List.Forall₂ (fun e form => e.1.plainForm? = some form.1 ∧ form? e.2 = some form.2)
        entries forms := by
  induction entries generalizing forms with
  | nil => simp [entryForms?, eq_comm]
  | cons e entries ih =>
      simp only [entryForms?, Option.bind_eq_bind, Option.bind_eq_some_iff, Option.pure_def,
        Option.some.injEq, List.forall₂_cons_left_iff, ih]
      constructor
      · rintro ⟨key, hkey, form, hform, forms, hforms, rfl⟩
        exact ⟨(key, form), forms, ⟨hkey, hform⟩, hforms, rfl⟩
      · rintro ⟨form, forms, ⟨hkey, hform⟩, hforms, rfl⟩
        exact ⟨form.1, hkey, form.2, hform, forms, hforms, rfl⟩

/-- A mapping has a form where its entries have forms, the keys' all different. -/
theorem mappingDataForm_succ {σ : Store} {fuel address : Nat} {form : DataForm} :
    mappingDataForm σ (fuel + 1) address = some form ↔ address < σ.mappings.size ∧ ∃ forms,
      entryForms? (dataFormWith (mappingDataForm σ fuel)) (σ.entries address) = some forms ∧
        (forms.map Prod.fst).Nodup ∧ form = .mapping (heldIn forms) := by
  rw [mappingDataForm]
  constructor
  · intro h
    split at h
    · rename_i hplace
      split at h
      · rename_i forms hforms
        split at h
        · exact ⟨hplace, forms, hforms, ‹_›, (Option.some.inj h).symm⟩
        · cases h
      · cases h
    · cases h
  · rintro ⟨hplace, forms, hforms, hnodup, rfl⟩
    rw [if_pos hplace, hforms]
    exact if_pos hnodup

mutual

/-- A value keeps its form where mappings keep theirs. -/
theorem dataFormWith_mono
    (h : ∀ address form, mappings address = some form → mappings' address = some form) :
    ∀ (v : Value) {form : DataForm},
      dataFormWith mappings v = some form → dataFormWith mappings' v = some form
  | .tuple items, _, hv | .list _ items, _, hv => by
      obtain ⟨forms, hforms, rfl⟩ := Option.map_eq_some_iff.mp hv
      exact Option.map_eq_some_iff.mpr ⟨forms, dataFormsWith_mono h items hforms, rfl⟩
  | .mapping address, form, hv => h address form hv
  | .null, _, hv | .bool _, _, hv | .int _, _, hv | .float _, _, hv | .nan _, _, hv
  | .str _, _, hv | .row _ _ _, _, hv | .set _ _, _, hv | .object _, _, hv | .function _ _, _, hv
  | .selector _, _, hv | .setter _, _, hv | .target _ _, _, hv => hv

/-- So do several values. -/
theorem dataFormsWith_mono
    (h : ∀ address form, mappings address = some form → mappings' address = some form) :
    ∀ (vs : List Value) {forms : List DataForm},
      dataFormsWith mappings vs = some forms → dataFormsWith mappings' vs = some forms
  | [], _, hvs => hvs
  | v :: vs, _, hvs => by
      obtain ⟨form, forms, hform, hforms, rfl⟩ :=
        List.forall₂_cons_left_iff.mp (dataFormsWith_eq_some.mp hvs)
      exact dataFormsWith_eq_some.mpr (.cons (dataFormWith_mono h v hform) (dataFormsWith_eq_some.mp
        (dataFormsWith_mono h vs (dataFormsWith_eq_some.mpr hforms))))

end

end

/-! ### How deep mappings are entered -/

section

variable {σ τ : Store}

/-- A mapping keeps its form in a grown store, and where it may be entered deeper. -/
theorem mappingDataForm_mono (h : σ.GrownTo τ) (fuel : Nat) :
    ∀ {fuel' address : Nat} {form : DataForm}, fuel ≤ fuel' →
      mappingDataForm σ fuel address = some form → mappingDataForm τ fuel' address = some form := by
  induction fuel with
  | zero =>
      intro fuel' address form _ hform
      rw [mappingDataForm] at hform
      cases hform
  | succ fuel ih =>
      intro fuel' address form hle hform
      obtain ⟨fuel', rfl⟩ := Nat.exists_eq_add_of_le' (Nat.le_trans (Nat.le_add_left 1 fuel) hle)
      obtain ⟨hplace, forms, hforms, hnodup, rfl⟩ := mappingDataForm_succ.mp hform
      refine mappingDataForm_succ.mpr ⟨Nat.lt_of_lt_of_le hplace h.size_le, forms, ?_, hnodup, rfl⟩
      rw [h.entries_eq address hplace]
      refine entryForms?_eq_some.mpr ((entryForms?_eq_some.mp hforms).imp fun e form he => ?_)
      exact ⟨he.1, dataFormWith_mono (fun _ _ => ih (by omega)) e.2 he.2⟩

/-- How deep mappings may be entered does not matter once it exceeds their number: those that have no form
then hold themselves. -/
theorem mappingDataForm_stable {n fuel address : Nat} {form : DataForm}
    (hfuel : σ.mappings.size + 1 ≤ fuel) (h : mappingDataForm σ n address = some form) :
    mappingDataForm σ fuel address = some form := by
  have hmono : ∀ {n m address form}, n ≤ m → mappingDataForm σ n address = some form →
      mappingDataForm σ m address = some form := fun hle hform =>
    mappingDataForm_mono (.refl σ) _ hle hform
  have hstable {m : Nat} (hm : σ.mappings.size + 1 ≤ m) :
      ((mappingDataForm σ m address).isSome ∨ σ.mappings.size ≤ address) ↔
        ((mappingDataForm σ (σ.mappings.size + 1) address).isSome ∨ σ.mappings.size ≤ address) := by
    refine stable_of_chain
      (P := fun n a => (mappingDataForm σ n a).isSome ∨ σ.mappings.size ≤ a) ?_ ?_ ?_ hm address
    · intro n a ha
      refine ha.imp_left fun hsome => ?_
      obtain ⟨form, hform⟩ := Option.isSome_iff_exists.mp hsome
      rw [hmono (Nat.le_succ n) hform]
      rfl
    · exact fun n a ha => .inr ha
    · intro n hsame a
      -- no mapping gets a form from one step to the next, so none does later
      have heq : mappingDataForm σ n = mappingDataForm σ (n + 1) := by
        funext b
        cases hform : mappingDataForm σ n b with
        | some form => rw [hmono (Nat.le_succ n) hform]
        | none =>
            cases hnext : mappingDataForm σ (n + 1) b with
            | none => rfl
            | some form =>
                have hplace := (mappingDataForm_succ.mp hnext).1
                rcases (hsame b).mpr (.inl (Option.isSome_of_eq_some hnext)) with hsome | hout
                · rw [hform] at hsome
                  cases hsome
                · exact absurd hplace (Nat.not_lt.mpr hout)
      rw [mappingDataForm, mappingDataForm, heq]
  have hplace : address < σ.mappings.size := by
    cases n with
    | zero =>
        rw [mappingDataForm] at h
        cases h
    | succ n => exact (mappingDataForm_succ.mp h).1
  have hlarge := hmono (Nat.le_max_left n fuel) h
  rcases (hstable (Nat.le_trans hfuel (Nat.le_max_right n fuel))).mp
    (.inl (Option.isSome_of_eq_some hlarge)) with hsome | hout
  · obtain ⟨form', hform'⟩ := Option.isSome_iff_exists.mp hsome
    have hfound := hmono hfuel hform'
    have hsame := hmono (Nat.le_max_right n fuel) hfound
    rw [hlarge] at hsame
    rw [hfound, hsame]
  · exact absurd hplace (Nat.not_lt.mpr hout)

/-- What has a form has it where as many mappings may be entered as a comparison may visit. -/
theorem HasForm.of_nesting {v : Value} {form : DataForm} (h : v.HasForm σ form) :
    dataFormWith (mappingDataForm σ (σ.nesting + 1)) v = some form := by
  obtain ⟨fuel, hform⟩ := h
  refine dataFormWith_mono (fun address form => mappingDataForm_stable ?_) v hform
  unfold Store.nesting
  omega

/-- A value keeps its form in a grown store. -/
theorem HasForm.grown {v : Value} {form : DataForm} (h : v.HasForm σ form) (hgrown : σ.GrownTo τ) :
    v.HasForm τ form := by
  obtain ⟨fuel, hform⟩ := h
  exact ⟨fuel, dataFormWith_mono (fun _ _ => mappingDataForm_mono hgrown fuel (Nat.le_refl fuel)) v
    hform⟩

/-- A value has one form. -/
theorem HasForm.unique {v : Value} {form form' : DataForm} (h : v.HasForm σ form)
    (h' : v.HasForm σ form') : form = form' :=
  Option.some.inj (h.of_nesting.symm.trans h'.of_nesting)

end

/-! ## What is held under keys -/

section

variable {forms forms' : List (PlainForm × DataForm)}

/-- Looking a key up finds the entry with it, where no two entries have one key. -/
theorem lookup_eq_some_iff_mem {α β : Type} [BEq α] [LawfulBEq α] {entries : List (α × β)}
    (h : (entries.map Prod.fst).Nodup) {key : α} {b : β} :
    entries.lookup key = some b ↔ (key, b) ∈ entries := by
  induction entries with
  | nil => simp
  | cons e entries ih =>
      obtain ⟨k, b'⟩ := e
      obtain ⟨hnot, hrest⟩ := List.nodup_cons.mp h
      rw [List.lookup_cons, List.mem_cons]
      by_cases hkey : key = k
      · subst hkey
        have hout : (key, b) ∉ entries := fun hmem => hnot (List.mem_map.mpr ⟨_, hmem, rfl⟩)
        simp [hout, eq_comm]
      · have hother : (key == k) = false := beq_false_of_ne hkey
        simpa [hother, hkey] using ih hrest

/-- What is held under a key is one of the entries. -/
theorem heldIn_eq_some (h : (forms.map Prod.fst).Nodup) {key : PlainForm} {form : DataForm} :
    heldIn forms key = some form ↔ (key, form) ∈ forms := by
  classical
  exact lookup_eq_some_iff_mem h

/-- The same is held under all keys where the entries are the same, in any order. -/
theorem heldIn_eq_iff (h : (forms.map Prod.fst).Nodup) (h' : (forms'.map Prod.fst).Nodup) :
    heldIn forms = heldIn forms' ↔ forms.Perm forms' := by
  rw [List.perm_ext_iff_of_nodup (h.of_map _) (h'.of_map _)]
  constructor
  · rintro heq ⟨key, form⟩
    rw [← heldIn_eq_some h, ← heldIn_eq_some h', heq]
  · intro hmem
    funext key
    refine Option.ext fun form => ?_
    rw [heldIn_eq_some h, heldIn_eq_some h', hmem]

/-- Among as many entries, that is where each entry of the one is held by the other. -/
theorem forall_held_iff (h : (forms.map Prod.fst).Nodup) (h' : (forms'.map Prod.fst).Nodup)
    (hlength : forms.length = forms'.length) :
    (∀ e ∈ forms, heldIn forms' e.1 = some e.2) ↔ heldIn forms = heldIn forms' := by
  simp only [heldIn_eq_iff h h', heldIn_eq_some h']
  constructor
  · intro hsub
    exact ((h.of_map _).subperm hsub).perm_of_length_le hlength.ge
  · exact fun hperm e he => hperm.subset he

end

/-! ## Values are found by their forms -/

section

variable {places : Place → Place → Option Bool} {mappings : Nat → Option DataForm}

/-- Whether equality of mappings is equality of their forms. -/
structure ByForms (places : Place → Place → Option Bool) (mappings : Nat → Option DataForm) : Prop where
  held : ∀ {address form}, mappings address = some form → ∃ held, form = .mapping held
  answers : ∀ {a b form form'}, mappings a = some form → mappings b = some form' →
    Answers (places (.mapping a) (.mapping b)) (form = form')

/-- Which values have which forms. -/
inductive DataView (mappings : Nat → Option DataForm) : Value → DataForm → Prop
  | scalar {v : Value} {p : PlainForm} (hv : v.IsScalar) (hp : v.plainForm? = some p) :
      DataView mappings v (.scalar p)
  | tuple {items : List Value} {forms : List DataForm}
      (h : dataFormsWith mappings items = some forms) : DataView mappings (.tuple items) (.tuple forms)
  | list {tag : Tag} {items : List Value} {forms : List DataForm}
      (h : dataFormsWith mappings items = some forms) :
      DataView mappings (.list tag items) (.list forms)
  | mapping {address : Nat} {form : DataForm} (h : mappings address = some form) :
      DataView mappings (.mapping address) form

/-- A value with a form has it in one of these ways. -/
theorem dataView_of_form {v : Value} {form : DataForm} (h : dataFormWith mappings v = some form) :
    DataView mappings v form := by
  have hscalar (hv : v.IsScalar) (hform : v.plainForm?.map DataForm.scalar = some form) :
      DataView mappings v form := by
    obtain ⟨p, hp, rfl⟩ := Option.map_eq_some_iff.mp hform
    exact .scalar hv hp
  cases v with
  | tuple items =>
      obtain ⟨forms, hforms, rfl⟩ := Option.map_eq_some_iff.mp h
      exact .tuple hforms
  | list tag items =>
      obtain ⟨forms, hforms, rfl⟩ := Option.map_eq_some_iff.mp h
      exact .list hforms
  | mapping address => exact .mapping h
  | null | bool _ | int _ | float _ | nan _ | str _ => exact hscalar trivial h
  | row _ _ _ | set _ _ | object _ | function _ _ | selector _ | setter _ | target _ _ => cases h

/-- A scalar is not found in the place of a collection. -/
theorem matchWith_scalar_left {a b : Value} (ha : a.IsScalar) (hb : ¬ b.IsScalar) :
    matchWith places a b = some false := by
  cases b with
  | null | bool _ | int _ | float _ | nan _ | str _ => exact absurd trivial hb
  | _ => cases a <;> first | rfl | cases ha

/-- Nor is a collection in the place of a scalar. -/
theorem matchWith_scalar_right {a b : Value} (ha : ¬ a.IsScalar) (hb : b.IsScalar) :
    matchWith places a b = some false := by
  cases a with
  | null | bool _ | int _ | float _ | nan _ | str _ => exact absurd trivial ha
  | _ => cases b <;> first | rfl | cases hb

/-- Scalars are found by their forms. -/
theorem matchWith_of_scalar (h : ByForms places mappings) {a b : Value} (ha : a.IsScalar)
    {f g : DataForm} (hf : dataFormWith mappings a = some f) (hg : dataFormWith mappings b = some g) :
    Answers (matchWith places a b) (f = g) := by
  cases dataView_of_form hf with
  | tuple _ | list _ | mapping _ => cases ha
  | scalar _ hp =>
      cases dataView_of_form hg with
      | scalar _ hq =>
          have hplain : Answers (matchWith places a b) _ := matchWith_of_plain places a b _ _ hp hq
          exact hplain.congr (by rw [DataForm.scalar.injEq])
      | tuple _ | list _ =>
          rw [matchWith_scalar_left ha (by exact not_false)]
          exact answers_false nofun
      | mapping hb =>
          obtain ⟨held, rfl⟩ := h.held hb
          rw [matchWith_scalar_left ha (by exact not_false)]
          exact answers_false nofun

/-- Mappings are found by their forms. -/
theorem matchWith_of_mapping (h : ByForms places mappings) {a : Nat} {b : Value} {f g : DataForm}
    (hf : mappings a = some f) (hg : dataFormWith mappings b = some g) :
    Answers (matchWith places (.mapping a) b) (f = g) := by
  obtain ⟨held, rfl⟩ := h.held hf
  cases dataView_of_form hg with
  | scalar hb _ =>
      rw [matchWith_scalar_right (by exact not_false) hb]
      exact answers_false nofun
  | tuple _ | list _ => exact answers_false nofun
  | @mapping b _ hb =>
      by_cases hab : a = b
      · subst hab
        obtain rfl : g = .mapping held := Option.some.inj (hb.symm.trans hf)
        exact ⟨true, by simp [matchWith, identical], by simp⟩
      · simpa [matchWith, identical, equalWith, hab] using h.answers hf hb

mutual

/-- Values are found in each other's place where they have one form. -/
theorem matchWith_of_data (h : ByForms places mappings) : ∀ (a b : Value) {f g : DataForm},
    dataFormWith mappings a = some f → dataFormWith mappings b = some g →
      Answers (matchWith places a b) (f = g)
  | .tuple xs, b, f, g, hf, hg => by
      obtain ⟨fs, hfs, rfl⟩ := Option.map_eq_some_iff.mp hf
      cases dataView_of_form hg with
      | @tuple ys gs hgs =>
          exact (itemsEqualWith_of_data h xs ys hfs hgs).congr (by rw [DataForm.tuple.injEq])
      | list _ => exact answers_false nofun
      | scalar hb _ =>
          rw [matchWith_scalar_right (by exact not_false) hb]
          exact answers_false nofun
      | mapping hb =>
          obtain ⟨held, rfl⟩ := h.held hb
          exact answers_false nofun
  | .list _ xs, b, f, g, hf, hg => by
      obtain ⟨fs, hfs, rfl⟩ := Option.map_eq_some_iff.mp hf
      cases dataView_of_form hg with
      | @list _ ys gs hgs =>
          exact (itemsEqualWith_of_data h xs ys hfs hgs).congr (by rw [DataForm.list.injEq])
      | tuple _ => exact answers_false nofun
      | scalar hb _ =>
          rw [matchWith_scalar_right (by exact not_false) hb]
          exact answers_false nofun
      | mapping hb =>
          obtain ⟨held, rfl⟩ := h.held hb
          exact answers_false nofun
  | .mapping _, _, _, _, hf, hg => matchWith_of_mapping h hf hg
  | .null, _, _, _, hf, hg | .bool _, _, _, _, hf, hg | .int _, _, _, _, hf, hg
  | .float _, _, _, _, hf, hg | .nan _, _, _, _, hf, hg | .str _, _, _, _, hf, hg =>
      matchWith_of_scalar h (by exact trivial) hf hg
  | .row _ _ _, _, _, _, hf, _ | .set _ _, _, _, _, hf, _ | .object _, _, _, _, hf, _
  | .function _ _, _, _, _, hf, _ | .selector _, _, _, _, hf, _ | .setter _, _, _, _, hf, _
  | .target _ _, _, _, _, hf, _ => by cases hf

/-- So are sequences equal. -/
theorem itemsEqualWith_of_data (h : ByForms places mappings) :
    ∀ (xs ys : List Value) {fs gs : List DataForm}, dataFormsWith mappings xs = some fs →
      dataFormsWith mappings ys = some gs → Answers (itemsEqualWith places xs ys) (fs = gs)
  | [], ys, fs, gs, hf, hg => by
      cases hf
      cases dataFormsWith_eq_some.mp hg with
      | nil => exact answers_true rfl
      | cons _ _ => exact answers_false nofun
  | x :: xs, [], fs, gs, hf, hg => by
      cases hg
      cases dataFormsWith_eq_some.mp hf with
      | cons _ _ => exact answers_false nofun
  | x :: xs, y :: ys, fs, gs, hf, hg => by
      obtain ⟨f, fs, hx, hxs, rfl⟩ := List.forall₂_cons_left_iff.mp (dataFormsWith_eq_some.mp hf)
      obtain ⟨g, gs, hy, hys, rfl⟩ := List.forall₂_cons_left_iff.mp (dataFormsWith_eq_some.mp hg)
      have hrest : Answers (itemsEqualWith places xs ys) (fs = gs) :=
        itemsEqualWith_of_data h xs ys (dataFormsWith_eq_some.mpr hxs) (dataFormsWith_eq_some.mpr hys)
      obtain ⟨first, hfirst, hiff⟩ := matchWith_of_data h x y hx hy
      by_cases hlength : xs.length = ys.length
      · rw [itemsEqualWith_cons hlength hfirst]
        cases first with
        | true => exact hrest.congr (by simp [hiff.mp rfl])
        | false => exact answers_false (by simp [← hiff])
      · have hforms : fs ≠ gs := by
          rintro rfl
          exact hlength (hxs.length_eq.trans hys.length_eq.symm)
        rw [itemsEqualWith, if_pos hlength]
        exact answers_false (by simp [hforms])

end

/-- Looking a plain key up finds the value whose form is held under it. -/
theorem lookupWith_of_data {key : Value} {p : PlainForm} (hkey : key.plainForm? = some p)
    {form? : Value → Option DataForm} {entries : List (Value × Value)} :
    ∀ {forms : List (PlainForm × DataForm)}, entryForms? form? entries = some forms →
      ∃ found, lookupWith places key entries = some found ∧
        found.map form? = (heldIn forms p).map some := by
  classical
  induction entries with
  | nil =>
      intro forms hforms
      cases hforms
      exact ⟨none, rfl, rfl⟩
  | cons e entries ih =>
      intro forms hforms
      obtain ⟨⟨q, form⟩, forms, ⟨hq, hform⟩, hrest, rfl⟩ :=
        List.forall₂_cons_left_iff.mp (entryForms?_eq_some.mp hforms)
      obtain ⟨answer, hanswer, hiff⟩ := matchWith_of_plain places e.1 key q p hq hkey
      rw [lookupWith, hanswer]
      cases answer with
      | true =>
          have hsame : q = p := hiff.mp rfl
          exact ⟨some e.2, rfl, by simp [heldIn, hsame, hform]⟩
      | false =>
          have hother : (p == q) = false := beq_false_of_ne fun heq => by simp [heq] at hiff
          obtain ⟨found, hfound, hheld⟩ := ih (entryForms?_eq_some.mpr hrest)
          exact ⟨found, hfound, by simpa [heldIn, List.lookup_cons, hother] using hheld⟩

/-- Mappings are equal where they have one form, however deep they may be entered. -/
theorem byForms_placesEqual (σ : Store) (fuel : Nat) :
    ByForms (σ.placesEqual fuel) (mappingDataForm σ fuel) := by
  induction fuel with
  | zero => exact ⟨nofun, nofun⟩
  | succ fuel ih =>
      refine ⟨fun h => ?_, fun {a b form form'} ha hb => ?_⟩
      · obtain ⟨-, forms, -, -, rfl⟩ := mappingDataForm_succ.mp h
        exact ⟨_, rfl⟩
      · obtain ⟨-, forms, hforms, hnodup, rfl⟩ := mappingDataForm_succ.mp ha
        obtain ⟨-, forms', hforms', hnodup', rfl⟩ := mappingDataForm_succ.mp hb
        have hlengths := (entryForms?_eq_some.mp hforms).length_eq
        have hlengths' := (entryForms?_eq_some.mp hforms').length_eq
        rw [Store.placesEqual]
        split
        · -- mappings of different sizes are not listed alike in any order
          rename_i hlength
          refine answers_false fun heq => hlength ?_
          rw [DataForm.mapping.injEq, heldIn_eq_iff hnodup hnodup'] at heq
          rw [hlengths, hlengths', heq.length_eq]
        · rename_i hlength
          rw [not_not, hlengths, hlengths'] at hlength
          rw [DataForm.mapping.injEq, ← forall_held_iff hnodup hnodup' hlength]
          refine answers_allTrue ((entryForms?_eq_some.mp hforms).imp fun e form he => ?_)
          obtain ⟨hkey, hform⟩ := he
          obtain ⟨found, hfound, hheld⟩ := lookupWith_of_data hkey hforms'
          rw [hfound]
          cases found with
          | none =>
              have hnone : heldIn forms' form.1 = none := by simpa using hheld.symm
              exact answers_false (by simp [hnone])
          | some v =>
              obtain ⟨form', hform', hsame⟩ := Option.map_eq_some_iff.mp hheld.symm
              exact (matchWith_of_data ih v e.2 hsame.symm hform).congr (by simp [hform'])

end

/-! ## Values of a store -/

section

variable {σ : Store} {a b : Value} {f g : DataForm}

/-- Data are found in each other's place exactly where they have one form. -/
theorem HasForm.found (ha : a.HasForm σ f) (hb : b.HasForm σ g) :
    ∃ answer, a.found σ b = .ok answer ∧ (answer = true ↔ f = g) := by
  obtain ⟨answer, hanswer, hiff⟩ :=
    matchWith_of_data (byForms_placesEqual σ (σ.nesting + 1)) a b ha.of_nesting hb.of_nesting
  exact ⟨answer, by rw [Value.found, Store.samePlace, hanswer, settled], hiff⟩

/-- Data are found in each other's place in a grown store as before. -/
theorem HasForm.found_grown {τ : Store} (ha : a.HasForm σ f) (hb : b.HasForm σ g)
    (hgrown : σ.GrownTo τ) : a.found σ b = a.found τ b := by
  obtain ⟨answer, hanswer, hiff⟩ := ha.found hb
  obtain ⟨answer', hanswer', hiff'⟩ := (ha.grown hgrown).found (hb.grown hgrown)
  rw [hanswer, hanswer', Bool.eq_iff_iff.mpr (hiff.trans hiff'.symm)]

/-- Data are found in a list exactly where something in it has their form. -/
theorem HasForm.foundIn (ha : a.HasForm σ f) {items : List Value}
    (hitems : ∀ v ∈ items, ∃ form, v.HasForm σ form) :
    ∃ answer, a.foundIn σ items = .ok answer ∧ (answer = true ↔ ∃ v ∈ items, v.HasForm σ f) := by
  have hsearch : Answers (anyTrue (fun item => matchWith σ.samePlace item a) items)
      (∃ v ∈ items, v.HasForm σ f) := by
    refine answers_anyTrue fun v hv => ?_
    obtain ⟨form, hform⟩ := hitems v hv
    refine (matchWith_of_data (byForms_placesEqual σ (σ.nesting + 1)) v a hform.of_nesting
      ha.of_nesting).congr ⟨fun heq => heq ▸ hform, fun h => hform.unique h⟩
  obtain ⟨answer, hanswer, hiff⟩ := hsearch
  exact ⟨answer, by rw [Value.foundIn, hanswer, settled], hiff⟩

end

end Value

end Rubric
