import Rubric.Command
import Rubric.Proofs.Profile.Documents
import Rubric.Proofs.Record.Slots

/-!
# Configurations that are refused

A configuration is read from a document: mappings, lists and leaves, such as texts.  Most of what can be
wrong with one is checked, and refused as malformed.  Three things are not: what `equivalence` holds is
iterated over, what `classes` and `subclasses` hold is taken for mappings, and the default name is looked
up, each without a check.  These are the only other faults that reading a configuration ends with.

* `readProfile_outcome` : a profile is accepted, or refused as malformed, or something slips past the checks;
* `readConfig_of_slipsPast`, `readConfig_of_not_slipsPast` : the same of a configuration;
* `Command.loadConfig_refuses` : the faults that loading a configuration ends with.
-/

namespace Rubric

/-! ## Options -/

section

variable {σ : Store} {options : List (Value × Value)} {name : String}

/-- The value of an option, if it is given. -/
def setting? (options : List (Value × Value)) (name : String) : Option Value :=
  (options.find? fun e => e.1.isNamed name).map Prod.snd

/-- The value of an option, null where it is not given. -/
def setting (options : List (Value × Value)) (name : String) : Value := (setting? options name).getD .null

/-- Options are found. -/
theorem option?_eq : option? σ options name = .ok (setting? options name) :=
  Value.lookup_eq_find? options

theorem optionValue_eq : optionValue σ options name = .ok (setting options name) := by
  rw [optionValue, option?_eq]
  rfl

/-- The names of the options that are not given. -/
theorem missingOptions_eq (names : List String) :
    missingOptions σ options names = .ok (names.filter fun n => (setting options n).isNull) :=
  filterM_ok (fun n => by rw [optionValue_eq]; rfl) names

end

/-! ## Profiles -/

/-- What the option for the variant of runs holds. -/
def modeSetting (options : List (Value × Value)) : Value := (setting? options "mode").getD (.str "full")

/-- Whether the options of a profile are such as the checks ask for. -/
structure IsComplete (options : List (Value × Value)) : Prop where
  keyed : (setting? options "item_key").isSome
  moded : ∃ mode : RunMode, modeSetting options = .str mode.name
  required : modeSetting options = .str RunMode.full.name → ∀ name ∈ requiredOptions, setting options name ≠ .null
  scripted : setting options "script" ≠ .null ∨ setting options "script_path" ≠ .null

theorem Value.eq_null_of_isNull {v : Value} (h : v.isNull = true) : v = .null := by
  cases v <;> first | rfl | cases h

/-- Whether a value can be iterated over. -/
def Value.isIterable : Value → Bool
  | .str _ | .list _ _ | .tuple _ | .row _ _ _ | .set _ _ | .mapping _ => true
  | _ => false

/-- Whether a value is a mapping. -/
def Value.isMapping : Value → Bool
  | .mapping _ => true
  | _ => false

/-- Whether the options of a profile that are not checked are such as it takes them for; values that count
as false stand for none. -/
structure IsReadable (σ : Store) (options : List (Value × Value)) : Prop where
  equivalence : (setting options "equivalence").truthy σ = true → (setting options "equivalence").isIterable = true
  classes : (setting options "classes").truthy σ = true → (setting options "classes").isMapping = true
  subclasses : (setting options "subclasses").truthy σ = true → (setting options "subclasses").isMapping = true

variable {σ : Store} {options : List (Value × Value)}

/-- The checks of a profile's options, which give the item key and the variant of runs. -/
def checkedOptions (σ : Store) (path name : String) (options : List (Value × Value)) :
    Except Fault (Value × RunMode) :=
  match setting? options "item_key" with
  | none => .error (.profile (.missingItemKey name path))
  | some itemKey =>
    match readMode σ name (modeSetting options) with
    | .error fault => .error fault
    | .ok mode =>
      match checkComplete σ name options mode with
      | .error fault => .error fault
      | .ok () =>
        if (setting options "script").isNull && (setting options "script_path").isNull then
          .error (.profile (.missingScript name))
        else .ok (itemKey, mode)

/-- The profile that the options give, once they are checked. -/
def profileOf (σ : Store) (key : Value) (options : List (Value × Value)) (itemKey : Value) (mode : RunMode) :
    Except Fault RunProfile := do
  let equivalence ← readEquivalence σ (setting options "equivalence")
  let classes ← readDescriptions σ (setting options "classes")
  let subclasses ← readDescriptions σ (setting options "subclasses")
  return {
    name := key
    itemKey := itemKey
    script := setting options "script"
    scriptPath := setting options "script_path"
    mode := mode
    itemDisplay := setting options "item_display"
    equivalence := equivalence
    evalKey := setting options "eval_key"
    evalBasedKey := setting options "eval_based_key"
    evalBasedDisplay := setting options "eval_based_display"
    resultKey := setting options "result_key"
    obsKey := setting options "obs_key"
    classes := classes
    subclasses := subclasses }

/-- A profile is checked and then put together. -/
theorem readProfile_eq (path : String) (key : Value) (address : Nat) :
    readProfile σ path key (.mapping address) =
      (checkedOptions σ path (key.text σ) (σ.entries address)).bind fun checked =>
        profileOf σ key (σ.entries address) checked.1 checked.2 := by
  simp only [readProfile, profileOptions, option?_eq, optionValue_eq, bind, Except.bind, checkedOptions,
    modeSetting, profileOf]
  cases setting? (σ.entries address) "item_key" with
  | none => rfl
  | some itemKey =>
      dsimp only
      cases readMode σ (key.text σ) ((setting? (σ.entries address) "mode").getD (.str "full")) with
      | error fault => rfl
      | ok mode =>
          dsimp only
          cases checkComplete σ (key.text σ) (σ.entries address) mode with
          | error fault => rfl
          | ok _ =>
              dsimp only
              split
              · rfl
              · rfl

/-- The variant of runs is read from its name. -/
theorem readMode_name {name : String} (mode : RunMode) : readMode σ name (.str mode.name) = .ok mode := by
  cases mode with
  | full => rfl
  | simple => rfl

/-- Only a name of a variant is read as one. -/
theorem eq_name_of_readMode {name : String} {mode : RunMode} {v : Value} (h : readMode σ name v = .ok mode) :
    v = .str mode.name := by
  rw [readMode.eq_def] at h
  split at h
  · cases h
    rfl
  · cases h
    rfl
  · cases h

theorem kind_of_readMode {name : String} {v : Value} {fault : Fault}
    (h : readMode σ name v = .error fault) : fault.kind = .valueError := by
  rw [readMode.eq_def] at h
  split at h
  · cases h
  · cases h
  · cases h
    rfl

/-- Full runs are refused where an option is missing, as malformed. -/
theorem checkComplete_outcome (σ : Store) (options : List (Value × Value)) (name : String) (mode : RunMode) :
    (checkComplete σ name options mode = .ok () ∧
        (mode = .full → ∀ name ∈ requiredOptions, setting options name ≠ .null)) ∨
      ∃ fault, checkComplete σ name options mode = .error fault ∧ fault.kind = .valueError ∧
        mode = .full ∧ ∃ name ∈ requiredOptions, setting options name = .null := by
  cases mode with
  | simple => exact .inl ⟨rfl, fun h => by cases h⟩
  | full =>
      rw [checkComplete, missingOptions_eq]
      cases hmissing : requiredOptions.filter fun n => (setting options n).isNull with
      | nil =>
          refine .inl ⟨rfl, fun _ n hn hnull => ?_⟩
          have hkept : n ∈ requiredOptions.filter fun n => (setting options n).isNull :=
            List.mem_filter.mpr ⟨hn, by rw [hnull]; rfl⟩
          rw [hmissing] at hkept
          cases hkept
      | cons n rest =>
          have hn : n ∈ requiredOptions.filter fun n => (setting options n).isNull := by
            rw [hmissing]
            exact List.mem_cons_self
          obtain ⟨hrequired, hnull⟩ := List.mem_filter.mp hn
          exact .inr ⟨_, rfl, rfl, rfl, n, hrequired, Value.eq_null_of_isNull hnull⟩

/-- The checks pass just for complete options, and refuse others as malformed. -/
theorem checkedOptions_outcome (σ : Store) (options : List (Value × Value)) (path name : String) :
    (IsComplete options ∧ ∃ checked, checkedOptions σ path name options = .ok checked) ∨
      ¬ IsComplete options ∧
        ∃ fault, checkedOptions σ path name options = .error fault ∧ fault.kind = .valueError := by
  rw [checkedOptions]
  -- the checks in their order: the key, the mode, what the mode requires, and the script
  cases hkey : setting? options "item_key" with
  | none =>
      refine .inr ⟨fun h => ?_, _, rfl, rfl⟩
      have hkeyed := h.keyed
      rw [hkey] at hkeyed
      cases hkeyed
  | some itemKey =>
      dsimp only
      cases hmode : readMode σ name (modeSetting options) with
      | error fault =>
          refine .inr ⟨fun h => ?_, fault, rfl, kind_of_readMode hmode⟩
          obtain ⟨mode, hgiven⟩ := h.moded
          rw [hgiven, readMode_name] at hmode
          cases hmode
      | ok mode =>
          dsimp only
          have hgiven := eq_name_of_readMode hmode
          have hfull : modeSetting options = .str RunMode.full.name → mode = .full := by
            intro hfull
            rw [hgiven] at hfull
            cases mode with
            | full => rfl
            | simple => simp [RunMode.name] at hfull
          -- what a full run requires is asked of full runs only
          obtain ⟨hcomplete, hrequired⟩ | ⟨fault, hcomplete, hkind, rfl, n, hn, hnull⟩ :=
            checkComplete_outcome σ options name mode
          · rw [hcomplete]
            dsimp only
            split
            · rename_i hscript
              rw [Bool.and_eq_true] at hscript
              refine .inr ⟨fun h => ?_, _, rfl, rfl⟩
              obtain h | h := h.scripted
              · exact h (Value.eq_null_of_isNull hscript.1)
              · exact h (Value.eq_null_of_isNull hscript.2)
            · rename_i hscript
              refine .inl ⟨⟨by rw [hkey]; rfl, ⟨mode, hgiven⟩, fun h => hrequired (hfull h), ?_⟩, _, rfl⟩
              by_contra hnone
              rw [not_or, not_not, not_not] at hnone
              rw [hnone.1, hnone.2] at hscript
              exact hscript rfl
          · rw [hcomplete]
            exact .inr ⟨fun h => h.required hgiven n hn hnull, fault, rfl, hkind⟩

/-- Whether a fault is one of a value of the wrong type, which no check has refused. -/
def Fault.IsUnchecked (fault : Fault) : Prop := fault.kind = .typeError ∨ fault.kind = .attributeError

/-- What an option names as attributes can be read where it can be iterated over. -/
theorem readEquivalence_outcome (σ : Store) (v : Value) :
    ((v.truthy σ = true → v.isIterable = true) ∧ ∃ names, readEquivalence σ v = .ok names) ∨
      ¬ (v.truthy σ = true → v.isIterable = true) ∧
        ∃ fault, readEquivalence σ v = .error fault ∧ fault.IsUnchecked := by
  unfold readEquivalence
  cases htruthy : v.truthy σ with
  | false => exact .inl ⟨fun h => (by cases h), _, rfl⟩
  | true =>
      cases hiterable : v.isIterable with
      | true => cases v <;> first | exact .inl ⟨fun _ => rfl, _, rfl⟩ | cases hiterable
      | false => cases v <;> first | exact .inr ⟨fun h => (by cases h rfl), _, rfl, .inl rfl⟩ | cases hiterable

/-- Descriptions can be read where they are a mapping. -/
theorem readDescriptions_outcome (σ : Store) (v : Value) :
    ((v.truthy σ = true → v.isMapping = true) ∧ ∃ table, readDescriptions σ v = .ok table) ∨
      ¬ (v.truthy σ = true → v.isMapping = true) ∧
        ∃ fault, readDescriptions σ v = .error fault ∧ fault.IsUnchecked := by
  unfold readDescriptions
  cases htruthy : v.truthy σ with
  | false => exact .inl ⟨fun h => (by cases h), _, rfl⟩
  | true =>
      cases hmapping : v.isMapping with
      | true => cases v <;> first | exact .inl ⟨fun _ => rfl, _, rfl⟩ | cases hmapping
      | false => cases v <;> first | exact .inr ⟨fun h => (by cases h rfl), _, rfl, .inr rfl⟩ | cases hmapping

/-- A profile is put together just from readable options. -/
theorem profileOf_outcome (σ : Store) (options : List (Value × Value)) (key itemKey : Value) (mode : RunMode) :
    (IsReadable σ options ∧ ∃ profile, profileOf σ key options itemKey mode = .ok profile) ∨
      ¬ IsReadable σ options ∧
        ∃ fault, profileOf σ key options itemKey mode = .error fault ∧ fault.IsUnchecked := by
  simp only [profileOf, bind, Except.bind]
  obtain ⟨hequivalence, names, hnames⟩ | ⟨hequivalence, fault, hfault, hkind⟩ :=
    readEquivalence_outcome σ (setting options "equivalence")
  · obtain ⟨hclasses, classes, hread⟩ | ⟨hclasses, fault, hfault, hkind⟩ :=
      readDescriptions_outcome σ (setting options "classes")
    · obtain ⟨hsubclasses, subclasses, hread'⟩ | ⟨hsubclasses, fault, hfault, hkind⟩ :=
        readDescriptions_outcome σ (setting options "subclasses")
      · rw [hnames, hread, hread']
        exact .inl ⟨⟨hequivalence, hclasses, hsubclasses⟩, _, rfl⟩
      · rw [hnames, hread, hfault]
        exact .inr ⟨fun h => hsubclasses h.subclasses, _, rfl, hkind⟩
    · rw [hnames, hfault]
      exact .inr ⟨fun h => hclasses h.classes, _, rfl, hkind⟩
  · rw [hfault]
    exact .inr ⟨fun h => hequivalence h.equivalence, _, rfl, hkind⟩

/-- Whether a profile is accepted: it is a mapping of complete and readable options. -/
def IsAccepted (σ : Store) (data : Value) : Prop :=
  ∃ address, data = .mapping address ∧ IsComplete (σ.entries address) ∧ IsReadable σ (σ.entries address)

/-- Whether the options of a profile pass the checks and then are not readable. -/
def SlipsPast (σ : Store) (data : Value) : Prop :=
  ∃ address, data = .mapping address ∧ IsComplete (σ.entries address) ∧ ¬ IsReadable σ (σ.entries address)

/-- Reading a profile: it is accepted, or refused as malformed, or something slips past the checks. -/
theorem readProfile_outcome (σ : Store) (path : String) (key data : Value) :
    (IsAccepted σ data ∧ ∃ profile, readProfile σ path key data = .ok profile) ∨
    (¬ IsAccepted σ data ∧ ¬ SlipsPast σ data ∧
      ∃ fault, readProfile σ path key data = .error fault ∧ fault.kind = .valueError) ∨
    (SlipsPast σ data ∧ ∃ fault, readProfile σ path key data = .error fault ∧ fault.IsUnchecked) := by
  cases data with
  | mapping address =>
      rw [readProfile_eq]
      obtain ⟨hcomplete, checked, hchecked⟩ | ⟨hcomplete, fault, hfault, hkind⟩ :=
        checkedOptions_outcome σ (σ.entries address) path (key.text σ)
      · obtain ⟨hreadable, profile, hprofile⟩ | ⟨hreadable, fault, hfault, hkind⟩ :=
          profileOf_outcome σ (σ.entries address) key checked.1 checked.2
        · rw [hchecked]
          exact .inl ⟨⟨address, rfl, hcomplete, hreadable⟩, profile, hprofile⟩
        · rw [hchecked]
          exact .inr (.inr ⟨⟨address, rfl, hcomplete, hreadable⟩, fault, hfault, hkind⟩)
      · rw [hfault]
        refine .inr (.inl ⟨?_, ?_, fault, rfl, hkind⟩)
        · rintro ⟨_, heq, h, -⟩
          cases heq
          exact hcomplete h
        · rintro ⟨_, heq, h, -⟩
          cases heq
          exact hcomplete h
  | _ =>
      refine .inr (.inl ⟨?_, ?_, _, rfl, rfl⟩)
      · rintro ⟨_, heq, -⟩
        cases heq
      · rintro ⟨_, heq, -⟩
        cases heq

/-! ## Configurations -/

/-- The settings of a configuration and the entries of its profiles, where both are mappings. -/
def configParts? (σ : Store) : Value → Option (List (Value × Value) × List (Value × Value))
  | .mapping address =>
    match setting (σ.entries address) "profiles" with
    | .mapping profiles => some (σ.entries address, σ.entries profiles)
    | _ => none
  | _ => none

/-- Whether something of the wrong type slips past the checks of a configuration: in the first profile that
is not accepted, or as the default of accepted profiles. -/
def ConfigSlipsPast (σ : Store) (raw : Value) : Prop :=
  ∃ settings entries, configParts? σ raw = some (settings, entries) ∧
    ((∃ before entry after, entries = before ++ entry :: after ∧ (∀ e ∈ before, IsAccepted σ e.2) ∧
        SlipsPast σ entry.2) ∨
      (entries ≠ [] ∧ (∀ e ∈ entries, IsAccepted σ e.2) ∧
        ∃ v, setting? settings "default_profile" = some v ∧ v.isCollection = true))

/-- The parts of a configuration are found, or it is refused as malformed. -/
theorem profileEntries_eq (path : String) (raw : Value) : profileEntries σ path raw =
    match configParts? σ raw with
    | some parts => .ok parts
    | none => .error (.profile (.missingProfiles path)) := by
  cases raw with
  | mapping address =>
      simp only [profileEntries, optionValue_eq, configParts?, bind, Except.bind]
      cases setting (σ.entries address) "profiles" <;> rfl
  | _ => rfl

/-- The parts hold leaves as keys. -/
theorem isLeaf_of_configParts? (hσ : σ.HoldsDocuments) {raw : Value}
    {settings entries : List (Value × Value)} (h : configParts? σ raw = some (settings, entries)) :
    (∀ e ∈ settings, e.2.IsNode σ) ∧ ∀ e ∈ entries, e.1.IsLeaf σ := by
  cases raw with
  | mapping address =>
      rw [configParts?] at h
      split at h
      · cases h
        exact ⟨hσ.values address, hσ.keys _⟩
      · cases h
  | _ => cases h

/-- What is given for an option is a value of the mapping. -/
theorem mem_of_setting? {name : String} {v : Value} (h : setting? options name = some v) :
    ∃ e ∈ options, e.2 = v := by
  obtain ⟨e, he, rfl⟩ := Option.map_eq_some_iff.mp h
  exact ⟨e, List.mem_of_find?_eq_some he, rfl⟩

/-- The profiles of a configuration, each under its name. -/
def readProfiles (σ : Store) (path : String) (entries : List (Value × Value)) :
    Except Fault (List (Value × RunProfile)) :=
  entries.mapM fun entry => (readProfile σ path entry.1 entry.2).map fun profile => (entry.1, profile)

/-- The name of the profile that is used by default, which must be that of one. -/
def readDefault (σ : Store) (settings entries : List (Value × Value)) (profiles : List (Value × RunProfile))
    (first : Value) : Except Fault Value := do
  let default := (setting? settings "default_profile").getD first
  default.requireHashable σ
  if (← Value.lookup σ default entries).isNone then
    .error (.profile (.unknownDefault (default.text σ) (shownNames σ profiles)))
  else return default

/-- A configuration that has parts is read profile by profile, and then its default. -/
theorem readConfig_of_parts {path : String} {raw : Value} {settings entries : List (Value × Value)}
    (h : configParts? σ raw = some (settings, entries)) :
    readConfig σ path raw = (readProfiles σ path entries).bind fun profiles =>
      match profiles with
      | [] => .error (.profile (.noProfiles path))
      | first :: rest =>
        (readDefault σ settings entries (first :: rest) first.1).map fun default => ⟨first :: rest, default⟩ := by
  simp only [readConfig, profileEntries_eq, h, bind, Except.bind, option?_eq, readProfiles]
  cases entries.mapM fun entry =>
      (readProfile σ path entry.1 entry.2).map fun profile => (entry.1, profile) with
  | error fault => rfl
  | ok profiles =>
      cases profiles with
      | nil => rfl
      | cons first rest =>
          simp only [readDefault, bind, Except.bind]
          cases ((setting? settings "default_profile").getD first.1).requireHashable σ with
          | error fault => rfl
          | ok _ =>
              dsimp only
              cases Value.lookup σ ((setting? settings "default_profile").getD first.1) entries with
              | error fault => rfl
              | ok found =>
                  cases found with
                  | none => rfl
                  | some v => rfl

/-- A profile that is read is accepted. -/
theorem isAccepted_of_readProfile {path : String} {key data : Value} {profile : RunProfile}
    (h : readProfile σ path key data = .ok profile) : IsAccepted σ data := by
  obtain ⟨haccepted, -⟩ | ⟨-, -, fault, hfault, -⟩ | ⟨-, fault, hfault, -⟩ :=
    readProfile_outcome σ path key data
  · exact haccepted
  · rw [h] at hfault
    cases hfault
  · rw [h] at hfault
    cases hfault

/-- Accepted profiles are read. -/
theorem readProfile_of_isAccepted (path : String) (key : Value) {data : Value} (h : IsAccepted σ data) :
    ∃ profile, readProfile σ path key data = .ok profile := by
  obtain ⟨-, hread⟩ | ⟨hrefused, -⟩ | ⟨⟨address, rfl, -, hunreadable⟩, -⟩ :=
    readProfile_outcome σ path key data
  · exact hread
  · exact absurd h hrefused
  · obtain ⟨_, heq, -, hreadable⟩ := h
    cases heq
    exact absurd hreadable hunreadable

/-- Profiles that slip past the checks end with a fault that these do not raise. -/
theorem readProfile_of_slipsPast (path : String) (key : Value) {data : Value} (h : SlipsPast σ data) :
    ∃ fault, readProfile σ path key data = .error fault ∧ fault.IsUnchecked := by
  obtain ⟨⟨address, rfl, -, hreadable⟩, -⟩ | ⟨-, hslips, -⟩ | ⟨-, hfault⟩ :=
    readProfile_outcome σ path key data
  · obtain ⟨_, heq, -, hunreadable⟩ := h
    cases heq
    exact absurd hreadable hunreadable
  · exact absurd h hslips
  · exact hfault

/-- Reading the profiles: all are accepted, or the first that is not decides. -/
theorem readProfiles_outcome (σ : Store) (path : String) (entries : List (Value × Value)) :
    (∃ profiles, readProfiles σ path entries = .ok profiles ∧ (∀ e ∈ entries, IsAccepted σ e.2) ∧
        profiles.map Prod.fst = entries.map Prod.fst) ∨
      ∃ before entry after fault, entries = before ++ entry :: after ∧ (∀ e ∈ before, IsAccepted σ e.2) ∧
        readProfile σ path entry.1 entry.2 = .error fault ∧ readProfiles σ path entries = .error fault := by
  -- an entry is read to a profile of its name
  have haccepted : ∀ {e : Value × Value} {named : Value × RunProfile},
      (readProfile σ path e.1 e.2).map (fun profile => (e.1, profile)) = .ok named →
        IsAccepted σ e.2 ∧ named.1 = e.1 := by
    intro e named h
    cases hread : readProfile σ path e.1 e.2 with
    | error fault =>
        rw [hread] at h
        cases h
    | ok profile =>
        rw [hread] at h
        cases h
        exact ⟨isAccepted_of_readProfile hread, rfl⟩
  obtain ⟨profiles, hprofiles, hrelated⟩ | ⟨before, entry, after, fault, rfl, hbefore, hentry, hfault⟩ :=
    mapM_outcome (fun entry => (readProfile σ path entry.1 entry.2).map fun profile => (entry.1, profile))
      entries
  · refine .inl ⟨profiles, hprofiles, ?_⟩
    clear hprofiles
    induction hrelated with
    | nil => exact ⟨fun _ h => absurd h List.not_mem_nil, rfl⟩
    | cons hfirst _ ih =>
        obtain ⟨hdata, hname⟩ := haccepted hfirst
        refine ⟨List.forall_mem_cons.mpr ⟨hdata, ih.1⟩, ?_⟩
        rw [List.map_cons, List.map_cons, ih.2, hname]
  · refine .inr ⟨before, entry, after, fault, rfl, fun e he => ?_, ?_, hfault⟩
    · obtain ⟨named, hnamed⟩ := hbefore e he
      exact (haccepted hnamed).1
    · cases hread : readProfile σ path entry.1 entry.2 with
      | error fault' =>
          rw [hread] at hentry
          cases hentry
          rfl
      | ok profile =>
          rw [hread] at hentry
          cases hentry

/-- A leaf as a default is the name of a profile, or refused as malformed. -/
theorem readDefault_of_isLeaf {settings entries : List (Value × Value)} {first : Value}
    (hentries : ∀ e ∈ entries, e.1.IsLeaf σ) (profiles : List (Value × RunProfile))
    (h : ((setting? settings "default_profile").getD first).IsLeaf σ) :
    (∃ v, readDefault σ settings entries profiles first = .ok v) ∨
      ∃ fault, readDefault σ settings entries profiles first = .error fault ∧ fault.kind = .valueError := by
  have hhashable : ((setting? settings "default_profile").getD first).requireHashable σ = .ok () := by
    rw [Value.requireHashable, Value.unhashable?_of_isLeaf h]
  obtain ⟨found, hfound⟩ :=
    Value.exists_lookup_of_isLeaf hentries ((setting? settings "default_profile").getD first)
  simp only [readDefault, bind, Except.bind, hhashable, hfound]
  cases found with
  | none => exact .inr ⟨_, rfl, rfl⟩
  | some v => exact .inl ⟨_, rfl⟩

/-- A name by default is one of the profiles, or refused as malformed, or a list or a mapping. -/
theorem readDefault_outcome {settings entries : List (Value × Value)} {first : Value}
    (hsettings : ∀ e ∈ settings, e.2.IsNode σ) (hentries : ∀ e ∈ entries, e.1.IsLeaf σ)
    (hfirst : first.IsLeaf σ) (profiles : List (Value × RunProfile)) :
    ((∃ v, readDefault σ settings entries profiles first = .ok v) ∨
        ∃ fault, readDefault σ settings entries profiles first = .error fault ∧ fault.kind = .valueError) ∨
      (∃ v, setting? settings "default_profile" = some v ∧ v.isCollection = true) := by
  cases hgiven : setting? settings "default_profile" with
  | none => exact .inl (readDefault_of_isLeaf hentries profiles (by rw [hgiven]; exact hfirst))
  | some v =>
      obtain ⟨e, he, rfl⟩ := mem_of_setting? hgiven
      obtain hleaf | hcollection := hsettings e he
      · exact .inl (readDefault_of_isLeaf hentries profiles (by rw [hgiven]; exact hleaf))
      · exact .inr ⟨_, rfl, hcollection⟩

/-- Lists and mappings as a default slip past. -/
theorem readDefault_of_isCollection {settings : List (Value × Value)} {v : Value}
    (h : setting? settings "default_profile" = some v) (hcollection : v.isCollection = true)
    (entries : List (Value × Value)) (profiles : List (Value × RunProfile)) (first : Value) :
    ∃ fault, readDefault σ settings entries profiles first = .error fault ∧ fault.IsUnchecked := by
  obtain ⟨type, htype⟩ := Value.requireHashable_of_isCollection (σ := σ) hcollection
  refine ⟨.type (.unhashable type), ?_, .inl rfl⟩
  simp only [readDefault, h, Option.getD_some, htype, bind, Except.bind]

/-- Where something slips past the checks, a fault that they do not raise ends the reading. -/
theorem readConfig_of_slipsPast {raw : Value} (h : ConfigSlipsPast σ raw) (path : String) :
    ∃ fault, readConfig σ path raw = .error fault ∧ fault.IsUnchecked := by
  obtain ⟨settings, entries, hparts, hslips⟩ := h
  rw [readConfig_of_parts hparts]
  obtain ⟨before, entry, after, rfl, hbefore, hentry⟩ | ⟨hne, haccepted, v, hgiven, hcollection⟩ := hslips
  · -- the first profile that is not accepted ends the reading of all
    obtain ⟨fault, hfault, hkind⟩ := readProfile_of_slipsPast path entry.1 hentry
    have hread : readProfiles σ path (before ++ entry :: after) = .error fault := by
      refine mapM_of_first_error (fun e he => ?_) ?_
      · obtain ⟨profile, hprofile⟩ := readProfile_of_isAccepted path e.1 (hbefore e he)
        exact ⟨(e.1, profile), by rw [hprofile]; rfl⟩
      · rw [hfault]
        rfl
    rw [hread]
    exact ⟨fault, rfl, hkind⟩
  · -- all profiles are read, and then the default cannot be looked up
    obtain ⟨profiles, hprofiles, -, hnames⟩ | ⟨before, entry, after, fault, rfl, -, hfault, -⟩ :=
      readProfiles_outcome σ path entries
    · rw [hprofiles]
      cases profiles with
      | nil => exact absurd (List.map_eq_nil_iff.mp hnames.symm) hne
      | cons first rest =>
          obtain ⟨fault, hfault, hkind⟩ :=
            readDefault_of_isCollection (σ := σ) hgiven hcollection entries (first :: rest) first.1
          exact ⟨fault, by simp only [Except.bind, hfault, Except.map], hkind⟩
    · obtain ⟨profile, hprofile⟩ := readProfile_of_isAccepted path entry.1 (haccepted entry (by simp))
      rw [hprofile] at hfault
      cases hfault

/-- Where nothing does, a configuration is read or refused as malformed. -/
theorem readConfig_of_not_slipsPast (hσ : σ.HoldsDocuments) {raw : Value} (h : ¬ ConfigSlipsPast σ raw)
    (path : String) : (∃ config, readConfig σ path raw = .ok config) ∨
      ∃ fault, readConfig σ path raw = .error fault ∧ fault.kind = .valueError := by
  cases hparts : configParts? σ raw with
  | none =>
      refine .inr ⟨.profile (.missingProfiles path), ?_, rfl⟩
      simp only [readConfig, profileEntries_eq, hparts, bind, Except.bind]
  | some parts =>
      obtain ⟨settings, entries⟩ := parts
      rw [readConfig_of_parts hparts]
      obtain ⟨hsettings, hentries⟩ := isLeaf_of_configParts? hσ hparts
      obtain ⟨profiles, hprofiles, haccepted, hnames⟩ |
          ⟨before, entry, after, fault, rfl, hbefore, hfault, hread⟩ := readProfiles_outcome σ path entries
      · rw [hprofiles]
        cases profiles with
        | nil => exact .inr ⟨_, rfl, rfl⟩
        | cons first rest =>
            -- the first name, which is the default where none is given, is a leaf
            have hmem : first.1 ∈ entries.map Prod.fst := by
              rw [← hnames]
              exact List.mem_cons_self
            obtain ⟨e, he, hname⟩ := List.mem_map.mp hmem
            obtain (⟨v, hv⟩ | ⟨fault, hfault, hkind⟩) | hcollection :=
              readDefault_outcome hsettings hentries (hname ▸ hentries e he) (first :: rest)
            · exact .inl ⟨⟨first :: rest, v⟩, by simp only [Except.bind, hv, Except.map]⟩
            · exact .inr ⟨fault, by simp only [Except.bind, hfault, Except.map], hkind⟩
            · have hne : entries ≠ [] := by
                rintro rfl
                cases he
              exact absurd ⟨settings, entries, hparts, .inr ⟨hne, haccepted, hcollection⟩⟩ h
      · -- the profile that ends the reading was refused by a check, for it does not slip past
        rw [hread]
        obtain ⟨-, profile, hprofile⟩ | ⟨-, -, fault', hfault', hkind⟩ | ⟨hslips, -⟩ :=
          readProfile_outcome σ path entry.1 entry.2
        · rw [hprofile] at hfault
          cases hfault
        · rw [hfault'] at hfault
          cases hfault
          exact .inr ⟨_, rfl, hkind⟩
        · exact absurd ⟨settings, _, hparts, .inl ⟨before, entry, after, rfl, hbefore, hslips⟩⟩ h

/-! ## Loading -/

namespace Command

/-- The path of the configuration: the one given, or that of the program. -/
def configPath (files : Files) (config : Option String) : String :=
  ((given config).map cleanPath).getD (Shipped.configPath files.root)

/-- Loading a configuration whose file is a document. -/
theorem loadConfig_eq {files : Files} {config : Option String} {document : Eval Value} {τ : Store} {raw : Value}
    (hentry : files.entry? (configPath files config) = some (.data document)) (hraw : document σ = .ok raw τ) :
    loadConfig files config σ = match readConfig τ (configPath files config) raw with
      | .ok c => .ok c τ
      | .error fault => .error fault τ := by
  have hhas : files.has (configPath files config) = true := by rw [Files.has, hentry]; rfl
  have hdata : files.readData (configPath files config) = document := by rw [Files.readData, hentry]
  unfold loadConfig
  change (if !files.has (configPath files config) then throw _ else _ : Eval ProfileConfig) σ = _
  rw [hhas]
  change (files.readData (configPath files config) >>= fun raw =>
    get >>= fun σ => Eval.ofExcept (readConfig σ (configPath files config) raw)) σ = _
  rw [hdata, bind_of_ok hraw]
  change Eval.ofExcept (readConfig τ (configPath files config) raw) τ = _
  cases readConfig τ (configPath files config) raw with
  | ok c => rfl
  | error fault => rfl

/-- Loading a configuration from a document gives its profiles or refuses it as malformed, except where
something of the wrong type slips past the checks; there, and only there, it ends with another fault. -/
theorem loadConfig_refuses {files : Files} {config : Option String} {document : Eval Value} {τ : Store}
    {raw : Value} (hentry : files.entry? (configPath files config) = some (.data document))
    (hraw : document σ = .ok raw τ) (hτ : τ.HoldsDocuments) :
    (ConfigSlipsPast τ raw ∧ ∃ fault, loadConfig files config σ = .error fault τ ∧ fault.IsUnchecked) ∨
      ¬ ConfigSlipsPast τ raw ∧ ((∃ c, loadConfig files config σ = .ok c τ) ∨
        ∃ fault, loadConfig files config σ = .error fault τ ∧ fault.kind = .valueError) := by
  rw [loadConfig_eq hentry hraw]
  by_cases hslips : ConfigSlipsPast τ raw
  · obtain ⟨fault, hfault, hkind⟩ := readConfig_of_slipsPast hslips (configPath files config)
    rw [hfault]
    exact .inl ⟨hslips, fault, rfl, hkind⟩
  · refine .inr ⟨hslips, ?_⟩
    obtain ⟨c, hc⟩ | ⟨fault, hfault, hkind⟩ :=
      readConfig_of_not_slipsPast hτ hslips (configPath files config)
    · rw [hc]
      exact .inl ⟨c, rfl⟩
    · rw [hfault]
      exact .inr ⟨fault, rfl, hkind⟩

/-- The document of a configuration with one profile, whose descriptions are as given. -/
def describedConfig (classes : Document) : Document :=
  .mapping [("profiles", .mapping [("p", .mapping
    [("mode", .str "simple"), ("item_key", .str "a"), ("script", .str "x"), ("classes", classes)])])]

/-- Files with a configuration only. -/
def filesWith (config : Document) : Files := ⟨"/", "/", [("/config.yaml", .data config.toValue)]⟩

theorem entry?_filesWith (config : Document) :
    Files.entry? (filesWith config) (configPath (filesWith config) (some "/config.yaml")) =
      some (.data config.toValue) := by
  have hgiven : (given (some "/config.yaml")).map cleanPath = some "/config.yaml" := by decide +kernel
  have hpath : configPath (filesWith config) (some "/config.yaml") = "/config.yaml" := by
    rw [configPath, hgiven]
    rfl
  have hat : (resolvedParts "/config.yaml" == resolvedParts (pathFrom "/" "/config.yaml")) = true := by
    decide +kernel
  rw [hpath]
  unfold Files.entry?
  simp only [filesWith, List.find?_cons, hat]

theorem exists_toValue_describedConfig : ∃ raw τ,
    (describedConfig (.str "x")).toValue .empty = .ok raw τ ∧ τ.HoldsDocuments := by
  have hvalue : ∃ raw τ, (describedConfig (.str "x")).toValue .empty = .ok raw τ := ⟨_, _, rfl⟩
  obtain ⟨raw, τ, hvalue⟩ := hvalue
  exact ⟨raw, τ, hvalue, (Document.keeps_toValue _ hvalue).1.holds Store.holdsDocuments_empty⟩

/-- The theorem at a configuration with a text for descriptions. -/
theorem loadConfig_refuses_described : ∃ raw τ,
    (describedConfig (.str "x")).toValue .empty = .ok raw τ ∧
      ((ConfigSlipsPast τ raw ∧ ∃ fault, loadConfig (filesWith (describedConfig (.str "x")))
          (some "/config.yaml") .empty = .error fault τ ∧ fault.IsUnchecked) ∨
        ¬ ConfigSlipsPast τ raw ∧
          ((∃ c, loadConfig (filesWith (describedConfig (.str "x"))) (some "/config.yaml") .empty = .ok c τ) ∨
            ∃ fault, loadConfig (filesWith (describedConfig (.str "x"))) (some "/config.yaml") .empty =
              .error fault τ ∧ fault.kind = .valueError)) := by
  obtain ⟨raw, τ, hvalue, hholds⟩ := exists_toValue_describedConfig
  exact ⟨raw, τ, hvalue, loadConfig_refuses (entry?_filesWith _) hvalue hholds⟩

/-- Not every document is either read or refused as malformed. -/
theorem not_malformed_of_every_document : ¬ ∀ (files : Files) (config : Option String)
    (document : Eval Value) (σ τ : Store) (raw : Value),
    files.entry? (configPath files config) = some (.data document) → document σ = .ok raw τ →
      τ.HoldsDocuments → (∃ c, loadConfig files config σ = .ok c τ) ∨
        ∃ fault, loadConfig files config σ = .error fault τ ∧ fault.kind = .valueError := by
  intro hall
  obtain ⟨raw, τ, hvalue, hholds⟩ := exists_toValue_describedConfig
  have hkind : (match loadConfig (filesWith (describedConfig (.str "x"))) (some "/config.yaml") .empty with
      | .ok _ _ => none
      | .error fault _ => some fault.kind) = some .attributeError := by decide +kernel
  obtain ⟨c, hc⟩ | ⟨fault, hfault, hvalueError⟩ := hall _ _ _ _ _ _ (entry?_filesWith _) hvalue hholds
  · rw [hc] at hkind
    cases hkind
  · rw [hfault] at hkind
    simp [hvalueError] at hkind

end Command

end Rubric
