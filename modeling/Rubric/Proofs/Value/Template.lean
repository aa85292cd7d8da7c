import Rubric.Proofs.Value.Agreement
import Rubric.Value.Template

/-!
# Templates in stores that agree

A template filled with a value within a closed region gives the same text in two stores that agree on
the region: what is left to take values from stays within the region.
-/

namespace Rubric

open Value (Place)

variable {σ σ' : Store} {region : Region}

namespace Supply

/-- Whether the values that a supply may give are within a region. -/
structure Within (region : Region) (s : Supply) : Prop where
  rest : ∀ v ∈ s.rest, v.Within region
  keyed : ∀ entries, s.keyed = some entries → ∀ entry ∈ entries,
    entry.1.Within region ∧ entry.2.Within region

/-- The supply that a value within a closed region is, which is the same in both stores. -/
theorem ofValue_agree (h : σ.Agree region σ') {v : Value} (hv : v.Within region) :
    ofValue σ' v = ofValue σ v ∧ (ofValue σ v).Within region := by
  cases v with
  | tuple items => exact ⟨rfl, Value.within_tuple.mp hv, fun _ h => by cases h⟩
  | row _ _ items => exact ⟨rfl, Value.within_row.mp hv, fun _ h => by cases h⟩
  | mapping address =>
      have haddress := Value.within_mapping.mp hv
      refine ⟨by simp only [ofValue, h.entries_eq address haddress], ?_, ?_⟩
      · exact List.forall_mem_singleton.mpr hv
      · rintro entries ⟨rfl⟩ entry hentry
        exact h.closed.entry haddress hentry
  | _ => exact ⟨rfl, List.forall_mem_singleton.mpr hv, fun _ h => by cases h⟩

/-- The next value of a supply, and what is left, are within the region. -/
theorem next_within {s rest : Supply} {v : Value} (hs : s.Within region)
    (h : s.next = .ok (v, rest)) : v.Within region ∧ rest.Within region := by
  unfold next at h
  cases hrest : s.rest with
  | nil => simp [hrest] at h
  | cons w ws =>
      simp only [hrest, Except.ok.injEq, Prod.mk.injEq] at h
      obtain ⟨rfl, rfl⟩ := h
      obtain ⟨hv, hws⟩ := List.forall_mem_cons.mp (hrest ▸ hs.rest)
      exact ⟨hv, hws, hs.keyed⟩

end Supply

/-- The supply that a key chooses is the same, and within the region. -/
theorem chooseKeyed_agree (h : σ.Agree region σ') {s : Supply} (hs : s.Within region)
    (key : String) :
    chooseKeyed σ' s key = chooseKeyed σ s key ∧
      ∀ chosen, chooseKeyed σ s key = .ok chosen → chosen.Within region := by
  unfold chooseKeyed
  cases hkeyed : s.keyed with
  | none => exact ⟨rfl, fun _ h => by cases h⟩
  | some entries =>
      have hentries := hs.keyed entries hkeyed
      simp only [Value.lookup_agree h (Value.within_str key) fun entry hentry =>
        (hentries entry hentry).1, true_and]
      intro chosen hchosen
      split at hchosen
      · cases hchosen
      · cases hchosen
      · rename_i v hv
        cases hchosen
        obtain ⟨k, hk⟩ := Value.mem_of_lookup hv
        exact ⟨List.forall_mem_singleton.mpr (hentries _ hk).2, fun es hes => hs.keyed es (hkeyed.trans hes)⟩

/-- A computed answer that is changed comes from an answer. -/
theorem ok_of_map {ε α β : Type} {f : α → β} {answer : Except ε α} {b : β}
    (h : answer.map f = .ok b) : ∃ a, answer = .ok a ∧ f a = b := by
  cases answer with
  | error fault => cases h
  | ok a =>
      cases h
      exact ⟨a, rfl, rfl⟩

/-- What reading a width leaves to take values from is within the region. -/
theorem readWidth_within {c c' : Conversion} {s s' : Supply} {cs cs' : List Char}
    (hs : s.Within region) (h : readWidth c s cs = .ok (c', s', cs')) : s'.Within region := by
  unfold readWidth at h
  split at h
  · split at h
    · cases h
    · rename_i v remaining hnext
      split at h
      · cases h
      · obtain ⟨found, -, heq⟩ := ok_of_map h
        cases heq
        exact (Supply.next_within hs hnext).2
  · split at h
    split at h
    · cases h
    · cases h
      exact hs

/-- What reading a precision leaves to take values from is within the region. -/
theorem readPrecision_within {c c' : Conversion} {s s' : Supply} {cs cs' : List Char}
    (hs : s.Within region) (h : readPrecision c s cs = .ok (c', s', cs')) : s'.Within region := by
  unfold readPrecision at h
  split at h
  · split at h
    · cases h
    · rename_i v remaining hnext
      split at h
      · cases h
      · obtain ⟨found, -, heq⟩ := ok_of_map h
        cases heq
        exact (Supply.next_within hs hnext).2
  · split at h
    split at h
    · cases h
    · cases h
      exact hs
  · cases h
    exact hs

/-- What a conversion leaves to take values from is the same, and within the region. -/
theorem readDirective_agree (h : σ.Agree region σ') {s : Supply} (hs : s.Within region)
    (cs : List Char) :
    readDirective σ' s cs = readDirective σ s cs ∧
      ∀ d s', readDirective σ s cs = .ok (d, s') → s'.Within region := by
  unfold readDirective
  simp only [(chooseKeyed_agree h hs _).1, true_and, bind, Except.bind]
  intro d s' hread
  split at hread
  · split at hread
    · split at hread
      · cases hread
      · split at hread
        · cases hread
        · rename_i chosen hchosen
          have hopened := (chooseKeyed_agree h hs _).2 _ hchosen
          split at hread
          · cases hread
          · rename_i wide hwide
            split at hread
            · cases hread
            · rename_i precise hprecise
              have hleft := readPrecision_within (readWidth_within hopened hwide) hprecise
              split at hread <;> cases hread
              exact hleft
    · cases hread
  · split at hread
    · cases hread
    · rename_i wide hwide
      split at hread
      · cases hread
      · rename_i precise hprecise
        have hleft := readPrecision_within (readWidth_within hs hwide) hprecise
        split at hread <;> cases hread
        exact hleft

/-- A value is converted alike. -/
theorem convert_agree (h : σ.Agree region σ') (c : Conversion) (letter : Char) (index : Nat)
    {v : Value} (hv : v.Within region) : convert σ' c letter index v = convert σ c letter index v := by
  have hinteger (letter : Char) : integerForDecimal σ' letter v = integerForDecimal σ letter v := by
    cases v <;> simp only [integerForDecimal, Value.typeName_agree h hv]
  have hreal : realForDecimal σ' v = realForDecimal σ v := by
    unfold realForDecimal
    split
    · rfl
    · rfl
    · rw [Value.typeName_agree h hv]
  unfold convert
  rw [Value.text_agree h hv, Value.shown_agree h hv, hinteger, hreal, Value.typeName_agree h hv]

/-- The rest of a template is filled alike. -/
theorem fillFrom_agree (h : σ.Agree region σ') (size fuel : Nat) :
    ∀ {s : Supply} (cs : List Char), s.Within region →
      fillFrom σ' size fuel s cs = fillFrom σ size fuel s cs := by
  induction fuel with
  | zero => intro s cs _; cases cs <;> rfl
  | succ fuel ih =>
      intro s cs hs
      unfold fillFrom
      split
      · rfl
      · rfl
      · rename_i heq
        cases heq
        rw [ih _ hs]
      · rename_i s _ _ _ _ rest _ heq
        cases heq
        rw [(readDirective_agree h hs rest).1]
        cases hread : readDirective σ s rest with
        | error fault => rfl
        | ok read =>
            have hread' := (readDirective_agree h hs rest).2 _ _ hread
            simp only
            cases hnext : read.2.next with
            | error fault => rfl
            | ok next =>
                obtain ⟨hv, hremaining⟩ := Supply.next_within hread' hnext
                simp only [convert_agree h _ _ _ hv, ih _ hremaining]
      · rename_i heq
        cases heq
        rw [ih _ hs]

/-- A template filled with a value is the same text. -/
theorem fillTemplate_agree (h : σ.Agree region σ') (template : String) {v : Value}
    (hv : v.Within region) : fillTemplate σ' template v = fillTemplate σ template v := by
  obtain ⟨hsupply, hwithin⟩ := Supply.ofValue_agree h hv
  simp only [fillTemplate, hsupply, fillFrom_agree h _ _ _ hwithin]

end Rubric
