import Rubric.Proofs.Evaluator.Runs
import Rubric.Proofs.Number.Decimal

/-!
# The total of a report

A report prints how many items were counted before the first of them was processed.  The items that
are processed are found one after the other, with the keys that the records have by then, so the two
numbers are the same exactly where as many records turn out to be items in both passes.

* `totals_agree_iff` : the exact condition for the printed total, the number of items and the sizes
  of the buckets to agree;
* `Turns.items_eq` : they do where processing an item changes no key;
* `totals_disagree` : they need not where a hook writes a key.
-/

namespace Rubric

open Rubric.Number Rubric.Script Rubric.Text

/-! ## The printed total -/

/-- Whether a report prints a number as its total. -/
def PrintsTotal (report : String) (n : Nat) : Prop :=
  ∃ rest, report = "\n  Total -> " ++ intText n ++ "\n" ++ rest

/-- Joined lines start with the first of them. -/
theorem join_cons (separator first : String) (rest : List String) :
    ∃ more, join separator (first :: rest) ++ separator = first ++ separator ++ more := by
  cases rest with
  | nil => exact ⟨"", by simp [join]⟩
  | cons second rest =>
      exact ⟨join separator (second :: rest) ++ separator, by simp [join, String.append_assoc]⟩

/-- The text of a report prints its total. -/
theorem printsTotal_reportText {σ : Store} {total : Nat} {places : Int}
    {stats : List BucketShare} {report : String}
    (h : reportText σ (.int total) places stats = .ok report) : PrintsTotal report total := by
  simp only [reportText, bind, Except.bind] at h
  split at h
  · simp at h
  · rename_i listed _
    simp only [pure, Except.pure, Except.ok.injEq, List.cons_append, List.nil_append] at h
    generalize hlines : ((if (Value.int total).equalsZero then ["", "  N/A"] else [])
      ++ listed.flatMap fun line => ["", line]) = lines at h
    obtain ⟨more, hmore⟩ := join_cons "\n" ("  Total -> " ++ intText total) lines
    refine ⟨more, ?_⟩
    rw [← h]
    have hfirst : join "\n" ("" :: ("  Total -> " ++ intText total) :: lines)
        = "\n" ++ join "\n" (("  Total -> " ++ intText total) :: lines) := by
      simp [join]
    show join "\n" ("" :: ("  Total -> " ++ intText total) :: lines) ++ "\n" = _
    rw [hfirst, String.append_assoc, hmore]
    simp only [String.append_assoc]
    rfl

/-- The report on a classification prints the total it was asked for. -/
theorem printsTotal_report {α : Type} {c : Classification α} {total : Nat} {places : Int}
    {σ σ' : Store} {report : String} (h : c.report (.int total) places σ = .ok report σ') :
    PrintsTotal report total := by
  obtain ⟨stats, τ, -, h⟩ := bind_ok.mp h
  obtain ⟨τ', τ'', -, h⟩ := bind_ok.mp h
  cases htext : reportText τ' (.int total) places stats with
  | ok text =>
      rw [htext] at h
      cases h
      exact printsTotal_reportText htext
  | error fault =>
      rw [htext] at h
      cases h

/-- A report prints one total. -/
theorem PrintsTotal.unique {report : String} {m n : Nat} (hm : PrintsTotal report m)
    (hn : PrintsTotal report n) : m = n := by
  obtain ⟨rest, rfl⟩ := hm
  obtain ⟨rest', h⟩ := hn
  have hsign : ∀ k : Nat, ¬ (k : Int) < 0 := by omega
  have htext : digitsOf m ++ '\n' :: rest.toList = digitsOf n ++ '\n' :: rest'.toList := by
    have hlist := congrArg String.toList h
    simpa [intText, hsign] using hlist
  apply digitsOf_injective
  rw [← takeWhile_isDigit_append m rest.toList (by decide : '\n'.isDigit = false), htext,
    takeWhile_isDigit_append n rest'.toList (by decide)]

namespace Evaluator

/-! ## Keys that stay -/

/-- Whether reading keys in two stores leaves these alone and finds the same keys new. -/
def SameKeys (p : Plan) (σ σ' : Store) : Prop :=
  ∀ seen record found, firstOfKey? p.keyOf seen record σ = .ok found σ ↔
    firstOfKey? p.keyOf seen record σ' = .ok found σ'

/-- Whether no key changes while items are processed. -/
structure KeysStay (e : Evaluator) (p : Plan) (records : List Record) : Prop where
  reading : ∀ {seen record σ found σ'},
    firstOfKey? p.keyOf seen record σ = .ok found σ' → σ' = σ
  processing : ∀ {item s u s'},
    processItem e p records item s = .ok u s' → SameKeys p s.store s'.store

/-- Counting items leaves the store alone where reading keys does. -/
theorem distinctFrom_store {e : Evaluator} {p : Plan} {records : List Record}
    (hstay : e.KeysStay p records) {rest : List Record} :
    ∀ {seen : SeenKeys} {counted : List Record} {σ σ' : Store},
      distinctFrom p.keyOf seen rest σ = .ok counted σ' → σ' = σ := by
  induction rest with
  | nil =>
      intro seen counted σ σ' h
      cases h
      rfl
  | cons record rest ih =>
      intro seen counted σ σ' h
      obtain ⟨found, τ, hfound, h⟩ := bind_ok.mp h
      have hτ := hstay.reading hfound
      subst hτ
      cases found with
      | none => exact ih h
      | some seen' =>
          obtain ⟨others, τ', hothers, h⟩ := bind_ok.mp h
          cases h
          exact ih hothers

/-- Where no key changes, the records that are items in their turn are those that were counted. -/
theorem Turns.items_eq {e : Evaluator} {p : Plan} {records : List Record}
    (hstay : e.KeysStay p records) {seen : SeenKeys} {s s' : Session} {rest items : List Record}
    (h : Turns e p records seen s rest items s') :
    ∀ {σ σ' : Store} {counted : List Record}, SameKeys p s.store σ →
      distinctFrom p.keyOf seen rest σ = .ok counted σ' → items = counted := by
  induction h with
  | done seen s =>
      intro σ σ' counted _ hcount
      cases hcount
      rfl
  | item hkey hitem _ ih =>
      intro σ σ' counted hsame hcount
      -- both passes find the key new, and processing the item keeps them in step
      obtain ⟨found, τ, hfound, hcount⟩ := bind_ok.mp hcount
      have hleft := hstay.reading hkey
      rw [hleft] at hkey hitem
      rw [(hsame _ _ _).mp hkey] at hfound
      cases hfound
      obtain ⟨others, τ', hothers, hcount⟩ := bind_ok.mp hcount
      cases hcount
      have hsame' := fun seen record found =>
        (hstay.processing hitem seen record found).symm.trans (hsame seen record found)
      rw [ih hsame' hothers]
  | known hkey _ ih =>
      intro σ σ' counted hsame hcount
      obtain ⟨found, τ, hfound, hcount⟩ := bind_ok.mp hcount
      have hleft := hstay.reading hkey
      rw [hleft] at hkey ih
      rw [(hsame _ _ _).mp hkey] at hfound
      cases hfound
      exact ih hsame hcount

/-! ## Agreement -/

/-- Whether the number that a report prints as its total, that of the items a script was run for and
the sizes of the buckets taken together are the same. -/
def TotalsAgree (report : String) (executions : List Record) (c : Classification Record) : Prop :=
  PrintsTotal report executions.length ∧ c.total = executions.length

/-- The totals of a completed run agree exactly where as many records were items in their turn as
were counted before, which is so where no key changes; and exactly then the shares of the buckets in
the total make up a hundred percent. -/
theorem totals_agree_iff {e : Evaluator} (he : e.HooksKeepTallies) {r : Run} {s s' : Session}
    {report : String} {n : Nat} (h : r.perform e s = (.completed report n, s')) :
    ∃ p t counted σ items u events,
      r.plan e { s with classification := .empty } = .ok p t ∧
      distinctItems p.keyOf r.records t.store = .ok counted σ ∧
      Turns e p r.records .empty { t with store := σ } r.records items u ∧
      s'.journal = s.journal ++ events ∧ executed events = items ∧
      s'.description = report ∧ PrintsTotal report counted.length ∧
      n = items.length ∧ s'.classification.total = items.length ∧
      (TotalsAgree report (executed events) s'.classification ↔ items.length = counted.length) ∧
      (counted ≠ [] → ((s'.classification.exactShares counted.length).sum = 100 ↔
        items.length = counted.length)) ∧
      (e.KeysStay p r.records → items = counted) := by
  obtain ⟨p, t, counted, items, events, tallies, hrun⟩ := Run.completes he h
  obtain ⟨σ, hcounted, u, hturns⟩ := hrun.turns
  obtain ⟨_, _, hreport⟩ := hrun.report_eq
  have hprints : PrintsTotal report counted.length := printsTotal_report hreport
  have htotal : s'.classification.total = items.length := by
    rw [hrun.classification_eq, Classification.total_collect, ← hrun.items_eq, List.length_map]
  refine ⟨p, t, counted, σ, items, u, events, hrun.planned, hcounted, hturns, hrun.journal_eq,
    hrun.executed_eq, hrun.description_eq, hprints, hrun.number_eq, htotal, ?_, ?_, ?_⟩
  -- a report prints one total, so it is that of the items only where this is the counted one
  · rw [TotalsAgree, hrun.executed_eq]
    constructor
    · rintro ⟨hagree, -⟩
      exact hagree.unique hprints
    · intro hlength
      rw [← hlength] at hprints
      exact ⟨hprints, htotal⟩
  -- the shares are taken of the counted total, their sum is that of the bucket sizes
  · intro hne
    have hpositive : counted.length ≠ 0 := fun hzero => hne (List.length_eq_zero_iff.mp hzero)
    rw [Classification.sum_exactShares_eq_iff _ hpositive, htotal]
  · intro hstay
    have hσ : σ = t.store := distinctFrom_store hstay hcounted
    subst hσ
    exact hturns.items_eq hstay (fun _ _ _ => Iff.rfl) hcounted

/-! ## A hook that writes keys -/

/-- A compiled selector is compiled to its key. -/
theorem compileKey_selector (r : Resolver) (σ : Store) (s : Selector) :
    r.compileKey σ (.selector s) = .ok (.key s) := by
  simp [Resolver.compileKey, Resolver.compile, Except.map]

/-- A compiled path is compiled to a field that can be written. -/
theorem compileTarget_path (r : Resolver) (σ : Store) (expression : String) (path : List String) :
    r.compileTarget σ (.selector (.path expression path))
      = .ok ⟨.path expression path, some (.path expression path)⟩ := by
  simp [Resolver.compileTarget, Resolver.compile, Resolver.isAssignable, Selector.path?,
    Resolver.setterOfSelector, Except.map, Selector.expression]

/-- The report of that run. -/
def keyReport : String := "\n  Total -> 2\n\n  a:1 -> 50.0 %\n"

/-- The report prints the number of both records. -/
theorem printsTotal_keyReport : PrintsTotal keyReport 2 :=
  ⟨"\n  a:1 -> 50.0 %\n", by decide⟩

/-- Two items are counted, but the second is none any more when its turn comes. -/
theorem perform_keyRun :
    keyRun.perform keyWriter keySession
      = (.completed keyReport 1, (keyRun.perform keyWriter keySession).2) := by
  refine Prod.ext ?_ rfl
  show (keyRun.perform keyWriter keySession).1 = .completed keyReport 1
  unfold keyRun Run.perform runSimple simpleRun resultTarget bindResultKey compiled
  simp only [compileKey_selector, compileTarget_path]
  decide +kernel

/-- Where a hook writes keys, fewer records are items in their turn than were counted, and the shares
do not make up a hundred percent. -/
theorem totals_agree_iff_keyWriter :
    ∃ counted items : List Record, counted.length = 2 ∧ items.length = 1 ∧
      ((keyRun.perform keyWriter keySession).2.classification.exactShares 2).sum ≠ 100 := by
  obtain ⟨_, _, counted, _, items, _, _, -, -, -, -, -, -, hprints, hn, -, -, hshares, -⟩ :=
    totals_agree_iff hooksKeepTallies_keyWriter perform_keyRun
  have htwo : counted.length = 2 := hprints.unique printsTotal_keyReport
  have hne : counted ≠ [] := by
    rintro rfl
    simp at htwo
  rw [htwo, ← hn] at hshares
  exact ⟨counted, items, htwo, hn.symm, fun hsum => absurd ((hshares hne).mp hsum) (by decide)⟩

/-- The totals of a completed run need not agree. -/
theorem totals_disagree :
    ¬ ∀ (e : Evaluator) (r : Run) (s s' : Session) (report : String) (n : Nat),
      e.HooksKeepTallies → r.perform e s = (.completed report n, s') →
      ∃ events, s'.journal = s.journal ++ events ∧
        TotalsAgree report (executed events) s'.classification := by
  intro hall
  obtain ⟨events, -, hprints, htotal⟩ :=
    hall _ _ _ _ _ _ hooksKeepTallies_keyWriter perform_keyRun
  obtain ⟨-, hn, -⟩ := Run.completed hooksKeepTallies_keyWriter perform_keyRun
  have hone : (executed events).length = 1 := by
    rw [← htotal, ← hn]
  rw [hone] at hprints
  exact absurd (hprints.unique printsTotal_keyReport) (by decide)

end Evaluator

end Rubric
