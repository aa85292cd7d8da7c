import Rubric.Proofs.Evaluator.Totals
import Rubric.Proofs.Evaluator.Trace
import Rubric.Proofs.Text.Quoted

/-!
# The status of simplified runs

A simplified run answers one text: the word for success where it was completed, and the wording of the fault
where one ended it.  The faults of the program itself are worded in several words, or in quotes, so none of
them is taken for success.  A fault whose text was chosen elsewhere may be: a supplied function or a hook can
raise one that says the same.
-/

namespace Rubric

open Rubric.Text

/-! ## The wording of faults -/

/-- Whether a text has a blank. -/
def HasBlank (text : String) : Prop := ' ' ∈ text.toList

/-- A text that is written out has a blank where its characters do. -/
theorem HasBlank.literal {cs : List Char} (h : cs.contains ' ' = true) : HasBlank (String.ofList cs) := by
  rw [HasBlank, String.toList_ofList]
  exact List.contains_iff_mem.mp h

theorem HasBlank.left {first : String} (h : HasBlank first) (second : String) : HasBlank (first ++ second) := by
  rw [HasBlank, String.toList_append]
  exact List.mem_append_left _ h

theorem HasBlank.right {second : String} (first : String) (h : HasBlank second) : HasBlank (first ++ second) := by
  rw [HasBlank, String.toList_append]
  exact List.mem_append_right _ h

/-! The blank of a wording is looked for in its last part, and then in those before. -/

theorem TypeFault.hasBlank_message (cause : TypeFault) : HasBlank cause.message := by
  unfold message
  cases cause
  case position sequence type =>
    dsimp only
    split
    all_goals with_reducible repeat first | exact .right _ (.literal rfl) | refine .left ?_ _
    all_goals exact .literal rfl
  all_goals with_reducible repeat first | exact .right _ (.literal rfl) | refine .left ?_ _
  all_goals exact .literal rfl

theorem CallFault.hasBlank_message (cause : CallFault) : HasBlank cause.message := by
  unfold message
  cases cause
  all_goals with_reducible repeat first | exact .right _ (.literal rfl) | refine .left ?_ _

theorem NumberFault.hasBlank_message (cause : NumberFault) (h : cause ≠ .outOfMemory) :
    HasBlank cause.message := by
  unfold message
  cases cause
  case outOfMemory => exact absurd rfl h
  all_goals with_reducible repeat first | exact .right _ (.literal rfl) | refine .left ?_ _
  all_goals exact .literal rfl

theorem AccessFault.hasBlank_message (cause : AccessFault) (h : ∀ shown, cause ≠ .missingKey shown) :
    HasBlank cause.message := by
  unfold message
  cases cause
  case missingKey shown => exact absurd rfl (h shown)
  all_goals with_reducible repeat first | exact .right _ (.literal rfl) | refine .left ?_ _
  all_goals exact .literal rfl

theorem TemplateFault.hasBlank_message (cause : TemplateFault) : HasBlank cause.message := by
  unfold message
  cases cause
  all_goals with_reducible repeat first | exact .right _ (.literal rfl) | refine .left ?_ _
  all_goals exact .literal rfl

theorem NameFault.hasBlank_message (cause : NameFault) : HasBlank cause.message := by
  unfold message
  cases cause
  all_goals with_reducible repeat first | exact .right _ (.literal rfl) | refine .left ?_ _
  all_goals exact .literal rfl

theorem SelectorFault.hasBlank_message (cause : SelectorFault) : HasBlank cause.message := by
  unfold message
  cases cause
  all_goals with_reducible repeat first | exact .right _ (.literal rfl) | refine .left ?_ _
  all_goals exact .literal rfl

theorem ShapeFault.hasBlank_message (cause : ShapeFault) : HasBlank cause.message := by
  unfold message
  cases cause
  all_goals with_reducible repeat first | exact .right _ (.literal rfl) | refine .left ?_ _
  all_goals exact .literal rfl

theorem SyntaxFault.hasBlank_message (cause : SyntaxFault) : HasBlank cause.message := by
  unfold message
  cases cause
  all_goals with_reducible repeat first | exact .right _ (.literal rfl) | refine .left ?_ _
  all_goals exact .literal rfl

theorem ProfileFault.hasBlank_message (cause : ProfileFault) : HasBlank cause.message := by
  unfold message
  cases cause
  all_goals with_reducible repeat first | exact .right _ (.literal rfl) | refine .left ?_ _
  all_goals exact .literal rfl

theorem FileFault.hasBlank_message (cause : FileFault) : HasBlank cause.message := by
  unfold message
  cases cause
  all_goals with_reducible repeat first | exact .right _ (.literal rfl) | refine .left ?_ _
  all_goals exact .literal rfl

/-- A quoted text is in quotes, so no word is one. -/
theorem quoted_ne_success (text : String) : quoted text ≠ "Success" := by
  intro h
  have hchars : quotedChars text.toList = "Success".toList := by
    rw [← h, quoted, String.toList_ofList]
  have hhead : some (quoteFor text.toList) = some 'S' := congrArg List.head? hchars
  obtain hquote | hquote := quoteFor_eq text.toList
  · rw [hquote] at hhead
    exact absurd hhead (by decide)
  · rw [hquote] at hhead
    exact absurd hhead (by decide)

namespace Fault

/-- Whether a fault has a text that was chosen elsewhere: by a hook, by a supplied function, or as the shown
form of a key. -/
def Relays (fault : Fault) (text : String) : Prop :=
  fault = .stopped text ∨ fault = .refused text ∨ fault = .access (.missingKey text)

/-- Only a relayed text can be taken for success. -/
theorem relays_of_message {fault : Fault} (h : fault.message = "Success") : fault.Relays "Success" := by
  have hword : ¬ HasBlank fault.message := by
    rw [h, HasBlank]
    simp
  -- the wordings of the program have blanks, so what reads as success is a text that was given to it
  cases fault with
  | type cause => exact absurd cause.hasBlank_message hword
  | call cause => exact absurd cause.hasBlank_message hword
  | number cause =>
      by_cases hcause : cause = .outOfMemory
      · -- the one fault without a wording
        subst hcause
        exact absurd (h : "" = "Success") (by decide)
      · exact absurd (cause.hasBlank_message hcause) hword
  | template cause => exact absurd cause.hasBlank_message hword
  | access cause =>
      by_cases hcause : ∃ shown, cause = .missingKey shown
      · obtain ⟨shown, rfl⟩ := hcause
        have hshown : shown = "Success" := h
        exact .inr (.inr (by rw [hshown]))
      · exact absurd (cause.hasBlank_message fun shown hshown => hcause ⟨shown, hshown⟩) hword
  | name cause | selector cause | shape cause | profile cause | file cause
  | malformed cause => exact absurd cause.hasBlank_message hword
  | unknownBinding bound =>
      have hblank : HasBlank ("Unknown binding: " ++ bound) := .left (.literal rfl) _
      exact absurd hblank hword
  | duplicateBinding bound =>
      have hblank : HasBlank ("Binding already exists: " ++ bound) := .left (.literal rfl) _
      exact absurd hblank hword
  | emptyTotal =>
      have hblank : HasBlank "Cannot compute percentage of zero distinct items" := .literal rfl
      exact absurd hblank hword
  | unknownProfile message => exact absurd h (quoted_ne_success message)
  | refused message =>
      have hmessage : message = "Success" := h
      exact .inr (.inl (by rw [hmessage]))
  | stopped message =>
      have hmessage : message = "Success" := h
      exact .inl (by rw [hmessage])
  | tooDeep =>
      have hblank : HasBlank "maximum recursion depth exceeded" := .literal rfl
      exact absurd hblank hword
  | atLine line cause =>
      have hblank : HasBlank ("Line " ++ toString line ++ ": " ++ cause.reasonOf cause.message) :=
        .left (.left (.left (.literal rfl) _) _) _
      exact absurd hblank hword

end Fault

namespace Evaluator

/-! ## Items that are done -/

variable {e : Evaluator} {p : Plan} {records : List Record} {item : Record}

/-- The session once a step is noted. -/
def noted (step : Step) (item : Record) (context : List Record) (s : Session) : Session :=
  { s with journal := s.journal ++
      [⟨step, item, context, s.store, s.boundValue "$ctxI", s.boundValue "$ctxC"⟩] }

theorem note_eq (step : Step) (item : Record) (context : List Record) (s : Session) :
    note step item context s = .ok () (noted step item context s) := rfl

/-- An item that is done, from session to session: its context is found, the hook before returns, the item
and the list of its context are bound, the script is executed, the item is classified, and the hook after
returns.  Its tags are its own. -/
inductive ItemDone (e : Evaluator) (p : Plan) (records : List Record) (item : Record) :
    Session → Session → Prop where
  | done {s begun visited named listed bound executed classified passed : Session} {context : List Record}
      {list : Value}
      (hcontext : Action.ofEval (contextOf p.relates item records)
        { s with store := s.store.atItem item.position } = .ok context begun)
      (hbefore : e.before item context (noted .before item context begun) = .ok () visited)
      (hitem : Action.bind "$ctxI" item.value visited = .ok () named)
      (hlist : Action.ofEval (Eval.newList (context.map Record.value)) named = .ok list listed)
      (hcollection : Action.bind "$ctxC" list listed = .ok () bound)
      (hexecute : execute p.job p.classes p.subclasses (noted .execute item context bound) = .ok () executed)
      (hclassify : classify p.result item (noted .classify item context executed) = .ok () classified)
      (hafter : e.after item context (noted .after item context classified) = .ok () passed) :
      ItemDone e p records item s { passed with store := { passed.store with nextTag := s.store.nextTag } }

/-- An item is processed just where it is done. -/
theorem processItem_ok_iff {s s' : Session} {u : Unit} :
    processItem e p records item s = .ok u s' ↔ ItemDone e p records item s s' := by
  rw [processItem_eq]
  constructor
  · -- the steps are taken apart in their order; noting one cannot fail
    intro h
    split at h
    · rename_i hhandled
      cases h
      obtain ⟨context, begun, hcontext, h⟩ := bind_ok.mp hhandled
      rw [bind_of_ok (note_eq .before item context begun)] at h
      obtain ⟨_, visited, hbefore, h⟩ := bind_ok.mp h
      obtain ⟨_, named, hitem, h⟩ := bind_ok.mp h
      obtain ⟨list, listed, hlist, h⟩ := bind_ok.mp h
      obtain ⟨_, bound, hcollection, h⟩ := bind_ok.mp h
      rw [bind_of_ok (note_eq .execute item context bound)] at h
      obtain ⟨_, executed, hexecute, h⟩ := bind_ok.mp h
      rw [bind_of_ok (note_eq .classify item context executed)] at h
      obtain ⟨_, classified, hclassify, h⟩ := bind_ok.mp h
      rw [bind_of_ok (note_eq .after item context classified)] at h
      exact .done hcontext hbefore hitem hlist hcollection hexecute hclassify h
    · cases h
  · rintro ⟨hcontext, hbefore, hitem, hlist, hcollection, hexecute, hclassify, hafter⟩
    rw [handleItem, bind_of_ok hcontext, bind_of_ok (note_eq ..), bind_of_ok hbefore, bind_of_ok hitem,
      bind_of_ok hlist, bind_of_ok hcollection, bind_of_ok (note_eq ..), bind_of_ok hexecute,
      bind_of_ok (note_eq ..), bind_of_ok hclassify, bind_of_ok (note_eq ..), hafter]

/-- Records whose items are done one after the other: a record whose key is new when its turn comes is an
item, and the others are passed over. -/
inductive EachDone (e : Evaluator) (p : Plan) (records : List Record) :
    SeenKeys → Session → List Record → List Record → Session → Prop where
  | nil (seen : SeenKeys) (s : Session) : EachDone e p records seen s [] [] s
  | item {seen seen' : SeenKeys} {s t s' : Session} {σ : Store} {record : Record} {rest items : List Record}
      (hkey : firstOfKey? p.keyOf seen record s.store = .ok (some seen') σ)
      (hdone : ItemDone e p records record { s with store := σ } t)
      (hrest : EachDone e p records seen' t rest items s') :
      EachDone e p records seen s (record :: rest) (record :: items) s'
  | known {seen : SeenKeys} {s s' : Session} {σ : Store} {record : Record} {rest items : List Record}
      (hkey : firstOfKey? p.keyOf seen record s.store = .ok none σ)
      (hrest : EachDone e p records seen { s with store := σ } rest items s') :
      EachDone e p records seen s (record :: rest) items s'

/-- Records that are taken in their turn are items that are done. -/
theorem Turns.eachDone {seen : SeenKeys} {rest items : List Record} {s s' : Session}
    (h : Turns e p records seen s rest items s') : EachDone e p records seen s rest items s' := by
  induction h with
  | done seen s => exact .nil seen s
  | item hkey hitem _ ih => exact .item hkey (processItem_ok_iff.mp hitem) ih
  | known hkey _ ih => exact .known hkey ih

/-- Where every item is done, processing the records succeeds. -/
theorem EachDone.processFrom {seen : SeenKeys} {rest items : List Record} {s s' : Session}
    (h : EachDone e p records seen s rest items s') :
    ∀ count, processFrom e p records seen count rest s = .ok (count + items.length) s' := by
  induction h with
  | nil seen s => exact fun _ => rfl
  | item hkey hdone _ ih =>
      intro count
      have hprocessed := processItem_ok_iff (u := ()).mpr hdone
      rw [Evaluator.processFrom, bind_of_ok (Action.ofEval_of_ok hkey)]
      dsimp only
      rw [bind_of_ok hprocessed, ih, List.length_cons, Nat.add_right_comm, Nat.add_assoc]
  | known hkey _ ih =>
      intro count
      rw [Evaluator.processFrom, bind_of_ok (Action.ofEval_of_ok hkey)]
      exact ih count

/-! ## Runs in which everything is done -/

/-- Whether everything is done that a simplified run over some values is asked for: the run is prepared,
the distinct items are counted, each item in its turn is executed, classified and passed to the hook after,
and the description is the report on all of them. -/
def AllDone (e : Evaluator) (values : List Value) (request : SimpleRequest) (s s' : Session) : Prop :=
  ∃ p t counted σ items u report τ,
    e.simplePlan request { s with classification := .empty } = .ok p t ∧
    distinctItems p.keyOf (Record.numbered values) t.store = .ok counted σ ∧
    EachDone e p (Record.numbered values) .empty { t with store := σ } (Record.numbered values) items u ∧
    u.classification.report (.int counted.length) (reportPlaces false) u.store = .ok report τ ∧
    s' = { u with store := τ, description := report }

variable {values : List Value} {request : SimpleRequest} {s s' : Session}

/-- A plan whose items are done is carried out. -/
theorem carryOut_of_eachDone {full : Bool} {counted items : List Record} {t u : Session} {σ τ : Store}
    {report : String} (hcounted : distinctItems p.keyOf records t.store = .ok counted σ)
    (hdone : EachDone e p records .empty { t with store := σ } records items u)
    (hreport : u.classification.report (.int counted.length) (reportPlaces full) u.store = .ok report τ) :
    e.carryOut records full p t =
      .ok (report, items.length) { u with store := τ, description := report } := by
  have hcount : countDistinct p.keyOf records t.store = .ok counted.length σ := by
    rw [countDistinct, bind_of_ok hcounted]
    rfl
  rw [carryOut, bind_of_ok (Action.ofEval_of_ok hcount), bind_of_ok (hdone.processFrom 0), Nat.zero_add,
    bind_of_ok (get_ok u)]
  exact bind_of_ok (Action.ofEval_of_ok hreport)

/-- A simplified run is completed just where everything is done. -/
theorem completed_iff_allDone :
    (∃ report n, e.runSimple (Record.numbered values) request s = (.completed report n, s')) ↔
      AllDone e values request s s' := by
  rw [runSimple, simpleRun_eq, settle]
  constructor
  · rintro ⟨report, n, h⟩
    split at h
    · rename_i hsteps
      cases h
      obtain ⟨p, t, hplan, hcarry⟩ := bind_ok.mp hsteps
      obtain ⟨counted, σ, items, u, τ, hcounted, hturns, -, hreport, rfl⟩ := carryOut_ok hcarry
      exact ⟨p, t, counted, σ, items, u, report, τ, hplan, hcounted, hturns.eachDone, hreport, rfl⟩
    · cases h
  · rintro ⟨p, t, counted, σ, items, u, report, τ, hplan, hcounted, hdone, hreport, rfl⟩
    refine ⟨report, items.length, ?_⟩
    rw [bind_of_ok hplan, carryOut_of_eachDone hcounted hdone hreport]

/-- A report is not empty. -/
theorem report_ne_empty {counted : Nat} {places : Int} {c : Classification Record} {σ τ : Store}
    {report : String} (h : c.report (.int counted) places σ = .ok report τ) : report ≠ "" := by
  obtain ⟨rest, rfl⟩ := printsTotal_report h
  intro hempty
  have hchars := congrArg String.toList hempty
  simp [String.toList_append] at hchars

/-- The status of a simplified run is the word for success where everything was done, and otherwise the
wording of the fault that ended it.  This is another text, except for a fault with a text that was chosen
elsewhere: one that says the same is taken for success.  The description tells the two apart. -/
theorem status_of_runSimple (e : Evaluator) (values : List Value) (request : SimpleRequest) (s : Session) :
    let ended := e.runSimple (Record.numbered values) request s
    (ended.1.status = "Success" ↔ AllDone e values request s ended.2 ∨
        ∃ fault, ended.1 = .failed fault ∧ fault.message = "Success") ∧
      (AllDone e values request s ended.2 → ended.2.description ≠ "") ∧
      ∀ fault, ended.1 = .failed fault → ¬ AllDone e values request s ended.2 ∧
        ended.1.status = fault.message ∧ ended.2.classification.buckets = [] ∧ ended.2.description = "" ∧
        (fault.message = "Success" → fault.Relays "Success") := by
  intro ended
  have hended : e.runSimple (Record.numbered values) request s = (ended.1, ended.2) := rfl
  cases houtcome : ended.1 with
  | completed report n =>
      have hall : AllDone e values request s ended.2 :=
        completed_iff_allDone.mp ⟨report, n, by rw [hended, houtcome]⟩
      refine ⟨⟨fun _ => .inl hall, fun _ => rfl⟩, fun _ => ?_, fun fault hfault => by cases hfault⟩
      obtain ⟨p, t, counted, σ, items, u, report, τ, -, -, -, hreport, hlast⟩ := hall
      rw [hlast]
      exact report_ne_empty hreport
  | failed fault =>
      have hnot : ¬ AllDone e values request s ended.2 := by
        intro hall
        obtain ⟨report, n, hcompleted⟩ := completed_iff_allDone.mpr hall
        rw [hended, houtcome] at hcompleted
        cases hcompleted
      refine ⟨⟨fun h => .inr ⟨fault, rfl, h⟩, ?_⟩, fun hall => absurd hall hnot, ?_⟩
      · rintro (hall | ⟨fault', hfault, hmessage⟩)
        · exact absurd hall hnot
        · cases hfault
          exact hmessage
      · intro fault' hfault
        cases hfault
        -- a failed run leaves neither items nor a description behind
        have hperform : (Run.simple values request).perform e s = (.failed fault, ended.2) := by
          rw [← houtcome]
          rfl
        obtain ⟨hbuckets, hdescription⟩ := Run.failed hperform
        exact ⟨hnot, rfl, hbuckets, hdescription, Fault.relays_of_message⟩

/-- An evaluator whose hook before an item raises a fault that says the word for success. -/
def stopper : Evaluator := { keyWriter with before := fun _ _ => throw (.stopped "Success") }

/-- The run fails, and its status says otherwise. -/
theorem perform_stopper :
    ((keyRun.perform stopper keySession).1.isSuccess, (keyRun.perform stopper keySession).1.status) =
      (false, "Success") := by
  unfold keyRun Run.perform runSimple simpleRun resultTarget bindResultKey compiled
  simp only [compileKey_selector, compileTarget_path]
  decide +kernel

/-- Not every run whose status is the word for success did everything. -/
theorem not_allDone_of_every_success :
    ¬ ∀ (e : Evaluator) (values : List Value) (request : SimpleRequest) (s : Session),
      (e.runSimple (Record.numbered values) request s).1.status = "Success" →
        AllDone e values request s (e.runSimple (Record.numbered values) request s).2 := by
  intro hall
  obtain ⟨hfails, hstatus⟩ := Prod.mk.inj perform_stopper
  obtain ⟨report, n, hcompleted⟩ := completed_iff_allDone.mpr (hall stopper _ _ keySession hstatus)
  have houtcome : (keyRun.perform stopper keySession).1 = .completed report n :=
    congrArg Prod.fst hcompleted
  rw [houtcome] at hfails
  cases hfails

end Evaluator

end Rubric
