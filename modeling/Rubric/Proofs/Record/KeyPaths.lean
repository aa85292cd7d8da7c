import Rubric.Proofs.Grouping
import Rubric.Proofs.Value.Commuting
import Rubric.Proofs.Value.Growth
import Rubric.Proofs.Value.Tags

/-!
# Keys that are read by paths

A key that is made of attribute paths looks at the attributes on the way and at what these lead to.  Where
nothing of this is written, the key of a record stays, and so do the items and their contexts.

* `Eval.AnswersAlike` : computations that leave two stores alone and answer the same in both;
* `Selector.Misses` : selectors of paths that look at nothing that may be written;
* `Selector.answersAlike_read` : what such selectors read is the same before and after the writes;
* `answersAlike_firstOfKey?`, `answersAlike_contextOf` : so are the items and their contexts;
* `Selector.misses_of_grown` : selectors that miss the writes in a store that has grown.
-/

namespace Rubric

open Value (Place)
open Value

/-! ## Computations that answer the same -/

/-- Whether a computation leaves two stores alone and answers the same in both; an answer that is no
fault has a property. -/
def Eval.AnswersAlike {α : Type} (σ τ : Store) (action : Eval α) (post : α → Prop) : Prop :=
  ∃ answer : Except Fault α, action σ = Eval.ofExcept answer σ ∧
    action τ = Eval.ofExcept answer τ ∧ ∀ a, answer = .ok a → post a

namespace Eval.AnswersAlike

variable {α β : Type} {σ τ : Store} {action : Eval α} {post : α → Prop} {post' : β → Prop}

/-- Answering a value. -/
theorem of_pure {a : α} (ha : post a) : AnswersAlike σ τ (pure a) post :=
  ⟨.ok a, rfl, rfl, fun _ h => by cases h; exact ha⟩

/-- Answering what both stores say. -/
theorem of_reads {answer : Store → Except Fault α} (hsame : answer τ = answer σ)
    (hpost : ∀ a, answer σ = .ok a → post a) :
    AnswersAlike σ τ (get >>= fun σ => Eval.ofExcept (answer σ)) post := by
  refine ⟨answer σ, rfl, ?_, hpost⟩
  rw [bind_of_ok (get_ok τ), hsame]

/-- A weaker property. -/
theorem imp {weaker : α → Prop} (h : AnswersAlike σ τ action post)
    (himp : ∀ a, post a → weaker a) : AnswersAlike σ τ action weaker := by
  obtain ⟨answer, hσ, hτ, hpost⟩ := h
  exact ⟨answer, hσ, hτ, fun a ha => himp a (hpost a ha)⟩

/-- Two computations in a row answer alike where each does. -/
theorem bind {next : α → Eval β} (h : AnswersAlike σ τ action post)
    (hnext : ∀ a, post a → AnswersAlike σ τ (next a) post') :
    AnswersAlike σ τ (action >>= next) post' := by
  obtain ⟨answer, hσ, hτ, hpost⟩ := h
  cases answer with
  | error fault => exact ⟨.error fault, bind_of_error hσ, bind_of_error hτ, fun _ h => by cases h⟩
  | ok a =>
      obtain ⟨answer', hσ', hτ', hpost'⟩ := hnext a (hpost a rfl)
      exact ⟨answer', (bind_of_ok hσ).trans hσ', (bind_of_ok hτ).trans hτ', hpost'⟩

/-- A computation that looks at the store. -/
theorem get_bind {f : Store → Eval β} (hsame : f τ = f σ)
    (h : AnswersAlike σ τ (f σ) post') : AnswersAlike σ τ (get >>= f) post' := by
  obtain ⟨answer, hσ, hτ, hpost⟩ := h
  exact ⟨answer, hσ, (bind_of_ok (get_ok τ)).trans (hsame ▸ hτ), hpost⟩

/-- Where it succeeds in the one store, it leaves that alone and succeeds in the other with the same
answer. -/
theorem ok (h : AnswersAlike σ τ action post) {a : α} {σ' : Store} (hok : action σ = .ok a σ') :
    post a ∧ σ' = σ ∧ action τ = .ok a τ := by
  obtain ⟨answer, hσ, hτ, hpost⟩ := h
  cases answer with
  | error fault => rw [hσ] at hok; cases hok
  | ok b =>
      rw [hσ] at hok
      cases hok
      exact ⟨hpost a rfl, rfl, hτ⟩

/-- Answering alike is mutual. -/
theorem symm (h : AnswersAlike σ τ action post) : AnswersAlike τ σ action post := by
  obtain ⟨answer, hσ, hτ, hpost⟩ := h
  exact ⟨answer, hτ, hσ, hpost⟩

end Eval.AnswersAlike

/-! ## Attributes that are not written -/

/-- What is found under a name is found among the entries without other names. -/
theorem lookup_otherEntries {names : List String} {name : String} (hname : name ∉ names) (σ : Store)
    (entries : List (Value × Value)) :
    lookup σ (str name) (otherEntries names entries) = lookup σ (str name) entries := by
  have hsame : lookupWith σ.samePlace (str name) (otherEntries names entries)
      = lookupWith σ.samePlace (str name) entries := by
    induction entries with
    | nil => rfl
    | cons entry entries ih =>
        obtain ⟨k, v⟩ := entry
        have hkept : lookupWith σ.samePlace (str name) ((k, v) :: otherEntries names entries)
            = lookupWith σ.samePlace (str name) ((k, v) :: entries) := by
          simp only [lookupWith, ih]
        cases k with
        | str s =>
            by_cases hs : s ∈ names
            · -- what is left out has another name
              have hne : s ≠ name := fun heq => hname (heq ▸ hs)
              have hout : otherEntries names ((str s, v) :: entries) = otherEntries names entries := by
                simp [otherEntries, hs]
              have hother : matchWith σ.samePlace (str s) (str name) = some false := by
                simpa [matchWith, identical, equalWith] using hne
              rw [hout, ih, lookupWith, hother]
            · have hin : otherEntries names ((str s, v) :: entries)
                  = (str s, v) :: otherEntries names entries := by
                simp [otherEntries, hs]
              rw [hin, hkept]
        | _ => exact hkept
  rw [lookup, lookup, hsame]

/-- So it is among attributes. -/
theorem lookup_otherAttributes {names : List String} {name : String} (hname : name ∉ names)
    (attributes : List (String × Value)) :
    (otherAttributes names attributes).lookup name = attributes.lookup name := by
  induction attributes with
  | nil => rfl
  | cons a attributes ih =>
      obtain ⟨n, v⟩ := a
      unfold otherAttributes at ih ⊢
      rw [List.filter_cons]
      split
      · rw [List.lookup_cons, List.lookup_cons, ih]
      · rename_i hout
        have hn : n ∈ names := by simpa using hout
        have hne : (name == n) = false := beq_eq_false_iff_ne.mpr fun heq => hname (heq ▸ hn)
        rw [ih, List.lookup_cons, hne]

/-- An attribute that is not written is read as before. -/
theorem readAttribute_rewritten {writes : Place → List String} {σ τ : Store}
    (h : σ.Rewrites writes τ) {v : Value} {name : String}
    (hname : ∀ p, v.place? = some p → name ∉ writes p) :
    v.readAttribute τ name = v.readAttribute σ name := by
  cases v with
  | mapping address =>
      have hfound : lookup τ (str name) (τ.entries address)
          = lookup σ (str name) (σ.entries address) := by
        rw [lookup_str σ τ, ← lookup_otherEntries (hname _ rfl) σ, h.entries_eq,
          lookup_otherEntries (hname _ rfl)]
      simp only [readAttribute, hfound]
  | object address =>
      have hfound : (τ.object address).attributes.lookup name
          = (σ.object address).attributes.lookup name := by
        rw [← lookup_otherAttributes (hname _ rfl), h.attributes_eq,
          lookup_otherAttributes (hname _ rfl)]
      simp only [readAttribute, hfound, typeName, h.type_eq]
  | _ => exact readAttribute_congr (fun _ h => by cases h) fun _ h => by cases h

/-! ## Paths that miss what is written -/

/-- Whether reading a path from a value misses what may be written: no attribute on the way is written, and
no place where something is written is reached from the value at its end. -/
def Value.Misses (σ : Store) (writes : Place → List String) : List String → Value → Prop
  | [], v => ∀ p, σ.Reaches [v] (.place p) → writes p = []
  | name :: path, v => (∀ p, v.place? = some p → name ∉ writes p) ∧
      ∀ w, v.readAttribute σ name = .ok w → Misses σ writes path w

/-- The places that are reached from values from which nothing written is reached. -/
def Store.unwritten (σ : Store) (writes : Place → List String) : Region where
  places := {p | ∃ v : Value, (∀ q, σ.Reaches [v] (.place q) → writes q = []) ∧
    σ.Reaches [v] (.place p)}
  written := Set.univ

section

variable {σ τ : Store} {writes : Place → List String}

/-- Nothing is written in this region. -/
theorem writes_of_mem_unwritten {p : Place} (hp : p ∈ σ.unwritten writes) : writes p = [] := by
  obtain ⟨v, hv, hreach⟩ := hp
  exact hv p hreach

/-- It is closed. -/
theorem closed_unwritten (σ : Store) (writes : Place → List String) :
    σ.Closed (σ.unwritten writes) := by
  rintro p ⟨v, hv, hreach⟩ w hw m hm
  cases m with
  | written name => trivial
  | place q => exact ⟨v, hv, .content hreach hw hm⟩

/-- A store agrees on it with what the writes leave, but for the next tag. -/
theorem Store.Rewrites.agree_unwritten (h : σ.Rewrites writes τ) :
    σ.Agree (σ.unwritten writes) { τ with nextTag := σ.nextTag } :=
  (h.trans (.withTag writes τ σ.nextTag)).agree rfl (closed_unwritten σ writes)
    fun _ hp => writes_of_mem_unwritten hp

/-- A path that misses the writes reads what it read before, from where nothing written is reached. -/
theorem readPath_rewritten (h : σ.Rewrites writes τ) (path : List String) :
    ∀ {v : Value}, v.Misses σ writes path → v.readPath τ path = v.readPath σ path ∧
      ∀ w, v.readPath σ path = .ok w → w.Within (σ.unwritten writes) := by
  induction path with
  | nil =>
      intro v hv
      refine ⟨rfl, fun w hw m hm => ?_⟩
      cases hw
      cases m with
      | written name => trivial
      | place p => exact ⟨v, hv, .root List.mem_cons_self hm⟩
  | cons name path ih =>
      rintro v ⟨hname, hrest⟩
      have hsame := readAttribute_rewritten h hname
      simp only [readPath, List.foldlM_cons, hsame]
      cases hread : v.readAttribute σ name with
      | error fault => exact ⟨rfl, fun w hw => by cases hw⟩
      | ok w => exact ih (hrest w hread)

end

/-! ## Selectors of paths -/

namespace Selector

mutual

/-- Whether a selector is made of paths that miss what may be written. -/
def Misses (σ : Store) (writes : Place → List String) (record : Value) : Selector → Prop
  | path _ names => record.Misses σ writes names
  | composite parts => AllMiss σ writes record parts
  | computed _ _ => False
  | display inner => Misses σ writes record inner
  | key inner => Misses σ writes record inner

/-- Whether several selectors are. -/
def AllMiss (σ : Store) (writes : Place → List String) (record : Value) : List Selector → Prop
  | [] => True
  | part :: parts => Misses σ writes record part ∧ AllMiss σ writes record parts

end

variable {σ τ : Store} {writes : Place → List String} {record : Value}

mutual

/-- What selectors of paths that miss the writes read is the same before and after. -/
theorem answersAlike_read (h : σ.Rewrites writes τ) : ∀ {s : Selector}, s.Misses σ writes record →
    Eval.AnswersAlike σ τ (s.read record) (Value.Within (σ.unwritten writes))
  | .path _ names, hs => by
      rw [Selector.read]
      obtain ⟨hsame, hwithin⟩ := readPath_rewritten h names hs
      exact .of_reads hsame hwithin
  | .composite parts, hs => by
      rw [Selector.read]
      have hparts : AllMiss σ writes record parts := hs
      exact (answersAlike_readAll h hparts).bind fun vs hvs =>
        .of_pure (within_tuple.mpr hvs)
  | .computed _ _, hs => hs.elim
  | .display inner, hs => by
      rw [Selector.read]
      refine (answersAlike_read h (s := inner) hs).bind fun v hv => ?_
      have hsame : v.label τ = v.label σ :=
        (label_withTag τ σ.nextTag v).symm.trans (label_agree h.agree_unwritten hv)
      exact .get_bind (by rw [hsame]) (.of_pure (within_str _))
  | .key inner, hs => by
      rw [Selector.read]
      refine (answersAlike_read h (s := inner) hs).bind fun v hv => ?_
      have hsame : v.keyForm τ = v.keyForm σ :=
        (keyForm_withTag τ σ.nextTag v).symm.trans (keyForm_agree h.agree_unwritten hv)
      exact .of_reads hsame fun w hw => keyForm_within (closed_unwritten σ writes) hv hw

/-- So are the values that several of them read. -/
theorem answersAlike_readAll (h : σ.Rewrites writes τ) :
    ∀ {parts : List Selector}, AllMiss σ writes record parts →
      Eval.AnswersAlike σ τ (Selector.readAll parts record)
        fun vs => ∀ v ∈ vs, v.Within (σ.unwritten writes)
  | [], _ => by
      rw [Selector.readAll]
      exact .of_pure (by simp)
  | part :: parts, hs => by
      rw [Selector.readAll]
      refine (answersAlike_read h hs.1).bind fun v hv => ?_
      exact (answersAlike_readAll h hs.2).bind fun vs hvs =>
        .of_pure (List.forall_mem_cons.mpr ⟨hv, hvs⟩)

end

end Selector

/-! ## Keys that are compared -/

section

variable {σ τ : Store} {writes : Place → List String} {α : Type}

/-- Keys from where nothing written is reached are equal after the writes where they were before. -/
theorem equal_rewritten (h : σ.Rewrites writes τ) {k k' : Value} (hk : k.Within (σ.unwritten writes))
    (hk' : k'.Within (σ.unwritten writes)) : k.equal τ k' = k.equal σ k' := by
  rw [← equal_agree h.agree_unwritten hk hk', equal, equal, Store.samePlace_withTag τ σ.nextTag]

/-- Such a key is met anew after the writes where it was before. -/
theorem insert?_rewritten (h : σ.Rewrites writes τ) {seen : SeenKeys}
    (hseen : seen.Within (σ.unwritten writes)) {k : Value} (hk : k.Within (σ.unwritten writes)) :
    seen.insert? τ k = seen.insert? σ k := by
  rw [← SeenKeys.insert?_agree h.agree_unwritten hseen hk]
  simp only [SeenKeys.insert?, SeenKeys.hasDigested, foundIn, unhashable?_withTag, digest_withTag,
    Store.samePlace_withTag]

/-- So a record is found to be an item after the writes where it was before. -/
theorem answersAlike_firstOfKey? (h : σ.Rewrites writes τ) {key : α → Eval Value} {record : α}
    (hkey : Eval.AnswersAlike σ τ (key record) (Value.Within (σ.unwritten writes)))
    {seen : SeenKeys} (hseen : seen.Within (σ.unwritten writes)) :
    Eval.AnswersAlike σ τ (firstOfKey? key seen record)
      fun found => ∀ seen' ∈ found, seen'.Within (σ.unwritten writes) :=
  hkey.bind fun _ hk => .of_reads (insert?_rewritten h hseen hk) fun _ hfound _ hmem =>
    SeenKeys.insert?_within hseen hk (hmem ▸ hfound)

/-- Having the same key holds after the writes where it did before. -/
theorem answersAlike_sameKey (h : σ.Rewrites writes τ) {key : Selector} {record item : Value}
    (hrecord : key.Misses σ writes record) (hitem : key.Misses σ writes item) (tag : Tag) :
    Eval.AnswersAlike σ τ (related (.function tag (.sameKey key)) record item) fun _ => True := by
  unfold related
  rw [Value.call, Function.call]
  let IsBool : Value → Prop := fun v => ∃ b, v = .bool b
  refine Eval.AnswersAlike.bind (?_ : Eval.AnswersAlike σ τ _ IsBool) ?_
  · refine (Eval.AnswersAlike.of_pure (a := (record, item)) rfl).bind fun pair hpair => ?_
    cases hpair
    refine (Selector.answersAlike_read h hrecord).bind fun left hleft => ?_
    refine (Selector.answersAlike_read h hitem).bind fun right hright => ?_
    refine .get_bind (by rw [equal_rewritten h hleft hright]) ?_
    have hequal : Eval.AnswersAlike σ τ (Eval.ofExcept (left.equal σ right)) fun _ => True :=
      ⟨_, rfl, rfl, fun _ _ => trivial⟩
    exact hequal.bind fun b _ => .of_pure ⟨b, rfl⟩
  · rintro _ ⟨b, rfl⟩
    exact .get_bind rfl (.of_pure trivial)

/-- The context of an item is what it was, where the relation is. -/
theorem answersAlike_contextOf {relation : α → α → Eval Bool} {item : α} {records : List α}
    (h : ∀ record ∈ records, Eval.AnswersAlike σ τ (relation record item) fun _ => True) :
    Eval.AnswersAlike σ τ (contextOf relation item records) fun _ => True := by
  induction records with
  | nil => exact .of_pure trivial
  | cons record rest ih =>
      refine (h record List.mem_cons_self).bind fun tied _ => ?_
      exact (ih fun other hother => h other (List.mem_cons_of_mem record hother)).bind fun _ _ =>
        .of_pure trivial

end

/-! ## Stores that have grown -/

section

variable {σ τ : Store} {writes : Place → List String}

/-- In a store that has grown, values of the old one reach what they reached. -/
theorem reaches_of_grown (h : σ.GrownTo τ) (hclosed : σ.Closed σ.all) {v : Value}
    (hv : v.Within σ.all) {m : Mention} (hreach : τ.Reaches [v] m) : σ.Reaches [v] m := by
  induction hreach with
  | root hroot hm => exact .root hroot hm
  | @content place w m _ hw hm ih =>
      have hplace : place ∈ σ.all := ih.in_closed hclosed fun u hu => List.mem_singleton.mp hu ▸ hv
      have hcontents : τ.contents place = σ.contents place := by
        cases place with
        | mapping address => rw [Store.contents, Store.contents, h.entries_eq address hplace]
        | object address => rw [Store.contents, Store.contents, h.object_eq]
      exact .content ih (hcontents ▸ hw) hm

/-- A path that misses the writes still misses them. -/
theorem misses_of_grown (h : σ.GrownTo τ) (hclosed : σ.Closed σ.all) (path : List String) :
    ∀ {v : Value}, v.Within σ.all → v.Misses σ writes path → v.Misses τ writes path := by
  induction path with
  | nil => exact fun hv hmisses place hreach => hmisses place (reaches_of_grown h hclosed hv hreach)
  | cons name path ih =>
      rintro v hv ⟨hname, hrest⟩
      refine ⟨hname, fun w hw => ?_⟩
      rw [h.readAttribute_eq hv] at hw
      exact ih (readAttribute_within hclosed hv hw) (hrest w hw)

mutual

/-- So does a selector of such paths. -/
theorem Selector.misses_of_grown (h : σ.GrownTo τ) (hclosed : σ.Closed σ.all) {record : Value}
    (hrecord : record.Within σ.all) :
    ∀ {s : Selector}, s.Misses σ writes record → s.Misses τ writes record
  | .path _ names, hs => Rubric.misses_of_grown h hclosed names hrecord hs
  | .composite parts, hs =>
      have hparts : Selector.AllMiss σ writes record parts := hs
      Selector.allMiss_of_grown h hclosed hrecord hparts
  | .computed _ _, hs => hs.elim
  | .display inner, hs => Selector.misses_of_grown h hclosed hrecord (s := inner) hs
  | .key inner, hs => Selector.misses_of_grown h hclosed hrecord (s := inner) hs

/-- So do several. -/
theorem Selector.allMiss_of_grown (h : σ.GrownTo τ) (hclosed : σ.Closed σ.all) {record : Value}
    (hrecord : record.Within σ.all) :
    ∀ {parts : List Selector}, Selector.AllMiss σ writes record parts →
      Selector.AllMiss τ writes record parts
  | [], _ => trivial
  | _ :: _, hs => ⟨Selector.misses_of_grown h hclosed hrecord hs.1,
      Selector.allMiss_of_grown h hclosed hrecord hs.2⟩

end

end

end Rubric
