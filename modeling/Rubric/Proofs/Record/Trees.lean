import Mathlib.Data.List.Flatten
import Rubric.Proofs.Record.Slots

/-!
# Records without shared parts

What a value leads to is a tree where no place is met twice on the way through it.  Then every place is at
the end of one path at most, and what one attribute leads to no other attribute leads to.

* `Value.IsTree` : values that lead to every place once;
* `Value.IsTree.prefix_of_reaches` : a path to a place goes through every value that leads to the place;
* `Value.IsTree.path_unique` : a place is at the end of one path.
-/

namespace Rubric

open Value (Place)

/-! ## What is met below a value -/

namespace Store

/-- Whether some places are those that mentions lead to, in the order in which they are met and as often. -/
inductive Unfolds (σ : Store) : List Mention → List Place → Prop where
  | nil : σ.Unfolds [] []
  | written {name : String} {rest : List Mention} {met : List Place} (hrest : σ.Unfolds rest met) :
      σ.Unfolds (.written name :: rest) met
  | place {p : Place} {rest : List Mention} {inside others : List Place} (hp : p ∈ σ.all)
      (hinside : σ.Unfolds ((σ.contents p).flatMap Value.mentions) inside)
      (hrest : σ.Unfolds rest others) : σ.Unfolds (.place p :: rest) (p :: inside ++ others)

namespace Unfolds

variable {σ : Store} {ms ns : List Mention} {met : List Place} {p : Place}

/-- Several mentions lead to what each leads to. -/
theorem append (h : σ.Unfolds (ms ++ ns) met) :
    ∃ first second, met = first ++ second ∧ σ.Unfolds ms first ∧ σ.Unfolds ns second := by
  induction ms generalizing met with
  | nil => exact ⟨[], met, rfl, .nil, h⟩
  | cons m ms ih =>
      cases h with
      | written hrest =>
          obtain ⟨first, second, rfl, hfirst, hsecond⟩ := ih hrest
          exact ⟨first, second, rfl, .written hfirst, hsecond⟩
      | @place p _ inside _ hp hinside hrest =>
          obtain ⟨first, second, rfl, hfirst, hsecond⟩ := ih hrest
          exact ⟨p :: inside ++ first, second, by simp, .place hp hinside hfirst, hsecond⟩

/-- Fewer mentions lead to fewer places. -/
theorem sublist (hsub : ms.Sublist ns) (h : σ.Unfolds ns met) :
    ∃ met', met'.Sublist met ∧ σ.Unfolds ms met' := by
  induction hsub generalizing met with
  | slnil => exact ⟨met, .refl met, h⟩
  | cons m _ ih =>
      cases h with
      | written hrest => exact ih hrest
      | place hp hinside hrest =>
          obtain ⟨met', hmet', h'⟩ := ih hrest
          exact ⟨met', hmet'.trans (List.sublist_append_right _ _), h'⟩
  | cons_cons m _ ih =>
      cases h with
      | written hrest =>
          obtain ⟨met', hmet', h'⟩ := ih hrest
          exact ⟨met', hmet', .written h'⟩
      | @place p _ inside _ hp hinside hrest =>
          obtain ⟨met', hmet', h'⟩ := ih hrest
          exact ⟨p :: inside ++ met', hmet'.append_left _, .place hp hinside h'⟩

/-- The places that are mentioned are met. -/
theorem mem (h : σ.Unfolds ms met) (hp : .place p ∈ ms) : p ∈ met := by
  induction h with
  | nil => cases hp
  | written _ ih => exact ih (by simpa using hp)
  | place _ _ _ _ ih =>
      rcases List.mem_cons.mp hp with heq | hp
      · cases heq
        simp
      · exact List.mem_append_right _ (ih hp)

/-- The places that are met are places of the store. -/
theorem mem_all (h : σ.Unfolds ms met) (hp : p ∈ met) : p ∈ σ.all := by
  induction h with
  | nil => cases hp
  | written _ ih => exact ih hp
  | place hp' _ _ ih ih' =>
      rcases List.mem_append.mp hp with hp | hp
      · rcases List.mem_cons.mp hp with rfl | hp
        · exact hp'
        · exact ih hp
      · exact ih' hp

/-- What the places hold that are met is met too. -/
theorem closed (h : σ.Unfolds ms met) : σ.Closed ⟨{p | p ∈ met}, Set.univ⟩ := by
  intro p hp v hv m hm
  cases m with
  | written name => exact Set.mem_univ name
  | place q =>
      show q ∈ met
      change p ∈ met at hp
      induction h with
      | nil => cases hp
      | written _ ih => exact ih hp
      | place _ hinside _ ih ih' =>
          rcases List.mem_append.mp hp with hp | hp
          · rcases List.mem_cons.mp hp with rfl | hp
            · exact List.mem_append_left _ (.tail _ (hinside.mem (List.mem_flatMap.mpr ⟨v, hv, hm⟩)))
            · exact List.mem_append_left _ (.tail _ (ih hp))
          · exact List.mem_append_right _ (ih' hp)

/-- What values reach that mention nothing else is met. -/
theorem mem_of_reaches {v : Value} (h : σ.Unfolds ms met) (hv : ∀ m ∈ v.mentions, m ∈ ms)
    (hreach : σ.Reaches [v] (.place p)) : p ∈ met := by
  have hin : (Mention.place p).In ⟨{p | p ∈ met}, Set.univ⟩ := hreach.in_closed h.closed
    fun w hw m hm => by
      obtain rfl := List.mem_singleton.mp hw
      cases m with
      | written name => exact Set.mem_univ name
      | place q => exact h.mem (hv _ hm)
  exact hin

/-- Of several values one at most leads to a place, where no place is met twice. -/
theorem reached_once {α : Type} {f : α → Value} {l : List α} {a b : α}
    (h : σ.Unfolds (l.flatMap fun a => (f a).mentions) met) (hmet : met.Nodup) (ha : a ∈ l)
    (hb : b ∈ l) (hreach : σ.Reaches [f a] (.place p)) (hreach' : σ.Reaches [f b] (.place p)) :
    a = b := by
  induction l generalizing met with
  | nil => cases ha
  | cons c l ih =>
      obtain ⟨first, second, rfl, hfirst, hsecond⟩ := append h
      -- what is met below the first value is not met below the others
      obtain ⟨-, hrest, hapart⟩ := List.nodup_append.mp hmet
      have hhead (hc : σ.Reaches [f c] (.place p)) : p ∈ first :=
        hfirst.mem_of_reaches (fun _ hm => hm) hc
      have htail {d : α} (hd : d ∈ l) (hp : σ.Reaches [f d] (.place p)) : p ∈ second :=
        hsecond.mem_of_reaches (fun m hm => List.mem_flatMap.mpr ⟨d, hd, hm⟩) hp
      rcases List.mem_cons.mp ha with rfl | ha'
      · rcases List.mem_cons.mp hb with rfl | hb'
        · rfl
        · exact absurd rfl (hapart p (hhead hreach) p (htail hb' hreach'))
      · rcases List.mem_cons.mp hb with rfl | hb'
        · exact absurd rfl (hapart p (hhead hreach') p (htail ha' hreach))
        · exact ih hsecond hrest ha' hb'

end Unfolds

end Store

/-! ## The attributes of a value -/

namespace Value

/-- The attributes that a value has in a store, under their names. -/
def attributes (σ : Store) (v : Value) : List (String × Value) :=
  match v with
  | mapping address => (σ.entries address).filterMap fun e =>
      match e.1 with
      | str s => some (s, e.2)
      | _ => none
  | object address => (σ.object address).attributes
  | row _ type items => type.fields.zip items
  | v => ["expression", "path", "parts", "width", "selector", "setter"].filterMap fun name =>
      (v.compiledAttribute? name).map (name, ·)

/-- What the attributes of a value can mention. -/
def inner (σ : Store) (v : Value) : List Mention :=
  match v.place? with
  | some p => (σ.contents p).flatMap mentions
  | none => v.mentions

variable {σ : Store} {v w : Value} {name : String}

/-- An attribute that is read is null or one of the attributes. -/
theorem mem_attributes (h : v.readAttribute σ name = .ok w) : w = null ∨ (name, w) ∈ v.attributes σ := by
  cases v with
  | null =>
      cases h
      exact .inl rfl
  | mapping address =>
      -- an entry that is missing reads as null, so only mappings have that case
      rw [readAttribute, lookup_eq_find?] at h
      cases hfound : (σ.entries address).find? fun e => e.1.isNamed name with
      | none =>
          rw [hfound] at h
          cases h
          exact .inl rfl
      | some e =>
          rw [hfound] at h
          cases h
          have hnamed : e.1.isNamed name := by simpa using List.find?_some hfound
          have hkey := isNamed_iff.mp hnamed
          exact .inr (List.mem_filterMap.mpr ⟨e, List.mem_of_find?_eq_some hfound, by
            rw [hkey]
            rfl⟩)
  | object address | row tag type items =>
      simp only [readAttribute] at h
      split at h
      · rename_i found hfound
        cases h
        exact .inr (Store.mem_of_lookup hfound)
      · cases h
  | _ =>
      simp only [readAttribute] at h
      split at h
      · rename_i found hfound
        cases h
        refine .inr (List.mem_filterMap.mpr ⟨name, ?_, by rw [hfound]; rfl⟩)
        simp only [compiledAttribute?] at hfound
        repeat' split at hfound
        all_goals simp_all
      · cases h

/-- Names mention nothing. -/
theorem mentions_map_str (names : List String) : allMentions (names.map str) = [] := by
  induction names with
  | nil => rfl
  | cons name names ih => exact ih

/-- Selectors in a list mention what they mention. -/
theorem mentions_map_selector (parts : List Selector) :
    allMentions (parts.map selector) = Selector.allMentions parts := by
  induction parts with
  | nil => rfl
  | cons part parts ih => rw [List.map_cons, allMentions, mentions, Selector.allMentions, ih]

/-- Values mention what each of them does. -/
theorem allMentions_eq_flatMap (vs : List Value) : allMentions vs = vs.flatMap mentions := by
  induction vs with
  | nil => rfl
  | cons v vs ih => rw [allMentions, List.flatMap_cons, ih]

/-- Items under names mention no more than the items. -/
theorem mentions_zip (names : List String) (items : List Value) :
    ((names.zip items).flatMap fun a => a.2.mentions).Sublist (items.flatMap mentions) := by
  induction items generalizing names with
  | nil => simp
  | cons item items ih =>
      cases names with
      | nil => simp
      | cons name names =>
          rw [List.zip_cons_cons, List.flatMap_cons, List.flatMap_cons]
          exact (ih names).append_left _

/-- The attributes of a value mention nothing else than it can mention, and nothing more often. -/
theorem attributes_mentions (σ : Store) (v : Value) :
    ((v.attributes σ).flatMap fun a => a.2.mentions).Sublist (v.inner σ) := by
  cases v with
  | mapping address =>
      show (((σ.entries address).filterMap _).flatMap _).Sublist
        (((σ.entries address).flatMap _).flatMap mentions)
      induction σ.entries address with
      | nil => exact .slnil
      | cons e entries ih =>
          obtain ⟨k, v⟩ := e
          simp only [List.flatMap_cons, List.flatMap_append, List.flatMap_nil, List.append_nil,
            List.append_assoc]
          refine .trans ?_ (List.sublist_append_right _ _)
          cases k with
          | str s => exact ih.append_left _
          | _ => exact ih.trans (List.sublist_append_right _ _)
  | object address =>
      show (List.flatMap _ _).Sublist (List.flatMap mentions (List.map _ _))
      rw [List.flatMap_map]
      exact .refl _
  | row _ type items =>
      show (List.flatMap _ (type.fields.zip items)).Sublist (allMentions items)
      rw [allMentions_eq_flatMap]
      exact mentions_zip type.fields items
  | selector s => cases hpath : s.path? <;> cases s <;> simp [attributes, compiledAttribute?, inner,
      place?, hpath, mentions, Selector.mentions, mentions_map_selector, mentions_map_str]
  | target s assign => cases assign <;> simp [attributes, compiledAttribute?, inner, place?, mentions]
  | setter s => simp [attributes, compiledAttribute?, mentions]
  | _ => simp [attributes, compiledAttribute?]

/-! ## What values reach -/

/-- Null reaches nothing. -/
theorem not_reaches_null {m : Mention} : ¬ σ.Reaches [null] m := by
  intro h
  induction h with
  | root hv hm =>
      obtain rfl := List.mem_singleton.mp hv
      cases hm
  | content _ _ _ ih => exact ih

/-! ## Trees -/

/-- Whether what a value leads to is a tree: no place is met twice, and all are places of the store. -/
def IsTree (σ : Store) (v : Value) : Prop := ∃ met, σ.Unfolds v.mentions met ∧ met.Nodup

/-- What the attributes of a tree lead to has no place twice, and not the place of the tree. -/
theorem IsTree.inner (h : v.IsTree σ) : ∃ met, σ.Unfolds (v.inner σ) met ∧ met.Nodup ∧
    ∀ p, v.place? = some p → p ∉ met := by
  obtain ⟨met, hmet, hnodup⟩ := h
  have hplaced {p : Place} (hmentions : v.mentions = [.place p]) :
      ∃ met', σ.Unfolds ((σ.contents p).flatMap mentions) met' ∧ met'.Nodup ∧
        ∀ q, some p = some q → q ∉ met' := by
    rw [hmentions] at hmet
    cases hmet with
    | place hp hinside hrest =>
        cases hrest
        rw [List.append_nil] at hnodup
        obtain ⟨hnew, hnodup⟩ := List.nodup_cons.mp hnodup
        exact ⟨_, hinside, hnodup, fun q hq => Option.some.inj hq ▸ hnew⟩
  cases v with
  | mapping address => exact hplaced rfl
  | object address => exact hplaced rfl
  | _ => exact ⟨met, hmet, hnodup, fun p hp => by cases hp⟩

/-- Attributes of a tree are trees. -/
theorem IsTree.attribute (h : v.IsTree σ) (hw : v.readAttribute σ name = .ok w) : w.IsTree σ := by
  rcases mem_attributes hw with rfl | hmem
  · exact ⟨[], .nil, .nil⟩
  · obtain ⟨met, hmet, hnodup, -⟩ := h.inner
    have hsub : w.mentions.Sublist (v.inner σ) := by
      simpa using ((List.singleton_sublist.mpr hmem).flatMap fun a => a.2.mentions).trans
        (attributes_mentions σ v)
    obtain ⟨met', hmet', h'⟩ := hmet.sublist hsub
    exact ⟨met', h', hnodup.sublist hmet'⟩

/-- What an attribute of a tree leads to, the tree is not itself at. -/
theorem IsTree.place_not_reached {p : Place} (h : v.IsTree σ) (hv : v.place? = some p)
    (hw : v.readAttribute σ name = .ok w) : ¬ σ.Reaches [w] (.place p) := by
  intro hreach
  obtain ⟨met, hmet, -, hnew⟩ := h.inner
  rcases mem_attributes hw with rfl | hmem
  · exact not_reaches_null hreach
  · exact hnew p hv (hmet.mem_of_reaches (fun m hm => (attributes_mentions σ v).subset
      (List.mem_flatMap.mpr ⟨_, hmem, hm⟩)) hreach)

/-- What one attribute of a tree leads to, no other attribute leads to. -/
theorem IsTree.reached_once {w' : Value} {name' : String} {p : Place} (h : v.IsTree σ)
    (hw : v.readAttribute σ name = .ok w) (hw' : v.readAttribute σ name' = .ok w')
    (hreach : σ.Reaches [w] (.place p)) (hreach' : σ.Reaches [w'] (.place p)) : name = name' := by
  obtain ⟨met, hmet, hnodup, -⟩ := h.inner
  obtain ⟨met', hmet', h'⟩ := hmet.sublist (attributes_mentions σ v)
  rcases mem_attributes hw with rfl | hmem
  · exact absurd hreach not_reaches_null
  rcases mem_attributes hw' with rfl | hmem'
  · exact absurd hreach' not_reaches_null
  have heq := h'.reached_once (f := Prod.snd) (hnodup.sublist hmet') hmem hmem' hreach hreach'
  exact congrArg Prod.fst heq

/-! ## Paths in trees -/

/-- A path reads one attribute after the other. -/
theorem readPath_cons_ok {path : List String} : v.readPath σ (name :: path) = .ok w ↔
    ∃ u, v.readAttribute σ name = .ok u ∧ u.readPath σ path = .ok w := by
  have hread : v.readPath σ (name :: path) = (v.readAttribute σ name).bind (readPath σ · path) := rfl
  rw [hread]
  cases v.readAttribute σ name <;> simp [Except.bind]

/-- What the end of a path leads to, its start leads to. -/
theorem reaches_of_readPath {path : List String} {p : Place} (hw : v.readPath σ path = .ok w)
    (hreach : σ.Reaches [w] (.place p)) : σ.Reaches [v] (.place p) := by
  have hclosed := σ.closed_reach [v]
  have hwithin := (readPath_agree (Store.Agree.refl hclosed) path
    (Store.within_reach (List.mem_singleton_self v))).2 w hw
  exact hreach.in_closed hclosed (by simpa using hwithin)

/-- A path to a place of a tree goes through every value that leads to the place. -/
theorem IsTree.prefix_of_reaches {path path' : List String} {w' : Value} {p : Place} (h : v.IsTree σ)
    (hw : v.readPath σ path = .ok w) (hreach : σ.Reaches [w] (.place p))
    (hw' : v.readPath σ path' = .ok w') (hp : w'.place? = some p) : path <+: path' := by
  induction path generalizing v path' with
  | nil => exact List.nil_prefix
  | cons name path ih =>
      obtain ⟨u, hu, hw⟩ := readPath_cons_ok.mp hw
      have hreach' := reaches_of_readPath hw hreach
      cases path' with
      | nil =>
          -- the place is that of the tree itself
          cases hw'
          exact absurd hreach' (h.place_not_reached hp hu)
      | cons name' path' =>
          obtain ⟨u', hu', hw'⟩ := readPath_cons_ok.mp hw'
          obtain rfl := h.reached_once hu hu' hreach' (reaches_of_readPath hw' (reaches_place hp))
          obtain rfl : u = u' := Except.ok.inj (hu.symm.trans hu')
          exact List.cons_prefix_cons.mpr ⟨rfl, ih (h.attribute hu) hw hw'⟩

/-- A place of a tree is at the end of one path. -/
theorem IsTree.path_unique {path path' : List String} {w' : Value} {p : Place} (h : v.IsTree σ)
    (hw : v.readPath σ path = .ok w) (hp : w.place? = some p) (hw' : v.readPath σ path' = .ok w')
    (hp' : w'.place? = some p) : path = path' :=
  (h.prefix_of_reaches hw (reaches_place hp) hw' hp').eq_of_length_le
    (h.prefix_of_reaches hw' (reaches_place hp') hw hp).length_le

/-- The places that a path of a tree leads to are places of the store. -/
theorem IsTree.mem_all {path : List String} {p : Place} (h : v.IsTree σ)
    (hw : v.readPath σ path = .ok w) (hp : w.place? = some p) : p ∈ σ.all := by
  obtain ⟨met, hmet, -⟩ := h
  exact hmet.mem_all (hmet.mem_of_reaches (fun _ hm => hm) (reaches_of_readPath hw (reaches_place hp)))

end Value

end Rubric
