import Rubric.Proofs.Script.Faults

/-!
# Where a script fails

A variable is definitely assigned at a place of a script where every way to the place assigns it:
branches assign what all their alternatives do, and a loop, which may run over nothing, assigns
nothing for what follows it.  A run that fails, fails at a statement whose definitely assigned
variables all have values there.

* `Program.sites` : the statements of a script with what is known before each;
* `Program.run_error` : the statement that a failing run fails at.
-/

namespace Rubric.Script

/-! ## Definite assignment -/

mutual

/-- The variables that a statement assigns in every run that it ends. -/
def Stmt.settles : Stmt → List String
  | .assign _ var [] _ => ["$" ++ var]
  | .branch _ _ body rest => (Stmt.allSettle body).filter fun v => rest.settles.contains v
  | _ => []

/-- The variables that all alternatives assign; where none may run, there are no such. -/
def Alternatives.settles : Alternatives → List String
  | .done => []
  | .otherwise body => Stmt.allSettle body
  | .elif _ body rest => (Stmt.allSettle body).filter fun v => rest.settles.contains v

/-- The variables that statements assign in every run that they end. -/
def Stmt.allSettle : List Stmt → List String
  | [] => []
  | s :: ss => s.settles ++ Stmt.allSettle ss

end

/-- A statement of a script, the variables that are definitely assigned before it, and the statements
that stand before it in the text. -/
structure Site where
  sure : List String
  before : List Stmt
  stmt : Stmt

mutual

/-- The sites in a statement, its own first. -/
def Stmt.sites (sure : List String) (before : List Stmt) : Stmt → List Site
  | .branch line condition body rest =>
    let s := .branch line condition body rest
    ⟨sure, before, s⟩ ::
      (Stmt.sitesAll sure (before ++ [s]) body ++
        rest.sites sure (before ++ s :: Stmt.walkAll body))
  | .foreach line var collection body =>
    let s := .foreach line var collection body
    ⟨sure, before, s⟩ :: Stmt.sitesAll (("$" ++ var) :: sure) (before ++ [s]) body
  | s => [⟨sure, before, s⟩]

/-- The sites in alternatives. -/
def Alternatives.sites (sure : List String) (before : List Stmt) : Alternatives → List Site
  | .done => []
  | .otherwise body => Stmt.sitesAll sure before body
  | .elif _ body rest =>
    Stmt.sitesAll sure before body ++ rest.sites sure (before ++ Stmt.walkAll body)

/-- The sites in statements that follow one another. -/
def Stmt.sitesAll (sure : List String) (before : List Stmt) : List Stmt → List Site
  | [] => []
  | s :: ss => s.sites sure before ++ Stmt.sitesAll (s.settles ++ sure) (before ++ s.walk) ss

end

/-- The sites of a script, in the order of the text. -/
def Program.sites (p : Program) : List Site := Stmt.sitesAll [] [] p.statements

/-! ## Sites and the text -/

/-- Whether a site stands in a list of statements as it says. -/
def Site.StandsIn (site : Site) (statements : List Stmt) : Prop :=
  ∃ after, statements = site.before ++ site.stmt :: after

theorem Site.StandsIn.append {site : Site} {statements : List Stmt} (h : site.StandsIn statements)
    (more : List Stmt) : site.StandsIn (statements ++ more) := by
  obtain ⟨after, hafter⟩ := h
  exact ⟨after ++ more, by simp [hafter]⟩

mutual

theorem Stmt.standsIn_of_mem_sites {site : Site} : ∀ {s : Stmt} {sure : List String}
    {before : List Stmt}, site ∈ s.sites sure before → site.StandsIn (before ++ s.walk)
  | .assign _ _ _ _, _, _, h | .call _ _ _, _, _, h => by
      simp only [Stmt.sites, List.mem_singleton] at h
      exact h ▸ ⟨[], rfl⟩
  | .branch line condition body rest, _, before, h => by
      simp only [Stmt.sites, List.mem_cons, List.mem_append] at h
      rw [Stmt.walk]
      rcases h with rfl | h | h
      · exact ⟨_, rfl⟩
      · simpa using (Stmt.standsIn_of_mem_sitesAll h).append rest.walk
      · simpa using Alternatives.standsIn_of_mem_sites h
  | .foreach line var collection body, _, before, h => by
      simp only [Stmt.sites, List.mem_cons] at h
      rw [Stmt.walk]
      rcases h with rfl | h
      · exact ⟨_, rfl⟩
      · simpa using Stmt.standsIn_of_mem_sitesAll h

theorem Alternatives.standsIn_of_mem_sites {site : Site} : ∀ {rest : Alternatives}
    {sure : List String} {before : List Stmt}, site ∈ rest.sites sure before →
      site.StandsIn (before ++ rest.walk)
  | .done, _, _, h => by simp [Alternatives.sites] at h
  | .otherwise body, _, _, h => by
      rw [Alternatives.sites] at h
      exact Stmt.standsIn_of_mem_sitesAll h
  | .elif _ body rest, _, before, h => by
      rw [Alternatives.sites, List.mem_append] at h
      rw [Alternatives.walk]
      rcases h with h | h
      · simpa using (Stmt.standsIn_of_mem_sitesAll h).append rest.walk
      · simpa using Alternatives.standsIn_of_mem_sites h

theorem Stmt.standsIn_of_mem_sitesAll {site : Site} : ∀ {ss : List Stmt} {sure : List String}
    {before : List Stmt}, site ∈ Stmt.sitesAll sure before ss →
      site.StandsIn (before ++ Stmt.walkAll ss)
  | [], _, _, h => by simp [Stmt.sitesAll] at h
  | s :: ss, _, before, h => by
      rw [Stmt.sitesAll, List.mem_append] at h
      rw [Stmt.walkAll]
      rcases h with h | h
      · simpa using (Stmt.standsIn_of_mem_sites h).append (Stmt.walkAll ss)
      · simpa using Stmt.standsIn_of_mem_sitesAll h

end

/-- A site of a script stands in its text. -/
theorem Program.standsIn_of_mem_sites {p : Program} {site : Site} (h : site ∈ p.sites) :
    site.StandsIn p.allStatements := Stmt.standsIn_of_mem_sitesAll h

/-! ## What runs keep and where they fail -/

section

variable (env : Environment)

/-- Whether names have values in a run: as its locals or as bindings. -/
def Settled (locals : Locals) (names : List String) : Prop :=
  ∀ v ∈ names, (locals.lookup v).isSome ∨ env.binder.contains v

/-- The faults that arise at a site, before they are located. -/
def Site.Fails (site : Site) (fault : Fault) : Prop :=
  ∃ locals, Settled env locals site.sure ∧ site.stmt.Raises env locals fault

/-- The faults that arise at one of several sites, located there. -/
def FailsAt (sites : List Site) (fault : Fault) : Prop :=
  ∃ site ∈ sites, ∃ cause, site.Fails env cause ∧ fault = .atLine site.stmt.line cause

/-- Whether a part of a run, started where some names have values, ends where others do or with a
fault of a kind. -/
def Proceeds {α : Type} (sure : List String) (action : Exec α) (settled : List String)
    (P : Fault → Prop) : Prop :=
  ∀ s, Settled env s.locals sure →
    match action s with
    | .ok _ s' => Settled env s'.locals settled
    | .error fault _ => P fault

end

variable {env : Environment} {sure mid settled : List String} {P Q : Fault → Prop} {α β : Type}

theorem Settled.mono {locals : Locals} {names others : List String} (h : Settled env locals names)
    (hsub : others ⊆ names) : Settled env locals others := fun v hv => h v (hsub hv)

theorem FailsAt.mono {sites others : List Site} {fault : Fault} (h : FailsAt env sites fault)
    (hsub : sites ⊆ others) : FailsAt env others fault := by
  obtain ⟨site, hsite, hfault⟩ := h
  exact ⟨site, hsub hsite, hfault⟩

namespace Proceeds

/-- A part of a run also proceeds to fewer names and to more faults. -/
theorem mono {action : Exec α} {fewer : List String} (h : Proceeds env sure action settled P)
    (hsub : fewer ⊆ settled) (himp : ∀ fault, P fault → Q fault) :
    Proceeds env sure action fewer Q := by
  intro s hs
  have hrun := h s hs
  cases hresult : action s with
  | ok a s' =>
      rw [hresult] at hrun
      exact hrun.mono hsub
  | error fault s' =>
      rw [hresult] at hrun
      exact himp fault hrun

/-- The names that have values before an action are those of the action before it. -/
theorem bind {first : Exec α} {second : α → Exec β} (hfirst : Proceeds env sure first mid P)
    (hsecond : ∀ a, Proceeds env mid (second a) settled P) :
    Proceeds env sure (first >>= second) settled P := by
  intro s hs
  have hrun := hfirst s hs
  cases hresult : first s with
  | ok a s' =>
      rw [hresult] at hrun
      rw [bind_of_ok hresult]
      exact hsecond a s' hrun
  | error fault s' =>
      rw [hresult] at hrun
      rw [bind_of_error hresult]
      exact hrun

theorem pure (a : α) : Proceeds env sure (pure a : Exec α) sure P := fun _ hs => hs

theorem get_bind {f : RunState → Exec β} (h : ∀ s, Proceeds env sure (f s) settled P) :
    Proceeds env sure (get >>= f) settled P := fun s hs => h s s hs

theorem throw {fault : Fault} (h : ∀ locals, Settled env locals sure → P fault) :
    Proceeds env sure (throw fault : Exec α) settled P := fun s hs => h s.locals hs

/-- An action on values keeps the locals. -/
theorem ofEval {action : Locals → Eval α}
    (h : ∀ locals, Settled env locals sure → RaisesOnly P (action locals)) :
    Proceeds env sure (Exec.ofEval action) sure P := by
  intro s hs
  simp only [Exec.ofEval]
  cases hresult : action s.locals s.store with
  | ok a σ => exact hs
  | error fault σ => exact h s.locals hs s.store fault σ hresult

end Proceeds

theorem lookup_cons (v n : String) (a : Value) (locals : Locals) :
    ((n, a) :: locals : Locals).lookup v = if v = n then some a else locals.lookup v := by
  by_cases h : v = n
  · simp [h]
  · rw [List.lookup_cons, beq_false_of_ne h, if_neg h]

theorem isSome_lookup_setNamed (name v : String) (value : Value) (locals : Locals) :
    ((Value.setNamed name value locals).lookup v).isSome ↔
      v = name ∨ (locals.lookup v).isSome := by
  induction locals with
  | nil => rw [Value.setNamed, lookup_cons]; split <;> simp_all
  | cons entry locals ih =>
      obtain ⟨n, a⟩ := entry
      rw [Value.setNamed, lookup_cons]
      split
      · rename_i heq
        rw [lookup_cons, heq]
        split <;> simp_all
      · rw [lookup_cons]
        split
        · simp
        · exact ih

/-- A local that is set has a value from then on. -/
theorem proceeds_setLocal (name : String) (value : Value) :
    Proceeds env sure (Exec.setLocal name value) (name :: sure) P := by
  intro s hs v hv
  rw [isSome_lookup_setNamed]
  rcases List.mem_cons.mp hv with rfl | hv
  · exact .inl (.inl rfl)
  · exact (hs v hv).imp_left .inr

/-! ## Statements -/

/-- A statement locates its own faults and keeps the lines of those in its blocks. -/
theorem Proceeds.atLine (site : Site) (inner : List Site) {action : Exec Unit}
    (h : Proceeds env sure action settled fun fault => site.Fails env fault ∨ FailsAt env inner fault) :
    Proceeds env sure (Exec.atLine site.stmt.line action) settled
      (FailsAt env (site :: inner)) := by
  intro s hs
  have hrun := h s hs
  simp only [Exec.atLine]
  cases hresult : action s with
  | ok a s' =>
      rw [hresult] at hrun
      exact hrun
  | error fault s' =>
      rw [hresult] at hrun
      rcases hrun with hfails | hfails
      · obtain ⟨locals, hlocals, hraises⟩ := hfails
        exact ⟨site, List.mem_cons_self, fault, ⟨locals, hlocals, hraises⟩, hraises.located _⟩
      · obtain ⟨inside, hinside, cause, hcause, rfl⟩ := hfails
        exact ⟨inside, List.mem_cons_of_mem _ hinside, cause, hcause, rfl⟩

section

variable (site : Site)

/-- What an action on values raises at a site. -/
theorem proceeds_ofEval {action : Locals → Eval α}
    (h : ∀ locals, RaisesOnly (site.stmt.Raises env locals) (action locals)) :
    Proceeds env site.sure (Exec.ofEval action) site.sure (site.Fails env) :=
  Proceeds.ofEval fun locals hlocals =>
    (h locals).imp fun _ hraises => ⟨locals, hlocals, hraises⟩

theorem proceeds_evaluate {e : Expr} (he : e ∈ site.stmt.expressions) :
    Proceeds env site.sure (evaluate env e) site.sure (site.Fails env) :=
  proceeds_ofEval site fun _ => raises_evalOf he

theorem proceeds_conditionHolds {e : Expr} (he : e ∈ site.stmt.expressions) :
    Proceeds env site.sure (conditionHolds env e) site.sure (site.Fails env) :=
  (proceeds_evaluate site he).bind fun _ => .get_bind fun _ => .pure _

/-- An assigned variable has a value afterwards: as a local, or as the binding that was written. -/
theorem proceeds_assignVar {line : Nat} {var : String} {value : Expr}
    (hstmt : site.stmt = .assign line var [] value) (v : Value) :
    Proceeds env site.sure (assignVar env ("$" ++ var) v) (("$" ++ var) :: site.sure)
      (site.Fails env) := by
  refine .get_bind fun s => ?_
  split
  · rename_i binding _ hbound
    have hbinding : Proceeds env site.sure (Exec.ofEval fun _ => assignBound env binding v)
        site.sure (site.Fails env) :=
      proceeds_ofEval site fun locals => hstmt ▸ raises_assignBound hbound v
    intro s hs
    have hrun := hbinding s hs
    split at hrun
    · intro name hname
      rcases List.mem_cons.mp hname with rfl | hname
      · exact .inr (by simp [Binder.contains, hbound])
      · exact hrun name hname
    · exact hrun
  · exact proceeds_setLocal _ v

/-- A loop keeps what its body keeps. -/
theorem proceeds_runOver {body : Value → Exec Unit} {collection : Value} {entries : Option Nat}
    (hchanged : ∀ locals, Settled env locals sure → P (.access .changedDuringIteration))
    (hbody : ∀ element, Proceeds env sure (body element) sure P) (elements : List Value) :
    Proceeds env sure (runOver collection entries body elements) sure P := by
  have hcheck : Proceeds env sure (checkEntries collection entries) sure P := by
    refine .get_bind fun s => ?_
    split
    · exact .throw hchanged
    · exact .pure _
  induction elements with
  | nil => exact hcheck
  | cons element elements ih => exact hcheck.bind fun _ => (hbody element).bind fun _ => ih

end

theorem append_subset_append {names others : List String} (h : names ⊆ others) :
    names ++ sure ⊆ others ++ sure :=
  List.append_subset.mpr ⟨List.subset_append_of_subset_left _ h, List.subset_append_right _ _⟩

theorem filter_contains_subset (names others : List String) :
    names.filter (fun v => others.contains v) ⊆ others := fun v hv => by
  simpa using (List.mem_filter.mp hv).2

mutual

/-- A statement assigns what it settles, or fails at one of its sites. -/
theorem Stmt.run_proceeds (env : Environment) : ∀ (s : Stmt) (sure : List String)
    (before : List Stmt),
    Proceeds env sure (s.run env) (s.settles ++ sure) (FailsAt env (s.sites sure before))
  | .assign line var [] value, sure, before => by
      let site : Site := ⟨sure, before, .assign line var [] value⟩
      rw [Stmt.run]
      refine Proceeds.atLine site [] ?_
      refine (Proceeds.bind (proceeds_evaluate site ?_) fun v =>
        proceeds_assignVar site rfl v).mono (List.Subset.refl _) fun _ => .inl
      simp [site, Stmt.expressions]
  | .assign line var (name :: path) value, sure, before => by
      let site : Site := ⟨sure, before, .assign line var (name :: path) value⟩
      rw [Stmt.run]
      refine Proceeds.atLine site [] ?_
      exact (proceeds_ofEval site fun locals =>
        raises_assignField line var name path value).mono (List.Subset.refl _) fun _ => .inl
  | .branch line condition body rest, sure, before => by
      let s : Stmt := .branch line condition body rest
      let site : Site := ⟨sure, before, s⟩
      have hcondition : condition ∈ s.expressions := List.mem_cons_self
      have hconditions : rest.conditions ⊆ s.expressions := List.subset_cons_self _ _
      rw [Stmt.run, Stmt.sites, Stmt.settles]
      refine Proceeds.atLine site _ ?_
      refine ((proceeds_conditionHolds site hcondition).mono (List.Subset.refl _)
        fun _ => .inl).bind fun holds => ?_
      split
      · refine (Stmt.runAll_proceeds env body sure (before ++ [s])).mono ?_ fun _ hfails =>
          .inr (hfails.mono (List.subset_append_left _ _))
        exact append_subset_append List.filter_sublist.subset
      · refine (Alternatives.run_proceeds env site rest hconditions _).mono ?_ fun _ hfails =>
          hfails.imp_right fun hfails => hfails.mono (List.subset_append_right _ _)
        exact append_subset_append (filter_contains_subset _ _)
  | .foreach line var collection body, sure, before => by
      let s : Stmt := .foreach line var collection body
      let site : Site := ⟨sure, before, s⟩
      rw [Stmt.run, Stmt.sites]
      refine Proceeds.atLine site _ ?_
      dsimp only
      split
      -- the variable of a loop must not be bound outside
      · rename_i hbound
        exact .throw fun locals hlocals => .inl ⟨locals, hlocals, .shadowing hbound⟩
      · refine Proceeds.bind ((proceeds_ofEval site fun locals =>
          raises_loopElements line var collection body).mono (List.Subset.refl _) fun _ => .inl)
          fun run => ?_
        refine proceeds_runOver (fun locals hlocals => .inl ⟨locals, hlocals, .ofValues rfl⟩)
          (fun element => ?_) run.2.2
        refine ((proceeds_setLocal _ element).bind fun _ =>
          Stmt.runAll_proceeds env body _ (before ++ [s])).mono ?_ fun _ => .inr
        exact List.Subset.trans (List.subset_cons_self _ _) (List.subset_append_right _ _)
  | .call line function args, sure, before => by
      let site : Site := ⟨sure, before, .call line function args⟩
      rw [Stmt.run]
      refine Proceeds.atLine site [] ?_
      refine ((proceeds_evaluate site ?_).mono (List.Subset.refl _)
        fun _ => .inl).bind fun _ => .pure _
      simp [site, Stmt.expressions]

/-- Alternatives assign what they settle, or fail at a site in them or in a condition of the
statement that they belong to. -/
theorem Alternatives.run_proceeds (env : Environment) (site : Site) : ∀ (rest : Alternatives)
    (_ : rest.conditions ⊆ site.stmt.expressions) (before : List Stmt),
    Proceeds env site.sure (rest.run env) (rest.settles ++ site.sure)
      fun fault => site.Fails env fault ∨ FailsAt env (rest.sites site.sure before) fault
  | .done, _, before => by
      rw [Alternatives.run]
      exact .pure _
  | .otherwise body, _, before => by
      rw [Alternatives.run]
      exact (Stmt.runAll_proceeds env body site.sure before).mono (List.Subset.refl _)
        fun _ => .inr
  | .elif condition body rest, hsub, before => by
      rw [Alternatives.run, Alternatives.sites, Alternatives.settles]
      refine ((proceeds_conditionHolds site (hsub List.mem_cons_self)).mono (List.Subset.refl _)
        fun _ => .inl).bind fun holds => ?_
      split
      · refine (Stmt.runAll_proceeds env body site.sure before).mono ?_ fun _ hfails =>
          .inr (hfails.mono (List.subset_append_left _ _))
        exact append_subset_append List.filter_sublist.subset
      · refine (Alternatives.run_proceeds env site rest
          (List.Subset.trans (List.subset_cons_self _ _) hsub) _).mono ?_ fun _ hfails =>
            hfails.imp_right fun hfails => hfails.mono (List.subset_append_right _ _)
        exact append_subset_append (filter_contains_subset _ _)

/-- Statements assign what they settle, or fail at one of their sites. -/
theorem Stmt.runAll_proceeds (env : Environment) : ∀ (ss : List Stmt) (sure : List String)
    (before : List Stmt),
    Proceeds env sure (Stmt.runAll env ss) (Stmt.allSettle ss ++ sure)
      (FailsAt env (Stmt.sitesAll sure before ss))
  | [], sure, before => by
      rw [Stmt.runAll]
      exact .pure _
  | s :: ss, sure, before => by
      rw [Stmt.runAll, Stmt.sitesAll, Stmt.allSettle]
      refine ((Stmt.run_proceeds env s sure before).mono (List.Subset.refl _) fun _ hfails =>
        hfails.mono (List.subset_append_left _ _)).bind fun _ => ?_
      refine (Stmt.runAll_proceeds env ss (s.settles ++ sure) (before ++ s.walk)).mono ?_
        fun _ hfails => hfails.mono (List.subset_append_right _ _)
      intro v hv
      simp only [List.mem_append] at hv ⊢
      rcases hv with (hv | hv) | hv
      · exact .inr (.inl hv)
      · exact .inl hv
      · exact .inr (.inr hv)

end

/-- A run that fails, fails at a site of the script, where the variables that are sure have values,
with a fault that the statement there raises. -/
theorem Program.run_error {p : Program} {env : Environment} {σ τ : Store} {fault : Fault}
    (h : p.run env σ = .error fault τ) : FailsAt env p.sites fault := by
  have hrun := Stmt.runAll_proceeds env p.statements [] [] ⟨σ, []⟩ fun v hv => by cases hv
  unfold Program.run at h
  cases hresult : Stmt.runAll env p.statements ⟨σ, []⟩ with
  | ok a s => simp [hresult] at h
  | error fault' s =>
      simp only [hresult] at h hrun
      cases h
      exact hrun

end Rubric.Script
