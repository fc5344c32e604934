import ModuleLoader.Proofs.Quests
/-!
Where the search for an export ends, and why the pairs it has looked at before do not matter.

`Leads` says how a name is followed without counting steps or visits. A search that finds an origin
has followed such a path; what a record may export contains every name that leads somewhere; and a
search that begins one step later finds the same.
-/

namespace ModuleLoader
set_option autoImplicit false

namespace Batch

variable {batch : Batch}

/-- The name of a record leads to an origin: by an explicit export, or through a star. -/
inductive Leads (batch : Batch) : Ref .record → String → Origin → Prop where
  | outside {record : Ref .record} {name : String} {exports : Table (Ref .slot)}
      {slot : Ref .slot} : batch.unitOf record = none → batch.outside record = .ok exports →
        exports.get? name = some slot → Leads batch record name (.slot slot)
  | found {record : Ref .record} {name : String} {unit : LinkUnit} {origin : Origin} :
      batch.unitOf record = some unit → unit.exportStep name = .ok (some (.found origin)) →
        Leads batch record name origin
  | forward {record target : Ref .record} {name remote : String} {unit : LinkUnit}
      {origin : Origin} : batch.unitOf record = some unit →
        unit.exportStep name = .ok (some (.forward target remote)) →
          Leads batch target remote origin → Leads batch record name origin
  | require {record target : Ref .record} {name remote source : String} {unit : LinkUnit}
      {origin : Origin} : batch.unitOf record = some unit →
        unit.exportStep name = .ok (some (.require target remote source)) →
          Leads batch target remote origin → Leads batch record name origin
  | star {record target : Ref .record} {name : String} {unit : LinkUnit}
      {targets : List (Ref .record)} {origin : Origin} : batch.unitOf record = some unit →
        unit.exportStep name = .ok none → name ≠ unit.defaultExport →
          unit.starRecords = .ok targets → target ∈ targets →
            Leads batch target name origin → Leads batch record name origin

theorem firstFound_some {search : Visited → Ref .record → Found} {origin : Origin} :
    ∀ {records : List (Ref .record)} {visited : Visited},
      (firstFound search visited records).2 = .ok (some origin) →
        ∃ record ∈ records, ∃ before, (search before record).2 = .ok (some origin)
  | [], _, h => nomatch h
  | record :: rest, visited, h => by
    by_cases hnone : (search visited record).2 = .ok none
    · rw [firstFound_none hnone] at h
      obtain ⟨found, hmem, hfound⟩ := firstFound_some h
      exact ⟨found, List.mem_cons_of_mem _ hmem, hfound⟩
    · rw [firstFound_stop hnone] at h
      exact ⟨record, List.mem_cons_self, visited, h⟩

/-- A search that finds an origin has followed a path to it. -/
theorem leads_of_search : ∀ (fuel : Nat) {visited : Visited} {record : Ref .record} {name : String}
    {origin : Origin}, (batch.search fuel visited record name).2 = .ok (some origin) →
      batch.Leads record name origin
  | 0, _, _, _, _, h => nomatch h
  | fuel + 1, visited, record, name, origin, h => by
    cases hunit : batch.unitOf record with
    | none =>
      rw [search_outside hunit] at h
      cases hexports : batch.outside record with
      | error failure =>
        rw [hexports] at h
        cases h
      | ok exports =>
        rw [hexports] at h
        obtain ⟨slot, hslot, rfl⟩ := Option.map_eq_some_iff.1 (Except.ok.inj h)
        exact .outside hunit hexports hslot
    | some unit =>
      by_cases hseen : (record, name) ∈ visited
      · rw [search_seen hunit hseen] at h
        cases h
      obtain ⟨quest, hposes⟩ := exists_poses unit name
      rw [search_new hunit hseen hposes] at h
      cases hposes with
      | failed | reserved | starless => cases h
      | found hstep =>
        cases h
        exact .found hunit hstep
      | forward hstep =>
        exact .forward hunit hstep (leads_of_search fuel (Quest.pursue_follow_found.1 h))
      | require hstep =>
        exact .require hunit hstep (leads_of_search fuel (Quest.pursue_follow_found.1 h))
      | stars hstep hname htargets =>
        obtain ⟨target, hmem, before, hfound⟩ := firstFound_some h
        exact .star hunit hstep hname htargets (List.mem_reverse.1 hmem)
          (leads_of_search fuel hfound)

theorem leads_of_originOf {record : Ref .record} {name : String} {origin : Origin}
    (h : batch.originOf record name = .ok (some origin)) : batch.Leads record name origin :=
  leads_of_search _ h

theorem mem_firstFound {search : Visited → Ref .record → Found} {pair : Ref .record × String}
    (hsearch : ∀ visited record, pair ∈ visited → pair ∈ (search visited record).1) :
    ∀ {records : List (Ref .record)} {visited : Visited}, pair ∈ visited →
      pair ∈ (firstFound search visited records).1
  | [], _, h => h
  | record :: rest, visited, h => by
    have hfirst := hsearch visited record h
    by_cases hnone : (search visited record).2 = .ok none
    · rw [firstFound_none hnone]
      exact mem_firstFound hsearch hfirst
    · rw [firstFound_stop hnone]
      exact hfirst

theorem mem_pursue {search : Visited → Ref .record → String → Found} {pair : Ref .record × String}
    (hsearch : ∀ {visited} record name, pair ∈ visited → pair ∈ (search visited record name).1)
    {visited : Visited} (quest : Quest) (name : String) (h : pair ∈ visited) :
    pair ∈ (quest.pursue search visited name).1 := by
  cases quest with
  | answer result => exact h
  | follow target remote missing => exact hsearch target remote h
  | spread targets => exact mem_firstFound (fun before target => hsearch target name) h

/-- A search forgets nothing that was looked at before. -/
theorem mem_search : ∀ (fuel : Nat) {visited : Visited} {pair : Ref .record × String}
    (record : Ref .record) (name : String), pair ∈ visited →
      pair ∈ (batch.search fuel visited record name).1
  | 0, _, _, _, _, h => h
  | fuel + 1, visited, pair, record, name, h => by
    cases hunit : batch.unitOf record with
    | none =>
      rw [search_outside hunit]
      exact h
    | some unit =>
      by_cases hseen : (record, name) ∈ visited
      · rw [search_seen hunit hseen]
        exact h
      · obtain ⟨quest, hposes⟩ := exists_poses unit name
        rw [search_new hunit hseen hposes]
        exact mem_pursue (mem_search fuel) quest name (List.mem_cons_of_mem _ h)

/-- Two lists of pairs that were looked at are the same but for one pair. -/
def AlikeBut (pair : Ref .record × String) (visited visited' : Visited) : Prop :=
  ∀ other, other ≠ pair → (other ∈ visited ↔ other ∈ visited')

theorem AlikeBut.cons {pair : Ref .record × String} {visited visited' : Visited}
    (h : AlikeBut pair visited visited') (first : Ref .record × String) :
    AlikeBut pair (first :: visited) (first :: visited') := by
  intro other hother
  simp only [List.mem_cons, h other hother]

/-- The explicit export of the first pair leads to the second one. -/
def Passes (batch : Batch) (pair next : Ref .record × String) : Prop :=
  ∃ unit, batch.unitOf pair.1 = some unit ∧
    (unit.exportStep pair.2 = .ok (some (.forward next.1 next.2)) ∨
      ∃ source, unit.exportStep pair.2 = .ok (some (.require next.1 next.2 source)))

/-- The first search failed, or both found the same. -/
def Skipped (pair : Ref .record × String) (found found' : Found) : Prop :=
  (∃ failure, found.2 = .error failure) ∨ found.2 = found'.2 ∧ AlikeBut pair found.1 found'.1

theorem Skipped.firstFound {pair next : Ref .record × String}
    {search : Visited → Ref .record → Found}
    (hgrows : ∀ visited record other, other ∈ visited → other ∈ (search visited record).1)
    (hsearch : ∀ visited visited' record, next ∈ visited → pair ∈ visited' →
      AlikeBut pair visited visited' →
        Skipped pair (search visited record) (search visited' record)) :
    ∀ {records : List (Ref .record)} {visited visited' : Visited}, next ∈ visited →
      pair ∈ visited' → AlikeBut pair visited visited' →
        Skipped pair (firstFound search visited records) (firstFound search visited' records)
  | [], _, _, _, _, halike => .inr ⟨rfl, halike⟩
  | record :: rest, visited, visited', hnext, hpair, halike => by
    rcases hsearch visited visited' record hnext hpair halike with ⟨failure, herror⟩ | ⟨hsame, halike'⟩
    · rw [firstFound_stop (by rw [herror]; nofun)]
      exact .inl ⟨failure, herror⟩
    · by_cases hnone : (search visited record).2 = .ok none
      · rw [firstFound_none hnone, firstFound_none (hsame.symm.trans hnone)]
        exact Skipped.firstFound hgrows hsearch (hgrows visited record next hnext)
          (hgrows visited' record pair hpair) halike'
      · rw [firstFound_stop hnone, firstFound_stop fun hnone' => hnone (hsame.trans hnone')]
        exact .inr ⟨hsame, halike'⟩

theorem Skipped.demand {pair : Ref .record × String} {found found' : Found}
    (missing : Option Failure) (h : Skipped pair found found') :
    Skipped pair (found.1, Batch.demand missing found.2) (found'.1, Batch.demand missing found'.2) := by
  rcases h with ⟨failure, herror⟩ | ⟨hsame, halike⟩
  · exact .inl ⟨failure, congrArg (Batch.demand missing) herror⟩
  · exact .inr ⟨congrArg (Batch.demand missing) hsame, halike⟩

theorem Skipped.pursue {pair next : Ref .record × String}
    {search : Visited → Ref .record → String → Found}
    (hgrows : ∀ {visited other} record name, other ∈ visited → other ∈ (search visited record name).1)
    (hsearch : ∀ {visited visited'} record name, next ∈ visited → pair ∈ visited' →
      AlikeBut pair visited visited' →
        Skipped pair (search visited record name) (search visited' record name))
    {visited visited' : Visited} (quest : Quest) (name : String) (hnext : next ∈ visited)
    (hpair : pair ∈ visited') (halike : AlikeBut pair visited visited') :
    Skipped pair (quest.pursue search visited name) (quest.pursue search visited' name) := by
  cases quest with
  | answer result => exact .inr ⟨rfl, halike⟩
  | follow target remote missing => exact (hsearch target remote hnext hpair halike).demand missing
  | spread targets =>
    exact Skipped.firstFound (fun before target other => hgrows target name)
      (fun before before' target => hsearch target name) hnext hpair halike

/-- To look at a pair that passes on to one that was looked at finds nothing, or fails. -/
theorem Passes.search {pair next : Ref .record × String} (h : batch.Passes pair next)
    (hnext : (batch.unitOf next.1).isSome) {visited : Visited} (hmem : next ∈ visited) (fuel : Nat) :
    (∃ failure, (batch.search (fuel + 1) visited pair.1 pair.2).2 = .error failure) ∨
      (batch.search (fuel + 1) visited pair.1 pair.2).2 = .ok none ∧
        AlikeBut pair (batch.search (fuel + 1) visited pair.1 pair.2).1 visited := by
  obtain ⟨unit, hunit, hstep⟩ := h
  by_cases hseen : pair ∈ visited
  · rw [search_seen hunit hseen]
    exact .inr ⟨rfl, fun _ _ => Iff.rfl⟩
  have hback : batch.search fuel (pair :: visited) next.1 next.2 = (pair :: visited, .ok none) := by
    cases fuel with
    | zero => rfl
    | succ fuel =>
      obtain ⟨target, htarget⟩ := Option.isSome_iff_exists.1 hnext
      exact search_seen htarget (List.mem_cons_of_mem _ hmem) fuel
  rcases hstep with hstep | ⟨source, hstep⟩
  · rw [search_new hunit hseen (.forward hstep), Quest.pursue, hback]
    exact .inr ⟨rfl, fun other hother => by simp [hother]⟩
  · rw [search_new hunit hseen (.require hstep), Quest.pursue, hback]
    exact .inl ⟨_, rfl⟩

/-- A pair whose export leads to a pair that is being looked at can be left out: to look at it finds
nothing, or makes the whole search fail. -/
theorem search_skip {pair next : Ref .record × String} (hpass : batch.Passes pair next)
    (hnext : (batch.unitOf next.1).isSome) (hne : pair ≠ next) :
    ∀ (fuel : Nat) {visited visited' : Visited} (record : Ref .record) (name : String),
      next ∈ visited ∨ (record, name) = next → pair ∈ visited' → AlikeBut pair visited visited' →
        Skipped pair (batch.search fuel visited record name)
          (batch.search fuel visited' record name)
  | 0, _, _, _, _, _, _, halike => .inr ⟨rfl, halike⟩
  | fuel + 1, visited, visited', record, name, hmem, hpair, halike => by
    cases hunit : batch.unitOf record with
    | none =>
      rw [search_outside hunit, search_outside hunit]
      exact .inr ⟨rfl, halike⟩
    | some unit =>
      by_cases hsame : (record, name) = pair
      · -- The pair itself: the second search has looked at it, the first one comes back to `next`.
        subst hsame
        rw [search_seen hunit hpair]
        refine (hpass.search hnext (hmem.resolve_right hne) fuel).imp_right fun hfound => ?_
        exact ⟨hfound.1, fun other hother => (hfound.2 other hother).trans (halike other hother)⟩
      · have hboth : (record, name) ∈ visited ↔ (record, name) ∈ visited' := halike _ hsame
        by_cases hseen : (record, name) ∈ visited
        · rw [search_seen hunit hseen, search_seen hunit (hboth.1 hseen)]
          exact .inr ⟨rfl, halike⟩
        · obtain ⟨quest, hposes⟩ := exists_poses unit name
          rw [search_new hunit hseen hposes, search_new hunit (mt hboth.2 hseen) hposes]
          have hmem : next ∈ (record, name) :: visited := by
            rcases hmem with hmem | rfl
            · exact List.mem_cons_of_mem _ hmem
            · exact List.mem_cons_self
          exact Skipped.pursue (mem_search fuel)
            (fun target remote hmem => search_skip hpass hnext hne fuel target remote (.inl hmem))
            quest name hmem (List.mem_cons_of_mem _ hpair) (halike.cons (record, name))

end Batch

/-- The name that a binding looks up in another module. -/
def Binding.remoteName? : Binding → Option String
  | .importName name _ => some name
  | .importAs name _ _ => some name
  | .exportFrom name _ _ => some name
  | _ => none

namespace LinkUnit

/-- Where a local name leads by the given bindings. -/
inductive Local (unit : LinkUnit) (bindings : List Binding) (name : String) : ExportStep → Prop where
  | own : (∀ binding ∈ bindings, binding.isImport → binding.localName? ≠ some name) →
      Local unit bindings name (.found (.localName unit.record name))
  | importName {source : String} {target : Ref .record} : .importName name source ∈ bindings →
      unit.target source = .ok target → Local unit bindings name (.require target name source)
  | importAs {imported source : String} {target : Ref .record} :
      .importAs imported name source ∈ bindings → unit.target source = .ok target →
        Local unit bindings name (.require target imported source)
  | importAll {source : String} {target : Ref .record} : .importAll name source ∈ bindings →
      unit.target source = .ok target → Local unit bindings name (.found (.exports target))

/-- Where an explicit export leads by the given bindings. -/
inductive Explicit (unit : LinkUnit) (bindings : List Binding) (name : String) :
    ExportStep → Prop where
  | exportName {step : ExportStep} : .exportName name ∈ bindings →
      Local unit unit.bindings name step → Explicit unit bindings name step
  | exportAs {own : String} {step : ExportStep} : .exportAs own name ∈ bindings →
      Local unit unit.bindings own step → Explicit unit bindings name step
  | exportFrom {remote source : String} {target : Ref .record} :
      .exportFrom remote name source ∈ bindings → unit.target source = .ok target →
        Explicit unit bindings name (.forward target remote)
  | exportAllAs {source : String} {target : Ref .record} : .exportAllAs name source ∈ bindings →
      unit.target source = .ok target → Explicit unit bindings name (.found (.exports target))

variable {unit : LinkUnit} {name : String}

theorem Local.cons {binding : Binding} {bindings : List Binding} {step : ExportStep}
    (hbinding : binding.isImport → binding.localName? ≠ some name)
    (h : Local unit bindings name step) : Local unit (binding :: bindings) name step := by
  cases h with
  | own hnone =>
    refine .own fun other hmem => ?_
    rcases List.mem_cons.1 hmem with rfl | hmem
    · exact hbinding
    · exact hnone other hmem
  | importName hmem htarget => exact .importName (List.mem_cons_of_mem _ hmem) htarget
  | importAs hmem htarget => exact .importAs (List.mem_cons_of_mem _ hmem) htarget
  | importAll hmem htarget => exact .importAll (List.mem_cons_of_mem _ hmem) htarget

theorem Explicit.cons {binding : Binding} {bindings : List Binding} {step : ExportStep}
    (h : Explicit unit bindings name step) : Explicit unit (binding :: bindings) name step := by
  cases h with
  | exportName hmem hlocal => exact .exportName (List.mem_cons_of_mem _ hmem) hlocal
  | exportAs hmem hlocal => exact .exportAs (List.mem_cons_of_mem _ hmem) hlocal
  | exportFrom hmem htarget => exact .exportFrom (List.mem_cons_of_mem _ hmem) htarget
  | exportAllAs hmem htarget => exact .exportAllAs (List.mem_cons_of_mem _ hmem) htarget

theorem map_ok {α β : Type} {result : Except Failure α} {f : α → β} {value : β}
    (h : result.map f = .ok value) : ∃ found, result = .ok found ∧ f found = value := by
  cases result with
  | error failure => cases h
  | ok found => exact ⟨found, rfl, Except.ok.inj h⟩

theorem local_of_localStep : ∀ {bindings : List Binding} {step : ExportStep},
    unit.localStep name bindings = .ok step → Local unit bindings name step
  | [], _, h => by
    cases h
    exact .own fun _ hmem => nomatch hmem
  | binding :: rest, step, h => by
    have hskip (hbinding : binding.isImport → binding.localName? ≠ some name)
        (h : unit.localStep name rest = .ok step) : Local unit (binding :: rest) name step :=
      (local_of_localStep h).cons hbinding
    cases binding with
    | importName imported source =>
      unfold localStep at h
      split at h
      · rename_i hname
        obtain ⟨target, htarget, rfl⟩ := map_ok h
        subst hname
        exact .importName List.mem_cons_self htarget
      · rename_i hname
        exact hskip (fun _ heq => hname (Option.some.inj heq)) h
    | importAs imported newName source =>
      unfold localStep at h
      split at h
      · rename_i hname
        obtain ⟨target, htarget, rfl⟩ := map_ok h
        subst hname
        exact .importAs List.mem_cons_self htarget
      · rename_i hname
        exact hskip (fun _ heq => hname (Option.some.inj heq)) h
    | importAll newName source =>
      unfold localStep at h
      split at h
      · rename_i hname
        obtain ⟨target, htarget, rfl⟩ := map_ok h
        subst hname
        exact .importAll List.mem_cons_self htarget
      · rename_i hname
        exact hskip (fun _ heq => hname (Option.some.inj heq)) h
    | exportName name => exact hskip (fun himport => nomatch himport) h
    | exportAs name newName => exact hskip (fun himport => nomatch himport) h
    | exportFrom name newName source => exact hskip (fun himport => nomatch himport) h
    | exportAll source => exact hskip (fun himport => nomatch himport) h
    | exportAllAs newName source => exact hskip (fun himport => nomatch himport) h

theorem explicit_of_explicitStep : ∀ {bindings : List Binding} {step : ExportStep},
    unit.explicitStep name bindings = .ok (some step) → Explicit unit bindings name step
  | [], _, h => by
    cases h
  | binding :: rest, step, h => by
    have hskip (h : unit.explicitStep name rest = .ok (some step)) :
        Explicit unit (binding :: rest) name step :=
      (explicit_of_explicitStep h).cons
    cases binding with
    | exportName exported =>
      unfold explicitStep at h
      split at h
      · rename_i hname
        obtain ⟨found, hfound, heq⟩ := map_ok h
        cases heq
        subst hname
        exact .exportName List.mem_cons_self (local_of_localStep hfound)
      · exact hskip h
    | exportAs own exported =>
      unfold explicitStep at h
      split at h
      · rename_i hname
        obtain ⟨found, hfound, heq⟩ := map_ok h
        cases heq
        subst hname
        exact .exportAs List.mem_cons_self (local_of_localStep hfound)
      · exact hskip h
    | exportFrom remote exported source =>
      unfold explicitStep at h
      split at h
      · rename_i hname
        obtain ⟨target, htarget, heq⟩ := map_ok h
        cases heq
        subst hname
        exact .exportFrom List.mem_cons_self htarget
      · exact hskip h
    | exportAllAs exported source =>
      unfold explicitStep at h
      split at h
      · rename_i hname
        obtain ⟨target, htarget, heq⟩ := map_ok h
        cases heq
        subst hname
        exact .exportAllAs List.mem_cons_self htarget
      · exact hskip h
    | importName imported source => exact hskip h
    | importAs imported newName source => exact hskip h
    | importAll newName source => exact hskip h
    | exportAll source => exact hskip h

/-- A name without an explicit export is exported by no binding. -/
theorem exportedName_of_explicitStep : ∀ {bindings : List Binding},
    unit.explicitStep name bindings = .ok none →
      ∀ binding ∈ bindings, binding.exportedName? ≠ some name
  | [], _, _, hmem => nomatch hmem
  | first :: rest, h, binding, hmem => by
    have hskip (hfirst : first.exportedName? ≠ some name)
        (h : unit.explicitStep name rest = .ok none) : binding.exportedName? ≠ some name := by
      rcases List.mem_cons.1 hmem with rfl | hmem
      · exact hfirst
      · exact exportedName_of_explicitStep h binding hmem
    cases first with
    | exportName exported =>
      unfold explicitStep at h
      split at h
      · obtain ⟨found, -, heq⟩ := map_ok h
        cases heq
      · rename_i hname
        exact hskip (fun heq => hname (Option.some.inj heq)) h
    | exportAs own exported =>
      unfold explicitStep at h
      split at h
      · obtain ⟨found, -, heq⟩ := map_ok h
        cases heq
      · rename_i hname
        exact hskip (fun heq => hname (Option.some.inj heq)) h
    | exportFrom remote exported source =>
      unfold explicitStep at h
      split at h
      · obtain ⟨found, -, heq⟩ := map_ok h
        cases heq
      · rename_i hname
        exact hskip (fun heq => hname (Option.some.inj heq)) h
    | exportAllAs exported source =>
      unfold explicitStep at h
      split at h
      · obtain ⟨found, -, heq⟩ := map_ok h
        cases heq
      · rename_i hname
        exact hskip (fun heq => hname (Option.some.inj heq)) h
    | importName imported source => exact hskip (fun heq => nomatch heq) h
    | importAs imported newName source => exact hskip (fun heq => nomatch heq) h
    | importAll newName source => exact hskip (fun heq => nomatch heq) h
    | exportAll source => exact hskip (fun heq => nomatch heq) h

theorem Local.remoteName {target : Ref .record} {remote source : String}
    (h : Local unit unit.bindings name (.require target remote source)) :
    remote ∈ unit.bindings.filterMap Binding.remoteName? := by
  cases h with
  | importName hmem _ => exact List.mem_filterMap.2 ⟨_, hmem, rfl⟩
  | importAs hmem _ => exact List.mem_filterMap.2 ⟨_, hmem, rfl⟩

/-- A name that is followed to another record is looked up there by a binding. -/
theorem remoteName_of_exportStep {step : ExportStep} (h : unit.exportStep name = .ok (some step))
    {target : Ref .record} {remote : String}
    (hstep : step = .forward target remote ∨ ∃ source, step = .require target remote source) :
    remote ∈ unit.bindings.filterMap Binding.remoteName? := by
  cases explicit_of_explicitStep h with
  | exportName hmem hlocal =>
    rcases hstep with rfl | ⟨source, rfl⟩
    · cases hlocal
    · exact hlocal.remoteName
  | exportAs hmem hlocal =>
    rcases hstep with rfl | ⟨source, rfl⟩
    · cases hlocal
    · exact hlocal.remoteName
  | exportFrom hmem _ =>
    rcases hstep with heq | ⟨source, heq⟩
    · cases heq
      exact List.mem_filterMap.2 ⟨_, hmem, rfl⟩
    · cases heq
  | exportAllAs hmem _ =>
    rcases hstep with heq | ⟨source, heq⟩ <;> cases heq

theorem Local.target {bindings : List Binding} {target : Ref .record} {remote source : String}
    (h : Local unit bindings name (.require target remote source)) :
    unit.target source = .ok target := by
  cases h with
  | importName _ htarget => exact htarget
  | importAs _ htarget => exact htarget

/-- A specifier of the record leads to the record that a name is followed to. -/
theorem target_of_exportStep {step : ExportStep} (h : unit.exportStep name = .ok (some step))
    {target : Ref .record} {remote : String}
    (hstep : step = .forward target remote ∨ ∃ source, step = .require target remote source) :
    ∃ source, unit.target source = .ok target := by
  cases explicit_of_explicitStep h with
  | exportName hmem hlocal =>
    rcases hstep with rfl | ⟨source, rfl⟩
    · cases hlocal
    · exact ⟨source, hlocal.target⟩
  | exportAs hmem hlocal =>
    rcases hstep with rfl | ⟨source, rfl⟩
    · cases hlocal
    · exact ⟨source, hlocal.target⟩
  | exportFrom hmem htarget =>
    rcases hstep with heq | ⟨source, heq⟩
    · cases heq
      exact ⟨_, htarget⟩
    · cases heq
  | exportAllAs hmem _ =>
    rcases hstep with heq | ⟨source, heq⟩ <;> cases heq

end LinkUnit

namespace Batch

variable {batch : Batch}

/-- The units of the batch are those that its records have. -/
structure Proper (batch : Batch) : Prop where
  unit : ∀ record unit, batch.unitOf record = some unit →
    unit ∈ batch.units ∧ unit.record = record
  unitOf : ∀ unit ∈ batch.units, batch.unitOf unit.record = some unit

/-- The names that a search for `name` can come across. -/
def namesMet (batch : Batch) (name : String) : List String :=
  name :: batch.units.flatMap fun unit => unit.bindings.filterMap Binding.remoteName?

/-- The names that are looked at next are among those that a search can come across. -/
theorem namesMet_of_onward (hproper : batch.Proper) {start name : String} {record : Ref .record}
    {unit : LinkUnit} (hunit : batch.unitOf record = some unit) {quest : Quest}
    (hposes : Poses unit name quest) (hname : name ∈ batch.namesMet start)
    {next : Ref .record × String} (hnext : next ∈ quest.onward name) : next.2 ∈ batch.namesMet start := by
  have hremote {step : ExportStep} (hstep : unit.exportStep name = .ok (some step))
      {target : Ref .record} {remote : String}
      (hleads : step = .forward target remote ∨ ∃ source, step = .require target remote source) :
      remote ∈ batch.namesMet start :=
    List.mem_cons_of_mem _ (List.mem_flatMap.2 ⟨unit, (hproper.unit record unit hunit).1,
      LinkUnit.remoteName_of_exportStep hstep hleads⟩)
  cases hposes with
  | failed | found | reserved | starless => cases hnext
  | forward hstep =>
    cases List.mem_singleton.1 hnext
    exact hremote hstep (.inl rfl)
  | require hstep =>
    cases List.mem_singleton.1 hnext
    exact hremote hstep (.inr ⟨_, rfl⟩)
  | stars =>
    obtain ⟨target, -, rfl⟩ := List.mem_map.1 hnext
    exact hname

/-- The pairs of a record of the batch and a name that a search for `name` can come across. -/
def pairsMet (batch : Batch) (name : String) : List (Ref .record × String) :=
  batch.units.flatMap fun unit => (batch.namesMet name).map (unit.record, ·)

theorem mem_pairsMet {name other : String} {record : Ref .record} {unit : LinkUnit}
    (hproper : batch.Proper) (hunit : batch.unitOf record = some unit) :
    (record, other) ∈ batch.pairsMet name ↔ other ∈ batch.namesMet name := by
  obtain ⟨hmem, hrecord⟩ := hproper.unit record unit hunit
  unfold pairsMet
  rw [List.mem_flatMap]
  constructor
  · rintro ⟨unit', -, hpair⟩
    obtain ⟨found, hfound, heq⟩ := List.mem_map.1 hpair
    cases heq
    exact hfound
  · exact fun hother => ⟨unit, hmem, List.mem_map.2 ⟨other, hother, by rw [hrecord]⟩⟩

/-- A number for each unit, added up. -/
def total (count : LinkUnit → Nat) : List LinkUnit → Nat
  | [] => 0
  | unit :: rest => count unit + total count rest

theorem foldl_total (count : LinkUnit → Nat) (units : List LinkUnit) (start : Nat) :
    units.foldl (fun total unit => total + count unit) start = start + total count units := by
  induction units generalizing start with
  | nil => rfl
  | cons unit rest ih => rw [List.foldl_cons, ih, total, Nat.add_assoc]

/-- The bound of a search is large enough. -/
theorem length_pairsMet (batch : Batch) (name : String) :
    (batch.pairsMet name).length < batch.bound := by
  have hnames (units : List LinkUnit) :
      (units.flatMap fun unit => unit.bindings.filterMap Binding.remoteName?).length ≤
        total (fun unit => unit.bindings.length) units := by
    induction units with
    | nil => exact Nat.le_refl 0
    | cons unit rest ih =>
      rw [List.flatMap_cons, List.length_append, total]
      exact Nat.add_le_add (List.length_filterMap_le _ _) ih
  have hpairs (units : List LinkUnit) (names : List String) :
      (units.flatMap fun unit => names.map (unit.record, ·)).length =
        units.length * names.length := by
    induction units with
    | nil => simp
    | cons unit rest ih =>
      rw [List.flatMap_cons, List.length_append, List.length_map, ih, List.length_cons,
        Nat.succ_mul, Nat.add_comm]
  have hcount := hnames batch.units
  unfold pairsMet bound
  rw [hpairs, namesMet, List.length_cons, foldl_total]
  dsimp only
  generalize (batch.units.flatMap fun unit => unit.bindings.filterMap
    Binding.remoteName?).length = met at hcount
  generalize total (fun unit => unit.bindings.length) batch.units = total at hcount
  calc batch.units.length * (met + 1)
      ≤ batch.units.length * (total + 2) := Nat.mul_le_mul_left _ (by omega)
    _ < (batch.units.length + 1) * (0 + total + 2) := by
      rw [Nat.succ_mul, Nat.zero_add]
      omega

/-- How many of some pairs were not looked at. -/
def unmet (pairs : List (Ref .record × String)) (visited : Visited) : Nat :=
  pairs.countP fun pair => !visited.contains pair

/-- A search starts with fewer pairs to meet than its bound. -/
theorem unmet_lt_bound (batch : Batch) (start : String) (visited : Visited) :
    unmet (batch.pairsMet start) visited < batch.bound :=
  Nat.lt_of_le_of_lt List.countP_le_length (length_pairsMet batch start)

theorem unmet_le {pairs : List (Ref .record × String)} {visited visited' : Visited}
    (h : ∀ pair ∈ visited, pair ∈ visited') : unmet pairs visited' ≤ unmet pairs visited := by
  refine List.countP_mono_left fun pair _ hpair => ?_
  simp only [Bool.not_eq_true', List.contains_eq_mem, decide_eq_false_iff_not] at hpair ⊢
  exact fun hmem => hpair (h pair hmem)

theorem unmet_cons_lt {pairs : List (Ref .record × String)} {visited : Visited}
    {pair : Ref .record × String} (hmem : pair ∈ pairs) (hnew : pair ∉ visited) :
    unmet pairs (pair :: visited) < unmet pairs visited := by
  induction pairs with
  | nil => cases hmem
  | cons first rest ih =>
    have hle : unmet rest (pair :: visited) ≤ unmet rest visited :=
      unmet_le fun _ => List.mem_cons_of_mem _
    unfold unmet at hle ih ⊢
    simp only [List.countP_cons]
    by_cases hfirst : first = pair
    · subst hfirst
      have hin : (first :: visited).contains first = true := by simp
      have hout : visited.contains first = false := by simpa using hnew
      rw [hin, hout]
      simp only [Bool.not_true, Bool.not_false, if_true, Bool.false_eq_true, if_false]
      omega
    · have hlt := ih ((List.mem_cons.1 hmem).resolve_left (Ne.symm hfirst))
      have hsame : (pair :: visited).contains first = visited.contains first := by
        simp [hfirst]
      rw [hsame]
      omega

theorem firstFound_congr {search search' : Visited → Ref .record → Found} {limit : Nat}
    {pairs : List (Ref .record × String)}
    (hgrows : ∀ visited record pair, pair ∈ visited → pair ∈ (search visited record).1) :
    ∀ {records : List (Ref .record)} {visited : Visited},
      (∀ record ∈ records, ∀ visited, unmet pairs visited < limit →
        search visited record = search' visited record) → unmet pairs visited < limit →
          firstFound search visited records = firstFound search' visited records
  | [], _, _, _ => rfl
  | record :: rest, visited, hsearch, hlimit => by
    have hsame := hsearch record List.mem_cons_self visited hlimit
    by_cases hnone : (search visited record).2 = .ok none
    · rw [firstFound_none hnone, firstFound_none (hsame ▸ hnone), ← hsame]
      exact firstFound_congr hgrows (fun other hmem => hsearch other (List.mem_cons_of_mem _ hmem))
        (Nat.lt_of_le_of_lt (unmet_le (hgrows visited record)) hlimit)
    · rw [firstFound_stop hnone, firstFound_stop (hsame ▸ hnone), hsame]

theorem Quest.pursue_congr {search search' : Visited → Ref .record → String → Found} {limit : Nat}
    {pairs : List (Ref .record × String)}
    (hgrows : ∀ {visited pair} record name, pair ∈ visited → pair ∈ (search visited record name).1)
    {visited : Visited} {quest : Quest} {name : String}
    (hsearch : ∀ next ∈ quest.onward name, ∀ visited, unmet pairs visited < limit →
      search visited next.1 next.2 = search' visited next.1 next.2)
    (hlimit : unmet pairs visited < limit) :
    quest.pursue search visited name = quest.pursue search' visited name := by
  cases quest with
  | answer result => rfl
  | follow target remote missing =>
    rw [Quest.pursue, Quest.pursue, hsearch _ (List.mem_singleton_self _) visited hlimit]
  | spread targets =>
    exact firstFound_congr (fun before target pair => hgrows target name)
      (fun target hmem => hsearch _ (List.mem_map_of_mem hmem)) hlimit

/-- A search that looks at a pair has less to meet. -/
theorem unmet_next (hproper : batch.Proper) {start name : String} {record : Ref .record} {unit : LinkUnit}
    (hunit : batch.unitOf record = some unit) (hname : name ∈ batch.namesMet start) {visited : Visited}
    (hnew : (record, name) ∉ visited) {fuel : Nat}
    (hfuel : unmet (batch.pairsMet start) visited < fuel + 1) :
    unmet (batch.pairsMet start) ((record, name) :: visited) < fuel := by
  have hless := unmet_cons_lt ((mem_pairsMet hproper hunit).2 hname) hnew
  omega

/-- A search with enough steps finds the same as one with more. -/
theorem search_enough (hproper : batch.Proper) (start : String) :
    ∀ (fuel fuel' : Nat) (visited : Visited) (record : Ref .record) (name : String),
      name ∈ batch.namesMet start → unmet (batch.pairsMet start) visited < fuel →
        unmet (batch.pairsMet start) visited < fuel' →
          batch.search fuel visited record name = batch.search fuel' visited record name
  | 0, _, _, _, _, _, hfuel, _ => absurd hfuel (Nat.not_lt_zero _)
  | _ + 1, 0, _, _, _, _, _, hfuel => absurd hfuel (Nat.not_lt_zero _)
  | fuel + 1, fuel' + 1, visited, record, name, hname, hfuel, hfuel' => by
    cases hunit : batch.unitOf record with
    | none => rw [search_outside hunit, search_outside hunit]
    | some unit =>
      by_cases hseen : (record, name) ∈ visited
      · rw [search_seen hunit hseen, search_seen hunit hseen]
      obtain ⟨quest, hposes⟩ := exists_poses unit name
      rw [search_new hunit hseen hposes, search_new hunit hseen hposes]
      have hrest := unmet_next hproper hunit hname hseen hfuel
      have hrest' := unmet_next hproper hunit hname hseen hfuel'
      refine Quest.pursue_congr (mem_search fuel) (fun next hnext before hlimit => ?_)
        (Nat.lt_min.2 ⟨hrest, hrest'⟩)
      exact search_enough hproper start fuel fuel' before next.1 next.2
        (namesMet_of_onward hproper hunit hposes hname hnext) (Nat.lt_min.1 hlimit).1
        (Nat.lt_min.1 hlimit).2

/-- What the export of a pair leads to is what is found there from the start, unless that fails. -/
theorem search_after (hproper : batch.Proper) {pair next : Ref .record × String}
    (hpass : batch.Passes pair next) (hnext : (batch.unitOf next.1).isSome) {origin : Origin}
    (hfound : (batch.search batch.bound [pair] next.1 next.2).2 = .ok (some origin))
    {found : Option Origin} (hstart : batch.originOf next.1 next.2 = .ok found) :
    found = some origin := by
  have hlimit := unmet_lt_bound batch next.2
  rw [search_enough hproper next.2 batch.bound (batch.bound + 1) [pair] next.1 next.2
    List.mem_cons_self (hlimit _) (Nat.lt_succ_of_lt (hlimit _))] at hfound
  have hne : pair ≠ next := by
    rintro rfl
    obtain ⟨unit, hunit⟩ := Option.isSome_iff_exists.1 hnext
    rw [search_seen hunit List.mem_cons_self] at hfound
    cases hfound
  have halike : AlikeBut pair [] [pair] := fun other hother => by simp [hother]
  unfold originOf at hstart
  rcases search_skip hpass hnext hne (batch.bound + 1) next.1 next.2 (.inr rfl) List.mem_cons_self
    halike with ⟨failure, herror⟩ | ⟨hsame, -⟩
  · rw [hstart] at herror
    cases herror
  · rw [hstart, hfound] at hsame
    exact Except.ok.inj hsame

end Batch

end ModuleLoader
