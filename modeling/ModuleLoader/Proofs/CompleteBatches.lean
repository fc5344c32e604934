import ModuleLoader.Proofs.Advances
import ModuleLoader.Proofs.LinkingBatches
/-!
Linking a batch in which every request is met. A wiring fails for names that are missing or declared
twice, or with what depends on a failed record, and never for want of a record.
-/

namespace ModuleLoader
set_option autoImplicit false

/-- The failure does not tell of a specifier that leads to no record. -/
def Failure.Met : Failure → Prop
  | .link _ (.neverResolved _) => False
  | .link _ (.notLoaded _) => False
  | _ => True

namespace LinkUnit

/-- Every specifier of a binding, and every request, leads to a record. -/
structure Complete (unit : LinkUnit) : Prop where
  targets : ∀ binding ∈ unit.bindings, ∀ specifier, binding.specifier? = some specifier →
    ∃ target, unit.target specifier = .ok target
  requests : ∀ request ∈ unit.requests, request.target.isSome

variable {unit : LinkUnit}

theorem duplicate?_met (key : String) : ∀ (imported exported : List String) (bindings : List Binding)
    (fault : LinkFault), duplicate? imported exported bindings = some fault →
      (Failure.link key fault).Met
  | _, _, [], _, h => nomatch h
  | imported, exported, binding :: rest, fault, h => by
    unfold duplicate? at h
    split at h
    · split at h
      · cases h
        trivial
      · exact duplicate?_met key _ _ rest fault h
    · split at h
      · split at h
        · cases h
          trivial
        · exact duplicate?_met key _ _ rest fault h
      · exact duplicate?_met key _ _ rest fault h

/-- A step that looks up the record of a specifier finds it. -/
theorem Complete.map_ok (h : unit.Complete) {binding : Binding} (hmem : binding ∈ unit.bindings)
    {specifier : String} (hspecifier : binding.specifier? = some specifier) {α : Type}
    (f : Ref .record → α) : ∃ found, (unit.target specifier).map f = .ok found := by
  obtain ⟨target, htarget⟩ := h.targets binding hmem specifier hspecifier
  exact ⟨f target, by rw [htarget]; rfl⟩

theorem Complete.localStep (h : unit.Complete) (name : String) : ∀ bindings : List Binding,
    (∀ binding ∈ bindings, binding ∈ unit.bindings) → ∃ step, unit.localStep name bindings = .ok step
  | [], _ => ⟨_, rfl⟩
  | binding :: rest, hsub => by
    have hfirst := hsub binding List.mem_cons_self
    have hrest := h.localStep name rest fun other hmem => hsub other (List.mem_cons_of_mem _ hmem)
    cases binding with
    | importName | importAs | importAll =>
      unfold LinkUnit.localStep
      split
      · exact h.map_ok hfirst rfl _
      · exact hrest
    | exportName | exportAs | exportFrom | exportAll | exportAllAs => exact hrest

theorem Complete.explicitStep (h : unit.Complete) (name : String) : ∀ bindings : List Binding,
    (∀ binding ∈ bindings, binding ∈ unit.bindings) →
      ∃ step, unit.explicitStep name bindings = .ok step
  | [], _ => ⟨_, rfl⟩
  | binding :: rest, hsub => by
    have hfirst := hsub binding List.mem_cons_self
    have hrest := h.explicitStep name rest fun other hmem => hsub other (List.mem_cons_of_mem _ hmem)
    have hlocal (exported : String) :
        ∃ step, (unit.localStep exported unit.bindings).map some = .ok step := by
      obtain ⟨step, hstep⟩ := h.localStep exported unit.bindings fun _ => id
      exact ⟨some step, by rw [hstep]; rfl⟩
    cases binding with
    | exportName | exportAs =>
      unfold LinkUnit.explicitStep
      split
      · exact hlocal _
      · exact hrest
    | exportFrom | exportAllAs =>
      unfold LinkUnit.explicitStep
      split
      · exact h.map_ok hfirst rfl _
      · exact hrest
    | importName | importAs | importAll | exportAll => exact hrest

theorem Complete.exportStep (h : unit.Complete) (name : String) :
    ∃ step, unit.exportStep name = .ok step :=
  h.explicitStep name unit.bindings fun _ => id

theorem Complete.starRecords (h : unit.Complete) : ∃ targets, unit.starRecords = .ok targets := by
  have hall (specifiers : List String) (hsub : ∀ specifier ∈ specifiers,
      ∃ target, unit.target specifier = .ok target) :
      ∃ targets, unit.targets specifiers = .ok targets := by
    induction specifiers with
    | nil => exact ⟨_, rfl⟩
    | cons specifier rest ih =>
      obtain ⟨target, htarget⟩ := hsub specifier List.mem_cons_self
      obtain ⟨targets, htargets⟩ := ih fun other hmem => hsub other (List.mem_cons_of_mem _ hmem)
      exact ⟨target :: targets, by simp [LinkUnit.targets, htarget, htargets]⟩
  refine hall unit.stars fun specifier hmem => ?_
  obtain ⟨binding, hbinding, hstar⟩ := List.mem_filterMap.1 hmem
  refine h.targets binding hbinding specifier ?_
  cases binding <;> simp at hstar
  exact congrArg some hstar

end LinkUnit

namespace Batch

/-- All units are complete, and no record outside failed for want of a record. -/
structure Complete (batch : Batch) : Prop where
  units : ∀ unit ∈ batch.units, unit.Complete
  unitOf : ∀ record unit, batch.unitOf record = some unit → unit.Complete
  outside : ∀ record failure, batch.outside record = .error failure → failure.Met

variable {batch : Batch}

theorem firstFound_met {search : Visited → Ref .record → Found}
    (hsearch : ∀ visited record failure, (search visited record).2 = .error failure → failure.Met) :
    ∀ (records : List (Ref .record)) (visited : Visited) (failure : Failure),
      (firstFound search visited records).2 = .error failure → failure.Met
  | [], _, _, h => nomatch h
  | record :: rest, visited, failure, h => by
    by_cases hnone : (search visited record).2 = .ok none
    · rw [firstFound_none hnone] at h
      exact firstFound_met hsearch rest _ failure h
    · rw [firstFound_stop hnone] at h
      exact hsearch visited record failure h

theorem Complete.search (h : batch.Complete) : ∀ (fuel : Nat) (visited : Visited)
    (record : Ref .record) (name : String) (failure : Failure),
      (batch.search fuel visited record name).2 = .error failure → failure.Met
  | 0, _, _, _, _, heq => nomatch heq
  | fuel + 1, visited, record, name, failure, heq => by
    cases hunit : batch.unitOf record with
    | none =>
      rw [search_outside hunit] at heq
      cases hexports : batch.outside record with
      | error found =>
        rw [hexports] at heq
        cases heq
        exact h.outside record failure hexports
      | ok exports =>
        rw [hexports] at heq
        cases heq
    | some unit =>
      by_cases hseen : (record, name) ∈ visited
      · rw [search_seen hunit hseen] at heq
        cases heq
      obtain ⟨quest, hposes⟩ := exists_poses unit name
      rw [search_new hunit hseen hposes] at heq
      have hcomplete := h.unitOf record unit hunit
      cases hposes with
      | failed hstep =>
        obtain ⟨step, hstep'⟩ := hcomplete.exportStep name
        rw [hstep] at hstep'
        cases hstep'
      | found | reserved => cases heq
      | starless _ _ htargets =>
        obtain ⟨targets, htargets'⟩ := hcomplete.starRecords
        rw [htargets] at htargets'
        cases htargets'
      | forward =>
        rcases Quest.pursue_follow_failed.1 heq with herror | ⟨hmissing, -⟩
        · exact h.search fuel _ _ _ failure herror
        · cases hmissing
      | require =>
        rcases Quest.pursue_follow_failed.1 heq with herror | ⟨hmissing, -⟩
        · exact h.search fuel _ _ _ failure herror
        · cases hmissing
          trivial
      | stars =>
        exact firstFound_met (fun visited target failure => h.search fuel visited target name failure)
          _ _ failure heq

theorem Complete.originOf (h : batch.Complete) {record : Ref .record} {name : String}
    {failure : Failure} (heq : batch.originOf record name = .error failure) : failure.Met :=
  h.search _ _ record name failure heq

theorem Complete.starNames (h : batch.Complete) (reserved : String) : ∀ (fuel : Nat)
    (visited pending : List (Ref .record)) (names : List String) (failure : Failure),
      batch.starNames reserved fuel visited pending names = .error failure → failure.Met
  | 0, _, _, _, _, heq => nomatch heq
  | _ + 1, _, [], _, _, heq => nomatch heq
  | fuel + 1, visited, record :: pending, names, failure, heq => by
    unfold Batch.starNames at heq
    split at heq
    · split at heq
      · rename_i found hfound
        cases heq
        exact h.outside record failure hfound
      · exact h.starNames reserved fuel _ _ _ failure heq
    · rename_i unit hunit
      obtain ⟨targets, htargets⟩ := (h.unitOf record unit hunit).starRecords
      rw [htargets] at heq
      split at heq
      · exact h.starNames reserved fuel _ _ _ failure heq
      · exact h.starNames reserved fuel _ _ _ failure heq

variable {unit : LinkUnit}

theorem Complete.exportableNames (h : batch.Complete) (hunit : unit.Complete) {failure : Failure}
    (heq : batch.exportableNames unit = .error failure) : failure.Met := by
  obtain ⟨targets, htargets⟩ := hunit.starRecords
  unfold Batch.exportableNames at heq
  rw [htargets] at heq
  exact h.starNames _ _ _ _ _ failure heq

theorem Complete.checkRequests (h : batch.Complete) : ∀ (requests : List Request) (failure : Failure),
    (∀ request ∈ requests, request.target.isSome) →
      batch.checkRequests unit requests = .error failure → failure.Met
  | [], _, _, heq => nomatch heq
  | request :: rest, failure, hmet, heq => by
    have hrest := h.checkRequests rest failure fun other hmem => hmet other (List.mem_cons_of_mem _ hmem)
    obtain ⟨record, hrecord⟩ := Option.isSome_iff_exists.1 (hmet request List.mem_cons_self)
    unfold Batch.checkRequests at heq
    rw [hrecord] at heq
    dsimp only at heq
    split at heq
    · exact hrest heq
    · split at heq
      · rename_i found hfound
        cases heq
        exact h.outside record failure hfound
      · exact hrest heq

theorem Complete.importOrigin (h : batch.Complete) {name source : String} {target : Ref .record}
    (htarget : unit.target source = .ok target) {failure : Failure}
    (heq : batch.importOrigin unit name source = .error failure) : failure.Met := by
  unfold Batch.importOrigin at heq
  rw [htarget] at heq
  dsimp only at heq
  split at heq
  · rename_i found hfound
    cases heq
    exact h.originOf hfound
  · cases heq
  · cases heq
    trivial

theorem Complete.wiredTo (h : batch.Complete) (hunit : unit.Complete) {binding : Binding}
    {failure : Failure} (hmem : binding ∈ unit.bindings)
    (heq : batch.wiredTo unit binding = .error failure) : failure.Met := by
  unfold Batch.wiredTo at heq
  cases binding with
  | importName name source | importAs name newName source =>
    obtain ⟨target, htarget⟩ := hunit.targets _ hmem source rfl
    dsimp only at heq
    cases horigin : batch.importOrigin unit name source with
    | error failure =>
      rw [horigin] at heq
      cases heq
      exact h.importOrigin htarget horigin
    | ok origin =>
      rw [horigin] at heq
      cases heq
  | importAll newName source =>
    obtain ⟨target, htarget⟩ := hunit.targets _ hmem source rfl
    dsimp only at heq
    rw [htarget] at heq
    cases heq
  | exportName | exportAs | exportFrom | exportAll | exportAllAs => cases heq

theorem Complete.wireImports (h : batch.Complete) (hunit : unit.Complete) :
    ∀ (bindings : List Binding) (failure : Failure), (∀ binding ∈ bindings, binding ∈ unit.bindings) →
      batch.wireImports unit bindings = .error failure → failure.Met
  | [], _, _, heq => nomatch heq
  | binding :: rest, failure, hsub, heq => by
    rw [Batch.wireImports_cons] at heq
    split at heq
    · rename_i found hfound
      cases heq
      exact h.wiredTo hunit (hsub binding List.mem_cons_self) hfound
    · split at heq
      · rename_i found hfound
        cases heq
        exact h.wireImports hunit rest failure (fun other hmem => hsub other (List.mem_cons_of_mem _ hmem))
          hfound
      · cases heq

theorem Complete.wireExports (h : batch.Complete) : ∀ (names : List String) (failure : Failure),
    batch.wireExports unit names = .error failure → failure.Met
  | [], _, heq => nomatch heq
  | name :: rest, failure, heq => by
    unfold Batch.wireExports at heq
    split at heq
    · rename_i found hfound
      cases heq
      exact h.originOf hfound
    · split at heq
      · rename_i found hempty _
        cases heq
        unfold emptyExport? at hempty
        split at hempty
        · cases hempty
          trivial
        · cases hempty
      · split at heq
        · rename_i found hfound
          cases heq
          exact h.wireExports rest failure hfound
        · cases heq

/-- No wiring of a batch that is complete fails for want of a record. -/
theorem Complete.wire (h : batch.Complete) (hunit : unit ∈ batch.units) {failure : Failure}
    (heq : batch.wire unit = .error failure) : failure.Met := by
  have hcomplete := h.units unit hunit
  unfold Batch.wire at heq
  split at heq
  · rename_i fault hfault
    cases heq
    exact LinkUnit.duplicate?_met unit.key _ _ _ fault hfault
  · split at heq
    · rename_i found hfound
      cases heq
      exact h.checkRequests _ failure hcomplete.requests hfound
    · split at heq
      · rename_i found hfound
        cases heq
        exact h.wireImports hcomplete _ failure (fun _ => id) hfound
      · split at heq
        · rename_i found hfound
          cases heq
          exact h.exportableNames hcomplete hfound
        · split at heq
          · rename_i found hfound
            cases heq
            exact h.wireExports _ failure hfound
          · cases heq

end Batch

end ModuleLoader
