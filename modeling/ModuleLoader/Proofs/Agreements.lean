import ModuleLoader.Proofs.Batches
/-!
The wirings of one batch agree: what a record imports or forwards has the origin that the other record
exports, and an exported local name has the origin that the scope has.
-/

namespace ModuleLoader
set_option autoImplicit false

namespace Batch

variable {batch : Batch}

/-- The parts of a wiring that succeeded. -/
structure Wired (batch : Batch) (unit : LinkUnit) (wiring : Wiring) : Prop where
  unique : LinkUnit.duplicate? [] [] unit.bindings = none
  requests : batch.checkRequests unit unit.requests = .ok ()
  imports : batch.wireImports unit unit.bindings = .ok wiring.imports
  exports : ∃ names, batch.exportableNames unit = .ok names ∧
    batch.wireExports unit names = .ok wiring.exports

theorem wired_of_wire {unit : LinkUnit} {wiring : Wiring} (h : batch.wire unit = .ok wiring) :
    batch.Wired unit wiring := by
  unfold wire at h
  split at h
  · cases h
  · rename_i hunique
    split at h
    · cases h
    · rename_i hrequests
      split at h
      · cases h
      · rename_i imports himports
        split at h
        · cases h
        · rename_i names hnames
          split at h
          · cases h
          · rename_i exports hexports
            cases h
            exact ⟨hunique, hrequests, himports, names, hnames, hexports⟩

/-- The record can be asked for what it exports. -/
def Answers (batch : Batch) (record : Ref .record) : Prop :=
  match batch.unitOf record with
  | some unit => ∃ wiring, batch.wire unit = .ok wiring
  | none => ∃ exports, batch.outside record = .ok exports

theorem search_exported {record : Ref .record} (hunit : batch.unitOf record = none)
    {exports : Table (Ref .slot)} (hexports : batch.outside record = .ok exports) (name : String)
    (fuel : Nat) (visited : Visited) : batch.search (fuel + 1) visited record name =
      (visited, .ok ((exports.get? name).map .slot)) := by
  rw [search_outside hunit, hexports]
  rfl

/-- A record that answers has no failing search for a name that leads somewhere. -/
theorem Answers.originOf (hproper : batch.Proper) {record : Ref .record} (h : batch.Answers record)
    {name : String} {origin : Origin} (hleads : batch.Leads record name origin) :
    ∃ found, batch.originOf record name = .ok found := by
  unfold Answers at h
  split at h
  · rename_i unit hunit
    obtain ⟨wiring, hwire⟩ := h
    obtain ⟨names, hnames, hexports⟩ := (wired_of_wire hwire).exports
    obtain ⟨hmem, hrecord⟩ := hproper.unit record unit hunit
    have hname := (mem_exportableNames hproper hmem hnames).2 name origin (hrecord ▸ hleads)
    obtain ⟨found, hfound, -⟩ := (wireExports_exports hexports).2 name hname
    exact ⟨found, hrecord ▸ hfound⟩
  · rename_i hunit
    obtain ⟨exports, hexports⟩ := h
    unfold Batch.originOf
    rw [search_exported hunit hexports]
    exact ⟨_, rfl⟩

/-- A name that passes on to another one has the origin of that one. -/
theorem originOf_of_passes (hproper : batch.Proper) {pair next : Ref .record × String}
    (hpass : batch.Passes pair next) (hanswers : batch.Answers next.1) {origin : Origin}
    (h : batch.originOf pair.1 pair.2 = .ok (some origin)) :
    batch.originOf next.1 next.2 = .ok (some origin) := by
  have hfound : (batch.search batch.bound [pair] next.1 next.2).2 = .ok (some origin) := by
    obtain ⟨unit, hunit, hstep⟩ := hpass
    rcases hstep with hstep | ⟨source, hstep⟩
    · rw [originOf_poses hunit (.forward hstep)] at h
      exact Quest.pursue_follow_found.1 h
    · rw [originOf_poses hunit (.require hstep)] at h
      exact Quest.pursue_follow_found.1 h
  obtain ⟨found, hstart⟩ := hanswers.originOf hproper (leads_of_search _ hfound)
  cases hunit : batch.unitOf next.1 with
  | some unit => rw [hstart, search_after hproper hpass (hunit ▸ rfl) hfound hstart]
  | none =>
    have hlimit := unmet_lt_bound batch next.2
    rw [search_enough hproper next.2 batch.bound (batch.bound + 1) [pair] next.1 next.2
      List.mem_cons_self (hlimit _) (Nat.lt_succ_of_lt (hlimit _)), search_outside hunit] at hfound
    unfold originOf
    rw [search_outside hunit]
    exact hfound

/-- A slot was made for every local name that a search finds. -/
theorem Leads.localNames (hproper : batch.Proper) {record : Ref .record} {name : String}
    {origin : Origin} (h : batch.Leads record name origin) {owner : Ref .record} {own : String}
    (horigin : origin = .localName owner own) :
    ∃ unit ∈ batch.units, unit.record = owner ∧ own ∈ unit.localNames := by
  induction h with
  | outside => cases horigin
  | forward _ _ _ ih => exact ih horigin
  | require _ _ _ ih => exact ih horigin
  | star _ _ _ _ _ _ ih => exact ih horigin
  | @found record name unit origin hunit hstep =>
    subst horigin
    refine ⟨unit, (hproper.unit record unit hunit).1, ?_⟩
    cases LinkUnit.explicit_of_explicitStep hstep with
    | exportName hmem hlocal =>
      cases hlocal with
      | own hnone => exact ⟨rfl, LinkUnit.mem_localNames.2 ⟨⟨_, hmem, .inl rfl⟩, hnone⟩⟩
    | exportAs hmem hlocal =>
      cases hlocal with
      | own hnone => exact ⟨rfl, LinkUnit.mem_localNames.2 ⟨⟨_, hmem, .inr ⟨_, rfl⟩⟩, hnone⟩⟩

namespace Wired

variable {unit : LinkUnit} {wiring : Wiring}

theorem import_unique (h : batch.Wired unit wiring) {name : String} {origin origin' : Origin}
    (hmem : (name, origin) ∈ wiring.imports) (hmem' : (name, origin') ∈ wiring.imports) :
    origin = origin' := by
  obtain ⟨hnames, -, -⟩ := wireImports_imports h.imports
  obtain ⟨hnodup, -⟩ := LinkUnit.nodup_of_duplicate? h.unique
  exact pair_unique (hnames ▸ hnodup) hmem hmem'

theorem export_origin (h : batch.Wired unit wiring) {name : String} {origin : Origin}
    (hmem : (name, origin) ∈ wiring.exports) : batch.originOf unit.record name = .ok (some origin) := by
  obtain ⟨names, -, hexports⟩ := h.exports
  exact (wireExports_exports hexports).1 name origin hmem

/-- What a record is found to export, it is wired to export. -/
theorem mem_exports (hproper : batch.Proper) (hunit : unit ∈ batch.units)
    (h : batch.Wired unit wiring) {name : String} {origin : Origin}
    (horigin : batch.originOf unit.record name = .ok (some origin)) :
    (name, origin) ∈ wiring.exports := by
  obtain ⟨names, hnames, hexports⟩ := h.exports
  have hname := (mem_exportableNames hproper hunit hnames).2 name origin (leads_of_originOf horigin)
  obtain ⟨found, hfound, hsome, -⟩ := (wireExports_exports hexports).2 name hname
  rw [horigin] at hfound
  exact hsome origin (Except.ok.inj hfound).symm

/-- The origin of an imported local name. -/
theorem imports_from (h : batch.Wired unit wiring) {name : String} {origin : Origin}
    (hmem : (name, origin) ∈ wiring.imports) :
    ∃ binding ∈ unit.bindings, batch.Imports unit binding name origin :=
  (wireImports_imports h.imports).2.1 name origin hmem

theorem importOrigin_ok {name source : String} {origin : Origin}
    (h : batch.importOrigin unit name source = .ok origin) :
    ∃ target, unit.target source = .ok target ∧ batch.originOf target name = .ok (some origin) := by
  unfold importOrigin at h
  split at h
  · cases h
  · rename_i target htarget
    split at h
    · cases h
    · rename_i found horigin
      cases h
      exact ⟨target, htarget, horigin⟩
    · cases h

theorem importName (h : batch.Wired unit wiring) {name source : String}
    (hmem : .importName name source ∈ unit.bindings) : ∃ target origin,
      unit.target source = .ok target ∧ (name, origin) ∈ wiring.imports ∧
        batch.originOf target name = .ok (some origin) := by
  obtain ⟨own, origin, himport, rfl, horigin⟩ := (wireImports_imports h.imports).2.2 _ hmem rfl
  obtain ⟨target, htarget, horigin⟩ := importOrigin_ok horigin
  exact ⟨target, origin, htarget, himport, horigin⟩

theorem importAs (h : batch.Wired unit wiring) {name newName source : String}
    (hmem : .importAs name newName source ∈ unit.bindings) : ∃ target origin,
      unit.target source = .ok target ∧ (newName, origin) ∈ wiring.imports ∧
        batch.originOf target name = .ok (some origin) := by
  obtain ⟨own, origin, himport, rfl, horigin⟩ := (wireImports_imports h.imports).2.2 _ hmem rfl
  obtain ⟨target, htarget, horigin⟩ := importOrigin_ok horigin
  exact ⟨target, origin, htarget, himport, horigin⟩

theorem importAll (h : batch.Wired unit wiring) {newName source : String}
    (hmem : .importAll newName source ∈ unit.bindings) : ∃ target,
      unit.target source = .ok target ∧ (newName, .exports target) ∈ wiring.imports := by
  obtain ⟨own, origin, himport, rfl, target, htarget, rfl⟩ :=
    (wireImports_imports h.imports).2.2 _ hmem rfl
  exact ⟨target, htarget, himport⟩

/-- A declared export is found by the step of its binding. -/
theorem export_step (hproper : batch.Proper) (hunit : unit ∈ batch.units)
    (h : batch.Wired unit wiring) {binding : Binding} (hmem : binding ∈ unit.bindings)
    {name : String} (hname : binding.exportedName? = some name) :
    ∃ found, batch.originOf unit.record name = .ok found ∧
      (∀ origin, found = some origin → (name, origin) ∈ wiring.exports) ∧
        (found = none → emptyExport? unit name = none) ∧
          ∃ step, unit.exportStep name = .ok (some step) ∧
            ∀ other ∈ unit.bindings, other.exportedName? = some name → other = binding := by
  obtain ⟨names, hnames, hexports⟩ := h.exports
  have hlisted : name ∈ unit.explicitNames := List.mem_filterMap.2 ⟨binding, hmem, hname⟩
  have hin := (mem_exportableNames hproper hunit hnames).1 name hlisted
  obtain ⟨found, hfound, hsome, hnone⟩ := (wireExports_exports hexports).2 name hin
  obtain ⟨-, -, hnodup, -⟩ := LinkUnit.nodup_of_duplicate? h.unique
  refine ⟨found, hfound, hsome, hnone, ?_⟩
  have hothers : ∀ other ∈ unit.bindings, other.exportedName? = some name → other = binding :=
    fun other hother hname' => LinkUnit.binding_unique hnodup hother hmem hname' hname
  cases hstep : unit.exportStep name with
  | error failure =>
    rw [originOf_poses (hproper.unitOf unit hunit) (.failed hstep)] at hfound
    cases hfound
  | ok step =>
    cases step with
    | none => exact absurd hname (LinkUnit.exportedName_of_explicitStep hstep binding hmem)
    | some step => exact ⟨step, rfl, hothers⟩

theorem originOf_found (hproper : batch.Proper) (hunit : unit ∈ batch.units) {name : String}
    {origin : Origin} (hstep : unit.exportStep name = .ok (some (.found origin))) :
    batch.originOf unit.record name = .ok (some origin) :=
  originOf_poses (hproper.unitOf unit hunit) (.found hstep)

/-- An exported import leads somewhere. -/
theorem originOf_require (hproper : batch.Proper) (hunit : unit ∈ batch.units)
    {name remote source : String} {target : Ref .record}
    (hstep : unit.exportStep name = .ok (some (.require target remote source)))
    {found : Option Origin} (hfound : batch.originOf unit.record name = .ok found) :
    ∃ origin, found = some origin := by
  rw [originOf_poses (hproper.unitOf unit hunit) (.require hstep)] at hfound
  cases found with
  | some origin => exact ⟨origin, rfl⟩
  | none => cases (Quest.pursue_follow_nothing.1 hfound).1

/-- What an exported local name is: a name of its own, or an imported one with the same origin. -/
theorem exports_local (hproper : batch.Proper) (hunit : unit ∈ batch.units)
    (h : batch.Wired unit wiring)
    (hanswers : ∀ source target, unit.target source = .ok target → batch.Answers target)
    {own name : String} {step : ExportStep} (hstep : unit.exportStep name = .ok (some step))
    (hlocal : LinkUnit.Local unit unit.bindings own step) {found : Option Origin}
    (hfound : batch.originOf unit.record name = .ok found)
    (hsome : ∀ origin, found = some origin → (name, origin) ∈ wiring.exports) :
    ((name, .localName unit.record own) ∈ wiring.exports ∧
      own ∉ wiring.imports.map Prod.fst) ∨
      ∃ origin, (own, origin) ∈ wiring.imports ∧ (name, origin) ∈ wiring.exports := by
  have hthere {origin : Origin} (horigin : step = .found origin) :
      (name, origin) ∈ wiring.exports := by
    rw [originOf_found hproper hunit (horigin ▸ hstep)] at hfound
    exact hsome origin (Except.ok.inj hfound).symm
  -- The import goes to the same place as the search for the exported name.
  have hrequired {target : Ref .record} {remote source : String} {origin : Origin}
      (hrequire : step = .require target remote source)
      (htarget : unit.target source = .ok target)
      (horigin : batch.originOf target remote = .ok (some origin)) :
      (name, origin) ∈ wiring.exports := by
    obtain ⟨origin', rfl⟩ := originOf_require hproper hunit (hrequire ▸ hstep) hfound
    have hpass : batch.Passes (unit.record, name) (target, remote) :=
      ⟨unit, hproper.unitOf unit hunit, .inr ⟨source, hrequire ▸ hstep⟩⟩
    have hsame := originOf_of_passes hproper hpass (hanswers source target htarget) hfound
    rw [horigin] at hsame
    exact hsome origin (Except.ok.inj hsame).symm
  cases hlocal with
  | own hnone =>
    refine .inl ⟨hthere rfl, fun hmem => ?_⟩
    obtain ⟨⟨own, origin⟩, hpair, rfl⟩ := List.mem_map.1 hmem
    have hname : own ∈ unit.bindings.filterMap Binding.importedName? := by
      rw [← (wireImports_imports h.imports).1]
      exact hmem
    obtain ⟨binding, hbinding, hlocal⟩ := List.mem_filterMap.1 hname
    unfold Binding.importedName? at hlocal
    split at hlocal
    · rename_i himport
      exact hnone binding hbinding himport hlocal
    · cases hlocal
  | importName hmem htarget =>
    obtain ⟨target, origin, htarget', himport, horigin⟩ := h.importName hmem
    rw [htarget] at htarget'
    cases htarget'
    exact .inr ⟨origin, himport, hrequired rfl htarget horigin⟩
  | importAs hmem htarget =>
    obtain ⟨target, origin, htarget', himport, horigin⟩ := h.importAs hmem
    rw [htarget] at htarget'
    cases htarget'
    exact .inr ⟨origin, himport, hrequired rfl htarget horigin⟩
  | importAll hmem htarget =>
    obtain ⟨target, htarget', himport⟩ := h.importAll hmem
    rw [htarget] at htarget'
    cases htarget'
    exact .inr ⟨_, himport, hthere rfl⟩

theorem exportName (hproper : batch.Proper) (hunit : unit ∈ batch.units)
    (h : batch.Wired unit wiring)
    (hanswers : ∀ source target, unit.target source = .ok target → batch.Answers target)
    {name : String} (hmem : .exportName name ∈ unit.bindings) :
    ((name, .localName unit.record name) ∈ wiring.exports ∧
      name ∉ wiring.imports.map Prod.fst) ∨
      ∃ origin, (name, origin) ∈ wiring.imports ∧ (name, origin) ∈ wiring.exports := by
  obtain ⟨found, hfound, hsome, -, step, hstep, hothers⟩ := h.export_step hproper hunit hmem rfl
  cases LinkUnit.explicit_of_explicitStep hstep with
  | exportName _ hlocal => exact h.exports_local hproper hunit hanswers hstep hlocal hfound hsome
  | exportAs hmem' _ => cases hothers _ hmem' rfl
  | exportFrom hmem' _ => cases hothers _ hmem' rfl
  | exportAllAs hmem' _ => cases hothers _ hmem' rfl

theorem exportAs (hproper : batch.Proper) (hunit : unit ∈ batch.units)
    (h : batch.Wired unit wiring)
    (hanswers : ∀ source target, unit.target source = .ok target → batch.Answers target)
    {own name : String} (hmem : .exportAs own name ∈ unit.bindings) :
    ((name, .localName unit.record own) ∈ wiring.exports ∧
      own ∉ wiring.imports.map Prod.fst) ∨
      ∃ origin, (own, origin) ∈ wiring.imports ∧ (name, origin) ∈ wiring.exports := by
  obtain ⟨found, hfound, hsome, -, step, hstep, hothers⟩ := h.export_step hproper hunit hmem rfl
  cases LinkUnit.explicit_of_explicitStep hstep with
  | exportName hmem' _ => cases hothers _ hmem' rfl
  | exportAs hmem' hlocal =>
    cases hothers _ hmem' rfl
    exact h.exports_local hproper hunit hanswers hstep hlocal hfound hsome
  | exportFrom hmem' _ => cases hothers _ hmem' rfl
  | exportAllAs hmem' _ => cases hothers _ hmem' rfl

/-- A forwarded name has the origin that the other record exports. -/
theorem exportFrom (hproper : batch.Proper) (hunit : unit ∈ batch.units)
    (h : batch.Wired unit wiring)
    (hanswers : ∀ source target, unit.target source = .ok target → batch.Answers target)
    {remote name source : String} (hmem : .exportFrom remote name source ∈ unit.bindings) :
    ∃ target origin, unit.target source = .ok target ∧ (name, origin) ∈ wiring.exports ∧
      batch.originOf target remote = .ok (some origin) := by
  obtain ⟨found, hfound, hsome, hnone, step, hstep, hothers⟩ := h.export_step hproper hunit hmem rfl
  cases LinkUnit.explicit_of_explicitStep hstep with
  | exportName hmem' _ => cases hothers _ hmem' rfl
  | exportAs hmem' _ => cases hothers _ hmem' rfl
  | exportAllAs hmem' _ => cases hothers _ hmem' rfl
  | @exportFrom remote' source' target hmem' htarget =>
    cases hothers _ hmem' rfl
    cases found with
    | none =>
      have hempty := hnone rfl
      unfold emptyExport? at hempty
      cases hfind : unit.bindings.find? fun binding => decide (binding.exportedName? = some name) with
      | none => exact absurd (decide_eq_true rfl) (List.find?_eq_none.1 hfind _ hmem)
      | some other =>
        have hother := hothers other (List.mem_of_find?_eq_some hfind)
          (by simpa using List.find?_some hfind)
        rw [hfind, hother] at hempty
        cases hempty
    | some origin =>
      have hpass : batch.Passes (unit.record, name) (target, remote) :=
        ⟨unit, hproper.unitOf unit hunit, .inl hstep⟩
      exact ⟨target, origin, htarget, hsome origin rfl,
        originOf_of_passes hproper hpass (hanswers source target htarget) hfound⟩

theorem exportAllAs (hproper : batch.Proper) (hunit : unit ∈ batch.units)
    (h : batch.Wired unit wiring) {name source : String}
    (hmem : .exportAllAs name source ∈ unit.bindings) : ∃ target,
      unit.target source = .ok target ∧ (name, .exports target) ∈ wiring.exports := by
  obtain ⟨found, hfound, hsome, -, step, hstep, hothers⟩ := h.export_step hproper hunit hmem rfl
  cases LinkUnit.explicit_of_explicitStep hstep with
  | exportName hmem' _ => cases hothers _ hmem' rfl
  | exportAs hmem' _ => cases hothers _ hmem' rfl
  | exportFrom hmem' _ => cases hothers _ hmem' rfl
  | exportAllAs hmem' htarget =>
    cases hothers _ hmem' rfl
    rw [originOf_found hproper hunit hstep] at hfound
    exact ⟨_, htarget, hsome _ (Except.ok.inj hfound).symm⟩

/-- Every origin of a wiring was found by a search, or is a namespace. -/
theorem origin_leads (h : batch.Wired unit wiring) {name : String} {origin : Origin}
    (hmem : (name, origin) ∈ wiring.imports ++ wiring.exports) :
    (∃ record remote, batch.Leads record remote origin) ∨ ∃ record, origin = .exports record := by
  rcases List.mem_append.1 hmem with hmem | hmem
  · obtain ⟨binding, -, himports⟩ := h.imports_from hmem
    cases binding with
    | importName imported source =>
      obtain ⟨target, -, horigin⟩ := importOrigin_ok himports.2
      exact .inl ⟨target, imported, leads_of_originOf horigin⟩
    | importAs imported newName source =>
      obtain ⟨target, -, horigin⟩ := importOrigin_ok himports.2
      exact .inl ⟨target, imported, leads_of_originOf horigin⟩
    | importAll newName source =>
      obtain ⟨-, target, -, rfl⟩ := himports
      exact .inr ⟨target, rfl⟩
    | exportName => exact himports.elim
    | exportAs => exact himports.elim
    | exportFrom => exact himports.elim
    | exportAll => exact himports.elim
    | exportAllAs => exact himports.elim
  · exact .inl ⟨unit.record, name, leads_of_originOf (h.export_origin hmem)⟩

end Wired

end Batch

end ModuleLoader
