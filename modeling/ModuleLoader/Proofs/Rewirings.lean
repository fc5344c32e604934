import ModuleLoader.Proofs.Mirrors
/-!
A record is wired alike in two batches that answer alike about the records it requests, and it fails
in both or in none.
-/

namespace ModuleLoader
set_option autoImplicit false

/-- Every pair of a name and an origin has one with the same name and an origin that is alike. -/
def Carried (alike : Origin → Origin → Prop) (pairs pairs' : List (String × Origin)) : Prop :=
  ∀ name origin, (name, origin) ∈ pairs → ∃ origin', (name, origin') ∈ pairs' ∧ alike origin origin'

theorem Carried.names {alike : Origin → Origin → Prop} {pairs pairs' : List (String × Origin)}
    (h : Carried alike pairs pairs') {name : String} (hmem : name ∈ pairs.map Prod.fst) :
    name ∈ pairs'.map Prod.fst := by
  obtain ⟨⟨own, origin⟩, hpair, rfl⟩ := List.mem_map.1 hmem
  obtain ⟨origin', hpair', -⟩ := h own origin hpair
  exact List.mem_map.2 ⟨(own, origin'), hpair', rfl⟩

/-- Two wirings have the same names, with origins that are alike. -/
structure Wiring.Alike (alike : Origin → Origin → Prop) (wiring wiring' : Wiring) : Prop where
  imports : Carried alike wiring.imports wiring'.imports
  exports : Carried alike wiring.exports wiring'.exports
  imports' : Carried (fun origin' origin => alike origin origin') wiring'.imports wiring.imports
  exports' : Carried (fun origin' origin => alike origin origin') wiring'.exports wiring.exports

namespace Batch

variable {batch batch' : Batch} {alike : Origin → Origin → Prop} {unit : LinkUnit}

/-- The record is one of the batch, or exports something outside. -/
def Responds (batch : Batch) (record : Ref .record) : Prop :=
  (batch.unitOf record).isSome ∨ ∃ exports, batch.outside record = .ok exports

theorem checkRequests_of_responds : ∀ {requests : List Request},
    (∀ request ∈ requests, ∃ record, request.target = some record ∧ batch.Responds record) →
      batch.checkRequests unit requests = .ok ()
  | [], _ => rfl
  | request :: rest, h => by
    obtain ⟨record, hrecord, hresponds⟩ := h request List.mem_cons_self
    have hrest : batch.checkRequests unit rest = .ok () :=
      checkRequests_of_responds fun other hmem => h other (List.mem_cons_of_mem _ hmem)
    unfold checkRequests
    rw [hrecord]
    dsimp only
    cases hunit : batch.unitOf record with
    | some _ => exact hrest
    | none =>
      rcases hresponds with hsome | ⟨exports, hexports⟩
      · rw [hunit] at hsome
        cases hsome
      · dsimp only
        rw [hexports]
        exact hrest

theorem wire_of_wired {wiring : Wiring} (h : batch.Wired unit wiring) :
    batch.wire unit = .ok wiring := by
  obtain ⟨names, hnames, hexports⟩ := h.exports
  unfold wire
  rw [h.unique]
  dsimp only
  rw [h.requests]
  dsimp only
  rw [h.imports]
  dsimp only
  rw [hnames]
  dsimp only
  rw [hexports]

theorem exists_wiredTo {binding : Binding}
    (h : binding.isImport → ∃ own origin, batch.Imports unit binding own origin) :
    ∃ wired, batch.wiredTo unit binding = .ok wired := by
  unfold wiredTo
  cases binding with
  | importName name source | importAs name newName source =>
    obtain ⟨own, origin, -, horigin⟩ := h rfl
    dsimp only
    rw [horigin]
    exact ⟨_, rfl⟩
  | importAll newName source =>
    obtain ⟨own, origin, -, target, htarget, -⟩ := h rfl
    dsimp only
    rw [htarget]
    exact ⟨_, rfl⟩
  | exportName | exportAs | exportFrom | exportAll | exportAllAs => exact ⟨_, rfl⟩

/-- Imports are wired if each of them has an origin. -/
theorem exists_wireImports : ∀ {bindings : List Binding},
    (∀ binding ∈ bindings, binding.isImport → ∃ own origin, batch.Imports unit binding own origin) →
      ∃ imports, batch.wireImports unit bindings = .ok imports
  | [], _ => ⟨[], rfl⟩
  | binding :: rest, h => by
    obtain ⟨others, hothers⟩ := exists_wireImports fun other hmem =>
      h other (List.mem_cons_of_mem _ hmem)
    obtain ⟨wired, hwired⟩ := exists_wiredTo (h binding List.mem_cons_self)
    rw [wireImports_cons, hwired, hothers]
    exact ⟨_, rfl⟩

/-- An import has its origin in the wiring. -/
theorem Wired.mem_imports {wiring : Wiring} (h : batch.Wired unit wiring) {binding : Binding}
    (hmem : binding ∈ unit.bindings) {name : String} {origin : Origin}
    (himports : batch.Imports unit binding name origin) : (name, origin) ∈ wiring.imports := by
  cases binding with
  | importName imported source =>
    obtain ⟨rfl, horigin⟩ := himports
    obtain ⟨target, htarget, hfound⟩ := importOrigin_ok horigin
    obtain ⟨target', origin', htarget', hwired, hfound'⟩ := h.importName hmem
    cases htarget.symm.trans htarget'
    cases hfound.symm.trans hfound'
    exact hwired
  | importAs imported newName source =>
    obtain ⟨rfl, horigin⟩ := himports
    obtain ⟨target, htarget, hfound⟩ := importOrigin_ok horigin
    obtain ⟨target', origin', htarget', hwired, hfound'⟩ := h.importAs hmem
    cases htarget.symm.trans htarget'
    cases hfound.symm.trans hfound'
    exact hwired
  | importAll newName source =>
    obtain ⟨rfl, target, htarget, rfl⟩ := himports
    obtain ⟨target', htarget', hwired⟩ := h.importAll hmem
    cases htarget.symm.trans htarget'
    exact hwired
  | exportName => exact himports.elim
  | exportAs => exact himports.elim
  | exportFrom => exact himports.elim
  | exportAll => exact himports.elim
  | exportAllAs => exact himports.elim

/-- Exports are wired if none of their searches fails and no forwarded name is missing. -/
theorem exists_wireExports : ∀ {names : List String},
    (∀ name ∈ names, ∃ found, batch.originOf unit.record name = .ok found ∧
      (found = none → emptyExport? unit name = none)) →
        ∃ exports, batch.wireExports unit names = .ok exports
  | [], _ => ⟨[], rfl⟩
  | name :: rest, h => by
    obtain ⟨found, hfound, hempty⟩ := h name List.mem_cons_self
    obtain ⟨exports, hexports⟩ := exists_wireExports fun other hmem =>
      h other (List.mem_cons_of_mem _ hmem)
    unfold wireExports
    rw [hfound]
    dsimp only
    rw [hexports]
    cases found with
    | some origin => exact ⟨_, rfl⟩
    | none =>
      rw [hempty rfl]
      exact ⟨_, rfl⟩

theorem emptyExport?_eq_none {name : String} (h : name ∉ unit.explicitNames) :
    emptyExport? unit name = none := by
  have hnone : (unit.bindings.find? fun binding => binding.exportedName? = some name) = none := by
    rw [List.find?_eq_none]
    intro binding hmem hname
    exact h (List.mem_filterMap.2 ⟨binding, hmem, of_decide_eq_true hname⟩)
  unfold emptyExport?
  rw [hnone]

/-- A record of two batches is asked for in both, and what it requests answers alike in both. -/
structure Peers (batch batch' : Batch) (alike : Origin → Origin → Prop) (unit : LinkUnit) :
    Prop where
  proper : batch.Proper
  proper' : batch'.Proper
  mem : unit ∈ batch.units
  mem' : unit ∈ batch'.units
  responds : ∀ request ∈ unit.requests, ∀ target, request.target = some target →
    (batch.Responds target ↔ batch'.Responds target)
  own : ∀ name, Echoes alike (batch.originOf unit.record name) (batch'.originOf unit.record name)
  origins : ∀ request ∈ unit.requests, ∀ target, request.target = some target → ∀ name,
    Echoes alike (batch.originOf target name) (batch'.originOf target name)
  faults : batch.StarFault unit.record ↔ batch'.StarFault unit.record

namespace Peers

theorem symm (h : Peers batch batch' alike unit) :
    Peers batch' batch (fun origin origin' => alike origin' origin) unit where
  proper := h.proper'
  proper' := h.proper
  mem := h.mem'
  mem' := h.mem
  responds request hrequest target htarget := (h.responds request hrequest target htarget).symm
  own name := (h.own name).symm
  origins request hrequest target htarget name :=
    (h.origins request hrequest target htarget name).symm
  faults := h.faults.symm

theorem importOrigin (h : Peers batch batch' alike unit) {name source : String} {origin : Origin}
    (horigin : batch.importOrigin unit name source = .ok origin) :
    ∃ origin', batch'.importOrigin unit name source = .ok origin' ∧ alike origin origin' := by
  obtain ⟨target, htarget, hfound⟩ := Wired.importOrigin_ok horigin
  obtain ⟨request, hrequest, hrequested⟩ := request_of_target htarget
  have hechoes := h.origins request hrequest target hrequested name
  rw [hfound] at hechoes
  unfold Batch.importOrigin
  rw [htarget]
  dsimp only
  generalize batch'.originOf target name = result at hechoes ⊢
  cases hechoes with
  | found halike => exact ⟨_, rfl, halike⟩

theorem imports (h : Peers batch batch' alike unit) (hrefl : ∀ origin, alike origin origin)
    {binding : Binding} {name : String} {origin : Origin}
    (himports : batch.Imports unit binding name origin) :
    ∃ origin', batch'.Imports unit binding name origin' ∧ alike origin origin' := by
  cases binding with
  | importName imported source =>
    obtain ⟨origin', horigin, halike⟩ := h.importOrigin himports.2
    exact ⟨origin', ⟨himports.1, horigin⟩, halike⟩
  | importAs imported newName source =>
    obtain ⟨origin', horigin, halike⟩ := h.importOrigin himports.2
    exact ⟨origin', ⟨himports.1, horigin⟩, halike⟩
  | importAll newName source => exact ⟨origin, himports, hrefl origin⟩
  | exportName => exact himports.elim
  | exportAs => exact himports.elim
  | exportFrom => exact himports.elim
  | exportAll => exact himports.elim
  | exportAllAs => exact himports.elim

theorem wireImports (h : Peers batch batch' alike unit) (hrefl : ∀ origin, alike origin origin)
    {imports : List (String × Origin)} (himports : batch.wireImports unit unit.bindings = .ok imports) :
    ∃ imports', batch'.wireImports unit unit.bindings = .ok imports' := by
  refine exists_wireImports fun binding hmem himport => ?_
  obtain ⟨own, origin, -, hfrom⟩ := (wireImports_imports himports).2.2 binding hmem himport
  obtain ⟨origin', hfrom', -⟩ := h.imports hrefl hfrom
  exact ⟨own, origin', hfrom'⟩

theorem imports_alike (h : Peers batch batch' alike unit) (hrefl : ∀ origin, alike origin origin)
    {wiring wiring' : Wiring} (hwired : batch.Wired unit wiring)
    (hwired' : batch'.Wired unit wiring') : Carried alike wiring.imports wiring'.imports := by
  intro name origin hmem
  obtain ⟨binding, hbinding, hfrom⟩ := hwired.imports_from hmem
  obtain ⟨origin', hfrom', halike⟩ := h.imports hrefl hfrom
  exact ⟨origin', hwired'.mem_imports hbinding hfrom', halike⟩

theorem checkRequests (h : Peers batch batch' alike unit)
    (hrequests : batch.checkRequests unit unit.requests = .ok ()) :
    batch'.checkRequests unit unit.requests = .ok () := by
  refine checkRequests_of_responds fun request hmem => ?_
  obtain ⟨record, hrecord, hresponds⟩ := checkRequests_targets hrequests request hmem
  exact ⟨record, hrecord, (h.responds request hmem record hrecord).1 hresponds⟩

theorem exportableNames (h : Peers batch batch' alike unit) {names : List String}
    (hnames : batch.exportableNames unit = .ok names) :
    ∃ names', batch'.exportableNames unit = .ok names' := by
  cases hnames' : batch'.exportableNames unit with
  | ok names' => exact ⟨names', rfl⟩
  | error failure =>
    have hfault := h.faults.2 ((exportableNames_fails_iff h.proper' h.mem').1 ⟨failure, hnames'⟩)
    obtain ⟨failure', hfails⟩ := (exportableNames_fails_iff h.proper h.mem).2 hfault
    rw [hnames] at hfails
    cases hfails

theorem wireExports (h : Peers batch batch' alike unit) {names names' : List String}
    (hnames : batch.exportableNames unit = .ok names) {exports : List (String × Origin)}
    (hexports : batch.wireExports unit names = .ok exports) :
    ∃ exports', batch'.wireExports unit names' = .ok exports' := by
  refine exists_wireExports fun name _ => ?_
  have hechoes := h.own name
  -- A name that is not among those of the first batch is lost there, and not exported by itself.
  have hfound : ∃ found, batch.originOf unit.record name = .ok found ∧
      (found = none → emptyExport? unit name = none) := by
    by_cases hmem : name ∈ names
    · obtain ⟨found, hfound, -, hempty⟩ := (wireExports_exports hexports).2 name hmem
      exact ⟨found, hfound, hempty⟩
    · refine ⟨none, (lost_of_exportableNames h.proper h.mem hnames hmem).originOf, fun _ => ?_⟩
      refine emptyExport?_eq_none fun hexplicit => hmem ?_
      exact (exportableNames_covers h.proper h.mem hnames).1 name hexplicit
  obtain ⟨found, hfound, hempty⟩ := hfound
  rw [hfound] at hechoes
  generalize batch'.originOf unit.record name = result at hechoes ⊢
  cases hechoes with
  | nothing => exact ⟨none, rfl, hempty⟩
  | found halike => exact ⟨_, rfl, fun hnone => nomatch hnone⟩

theorem exports_alike (h : Peers batch batch' alike unit) {wiring wiring' : Wiring}
    (hwired : batch.Wired unit wiring) (hwired' : batch'.Wired unit wiring') :
    Carried alike wiring.exports wiring'.exports := by
  intro name origin hmem
  have hechoes := h.own name
  rw [hwired.export_origin hmem] at hechoes
  cases hresult : batch'.originOf unit.record name with
  | error failure =>
    rw [hresult] at hechoes
    cases hechoes
  | ok found =>
    rw [hresult] at hechoes
    cases hechoes with
    | found halike => exact ⟨_, hwired'.mem_exports h.proper' h.mem' hresult, halike⟩

/-- A record that is wired in one batch is wired alike in the other one. -/
theorem wire (h : Peers batch batch' alike unit) (hrefl : ∀ origin, alike origin origin)
    {wiring : Wiring} (hwire : batch.wire unit = .ok wiring) :
    ∃ wiring', batch'.wire unit = .ok wiring' ∧ wiring.Alike alike wiring' := by
  have hwired := wired_of_wire hwire
  obtain ⟨names, hnames, hexports⟩ := hwired.exports
  obtain ⟨names', hnames'⟩ := h.exportableNames hnames
  obtain ⟨exports', hexports'⟩ : ∃ exports', batch'.wireExports unit names' = .ok exports' :=
    h.wireExports hnames hexports
  obtain ⟨imports', himports'⟩ := h.wireImports hrefl hwired.imports
  have hwired' : batch'.Wired unit ⟨imports', exports'⟩ :=
    ⟨hwired.unique, h.checkRequests hwired.requests, himports', names', hnames', hexports'⟩
  exact ⟨_, wire_of_wired hwired', h.imports_alike hrefl hwired hwired',
    h.exports_alike hwired hwired', h.symm.imports_alike hrefl hwired' hwired,
    h.symm.exports_alike hwired' hwired⟩

end Peers

/-- From a record that answers stars lead to no fault. -/
theorem Answers.not_starFault (hproper : batch.Proper) {record : Ref .record}
    (h : batch.Answers record) : ¬ batch.StarFault record := by
  intro hfault
  unfold Answers at h
  cases hunit : batch.unitOf record with
  | some unit =>
    rw [hunit] at h
    obtain ⟨wiring, hwire⟩ := h
    obtain ⟨hmem, rfl⟩ := hproper.unit record unit hunit
    obtain ⟨names, hnames, -⟩ := (wired_of_wire hwire).exports
    obtain ⟨failure, hfails⟩ := (exportableNames_fails_iff hproper hmem).2 hfault
    rw [hnames] at hfails
    cases hfails
  | none =>
    rw [hunit] at h
    obtain ⟨exports, hexports⟩ := h
    cases hfault with
    | outside _ hfailure =>
      rw [hexports] at hfailure
      cases hfailure
    | unresolved hsome _ =>
      rw [hunit] at hsome
      cases hsome
    | star hsome _ _ _ =>
      rw [hunit] at hsome
      cases hsome

theorem Answers.responds {record : Ref .record} (h : batch.Answers record) :
    batch.Responds record := by
  unfold Answers at h
  cases hunit : batch.unitOf record with
  | some unit =>
    refine .inl ?_
    rw [hunit]
    rfl
  | none =>
    rw [hunit] at h
    exact .inr h

namespace Cut

variable {region inner : Ref .record → Prop}

/-- What a record of the region requests lies in the region. -/
theorem region_of_request (h : Cut batch batch' region inner alike) (hunit : unit ∈ batch.units)
    (hregion : region unit.record) {request : Request} (hrequest : request ∈ unit.requests)
    {target : Ref .record} (htarget : request.target = some target) : region target :=
  h.closed unit.record unit hregion (h.proper.unitOf unit hunit) request hrequest target htarget

theorem mem_iff (h : Cut batch batch' region inner alike) (hregion : region unit.record)
    (hinner : ¬ inner unit.record) : unit ∈ batch'.units ↔ unit ∈ batch.units := by
  have hsame := h.unit unit.record hregion hinner
  constructor
  · intro hmem
    exact (h.proper.unit unit.record unit (hsame ▸ h.proper'.unitOf unit hmem)).1
  · intro hmem
    exact (h.proper'.unit unit.record unit (hsame ▸ h.proper.unitOf unit hmem)).1

theorem starFault (h : Cut batch batch' region inner alike) {record : Ref .record}
    (hfault : batch.StarFault record) (hregion : region record) (hinner : ¬ inner record) :
    batch'.StarFault record := by
  induction hfault with
  | outside hunit hfailure =>
    exact .outside ((h.unit _ hregion hinner).trans hunit)
      ((h.outside _ hregion hinner hunit).trans hfailure)
  | unresolved hunit hfailure =>
    exact .unresolved ((h.unit _ hregion hinner).trans hunit) hfailure
  | @star record target unit targets hunit htargets hmem hfault ih =>
    have htarget : ¬ inner target :=
      fun htarget => (h.answers target htarget).not_starFault h.proper hfault
    obtain ⟨request, hrequest, hrequested⟩ := request_of_starRecords htargets hmem
    exact .star ((h.unit _ hregion hinner).trans hunit) htargets hmem
      (ih (h.closed record unit hregion hunit request hrequest target hrequested) htarget)

theorem starFault_back (h : Cut batch batch' region inner alike) {record : Ref .record}
    (hfault : batch'.StarFault record) (hregion : region record) (hinner : ¬ inner record) :
    batch.StarFault record := by
  induction hfault with
  | outside hunit hfailure =>
    have hunit := (h.unit _ hregion hinner).symm.trans hunit
    exact .outside hunit ((h.outside _ hregion hinner hunit).symm.trans hfailure)
  | unresolved hunit hfailure =>
    exact .unresolved ((h.unit _ hregion hinner).symm.trans hunit) hfailure
  | @star record target unit targets hunit htargets hmem hfault ih =>
    have htarget : ¬ inner target := by
      intro htarget
      obtain ⟨hnone, exports, hexports, -⟩ := h.exports target htarget
      have hanswers : batch'.Answers target := by
        unfold Answers
        rw [hnone]
        exact ⟨exports, hexports⟩
      exact hanswers.not_starFault h.proper' hfault
    have hunit := (h.unit _ hregion hinner).symm.trans hunit
    obtain ⟨request, hrequest, hrequested⟩ := request_of_starRecords htargets hmem
    exact .star hunit htargets hmem
      (ih (h.closed record unit hregion hunit request hrequest target hrequested) htarget)

theorem responds (h : Cut batch batch' region inner alike) {record : Ref .record}
    (hregion : region record) : batch.Responds record ↔ batch'.Responds record := by
  by_cases hinner : inner record
  · obtain ⟨-, exports, hexports, -⟩ := h.exports record hinner
    exact ⟨fun _ => .inr ⟨exports, hexports⟩, fun _ => (h.answers record hinner).responds⟩
  · unfold Responds
    rw [h.unit record hregion hinner]
    cases hunit : batch.unitOf record with
    | some unit => exact ⟨fun _ => .inl rfl, fun _ => .inl rfl⟩
    | none => rw [h.outside record hregion hinner hunit]

theorem peers (h : Cut batch batch' region inner alike) (hunit : unit ∈ batch.units)
    (hregion : region unit.record) (hinner : ¬ inner unit.record) :
    Peers batch batch' alike unit where
  proper := h.proper
  proper' := h.proper'
  mem := hunit
  mem' := (h.mem_iff hregion hinner).2 hunit
  responds _ hrequest _ htarget := h.responds (h.region_of_request hunit hregion hrequest htarget)
  own := h.originOf hregion
  origins _ hrequest _ htarget := h.originOf (h.region_of_request hunit hregion hrequest htarget)
  faults := ⟨fun hfault => h.starFault hfault hregion hinner,
    fun hfault => h.starFault_back hfault hregion hinner⟩

theorem breaks (h : Cut batch batch' region inner alike)
    (hsound : ∀ record, inner record → ¬ batch.Breaks record) {record : Ref .record}
    (hbreaks : batch.Breaks record) (hregion : region record) (hinner : ¬ inner record) :
    batch'.Breaks record := by
  unfold Breaks at hbreaks
  induction hbreaks with
  | here hfaulty =>
    obtain ⟨unit, hunit, rfl, failure, hwire⟩ := hfaulty
    have hpeers := h.peers hunit hregion hinner
    cases hwire' : batch'.wire unit with
    | error failure' => exact .here ⟨unit, hpeers.mem', rfl, failure', hwire'⟩
    | ok wiring' =>
      obtain ⟨wiring, hok, -⟩ := hpeers.symm.wire h.refl hwire'
      rw [hwire] at hok
      cases hok
  | @needs unit request target hunit hrequest htarget hbreaks ih =>
    have hnext := h.region_of_request hunit hregion hrequest htarget
    exact .needs ((h.mem_iff hregion hinner).2 hunit) hrequest htarget
      (ih hnext fun hsettled => hsound target hsettled hbreaks)

theorem breaks_back (h : Cut batch batch' region inner alike) {record : Ref .record}
    (hbreaks : batch'.Breaks record) (hregion : region record) (hinner : ¬ inner record) :
    batch.Breaks record := by
  unfold Breaks at hbreaks
  induction hbreaks with
  | here hfaulty =>
    obtain ⟨unit, hunit, rfl, failure, hwire⟩ := hfaulty
    have hpeers := h.peers ((h.mem_iff hregion hinner).1 hunit) hregion hinner
    cases hwire' : batch.wire unit with
    | error failure' => exact .here ⟨unit, hpeers.mem, rfl, failure', hwire'⟩
    | ok wiring =>
      obtain ⟨wiring', hok, -⟩ := hpeers.wire h.refl hwire'
      rw [hwire] at hok
      cases hok
  | @needs unit request target hunit hrequest htarget hbreaks ih =>
    have hunit := (h.mem_iff hregion hinner).1 hunit
    refine .needs hunit hrequest htarget
      (ih (h.region_of_request hunit hregion hrequest htarget) fun hsettled => ?_)
    obtain ⟨other, hother, rfl⟩ := Breaks.mem hbreaks
    have hnone := (h.exports _ hsettled).1
    rw [h.proper'.unitOf other hother] at hnone
    cases hnone

end Cut

end Batch

end ModuleLoader
