import Mathlib.Logic.Relation
import ModuleLoader.Proofs.Divisions
/-!
Linking fails exactly the records that it has to, and leaves no trace on them. A record fails if it
comes, by its requests, to one whose plan fails; it fails for the reason of its own plan, or else of
such another one; and its scope and its namespace stay what they were.
-/

namespace ModuleLoader
set_option autoImplicit false

namespace LinkUnit

/-- Names that are declared once each make no fault. -/
theorem duplicate?_eq_none : ∀ {bindings : List Binding} {imported exported : List String},
    (bindings.filterMap Binding.importedName?).Nodup →
      (∀ name ∈ bindings.filterMap Binding.importedName?, name ∉ imported) →
        (bindings.filterMap Binding.exportedName?).Nodup →
          (∀ name ∈ bindings.filterMap Binding.exportedName?, name ∉ exported) →
            duplicate? imported exported bindings = none
  | [], _, _, _, _, _, _ => rfl
  | binding :: rest, imported, exported, hnodup, himported, hnodup', hexported => by
    have hname : (if binding.isImport then binding.localName? else none) = binding.importedName? :=
      rfl
    unfold duplicate?
    rw [hname]
    cases himport : binding.importedName? with
    | some name =>
      have hexport : binding.exportedName? = none := by
        cases binding <;> first | rfl | cases himport
      rw [List.filterMap_cons_some himport] at hnodup himported
      rw [List.filterMap_cons_none hexport] at hnodup' hexported
      obtain ⟨hnew, hnodup⟩ := List.nodup_cons.1 hnodup
      dsimp only
      rw [if_neg (by simpa using himported name List.mem_cons_self)]
      refine duplicate?_eq_none hnodup (fun other hother hmem => ?_) hnodup' hexported
      rcases List.mem_cons.1 hmem with rfl | hmem
      · exact hnew hother
      · exact himported other (List.mem_cons_of_mem _ hother) hmem
    | none =>
      rw [List.filterMap_cons_none himport] at hnodup himported
      dsimp only
      cases hexport : binding.exportedName? with
      | some name =>
        rw [List.filterMap_cons_some hexport] at hnodup' hexported
        obtain ⟨hnew, hnodup'⟩ := List.nodup_cons.1 hnodup'
        dsimp only
        rw [if_neg (by simpa using hexported name List.mem_cons_self)]
        refine duplicate?_eq_none hnodup himported hnodup' fun other hother hmem => ?_
        rcases List.mem_cons.1 hmem with rfl | hmem
        · exact hnew hother
        · exact hexported other (List.mem_cons_of_mem _ hother) hmem
      | none =>
        rw [List.filterMap_cons_none hexport] at hnodup' hexported
        exact duplicate?_eq_none hnodup himported hnodup' hexported

end LinkUnit

namespace Batch

variable {batch : Batch} {unit : LinkUnit}

/-- Nothing is wrong with what a record declares. -/
structure Flawless (batch : Batch) (unit : LinkUnit) : Prop where
  /-- No two imports introduce one name. -/
  imports : (unit.bindings.filterMap Binding.importedName?).Nodup
  /-- No two bindings export one name. -/
  exports : unit.explicitNames.Nodup
  /-- No dependency outside the batch has failed. -/
  responds : ∀ request ∈ unit.requests, ∀ target, request.target = some target →
    batch.Responds target
  imported : ∀ binding ∈ unit.bindings, binding.isImport →
    ∃ own origin, batch.Imports unit binding own origin
  forwarded : ∀ remote name source, .exportFrom remote name source ∈ unit.bindings →
    batch.originOf unit.record name ≠ .ok none
  /-- The search for an exported name does not meet an import that leads nowhere. -/
  exported : ∀ names, batch.exportableNames unit = .ok names → ∀ name ∈ names,
    ∃ found, batch.originOf unit.record name = .ok found
  stars : ¬ batch.StarFault unit.record

/-- A wiring that succeeds is one of a flawless record. -/
theorem Wired.flawless (hproper : batch.Proper) (hunit : unit ∈ batch.units) {wiring : Wiring}
    (h : batch.Wired unit wiring) : batch.Flawless unit := by
  obtain ⟨hnodup, -, hnodup', -⟩ := LinkUnit.nodup_of_duplicate? h.unique
  obtain ⟨names, hnames, hexports⟩ := h.exports
  obtain ⟨-, hsearched⟩ := wireExports_exports hexports
  refine ⟨hnodup, hnodup', fun request hmem target htarget => ?_, fun binding hmem himport => ?_,
    fun remote name source hmem hnone => ?_, fun names' hnames' name hmem => ?_, fun hfault => ?_⟩
  · obtain ⟨record, hrecord, hresponds⟩ := checkRequests_targets h.requests request hmem
    rw [htarget] at hrecord
    cases hrecord
    exact hresponds
  · obtain ⟨-, -, hall⟩ := wireImports_imports h.imports
    obtain ⟨own, origin, -, himports⟩ := hall binding hmem himport
    exact ⟨own, origin, himports⟩
  · obtain ⟨hexplicit, -⟩ := mem_exportableNames hproper hunit hnames
    have hname : name ∈ unit.explicitNames := List.mem_filterMap.2 ⟨_, hmem, rfl⟩
    obtain ⟨found, hfound, -, hempty⟩ := hsearched name (hexplicit name hname)
    rw [hnone] at hfound
    have hempty := hempty (Except.ok.inj hfound).symm
    unfold emptyExport? at hempty
    cases hfind : unit.bindings.find? fun binding => decide (binding.exportedName? = some name) with
    | none => exact absurd (decide_eq_true rfl) (List.find?_eq_none.1 hfind _ hmem)
    | some other =>
      have hother := LinkUnit.binding_unique hnodup' hmem (List.mem_of_find?_eq_some hfind) rfl
        (by simpa using List.find?_some hfind)
      rw [hfind, ← hother] at hempty
      cases hempty
  · rw [hnames] at hnames'
    cases hnames'
    obtain ⟨found, hfound, -⟩ := hsearched name hmem
    exact ⟨found, hfound⟩
  · obtain ⟨failure, hfailure⟩ := (exportableNames_fails_iff hproper hunit).2 hfault
    rw [hnames] at hfailure
    cases hfailure

/-- A flawless record is wired, if all that it requests is memoized. -/
theorem Flawless.wire (hproper : batch.Proper) (hunit : unit ∈ batch.units)
    (hmet : ∀ request ∈ unit.requests, request.target.isSome) (h : batch.Flawless unit) :
    ∃ wiring, batch.wire unit = .ok wiring := by
  have hunique := LinkUnit.duplicate?_eq_none h.imports (fun _ _ => List.not_mem_nil) h.exports
    fun _ _ => List.not_mem_nil
  have hrequests : batch.checkRequests unit unit.requests = .ok () :=
    checkRequests_of_responds fun request hmem => by
      obtain ⟨target, htarget⟩ := Option.isSome_iff_exists.1 (hmet request hmem)
      exact ⟨target, htarget, h.responds request hmem target htarget⟩
  obtain ⟨imports, himports⟩ := exists_wireImports h.imported
  cases hnames : batch.exportableNames unit with
  | error failure => exact absurd ((exportableNames_fails_iff hproper hunit).1 ⟨failure, hnames⟩) h.stars
  | ok names =>
    obtain ⟨exports, hexports⟩ := exists_wireExports fun name hmem => by
      obtain ⟨found, hfound⟩ := h.exported names hnames name hmem
      refine ⟨found, hfound, fun hnone => ?_⟩
      unfold emptyExport?
      split
      · rename_i remote other source hfind
        have hname : other = name := by simpa [Binding.exportedName?] using List.find?_some hfind
        subst hname hnone
        exact absurd hfound (h.forwarded remote other source (List.mem_of_find?_eq_some hfind))
      · rfl
    exact ⟨⟨imports, exports⟩, wire_of_wired ⟨hunique, hrequests, himports, names, hnames, hexports⟩⟩

/-- The plan of a record fails exactly for a flaw, if all that it requests is memoized. -/
theorem wire_fails_iff (hproper : batch.Proper) (hunit : unit ∈ batch.units)
    (hmet : ∀ request ∈ unit.requests, request.target.isSome) :
    (∃ failure, batch.wire unit = .error failure) ↔ ¬ batch.Flawless unit := by
  constructor
  · rintro ⟨failure, hfailure⟩ hflawless
    obtain ⟨wiring, hwiring⟩ := hflawless.wire hproper hunit hmet
    rw [hfailure] at hwiring
    cases hwiring
  · intro hflaw
    cases hwire : batch.wire unit with
    | error failure => exact ⟨failure, rfl⟩
    | ok wiring => exact absurd ((wired_of_wire hwire).flawless hproper hunit) hflaw

theorem Affected.mono {bad bad' : Ref .record → Prop} {record : Ref .record}
    (h : batch.Affected bad record) (himp : ∀ record, bad record → bad' record) :
    batch.Affected bad' record := by
  induction h with
  | here hbad => exact .here (himp _ hbad)
  | needs hunit hrequest htarget _ ih => exact .needs hunit hrequest htarget ih

/-- The plan of the record fails for that reason. -/
def FailsFor (batch : Batch) (failure : Failure) (record : Ref .record) : Prop :=
  ∃ unit ∈ batch.units, unit.record = record ∧ batch.wire unit = .error failure

theorem failureAmong_append {fresh : List (Ref .record)} {failed : List (Ref .record × Failure)}
    {failure : Failure} {record : Ref .record} :
    failureAmong (fresh.map (·, failure) ++ failed) record =
      if record ∈ fresh then some failure else failureAmong failed record := by
  unfold failureAmong
  rw [List.find?_append, List.find?_map]
  split
  · rename_i hmem
    have hfound : (fresh.find? ((fun pair : Ref .record × Failure => decide (pair.1 = record)) ∘
        fun other => (other, failure))).isSome :=
      List.find?_isSome.2 ⟨record, hmem, by simp⟩
    obtain ⟨found, hfound⟩ := Option.isSome_iff_exists.1 hfound
    rw [hfound]
    rfl
  · rename_i hnot
    have hnone : (fresh.find? ((fun pair : Ref .record × Failure => decide (pair.1 = record)) ∘
        fun other => (other, failure))) = none := by
      refine List.find?_eq_none.2 fun other hother heq => hnot ?_
      obtain rfl : other = record := by simpa using heq
      exact hother
    rw [hnone]
    rfl

/-- A record that has a failure keeps it while failures spread. -/
theorem failureAmong_spread {record : Ref .record} {failure : Failure} : ∀ (fuel : Nat)
    {todo : List (Ref .record)} {failed : List (Ref .record × Failure)},
      failureAmong failed record = some failure →
        failureAmong (batch.spread fuel todo failed) record = some failure
  | 0, _, _, h => h
  | _ + 1, [], _, h => h
  | fuel + 1, first :: rest, failed, h => by
    unfold spread
    split
    · exact failureAmong_spread fuel h
    · refine failureAmong_spread fuel ?_
      rw [failureAmong_append, if_neg, h]
      intro hfresh
      obtain ⟨-, hsound⟩ := mem_freshOf.1 hfresh
      exact hsound (failureAmong_isSome.1 (h ▸ rfl))

/-- A failure that spreads is one of a plan that the record depends on. -/
theorem spread_blames : ∀ (fuel : Nat) {todo : List (Ref .record)}
    {failed : List (Ref .record × Failure)},
      (∀ record failure, failureAmong failed record = some failure →
        batch.Affected (batch.FailsFor failure) record) →
          ∀ record failure, failureAmong (batch.spread fuel todo failed) record = some failure →
            batch.Affected (batch.FailsFor failure) record
  | 0, _, _, hfailed => hfailed
  | _ + 1, [], _, hfailed => hfailed
  | fuel + 1, first :: rest, failed, hfailed => by
    unfold spread
    split
    · exact spread_blames fuel hfailed
    · rename_i cause hcause
      refine spread_blames fuel fun record failure h => ?_
      rw [failureAmong_append] at h
      split at h
      · rename_i hfresh
        cases h
        obtain ⟨hdependent, -⟩ := mem_freshOf.1 hfresh
        obtain ⟨unit, hunit, rfl, request, hrequest, htarget⟩ := mem_dependentsOf.1 hdependent
        exact .needs hunit hrequest htarget (hfailed first cause hcause)
      · exact hfailed record failure h

/-- Among the plans that failed, each record has the reason of its own. -/
theorem failureAmong_failures (hproper : batch.Proper) (hunit : unit ∈ batch.units)
    {failure : Failure} :
    failureAmong (failures (batch.units.map fun unit => (unit, batch.wire unit))) unit.record =
      some failure ↔ batch.wire unit = .error failure := by
  have hown {record : Ref .record} {found : Failure}
      (hmem : (record, found) ∈ failures (batch.units.map fun unit => (unit, batch.wire unit)))
      (hrecord : record = unit.record) : batch.wire unit = .error found := by
    obtain ⟨⟨other, wiring⟩, hpair, heq⟩ := List.mem_filterMap.1 hmem
    obtain ⟨other', hother, hpair⟩ := List.mem_map.1 hpair
    cases hpair
    cases hwire : batch.wire other with
    | ok _ =>
      rw [hwire] at heq
      cases heq
    | error _ =>
      rw [hwire] at heq
      cases heq
      have hsame := hproper.unitOf other hother
      rw [hrecord, hproper.unitOf unit hunit] at hsame
      cases hsame
      exact hwire
  constructor
  · intro h
    obtain ⟨⟨record, found⟩, hfind, rfl⟩ := Option.map_eq_some_iff.1 h
    exact hown (List.mem_of_find?_eq_some hfind) (by simpa using List.find?_some hfind)
  · intro hwire
    have hsome := failureAmong_isSome.2 (mem_failures_wire.2 ⟨unit, hunit, rfl, failure, hwire⟩)
    obtain ⟨found, hfound⟩ := Option.isSome_iff_exists.1 hsome
    obtain ⟨⟨record, found'⟩, hfind, rfl⟩ := Option.map_eq_some_iff.1 hfound
    have hfailure := hown (List.mem_of_find?_eq_some hfind) (by simpa using List.find?_some hfind)
    rw [hwire] at hfailure
    rw [hfound, Except.error.inj hfailure]

/-- A plan that fails gives its record the reason. -/
theorem failureAmong_failed (hproper : batch.Proper) (hunit : unit ∈ batch.units) {failure : Failure}
    (h : batch.wire unit = .error failure) : failureAmong batch.failed unit.record = some failure :=
  failureAmong_spread _ ((failureAmong_failures hproper hunit).2 h)

/-- Every failure of a batch is one of a plan that the record depends on. -/
theorem failed_blames (hproper : batch.Proper) {record : Ref .record} {failure : Failure}
    (h : failureAmong batch.failed record = some failure) :
    batch.Affected (batch.FailsFor failure) record := by
  refine spread_blames _ (fun other cause hcause => .here ?_) record failure h
  have hsome : (failureAmong _ other).isSome := Option.isSome_iff_exists.2 ⟨cause, hcause⟩
  obtain ⟨unit, hunit, rfl, -⟩ := mem_failures_wire.1 (failureAmong_isSome.1 hsome)
  exact ⟨unit, hunit, rfl, (failureAmong_failures hproper hunit).1 hcause⟩

end Batch

namespace Host

variable {host after : Host} {refs : List (Ref .record)}

/-- One record of a list depends on another one of it by one of its keys. -/
def LeansOn (host : Host) (refs : List (Ref .record)) (ref target : Ref .record) : Prop :=
  ref ∈ refs ∧ target ∈ refs ∧ ∃ key ∈ (host.record ref).requestKeys,
    host.lookup? ⟨(host.record ref).home, key⟩ = some target

/-- The plan of a record of a list fails, when the list is linked. -/
def PlanFails (host : Host) (refs : List (Ref .record)) (ref : Ref .record) (failure : Failure) :
    Prop :=
  ref ∈ refs ∧ (Batch.ofRecords host refs).wire (Batch.describe host ref) = .error failure

/-- A record comes, by the keys it depends on, to one whose plan fails for that reason. -/
def ComesToFail (host : Host) (refs : List (Ref .record)) (ref : Ref .record) (failure : Failure) :
    Prop :=
  ∃ reached, Relation.ReflTransGen (host.LeansOn refs) ref reached ∧ host.PlanFails refs reached failure

/-- What linking a list of records that are loaded makes of a host. -/
structure LinksExactly (host after : Host) (refs : List (Ref .record)) : Prop where
  settled : ∀ ref ∈ refs, (after.record ref).phase = .linked ∨ (after.record ref).phase = .failed
  failed_iff : ∀ ref ∈ refs,
    (after.record ref).phase = .failed ↔ ∃ failure, host.ComesToFail refs ref failure
  own : ∀ ref failure, host.PlanFails refs ref failure → (after.record ref).error = some failure
  error : ∀ ref ∈ refs, (after.record ref).phase = .failed →
    ∃ failure, (after.record ref).error = some failure ∧ host.ComesToFail refs ref failure
  flaws : ∀ ref ∈ refs, (∃ failure, host.PlanFails refs ref failure) ↔
    ¬ (Batch.ofRecords host refs).Flawless (Batch.describe host ref)
  /-- A record that failed has the scope and the namespace that it had. -/
  unspoilt : ∀ ref ∈ refs, (after.record ref).phase = .failed →
    (after.record ref).environment = (host.record ref).environment ∧
      (after.store.space (host.record ref).space).exports =
        (host.store.space (host.record ref).space).exports
  others : ∀ ref, ref ∉ refs → after.records.get? ref = host.records.get? ref
  /-- Only what exposes the namespace of a record that became linked sees another namespace. -/
  spaces : ∀ ref, ref ∉ refs → (after.store.space (host.record ref).space).exports =
      (host.store.space (host.record ref).space).exports ∨
    (host.record ref).source = none ∧ ∃ other ∈ refs, (after.record other).phase = .linked ∧
      (host.record other).space = (host.record ref).space
  slots : host.store.slots.Extends after.store.slots

theorem planFails_iff {ref : Ref .record} {failure : Failure} :
    host.PlanFails refs ref failure ↔ (Batch.ofRecords host refs).FailsFor failure ref := by
  constructor
  · rintro ⟨hmem, hwire⟩
    exact ⟨_, List.mem_map_of_mem hmem, rfl, hwire⟩
  · rintro ⟨unit, hunit, rfl, hwire⟩
    obtain ⟨hmem, heq⟩ := Act.Joins.mem_units.1 hunit
    exact ⟨hmem, heq ▸ hwire⟩

/-- A request is met by the record that its key is memoized for. -/
theorem mem_requests {ref target : Ref .record} :
    (∃ request ∈ (Batch.describe host ref).requests, request.target = some target) ↔
      ∃ key ∈ (host.record ref).requestKeys,
        host.lookup? ⟨(host.record ref).home, key⟩ = some target := by
  constructor
  · rintro ⟨request, hrequest, htarget⟩
    obtain ⟨pair, hpair, rfl⟩ := List.mem_map.1 hrequest
    exact ⟨pair.2, List.mem_map_of_mem hpair, htarget⟩
  · rintro ⟨key, hkey, htarget⟩
    obtain ⟨pair, hpair, rfl⟩ := List.mem_map.1 hkey
    exact ⟨_, List.mem_map_of_mem hpair, htarget⟩

/-- To be affected by a reason is to come to a plan that fails for it. -/
theorem comesToFail_iff {ref : Ref .record} {failure : Failure} :
    host.ComesToFail refs ref failure ↔
      (Batch.ofRecords host refs).Affected ((Batch.ofRecords host refs).FailsFor failure) ref := by
  constructor
  · rintro ⟨reached, hpath, hfails⟩
    induction hpath using Relation.ReflTransGen.head_induction_on with
    | refl => exact .here (planFails_iff.1 hfails)
    | head hstep _ ih =>
      obtain ⟨hmem, -, hkey⟩ := hstep
      obtain ⟨request, hrequest, htarget⟩ := mem_requests.2 hkey
      exact .needs (List.mem_map_of_mem hmem) hrequest htarget ih
  · intro h
    induction h with
    | here hfails => exact ⟨_, .refl, planFails_iff.2 hfails⟩
    | @needs unit request target hunit hrequest htarget _ ih =>
      obtain ⟨reached, hpath, hfails⟩ := ih
      obtain ⟨hmem, heq⟩ := Act.Joins.mem_units.1 hunit
      have htaken : target ∈ refs := by
        rcases hpath.cases_head with rfl | ⟨_, ⟨hmem, -⟩, -⟩
        · exact hfails.1
        · exact hmem
      rw [heq] at hrequest
      exact ⟨reached, .head ⟨hmem, htaken, mem_requests.1 ⟨request, hrequest, htarget⟩⟩ hpath, hfails⟩

/-- A record breaks with its batch if it comes to a plan that fails. -/
theorem breaks_iff {ref : Ref .record} :
    (Batch.ofRecords host refs).Breaks ref ↔ ∃ failure, host.ComesToFail refs ref failure := by
  constructor
  · intro h
    induction h with
    | here hfaulty =>
      obtain ⟨unit, hunit, heq, failure, hwire⟩ := hfaulty
      exact ⟨failure, comesToFail_iff.2 (.here ⟨unit, hunit, heq, hwire⟩)⟩
    | needs hunit hrequest htarget _ ih =>
      obtain ⟨failure, hfails⟩ := ih
      exact ⟨failure, comesToFail_iff.2 (.needs hunit hrequest htarget (comesToFail_iff.1 hfails))⟩
  · rintro ⟨failure, h⟩
    exact (comesToFail_iff.1 h).mono fun other ⟨unit, hunit, heq, hwire⟩ =>
      ⟨unit, hunit, heq, failure, hwire⟩

/-- The records of a list that are still loaded can be linked together. -/
theorem stillLoaded_allLoaded (hexist : ∀ ref ∈ refs, (host.records.get? ref).isSome) :
    host.AllLoaded (host.stillLoaded refs) := by
  intro ref hmem
  obtain ⟨hmem, hphase⟩ := List.mem_filter.1 hmem
  obtain ⟨record, hrecord⟩ := Option.isSome_iff_exists.1 (hexist ref hmem)
  refine ⟨record, hrecord, ?_⟩
  have hown : host.record ref = record := congrArg (Option.getD · default) hrecord
  rw [← hown]
  exact of_decide_eq_true hphase

/-- A record that is loaded has a source, and nothing else with one has its namespace. -/
theorem Tidy.exposes_of_space (htidy : host.Tidy) {other ref : Ref .record}
    (hother : ∃ record, host.records.get? other = some record ∧ record.phase = .loaded)
    (hne : ref ≠ other) (hspace : (host.record other).space = (host.record ref).space) :
    (host.record ref).source = none := by
  cases hrecord : host.records.get? ref with
  | none =>
    unfold Host.record
    rw [hrecord]
    rfl
  | some record =>
    obtain ⟨record', hrecord', hloaded⟩ := hother
    have hown : host.record ref = record := congrArg (Option.getD · default) hrecord
    have hown' : host.record other = record' := congrArg (Option.getD · default) hrecord'
    rw [hown, hown'] at hspace
    rw [hown]
    cases hsource : record.source with
    | none => rfl
    | some source =>
      have hsome : record'.source.isSome := by
        rw [Option.isSome_iff_ne_none]
        intro hnone
        rw [htidy.exposed other record' hrecord' hnone] at hloaded
        cases hloaded
      exact absurd (htidy.distinct other ref record' record hrecord' hrecord hsome (hsource ▸ rfl)
        hspace).symm hne

end Host

namespace Act

theorem outcomeOf_failed {failed : List (Ref .record × Failure)} {unit : LinkUnit}
    {wiring : Except Failure Wiring} {failure : Failure}
    (h : Batch.failureAmong failed unit.record = some failure) :
    outcomeOf failed (unit, wiring) = .error failure := by
  unfold outcomeOf
  rw [h]

namespace Joins

variable {host before start after : Host} {refs : List (Ref .record)}
  {slots : List (Ref .record × List (String × Ref .slot))}

/-- A record of a batch is committed, or it breaks. -/
theorem linked_or_failed (h : Joins host before start after refs slots) {ref : Ref .record}
    (hmem : ref ∈ refs) :
    (after.record ref).phase = .linked ∧ ¬ (Batch.ofRecords host refs).Breaks ref ∨
      (after.record ref).phase = .failed ∧ (Batch.ofRecords host refs).Breaks ref := by
  by_cases hbreaks : (Batch.ofRecords host refs).Breaks ref
  · exact .inr ⟨(h.broken hmem hbreaks).2.1, hbreaks⟩
  · obtain ⟨wiring, hcommits⟩ := h.commits hmem hbreaks
    exact .inl ⟨(h.committed hcommits).2, hbreaks⟩

theorem failed_iff_breaks (h : Joins host before start after refs slots) {ref : Ref .record}
    (hmem : ref ∈ refs) :
    (after.record ref).phase = .failed ↔ (Batch.ofRecords host refs).Breaks ref := by
  rcases h.linked_or_failed hmem with ⟨hlinked, hsound⟩ | ⟨hfailed, hbreaks⟩
  · rw [hlinked]
    exact iff_of_false (fun heq => nomatch heq) hsound
  · exact iff_of_true hfailed hbreaks

/-- A record that breaks has the failure that its batch found for it. -/
theorem error_of_breaks (h : Joins host before start after refs slots) {ref : Ref .record}
    (hmem : ref ∈ refs) (hbreaks : (Batch.ofRecords host refs).Breaks ref) :
    ∃ failure, (after.record ref).error = some failure ∧
      Batch.failureAmong (Batch.ofRecords host refs).failed ref = some failure := by
  have hsettled := h.links.settles.settled (Batch.describe host ref,
    (Batch.ofRecords host refs).wire (Batch.describe host ref)) (by
      rw [h.begins.ofRecords]
      exact List.mem_map_of_mem (List.mem_map_of_mem hmem))
  have hsome := Batch.failureAmong_isSome.2 ((Batch.fails_iff h.proper).2 hbreaks)
  obtain ⟨failure, hfailure⟩ := Option.isSome_iff_exists.1 hsome
  have hfailure : Batch.failureAmong (Batch.ofRecords before refs).failed ref = some failure := by
    rw [h.begins.ofRecords]
    exact hfailure
  rw [outcomeOf_failed hfailure] at hsettled
  obtain ⟨-, hget⟩ := hsettled
  exact ⟨failure, congrArg (fun found => (found.getD default).error) hget, h.begins.ofRecords ▸ hfailure⟩

/-- A record that breaks keeps the exports of its namespace: there were none. -/
theorem exports_of_breaks (h : Joins host before start after refs slots) (htidy : host.Tidy)
    {ref : Ref .record} (hmem : ref ∈ refs) (hbreaks : (Batch.ofRecords host refs).Breaks ref) :
    (after.store.space (host.record ref).space).exports =
      (host.store.space (host.record ref).space).exports := by
  refine (h.broken hmem hbreaks).2.2.trans ?_
  obtain ⟨record, ⟨hget, -, space, hspace, hexports⟩, -⟩ := Begins.blank h.begins htidy hmem
  have hown : before.record ref = record := congrArg (Option.getD · default) hget
  have hstore : host.store = before.store := by rw [h.begins.rest]
  rw [← h.begins.space, hown, hstore]
  unfold Store.space
  rw [hspace]
  exact hexports.symm

/-- Only the namespaces of records that became linked get other exports. -/
theorem exports_or_linked (h : Joins host before start after refs slots) (space : Ref .exports) :
    (after.store.space space).exports = (host.store.space space).exports ∨
      ∃ other ∈ refs, (after.record other).phase = .linked ∧ (host.record other).space = space := by
  by_cases hlinked : ∃ other ∈ refs, (after.record other).phase = .linked ∧
      (host.record other).space = space
  · exact .inr hlinked
  · left
    have hnot : ∀ unit wiring, (Batch.ofRecords before refs).Commits unit wiring →
        (before.record unit.record).space ≠ space := by
      intro unit wiring hcommits hspace
      rw [h.begins.ofRecords] at hcommits
      obtain ⟨hmem, heq⟩ := mem_units.1 hcommits.mem
      rw [heq] at hcommits
      rw [h.begins.space] at hspace
      exact hlinked ⟨unit.record, hmem, (h.committed hcommits).2, hspace⟩
    rw [h.links.exports hnot, h.begins.rest]

/-- What became of a host when some of its records were linked together. -/
theorem linksExactly (h : Joins host before start after refs slots) (htidy : host.Tidy)
    (hloaded : host.AllLoaded refs) (hmet : ∀ ref ∈ refs, ∀ key ∈ (host.record ref).requestKeys,
      (host.lookup? ⟨(host.record ref).home, key⟩).isSome) : host.LinksExactly after refs where
  settled ref hmem := (h.linked_or_failed hmem).imp And.left And.left
  failed_iff ref hmem := (h.failed_iff_breaks hmem).trans Host.breaks_iff
  own ref failure hfails := by
    have hbreaks := Host.breaks_iff.2 ⟨failure, ref, .refl, hfails⟩
    obtain ⟨found, herror, hfound⟩ := h.error_of_breaks hfails.1 hbreaks
    rw [herror, ← hfound]
    exact Batch.failureAmong_failed h.proper (List.mem_map_of_mem hfails.1) hfails.2
  error ref hmem hfailed := by
    obtain ⟨failure, herror, hfound⟩ := h.error_of_breaks hmem ((h.failed_iff_breaks hmem).1 hfailed)
    exact ⟨failure, herror, Host.comesToFail_iff.2 (Batch.failed_blames h.proper hfound)⟩
  flaws ref hmem := by
    rw [← Batch.wire_fails_iff h.proper (List.mem_map_of_mem hmem) fun request hrequest => ?_]
    · exact exists_congr fun failure => ⟨And.right, fun hwire => ⟨hmem, hwire⟩⟩
    · obtain ⟨pair, hpair, rfl⟩ := List.mem_map.1 hrequest
      exact hmet ref hmem _ (List.mem_map_of_mem hpair)
  unspoilt ref hmem hfailed := by
    have hbreaks := (h.failed_iff_breaks hmem).1 hfailed
    exact ⟨(h.broken hmem hbreaks).1, h.exports_of_breaks htidy hmem hbreaks⟩
  others ref hnot := h.records hnot
  spaces ref hnot := by
    refine (h.exports_or_linked (host.record ref).space).imp_right fun hlinked => ⟨?_, hlinked⟩
    obtain ⟨other, hmem, -, hspace⟩ := hlinked
    exact htidy.exposes_of_space (hloaded other hmem) (fun heq => hnot (heq ▸ hmem)) hspace
  slots := h.slots_extend

end Joins

end Act

/-- Two modules that import each other, one of them a name that does not exist, a module above them and
a sound one beside them. -/
def missingName : Host :=
  (Act.loadNow ⟨⟨0⟩, "main"⟩ (Act.newCompartment (.simple "names"
    [("main", ChainKind.moduleOf [.importAll "left" "left", .importAll "right" "right"] none),
     ("left", ChainKind.moduleOf [.importAll "other" "other"] none),
     ("other", ChainKind.moduleOf [.importAll "left" "left", .importName "z" "right"] none),
     ("right", ChainKind.moduleOf [.exportName "x"] none)]) default).2).2

theorem missingName_sound : missingName.Sound :=
  (Act.loadNow_sound (Act.newCompartment_sound Host.fresh_sound _).1 (by decide +kernel)).1

namespace Act

end Act

end ModuleLoader
