import ModuleLoader.Proofs.Coherence
import ModuleLoader.Proofs.Enlistments
import ModuleLoader.Proofs.PendingGraphs
/-!
Scheduling keeps a host coherent. The groups of a schedule share completions that are new, so nobody else
works for them; their driver waits for exactly the components and the earlier records that they depend on;
and whatever they depend on besides has completed, has failed, or was missed.
-/

namespace ModuleLoader
set_option autoImplicit false

theorem exists_suffix_of_mem {α : Type} {value : α} : ∀ {values : List α}, value ∈ values →
    ∃ before, (value :: before) <:+ values
  | first :: rest, hmem => by
    rcases List.mem_cons.1 hmem with rfl | hmem
    · exact ⟨rest, List.suffix_refl _⟩
    · obtain ⟨before, hbefore⟩ := exists_suffix_of_mem hmem
      exact ⟨before, hbefore.trans (List.suffix_cons _ _)⟩

namespace Host

variable {host : Host} {ref root : Ref .record} {node : Node}

/-- A record that began has a completion. -/
theorem Told.ready_of_executing (h : host.Told) (hmem : .moved ref .executing ∈ host.chronicle) :
    ∃ ready, (host.record ref).ready = some ready := by
  obtain ⟨before, hbefore⟩ := exists_suffix_of_mem hmem
  obtain ⟨-, -, hbegins⟩ := h _ before hbefore
  obtain ⟨-, -, done, rest, ready, -, -, hgrouped, -⟩ := hbegins rfl
  exact ⟨ready, (hgrouped ref).1 (List.mem_append_right _ List.mem_cons_self)⟩

/-- A record that completed has begun. -/
theorem Told.executing_of_ready (h : host.Told) (hmem : .moved ref .ready ∈ host.chronicle) :
    .moved ref .executing ∈ host.chronicle := by
  obtain ⟨before, hbefore⟩ := exists_suffix_of_mem hmem
  exact hbefore.subset (List.mem_cons_of_mem _ ((h _ before hbefore).2.1 rfl))

/-- Whoever is found exists. -/
theorem LoadsInOrder.lookup_exists (h : host.LoadsInOrder) (hlookup : host.lookup? node = some ref) :
    (host.records.get? ref).isSome := by
  obtain ⟨entry, hentry, rfl⟩ := Option.map_eq_some_iff.1 hlookup
  have hvalid := h.memo _ _ hentry
  cases entry with
  | own record => exact hvalid
  | borrowed owner key record => exact hvalid.1

/-- Everything that a record depends on exists. -/
theorem LoadsInOrder.dependency_exists (h : host.LoadsInOrder) {record : Record} {needed : Ref .record}
    (hmem : needed ∈ host.dependencies record) : (host.records.get? needed).isSome := by
  obtain ⟨key, -, hlookup⟩ := List.mem_filterMap.1 hmem
  exact h.lookup_exists hlookup

/-- A record that failed has moved there. -/
theorem Coherent.moved_failed (h : host.Coherent) (hfailed : (host.record ref).phase = .failed)
    (hexist : (host.records.get? ref).isSome) : .moved ref .failed ∈ host.chronicle := by
  obtain ⟨record, hrecord⟩ := Option.isSome_iff_exists.1 hexist
  obtain rfl : host.record ref = record := congrArg (Option.getD · default) hrecord
  have hsource : (host.record ref).source.isSome := by
    cases hsource : (host.record ref).source with
    | some source => rfl
    | none =>
      rw [h.tidy.exposed ref _ hrecord hsource] at hfailed
      cases hfailed
  rcases h.recorded.phase ref _ hrecord hsource with hloaded | hmoved
  · rw [hfailed] at hloaded
    cases hloaded
  · rwa [hfailed] at hmoved

/-- A record that failed before it was linked is lost to its own failure. -/
theorem Coherent.lost_of_dropped (h : host.Coherent) (hfailed : (host.record ref).phase = .failed)
    (hexist : (host.records.get? ref).isSome) (hunlinked : ¬ host.Linked ref) :
    host.Lost ref (host.record ref).failure := by
  obtain ⟨failure, herror⟩ := Option.isSome_iff_exists.1 ((h.recorded.failed ref).1 hfailed)
  have hfailure : (host.record ref).failure = failure := by
    unfold Record.failure
    rw [herror]
    rfl
  obtain ⟨before, hbefore⟩ := exists_suffix_of_mem (h.moved_failed hfailed hexist)
  have hdropped : DroppedIn host.chronicle ref :=
    ⟨before, hbefore, fun hlinked => hunlinked (hbefore.subset (List.mem_cons_of_mem _ hlinked))⟩
  rw [hfailure]
  exact ⟨⟨ref, failure, .inl rfl, herror⟩, ref, .refl, herror, .inl hdropped⟩

/-- Whoever passed linking was linked, has begun, or has failed, or exposes a namespace. -/
theorem Coherent.exposes_of_pastLinking (h : host.Coherent) (hready : (host.record ref).ready = none)
    (hunlinked : ¬ host.Linked ref) (hfailed : (host.record ref).phase ≠ .failed)
    (hpast : host.PastLinkingIn host.chronicle ref) : host.Exposes ref := by
  rcases hpast with hexposes | ⟨phase, hmoved, hrank⟩
  · exact hexposes
  · obtain ⟨found, hfound, -, hphase⟩ := h.recorded.moved ref phase hmoved
    obtain rfl : host.record ref = found := congrArg (Option.getD · default) hfound
    have hunbegun (hbegun : .moved ref .executing ∈ host.chronicle) : False := by
      obtain ⟨ready, hsome⟩ := h.told.ready_of_executing hbegun
      rw [hready] at hsome
      cases hsome
    cases phase with
    | loaded => exact absurd hrank (by decide)
    | linking => exact absurd hrank (by decide)
    | linked => exact absurd hmoved hunlinked
    | executing => exact (hunbegun hmoved).elim
    | ready => exact (hunbegun (h.told.executing_of_ready hmoved)).elim
    | failed =>
      rcases hphase with hsame | hallows
      · exact absurd hsame.symm hfailed
      · cases hallows

/-- A record without a completion that does not wait to be scheduled has failed while it was linked, or
exposes a namespace, or is not past linking. -/
theorem Coherent.left_out (h : host.Coherent) (hexist : (host.records.get? ref).isSome)
    (hready : (host.record ref).ready = none) (hpending : ¬ host.Pending ref) :
    (host.record ref).phase = .failed ∧ host.Lost ref (host.record ref).failure ∨
      (host.record ref).phase ≠ .failed ∧
        (host.Exposes ref ∨ ¬ host.PastLinkingIn host.chronicle ref) := by
  have hunlinked : ¬ host.Linked ref := fun hlinked =>
    hpending (h.recorded.pending_of_linked hlinked hready)
  by_cases hfailed : (host.record ref).phase = .failed
  · exact .inl ⟨hfailed, h.lost_of_dropped hfailed hexist hunlinked⟩
  · by_cases hpast : host.PastLinkingIn host.chronicle ref
    · exact .inr ⟨hfailed, .inl (h.exposes_of_pastLinking hready hunlinked hfailed hpast)⟩
    · exact .inr ⟨hfailed, .inr hpast⟩

theorem Coherent.linked_of_schedulable (h : host.Coherent) {groups : List (List (Ref .record))}
    (hs : host.Schedulable root groups) (href : ref ∈ groups.flatten) : host.Linked ref :=
  h.recorded.linked_of_pending h.tidy (hs.pending ref href)

/-- The host in which a schedule was announced. -/
def scheduling (host : Host) (root : Ref .record) (groups : List (List (Ref .record))) : Host :=
  { host with chronicle := .scheduled root groups :: host.chronicle }

/-- Without a completion, and not waiting to be scheduled, a record that the root covers stands for what
became of it. -/
theorem Coherent.completion_left_out (h : host.Coherent) {host' : Host} (hcarries : Carries host host')
    {groups : List (List (Ref .record))}
    (hchronicle : host'.chronicle = .scheduled root groups :: host.chronicle)
    (hcovers : host.Covers root ref) (hexist : (host.records.get? ref).isSome)
    (hready : (host.record ref).ready = none) (hpending : ¬ host.Pending ref) :
    (host.completion ref).StandsFor host' ref := by
  unfold completion
  dsimp only
  rw [hready]
  rcases h.left_out hexist hready hpending with ⟨hfailed, hlost⟩ | ⟨hfailed, hleft⟩
  · dsimp only
    rw [if_pos hfailed]
    exact hcarries.lost hlost
  · dsimp only
    rw [if_neg hfailed]
    rcases hleft with hexposes | hmissed
    · exact .inl (.inl (hcarries.later.exposes hexposes))
    · refine .inr ⟨root, groups, host.chronicle, ⟨[], hchronicle.symm⟩,
        hcarries.later.covers hcovers, hcarries.later.keeps.records ref hexist, ?_⟩
      · rintro (hexposes | hpast)
        · exact hmissed (.inl (hcarries.later.exposes_back hexist hexposes))
        · exact hmissed (.inr hpast)

end Host

namespace Act.Enlists

variable {host host' : Host} {root ref : Ref .record} {groups : List (List (Ref .record))}
  {pairs : List (List (Ref .record) × Ref .verdict)} {driver : Ref .driver} {bell : Ref .bell}
  {work : DriverWork}
  (h : Enlists (host.scheduling root groups) host' groups pairs driver bell work)
include h

theorem chronicle : host'.chronicle = .scheduled root groups :: host.chronicle := by
  rw [h.rest]
  rfl

theorem pairs_groups : pairs.map Prod.fst = groups := h.posts.groups

theorem exists_pair (href : ref ∈ groups.flatten) :
    ∃ members verdict, (members, verdict) ∈ pairs ∧ ref ∈ members := by
  obtain ⟨members, hmembers, href⟩ := List.mem_flatten.1 href
  rw [← h.pairs_groups] at hmembers
  obtain ⟨⟨group, verdict⟩, hpair, rfl⟩ := List.mem_map.1 hmembers
  exact ⟨group, verdict, hpair, href⟩

theorem mem_groups {members : List (Ref .record)} {verdict : Ref .verdict}
    (hpair : (members, verdict) ∈ pairs) : members ∈ groups := by
  rw [← h.pairs_groups]
  exact List.mem_map_of_mem (f := Prod.fst) hpair

/-- Only completions are new. -/
theorem get?_record {record : Record} (hrecord : host.records.get? ref = some record) :
    ∃ ready, host'.records.get? ref = some { record with ready } := by
  by_cases href : ref ∈ groups.flatten
  · obtain ⟨members, verdict, hpair, href⟩ := h.exists_pair href
    obtain ⟨ready, -, -, -, -, hrecords⟩ := h.shares.shared members verdict hpair
    obtain ⟨found, hfound, hnew⟩ := hrecords ref href
    obtain rfl := Option.some.inj (hfound.symm.trans hrecord)
    exact ⟨some ready, hnew⟩
  · exact ⟨record.ready, (h.shares.others ref (h.pairs_groups ▸ href)).trans hrecord⟩

theorem get?_none (hnone : host.records.get? ref = none) : host'.records.get? ref = none := by
  by_cases href : ref ∈ groups.flatten
  · obtain ⟨members, verdict, hpair, href⟩ := h.exists_pair href
    obtain ⟨_, _, _, _, _, hrecords⟩ := h.shares.shared members verdict hpair
    obtain ⟨found, hfound, -⟩ := hrecords ref href
    cases hnone.symm.trans hfound
  · exact (h.shares.others ref (h.pairs_groups ▸ href)).trans hnone

theorem record_eq (ref : Ref .record) : ∃ ready, host'.record ref = { host.record ref with ready } := by
  cases hrecord : host.records.get? ref with
  | none =>
    refine ⟨none, ?_⟩
    unfold Host.record
    rw [h.get?_none hrecord, hrecord]
    rfl
  | some record =>
    obtain ⟨ready, hnew⟩ := h.get?_record hrecord
    refine ⟨ready, ?_⟩
    unfold Host.record
    rw [hnew, hrecord]
    rfl

theorem phase (ref : Ref .record) : (host'.record ref).phase = (host.record ref).phase := by
  obtain ⟨ready, heq⟩ := h.record_eq ref
  rw [heq]

theorem error (ref : Ref .record) : (host'.record ref).error = (host.record ref).error := by
  obtain ⟨ready, heq⟩ := h.record_eq ref
  rw [heq]

theorem ready_of_not_mem (href : ref ∉ groups.flatten) :
    (host'.record ref).ready = (host.record ref).ready :=
  congrArg (fun found => (found.getD default).ready) (h.shares.others ref (h.pairs_groups ▸ href))

/-- The members of a group have one completion, which is new and works under its verdict. -/
theorem ready_of_pair {members : List (Ref .record)} {verdict : Ref .verdict}
    (hpair : (members, verdict) ∈ pairs) : ∃ ready bell first, host.readies.get? ready = none ∧
      host'.readies.get? ready = some ⟨bell, .idle ⟨some ⟨driver, none⟩, verdict, first⟩⟩ ∧
        ∀ ref ∈ members, (host'.record ref).ready = some ready := by
  obtain ⟨ready, bell, first, hnone, hsome, hrecords⟩ := h.shares.shared members verdict hpair
  refine ⟨ready, bell, first, hnone, hsome, fun ref href => ?_⟩
  obtain ⟨record, -, hnew⟩ := hrecords ref href
  exact congrArg (fun found => (found.getD default).ready) hnew

theorem members_unique {members members' : List (Ref .record)} {verdict : Ref .verdict}
    (hpair : (members, verdict) ∈ pairs) (hpair' : (members', verdict) ∈ pairs) : members = members' := by
  have hswapped : (pairs.map Prod.swap).map Prod.fst = pairs.map Prod.snd := by
    rw [List.map_map]
    rfl
  exact pair_unique (hswapped ▸ h.posts.nodup) (List.mem_map_of_mem (f := Prod.swap) hpair)
    (List.mem_map_of_mem (f := Prod.swap) hpair')

theorem dependencies (ref : Ref .record) :
    host'.dependencies (host'.record ref) = host.dependencies (host.record ref) := by
  obtain ⟨ready, heq⟩ := h.record_eq ref
  have hcompartments : host'.compartments = host.compartments := by
    rw [h.rest]
    rfl
  rw [heq]
  unfold Host.dependencies Host.lookup? Host.entryAt? Host.compartment
  rw [hcompartments]
  rfl

theorem moves : Moves host host' where
  loads := by
    refine ⟨by rw [h.rest]; rfl, by rw [h.rest]; rfl, by rw [h.rest]; rfl, by rw [h.rest]; rfl,
      fun ref href => ?_, fun node target hmem => ?_⟩
    · obtain ⟨record, hrecord⟩ := Option.isSome_iff_exists.1 href
      obtain ⟨ready, hnew⟩ := h.get?_record hrecord
      exact hnew ▸ rfl
    · rw [h.chronicle] at hmem
      exact (List.mem_cons.1 hmem).resolve_left fun heq => nomatch heq
  store := by
    rw [h.rest]
    rfl
  records ref record hrecord := by
    obtain ⟨ready, hnew⟩ := h.get?_record hrecord
    exact ⟨_, hnew, ⟨rfl, .inl rfl⟩, rfl⟩
  none _ := h.get?_none
  linked ref hlinked := by
    unfold Host.Linked at hlinked
    rw [h.chronicle] at hlinked
    exact (List.mem_cons.1 hlinked).resolve_left fun heq => nomatch heq
  chronicle := by
    rw [h.chronicle]
    exact List.suffix_cons _ _

theorem moved_mem {phase : Phase} :
    .moved ref phase ∈ host'.chronicle ↔ .moved ref phase ∈ host.chronicle := by
  rw [h.chronicle, List.mem_cons]
  exact or_iff_right fun heq => nomatch heq

variable (hs : host.Schedulable root groups)
include hs

/-- A record keeps its completion. -/
theorem ready_old {ready : Ref .ready} (hready : (host.record ref).ready = some ready) :
    (host'.record ref).ready = some ready := by
  rw [h.ready_of_not_mem fun href => ?_]
  · exact hready
  · have hnone := (Host.pending_iff.1 (hs.pending ref href)).2
    cases hnone.symm.trans hready

variable (hc : host.Coherent)

omit hs in
/-- A completion that was there is that of no other record now. -/
theorem ready_back {ready : Ref .ready} (hexist : (host.readies.get? ready).isSome)
    (hready : (host'.record ref).ready = some ready) : (host.record ref).ready = some ready := by
  by_cases href : ref ∈ groups.flatten
  · obtain ⟨members, verdict, hpair, href⟩ := h.exists_pair href
    obtain ⟨found, -, -, hnone, -, hmembers⟩ := h.ready_of_pair hpair
    obtain rfl := Option.some.inj (hready.symm.trans (hmembers ref href))
    rw [hnone] at hexist
    cases hexist
  · rwa [h.ready_of_not_mem href] at hready

theorem carries : Carries host host' where
  later := h.moves.later
  ready _ _ hready := h.ready_old hs hready
  exist _ hexist := h.shares.kept.isSome hexist
  group _ _ hexist hready := h.ready_back hexist hready
  error ref failure herror := (h.error ref).trans herror
  spoken verdict hspoken := by
    obtain ⟨result, hresult⟩ := Option.isSome_iff_exists.1 hspoken
    obtain ⟨posted, hposted, hresult⟩ := Option.bind_eq_some_iff.1 hresult
    have hkept : host'.verdicts.get? verdict = some posted := h.posts.kept verdict posted hposted
    rw [hkept, Option.bind_some, hresult]
    rfl

omit hs in
theorem drivers_kept {other : Ref .driver} {shared : Shared DriverWork Unit}
    (hshared : Shelf.drivers.get? host other = some shared) :
    Shelf.drivers.get? host' other = some shared := by
  rw [h.drivers, if_neg]
  · exact hshared
  · rintro rfl
    cases h.afresh.symm.trans hshared

theorem follows : Follows [] host host' where
  toCarries := h.carries hs
  tasks := by
    rw [h.rest]
    rfl
  readies _ _ _ hwork := h.shares.kept _ _ hwork
  drivers _ _ _ hwork := h.drivers_kept hwork
  members _ _ _ _ _ _ ref _ _ := h.phase ref

include hc

omit hs in
/-- The members of a group are now the records of one completion, and it is the only one that works under
their verdict. -/
theorem grouped {members : List (Ref .record)} {verdict : Ref .verdict}
    (hpair : (members, verdict) ∈ pairs) : ∃ ready, host.readies.get? ready = none ∧
      host'.Grouped members ready ∧
        ∀ other work, host'.Completes other work → work.verdict = verdict → other = ready := by
  obtain ⟨ready, bell, first, hnone, hsome, hmembers⟩ := h.ready_of_pair hpair
  refine ⟨ready, hnone, fun ref => ⟨hmembers ref, fun hready => ?_⟩, fun other work hother hverdict => ?_⟩
  · by_cases href : ref ∈ groups.flatten
    · obtain ⟨members', verdict', hpair', href'⟩ := h.exists_pair href
      obtain ⟨ready', bell', first', -, hsome', hmembers'⟩ := h.ready_of_pair hpair'
      obtain rfl := Option.some.inj (hready.symm.trans (hmembers' ref href'))
      rw [hsome] at hsome'
      cases hsome'
      rw [h.members_unique hpair hpair']
      exact href'
    · rw [h.ready_of_not_mem href] at hready
      have hexist := (hc.recorded.ready ref ready hready).2
      rw [hnone] at hexist
      cases hexist
  · obtain ⟨place, hplace⟩ := Option.isSome_iff_exists.1 hother.isSome
    cases hold : host.readies.get? other with
    | some shared =>
      -- A completion that was there works under a verdict that was there.
      have hcompletes : host.Completes other work := by
        obtain ⟨bell, hwork⟩ := hother
        refine ⟨bell, hwork.imp (fun hwork => ?_) fun hwork => ?_⟩ <;>
        · rw [hold]
          exact (h.shares.kept _ _ hold).symm.trans hwork
      have hexist := hc.announced.exist other work hcompletes
      have hfresh : host.verdicts.get? verdict = none := (h.posts.fresh _ hpair).1
      rw [hverdict, hfresh] at hexist
      cases hexist
    | none =>
      obtain ⟨members', verdict', bell', first', hpair', rfl, ref, href, hready⟩ :=
        h.shares.new other place hplace hold
      have hwork : verdict' = work.verdict := by
        obtain ⟨bell, hwork | hwork⟩ := hother
        · cases hplace.symm.trans hwork
          rfl
        · cases hplace.symm.trans hwork
      obtain rfl := hwork.trans hverdict
      obtain rfl := h.members_unique hpair hpair'
      exact Option.some.inj (hready.symm.trans (hmembers ref href))

omit hs in
/-- Whoever has a completion got it now, with a group, or had it. -/
theorem ready_cases {ready : Ref .ready} (hready : (host'.record ref).ready = some ready) :
    (∃ members verdict, (members, verdict) ∈ pairs ∧ ref ∈ members ∧ host'.Grouped members ready ∧
      (host'.readies.get? ready).isSome) ∨ (host.record ref).ready = some ready := by
  by_cases href : ref ∈ groups.flatten
  · obtain ⟨members, verdict, hpair, hmem⟩ := h.exists_pair href
    obtain ⟨found, _, _, _, hsome, hmembers⟩ := h.ready_of_pair hpair
    obtain ⟨other, -, hgrouped, -⟩ := h.grouped hc hpair
    obtain rfl := Option.some.inj (hready.symm.trans (hmembers ref hmem))
    obtain rfl := Option.some.inj (hready.symm.trans ((hgrouped ref).1 hmem))
    exact .inl ⟨members, verdict, hpair, hmem, hgrouped, hsome ▸ rfl⟩
  · exact .inr ((h.ready_of_not_mem href).symm.trans hready)

theorem recorded : host'.Recorded where
  moved ref phase hmem := by
    obtain ⟨record, hrecord, hsource, hphase⟩ := hc.recorded.moved ref phase (h.moved_mem.1 hmem)
    obtain ⟨ready, hnew⟩ := h.get?_record hrecord
    exact ⟨_, hnew, hsource, hphase⟩
  phase ref record' hrecord' hsource := by
    cases hrecord : host.records.get? ref with
    | none => cases (h.get?_none hrecord).symm.trans hrecord'
    | some record =>
      obtain ⟨ready, hnew⟩ := h.get?_record hrecord
      cases hnew.symm.trans hrecord'
      rw [h.moved_mem]
      exact hc.recorded.phase ref record hrecord hsource
  bare ref record' hrecord' hsource := by
    cases hrecord : host.records.get? ref with
    | none => cases (h.get?_none hrecord).symm.trans hrecord'
    | some record =>
      obtain ⟨ready, hnew⟩ := h.get?_record hrecord
      cases hnew.symm.trans hrecord'
      exact hc.recorded.bare ref record hrecord hsource
  ready ref ready hready := by
    rcases h.ready_cases hc hready with ⟨members, verdict, hpair, hmem, -, hexist⟩ | hold
    · refine ⟨h.moves.later.linked (hc.linked_of_schedulable hs ?_), hexist⟩
      exact List.mem_flatten_of_mem (h.mem_groups hpair) hmem
    · obtain ⟨hlinked, hexist⟩ := hc.recorded.ready ref ready hold
      exact ⟨h.moves.later.linked hlinked, (h.carries hs).exist ready hexist⟩
  scheduled ref ready hready := by
    rcases h.ready_cases hc hready with ⟨members, verdict, hpair, hmem, -⟩ | hold
    · refine ⟨root, groups, ?_, List.mem_flatten_of_mem (h.mem_groups hpair) hmem⟩
      rw [h.chronicle]
      exact List.mem_cons_self
    · obtain ⟨earlier, groups', hmem, href⟩ := hc.recorded.scheduled ref ready hold
      exact ⟨earlier, groups', h.moves.later.chronicle.subset hmem, href⟩
  waiting ref hlinked hready := by
    rw [h.phase]
    refine hc.recorded.waiting ref (h.moved_mem.1 hlinked) ?_
    cases hold : (host.record ref).ready with
    | none => rfl
    | some ready => cases hready.symm.trans (h.ready_old hs hold)
  failed ref := by
    rw [h.phase, h.error]
    exact hc.recorded.failed ref
  fixed ref hlinked := h.moves.later.fixed hc.recorded (h.moved_mem.1 hlinked)
  together ref other ready hready hready' := by
    rcases h.ready_cases hc hready with ⟨members, verdict, hpair, hmem, hgrouped, -⟩ | hold
    · exact h.moves.later.covers
        (hs.joined members (h.mem_groups hpair) ref hmem other ((hgrouped other).2 hready'))
    · exact h.moves.later.covers (hc.recorded.together ref other ready hold
        (h.ready_back (hc.recorded.ready ref ready hold).2 hready'))

/-- The schedule is one of records that were not scheduled before, with all that they need. -/
theorem scheduledIn : host'.ScheduledIn host.chronicle root groups where
  nodup := hs.nodup
  afresh earlier groups' hmem ref href hmem' := by
    obtain ⟨before, hbefore⟩ := exists_suffix_of_mem hmem
    obtain ⟨members, hmembers, href⟩ := List.mem_flatten.1 href
    obtain ⟨-, ready, hgrouped⟩ := (hc.told _ before hbefore).grouped members hmembers
    have hnone := (Host.pending_iff.1 (hs.pending ref hmem')).2
    cases hnone.symm.trans ((hgrouped ref).1 href)
  grouped members hmembers := by
    rw [← h.pairs_groups] at hmembers
    obtain ⟨⟨group, verdict⟩, hpair, rfl⟩ := List.mem_map.1 hmembers
    obtain ⟨ready, -, hgrouped, -⟩ := h.grouped hc hpair
    exact ⟨hs.nonempty group (h.mem_groups hpair), ready, hgrouped⟩
  covered ref href := h.moves.later.covers (hs.covered ref href)
  closed ref href needed hneeded hlinked := by
    rw [h.dependencies] at hneeded
    cases hready : (host.record needed).ready with
    | none => exact .inl (hs.next ref href needed hneeded (hc.recorded.pending_of_linked hlinked hready))
    | some ready => exact .inr (hc.recorded.scheduled needed ready hready)
  apart := by
    refine hs.apart.imp fun hapart ref href other hother hreaches => ?_
    refine hapart ref href other hother (Relation.ReflTransGen.mono ?_ _ _ hreaches)
    rintro a b ⟨ha, hb, hneeded⟩
    exact ⟨ha, hb, h.dependencies a ▸ hneeded⟩

theorem told : host'.Told := by
  have hchronicle : host'.chronicle = [.scheduled root groups] ++ host.chronicle := h.chronicle
  refine (h.carries hs).told hc.recorded hc.told hchronicle fun mark before hbefore => ?_
  obtain ⟨rfl, rfl⟩ : mark = .scheduled root groups ∧ before = [] := by
    rcases List.suffix_cons_iff.1 hbefore with heq | hbefore
    · exact List.cons.inj heq
    · cases List.suffix_nil.1 hbefore
  exact h.scheduledIn hs hc

omit hs hc in
/-- Who works for a completion did before, or works for that of a group. -/
theorem completes_cases {ready : Ref .ready} {work : ReadyWork} (hwork : host'.Completes ready work) :
    host.Completes ready work ∨ host.readies.get? ready = none ∧ work.driver = some ⟨driver, none⟩ ∧
      ∃ members, (members, work.verdict) ∈ pairs := by
  obtain ⟨shared, hshared⟩ := Option.isSome_iff_exists.1 hwork.isSome
  obtain ⟨bell, hwork⟩ := hwork
  cases hold : host.readies.get? ready with
  | some found =>
    refine .inl ⟨bell, ?_⟩
    rw [hold, ← show host'.readies.get? ready = some found from h.shares.kept _ _ hold]
    exact hwork
  | none =>
    obtain ⟨members, verdict, place, first, hpair, rfl, -⟩ := h.shares.new ready shared hshared hold
    obtain hwork | hwork := hwork
    · cases hshared.symm.trans hwork
      exact .inr ⟨rfl, rfl, members, hpair⟩
    · cases hshared.symm.trans hwork

omit hs hc in
theorem verdict_new {members : List (Ref .record)} {verdict : Ref .verdict}
    (hpair : (members, verdict) ∈ pairs) : host'.verdicts.get? verdict = some ⟨none, none⟩ :=
  (h.posts.fresh _ hpair).2

theorem announced : host'.Announced where
  exist ready work hwork := by
    rcases h.completes_cases hwork with hold | ⟨-, -, members, hpair⟩
    · exact h.posts.kept.isSome (hc.announced.exist ready work hold)
    · exact h.verdict_new hpair ▸ rfl
  verdicts ready work result hwork hresult := by
    rcases h.completes_cases hwork with hold | ⟨-, -, members, hpair⟩
    · obtain ⟨verdict, hverdict⟩ := Option.isSome_iff_exists.1 (hc.announced.exist ready work hold)
      rw [show host'.verdicts.get? work.verdict = some verdict from h.posts.kept _ _ hverdict,
        ← hverdict] at hresult
      exact (h.carries hs).cameTo hc.recorded hold.isSome
        (hc.announced.verdicts ready work result hold hresult)
    · rw [h.verdict_new hpair] at hresult
      cases hresult
  done ready bell result hdone := by
    cases hold : host.readies.get? ready with
    | some shared =>
      have hsame : host'.readies.get? ready = some shared := h.shares.kept _ _ hold
      rw [hsame, ← hold] at hdone
      exact (h.carries hs).cameTo hc.recorded (hold ▸ rfl) (hc.announced.done ready bell result hdone)
    | none =>
      obtain ⟨members, verdict, place, first, -, heq, -⟩ := h.shares.new ready _ hdone hold
      cases heq

end Act.Enlists

end ModuleLoader
