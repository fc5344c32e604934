import ModuleLoader.Proofs.CompleteBatches
import ModuleLoader.Proofs.Instances
import ModuleLoader.Proofs.TracedDrafts
/-!
Linking never meets a module that was not loaded. A closure is whole when it is linked: every specifier
of a record that gets linked has a key, and the key is memoized where the record is at home. So no record
fails for want of another one, and a linked record never loses a dependency.
-/

namespace ModuleLoader
set_option autoImplicit false

namespace Host

/-- All that the record requests is memoized. -/
def Met (host : Host) (ref : Ref .record) : Prop :=
  (host.records.get? ref).isSome ∧ ∀ node ∈ host.requestNodes ref, (host.lookup? node).isSome

/-- What holds between any two actions of the batches that were linked and of the records that
failed. -/
structure Complete (host : Host) : Prop where
  orderly : host.Orderly
  traced : host.Traced
  /-- No record failed for want of a record. -/
  failures : ∀ ref record failure, host.records.get? ref = some record →
    record.error = some failure → failure.Met
  /-- Nothing was missing when a batch was linked. -/
  batches : ∀ batch unmet, .linking batch unmet ∈ host.chronicle →
    unmet = [] ∧ ∀ ref ∈ batch, host.Met ref
  linked : ∀ ref, host.Linked ref → host.Batched ref

variable {host host' : Host} {ref : Ref .record} {root : Node}

theorem Met.later (hlater : Later host host') (h : host.Met ref) : host'.Met ref := by
  obtain ⟨hexist, hrequests⟩ := h
  refine ⟨hlater.keeps.records ref hexist, fun node hnode => ?_⟩
  rw [hlater.requestNodes hexist] at hnode
  obtain ⟨record, hrecord⟩ := Option.isSome_iff_exists.1 (hrequests node hnode)
  exact Option.isSome_iff_exists.2 ⟨record, hlater.lookup? hrecord⟩

theorem Batched.later (hlater : Later host host') (h : host.Batched ref) : host'.Batched ref := by
  obtain ⟨batch, unmet, hbatch, hmem⟩ := h
  exact ⟨batch, unmet, hlater.chronicle.subset hbatch, hmem⟩

/-- A specifier of a record whose requests are met leads to a record. -/
theorem Met.target? (h : host.Met ref) (hresolved : (host.record ref).Resolved) {binding : Binding}
    (hmem : binding ∈ (host.record ref).bindings) {specifier : String}
    (hspecifier : binding.specifier? = some specifier) :
    ∃ target, host.target? ref specifier = some target := by
  obtain ⟨key, hkey⟩ := Option.isSome_iff_exists.1 (hresolved binding hmem specifier hspecifier)
  have hrequest : key ∈ (host.record ref).requestKeys := by
    obtain ⟨request, hfound, rfl⟩ := Option.map_eq_some_iff.1 hkey
    exact List.mem_map_of_mem (List.mem_of_find?_eq_some hfound)
  obtain ⟨target, htarget⟩ := Option.isSome_iff_exists.1 (h.2 _ (List.mem_map_of_mem hrequest))
  exact ⟨target, Option.bind_eq_some_iff.2 ⟨key, hkey, htarget⟩⟩

/-- Linking finds a record for every specifier and every request. -/
theorem Met.complete (h : host.Met ref) (hresolved : (host.record ref).Resolved) :
    (Batch.describe host ref).Complete where
  targets binding hmem specifier hspecifier := by
    obtain ⟨target, htarget⟩ := h.target? hresolved hmem hspecifier
    exact ⟨target, Batch.target_describe.2 htarget⟩
  requests request hmem := by
    obtain ⟨pair, hpair, rfl⟩ := List.mem_map.1 hmem
    exact h.2 _ (List.mem_map_of_mem (List.mem_map_of_mem hpair))

/-- No specifier is unmet among records whose requests are met. -/
theorem unmet_eq_nil {refs : List (Ref .record)} (hmet : ∀ ref ∈ refs, host.Met ref)
    (hresolved : ∀ ref ∈ refs, (host.record ref).Resolved) : host.unmet refs = [] := by
  refine List.flatMap_eq_nil_iff.2 fun ref href => List.filterMap_eq_nil_iff.2 fun specifier hmem => ?_
  obtain ⟨binding, hbinding, hspecifier⟩ := List.mem_filterMap.1 hmem
  obtain ⟨target, htarget⟩ := (hmet ref href).target? (hresolved ref href) hbinding hspecifier
  exact if_neg (by rw [htarget]; exact Bool.false_ne_true)

namespace Complete

theorem failure_met (h : host.Complete) (ref : Ref .record) : (host.record ref).failure.Met := by
  unfold Record.failure
  cases herror : (host.record ref).error with
  | none => trivial
  | some failure =>
    cases hrecord : host.records.get? ref with
    | none =>
      rw [Host.record, hrecord] at herror
      cases herror
    | some record =>
      rw [Host.record, hrecord] at herror
      exact h.failures ref record failure hrecord herror

theorem resolved (h : host.Complete) (href : (host.records.get? ref).isSome) :
    (host.record ref).Resolved := by
  obtain ⟨record, hrecord⟩ := Option.isSome_iff_exists.1 href
  rw [Host.record, hrecord]
  exact h.traced.resolved ref record hrecord

/-- A batch of records whose requests are met is complete. -/
theorem batch (h : host.Complete) {refs : List (Ref .record)} (hmet : ∀ ref ∈ refs, host.Met ref) :
    (Batch.ofRecords host refs).Complete := by
  have hunit (ref : Ref .record) (href : ref ∈ refs) : (Batch.describe host ref).Complete :=
    (hmet ref href).complete (h.resolved (hmet ref href).1)
  refine ⟨fun unit hmem => ?_, fun ref unit hfound => ?_, fun ref failure hfound => ?_⟩
  · obtain ⟨ref, href, rfl⟩ := List.mem_map.1 hmem
    exact hunit ref href
  · rw [Batch.unitOf_ofRecords fun ref href => (hmet ref href).1] at hfound
    split at hfound
    · rename_i href
      cases hfound
      exact hunit ref href
    · cases hfound
  · change Batch.exported host ref = .error failure at hfound
    unfold Batch.exported at hfound
    dsimp only at hfound
    split at hfound
    · cases hfound
      exact h.failure_met ref
    · cases hfound

/-- A later host is complete if what is new in it is. -/
theorem onward (h : host.Complete) (hlater : Later host host') (horderly : host'.Orderly)
    (htraced : host'.Traced)
    (hfailures : ∀ ref record' failure, host'.records.get? ref = some record' →
      record'.error = some failure → failure.Met ∨
        ∃ record, host.records.get? ref = some record ∧ record.error = some failure)
    (hmarks : ∀ mark ∈ host'.chronicle, mark ∈ host.chronicle ∨
      (∀ batch unmet, mark = .linking batch unmet → unmet = [] ∧ ∀ ref ∈ batch, host'.Met ref) ∧
        ∀ ref, mark = .moved ref .linked → host'.Batched ref) : host'.Complete where
  orderly := horderly
  traced := htraced
  failures ref record' failure hrecord' herror := by
    rcases hfailures ref record' failure hrecord' herror with hmet | ⟨record, hrecord, hold⟩
    · exact hmet
    · exact h.failures ref record failure hrecord hold
  batches batch unmet hmem := by
    rcases hmarks _ hmem with hold | ⟨hnew, -⟩
    · obtain ⟨hunmet, hmet⟩ := h.batches batch unmet hold
      exact ⟨hunmet, fun ref href => (hmet ref href).later hlater⟩
    · exact hnew batch unmet rfl
  linked ref hmem := by
    rcases hmarks _ hmem with hold | ⟨-, hnew⟩
    · exact (h.linked ref hold).later hlater
    · exact hnew ref rfl

theorem grows (h : host.Complete) (hloads : host'.LoadsInOrder) (hgrows : Grows host host')
    (htraced : host'.Traced) : host'.Complete := by
  refine h.onward hgrows.later (h.orderly.grows hloads hgrows) htraced
    (fun ref record' failure hrecord' herror => .inr ?_) fun mark hmark => ?_
  · cases hrecord : host.records.get? ref with
    | none =>
      rw [(hgrows.newborn ref record' hrecord hrecord').error] at herror
      cases herror
    | some record =>
      obtain rfl := Option.some.inj (hrecord'.symm.trans (hgrows.records ref record hrecord))
      exact ⟨record', rfl, herror⟩
  · by_cases hstands : ∃ node target, mark = .stands node target
    · obtain ⟨node, target, rfl⟩ := hstands
      exact .inr ⟨(fun _ _ heq => nomatch heq), fun _ heq => nomatch heq⟩
    · exact .inl (hgrows.mem_chronicle hmark fun node target heq => hstands ⟨node, target, heq⟩)

theorem aside (h : host.Complete) (haside : Aside host host') :
    host'.Complete ∧ Later host host' ∧ Traces host host' := by
  have hquiet := haside.quiet
  obtain ⟨htraced, htraces⟩ := h.traced.quiet hquiet
  exact ⟨h.grows (hquiet.loadsInOrder h.orderly.loads) hquiet.grows htraced, hquiet.grows.later,
    htraces⟩

/-- Nothing changes about what can be traced while the loading stays as it is. -/
theorem alike (h : host.Complete) (halike : LoadsAlike host host') (hlater : Later host host')
    (hnone : ∀ ref, host.records.get? ref = none → host'.records.get? ref = none) :
    host'.Traced ∧ Traces host host' := by
  refine h.traced.still hlater halike.loads (fun ref record hold hnew => ?_) halike.stands
    ⟨halike.entryAt?, halike.loadAt?, halike.promise?⟩
  rw [hnone ref hold] at hnew
  cases hnew

theorem advances (h : host.Complete) (hadvances : Advances Failure.Met host host') :
    host'.Complete ∧ Later host host' ∧ Traces host host' := by
  have hlater := hadvances.later
  obtain ⟨htraced, htraces⟩ := h.alike hadvances.loads hlater hadvances.none
  refine ⟨h.onward hlater (h.orderly.advances hadvances) htraced
    (fun ref record' failure hrecord' herror => ?_) fun mark hmark => ?_, hlater, htraces⟩
  · obtain ⟨record, hrecord, -, herrors⟩ := hadvances.record_back hrecord'
    exact (herrors failure herror).symm.imp_right fun hold => ⟨record, hrecord, hold⟩
  · obtain ⟨marks, hmarks, hall⟩ := hadvances.chronicle
    rw [hmarks] at hmark
    rcases List.mem_append.1 hmark with hmem | hmem
    · obtain ⟨ref, phase, rfl, hlinked⟩ := hall mark hmem
      refine .inr ⟨(fun _ _ heq => nomatch heq), fun other heq => ?_⟩
      cases heq
      exact hadvances.batched (hlinked rfl)
    · exact .inl hmem

theorem works (h : host.Complete) (readies : Arena .ready (Shared ReadyWork (Except Failure Unit)))
    (drivers : Arena .driver Driver) (verdicts : Arena .verdict Verdict) (tasks : Arena .task Task) :
    Complete { host with readies, drivers, verdicts, tasks } ∧
      Later host { host with readies, drivers, verdicts, tasks } ∧
        Traces host { host with readies, drivers, verdicts, tasks } := by
  obtain ⟨horderly, hlater⟩ := h.orderly.works readies drivers verdicts tasks
  have halike : LoadsAlike host { host with readies, drivers, verdicts, tasks } :=
    ⟨rfl, rfl, rfl, rfl, fun _ => id, fun _ _ => id⟩
  obtain ⟨htraced, htraces⟩ := h.alike halike hlater fun _ => id
  exact ⟨⟨horderly, htraced, h.failures, fun batch unmet hmem =>
    (h.batches batch unmet hmem).imp_right fun hmet ref href => (hmet ref href).later hlater,
    h.linked⟩, hlater, htraces⟩

/-- A milestone may be passed that is no move and no alias, if it tells the truth. -/
theorem marked (h : host.Complete) (mark : Milestone)
    (hstands : ∀ node target, mark ≠ .stands node target) (hmoved : ∀ ref phase, mark ≠ .moved ref phase)
    (himported : ∀ node space, mark = .imported node space → host.exportsOf node = .ok space)
    (hlinking : ∀ batch unmet, mark = .linking batch unmet → unmet = [] ∧ ∀ ref ∈ batch, host.Met ref) :
    Complete { host with chronicle := mark :: host.chronicle } ∧
      Later host { host with chronicle := mark :: host.chronicle } ∧
        Traces host { host with chronicle := mark :: host.chronicle } := by
  obtain ⟨horderly, hlater⟩ := h.orderly.marked mark hstands himported
  have halike : LoadsAlike host { host with chronicle := mark :: host.chronicle } :=
    ⟨rfl, rfl, rfl, rfl, fun _ => id, fun node target hmem =>
      (List.mem_cons.1 hmem).resolve_left fun heq => hstands node target heq.symm⟩
  obtain ⟨htraced, htraces⟩ := h.alike halike hlater fun _ => id
  refine ⟨h.onward hlater horderly htraced (fun ref record failure hrecord herror =>
    .inr ⟨record, hrecord, herror⟩) fun other hmem => ?_, hlater, htraces⟩
  rcases List.mem_cons.1 hmem with rfl | hmem
  · refine .inr ⟨fun batch unmet heq => ?_, fun ref heq => absurd heq (hmoved ref .linked)⟩
    obtain ⟨hunmet, hmet⟩ := hlinking batch unmet heq
    exact ⟨hunmet, fun ref href => (hmet ref href).later hlater⟩
  · exact .inl hmem

/-- Everything that the closure of a key lists finds its requests met. -/
theorem unlinked_met (h : host.Complete) (hwhole : host.Covered root) :
    ∀ ref ∈ host.unlinked root, host.Met ref := by
  intro ref href
  obtain ⟨record, hrecord, -⟩ := (unlinked_allLoaded h.orderly.loads root).2 ref href
  exact ⟨hrecord ▸ rfl, hwhole.requests h.orderly.loads h.traced ref (List.mem_filter.1 href).1⟩

/-- Linking a closure that is whole fails no record for want of another one. -/
theorem links (h : host.Complete) (hwhole : host.Covered root) :
    After host (Act.linkClosure root) fun _ host' =>
      host'.Complete ∧ (Later host host' ∧ Traces host host') ∧ SameWork host host' := by
  have hmet := h.unlinked_met hwhole
  have hunmet := unmet_eq_nil hmet fun ref href => h.resolved (hmet ref href).1
  obtain ⟨hmarked, hlater, htraces⟩ := h.marked
    (.linking (host.unlinked root) (host.unmet (host.unlinked root)))
    (fun _ _ heq => nomatch heq) (fun _ _ heq => nomatch heq) (fun _ _ heq => nomatch heq)
    fun batch unmet heq => by
      cases heq
      exact ⟨hunmet, hmet⟩
  have hbegun : Advances Failure.Met (host.announced root)
      (Act.beginLinking (host.unlinked root) (host.announced root)).2 :=
    Act.forM_advance (fun ref => Act.advance_advance ref (by decide)) _ _
  obtain ⟨hbefore, hlaterBefore, -⟩ := hmarked.advances hbegun
  have hbatch := hbefore.batch fun ref href => ((hmet ref href).later hlater).later hlaterBefore
  have hadvances : Advances Failure.Met (host.announced root)
      (Act.link (host.unlinked root) (host.announced root)).2 :=
    Act.link_advances (fun _ => Host.batched_announced) fun unit hunit failure hwire =>
      hbatch.wire hunit hwire
  obtain ⟨hafter, hlaterAfter, htracesAfter⟩ := hmarked.advances hadvances
  have hsame := SameWork.of_advances hadvances
  exact ⟨hafter, ⟨hlater.trans hlaterAfter, htraces.trans htracesAfter⟩,
    ⟨hsame.readies, hsame.drivers, hsame.verdicts, hsame.tasks⟩⟩

theorem builds (h : host.Complete) (plan : CompartmentPlan) :
    After host (Act.newCompartment plan) fun _ host' =>
      host'.Complete ∧ (Later host host' ∧ Traces host host') ∧ SameWork host host' := by
  refine (After.and (Act.newCompartment_builds h.orderly.loads.grounded plan)
    (h.orderly.builds plan)).mono fun _ host' ⟨hbuilds, horderly, hlater, hsame⟩ => ?_
  obtain ⟨middle, haside, hend⟩ := hbuilds
  obtain ⟨hmiddle, hlater', htraces⟩ := h.aside haside
  rcases hend with rfl | ⟨compartment, hbuilds⟩
  · exact ⟨hmiddle, ⟨hlater, htraces⟩, hsame⟩
  · have hrecords : host'.records = middle.records := by rw [hbuilds.rest]
    have hchronicle : host'.chronicle = middle.chronicle := by rw [hbuilds.rest]
    obtain ⟨htraced, htraces'⟩ := hmiddle.traced.still hbuilds.later (by rw [hbuilds.rest])
      (fun ref record hnone hsome => by rw [hrecords, hnone] at hsome; cases hsome)
      (fun node target hmem => by rwa [hchronicle] at hmem)
      ⟨hbuilds.entryAt?, hbuilds.loadAt?, hbuilds.promise?⟩
    refine ⟨hmiddle.onward hbuilds.later horderly htraced (fun ref record failure hrecord herror =>
      .inr ⟨record, hrecords ▸ hrecord, herror⟩) fun mark hmark => .inl (hchronicle ▸ hmark),
      ⟨hlater, htraces.trans htraces'⟩, hsame⟩

theorem default_complete : (default : Host).Complete where
  orderly := Orderly.default_orderly
  traced :=
    { resolved := fun _ _ h => nomatch h
      unique := fun _ _ _ h => nomatch h
      away := fun _ _ h => nomatch h
      comesTo := fun _ _ h => nomatch h
      memo := fun _ _ h => nomatch h
      kept := fun _ _ h => nomatch h
      flight := fun _ _ h => nomatch h }
  failures _ _ _ h := nomatch h
  batches _ _ h := nomatch h
  linked _ h := nomatch h

end Complete

end Host

/-- Whatever is linked was loaded as a whole, so that records fail for no want of others. -/
def Law.complete : Law where
  inv := Host.Complete
  rel host host' := Later host host' ∧ Traces host host'
  stage host stage := stage.Good host ∧ stage.Traced host
  whole := Host.Covered
  drafted host root drafted := drafted.Good host ∧ drafted.Traced host root
  fine := Failure.Met

theorem Law.complete_kept : Law.complete.Kept where
  refl host := ⟨.refl host, .refl host⟩
  trans hab hbc := ⟨hab.1.trans hbc.1, hab.2.trans hbc.2⟩
  later h := h.1
  homes h := h.orderly.homes
  excused h := h.failure_met
  thrown _ _ := trivial
  lasts hrel hstage := ⟨hstage.1.keeps hrel.1.keeps, hstage.2.lasts hrel.1 hrel.2⟩
  fresh _ hroot := ⟨hroot, trivial⟩
  aside h haside := h.aside haside
  advances h hadvances := h.advances hadvances
  works h := h.works
  passes {host mark} h hmark := by
    refine h.marked mark (fun node target heq => ?_) (fun ref phase heq => ?_)
      (fun node space heq => ?_) fun batch unmet heq => ?_ <;> subst heq
    · exact hmark.elim
    · exact hmark.elim
    · exact hmark
    · exact hmark.elim
  polls h hstage waker := by
    refine (After.and (h.orderly.polls hstage.1 waker) (ClosureStage.poll_tracks h.orderly.loads h.traced
      hstage.1 hstage.2 waker)).mono fun result host' ⟨⟨horderly, hgrows, hresult⟩, htracks⟩ => ?_
    obtain ⟨htraced, htraces, hnext, hwhole⟩ := htracks
    refine ⟨h.grows horderly.loads hgrows htraced, ⟨hgrows.later, htraces⟩, .of_grows hgrows, ?_⟩
    cases result with
    | pending next => exact ⟨⟨hresult.1, hnext next rfl⟩, hresult.2⟩
    | ready result =>
      cases result with
      | error failure => trivial
      | ok _ => exact hwhole rfl
  drafts h hroot := by
    refine (After.and (h.orderly.drafts hroot) (Act.draft_tracks h.orderly.loads h.traced hroot)).mono
      fun result host' ⟨⟨horderly, hgrows, hresult⟩, htraced, htraces, hdrafted⟩ => ?_
    exact ⟨h.grows horderly.loads hgrows htraced, ⟨hgrows.later, htraces⟩, .of_grows hgrows,
      fun drafted heq => ⟨hresult drafted heq, hdrafted drafted heq⟩⟩
  enters h hdrafted := by
    refine (After.and (h.orderly.enters hdrafted.1) (Act.enterDraft_tracks h.orderly.loads h.traced
      hdrafted.1 hdrafted.2)).mono fun _ host' ⟨⟨horderly, hgrows⟩, htraced, htraces, hwhole⟩ => ?_
    exact ⟨h.grows horderly.loads hgrows htraced, ⟨hgrows.later, htraces⟩, .of_grows hgrows, hwhole⟩
  builds h plan := h.builds plan
  links h hwhole := h.links hwhole

namespace Host

variable {host : Host}

/-- Every state of a session is complete. -/
theorem complete_of_run (hrun : Run default host) : host.Complete :=
  (Law.Stands.run Law.complete_kept ⟨Complete.default_complete, Law.default_hosted⟩ hrun).1.inv

/-- A record whose requests are met depends on one record for each of them. -/
theorem Met.dependencies {ref : Ref .record} (h : host.Met ref) :
    (host.dependencies (host.record ref)).map some =
      (host.record ref).requestKeys.map fun key => host.lookup? ⟨(host.record ref).home, key⟩ := by
  unfold Host.dependencies
  rw [List.map_filterMap_some_eq_filter_map_isSome, List.filter_eq_self]
  intro found hmem
  obtain ⟨key, hkey, rfl⟩ := List.mem_map.1 hmem
  exact h.2 _ (List.mem_map_of_mem hkey)

/-- In every session, whenever the closure of a key is linked, each specifier of each record that gets
linked leads to a record that is memoized where the first one is at home. So no record ever fails because
a specifier was not resolved or a module not loaded, and a record that was linked has a dependency for
each of its requests for ever. -/
theorem linking_meets_requests (hrun : Run default host) :
    (∀ batch unmet, .linking batch unmet ∈ host.chronicle → unmet = []) ∧
      (∀ ref record failure, host.records.get? ref = some record → record.error = some failure →
        ∀ key specifier, failure ≠ .link key (.neverResolved specifier) ∧
          failure ≠ .link key (.notLoaded specifier)) ∧
        ∀ ref, .moved ref .linked ∈ host.chronicle →
          (host.dependencies (host.record ref)).map some =
            (host.record ref).requestKeys.map fun key => host.lookup? ⟨(host.record ref).home, key⟩ := by
  have h := complete_of_run hrun
  refine ⟨fun batch unmet hmem => (h.batches batch unmet hmem).1,
    fun ref record failure hrecord herror key specifier => ?_, fun ref hlinked => ?_⟩
  · have hmet := h.failures ref record failure hrecord herror
    constructor <;> rintro rfl <;> exact hmet
  · obtain ⟨batch, unmet, hbatch, href⟩ := h.linked ref hlinked
    exact ((h.batches batch unmet hbatch).2 ref href).dependencies

/-- Two modules of a compartment that import each other, and an alias of the first one elsewhere. -/
def lent : Host :=
  let inner : CompartmentPlan := .simple "inner"
    [("x", ChainKind.moduleOf [.importAll "y" "y"] none),
      ("y", ChainKind.moduleOf [.importAll "x" "x"] none)]
  let outer : CompartmentPlan := .simple "outer" [("z", .redirect "x" (some "inner"))]
  (Act.newCompartment outer (Act.newCompartment inner default).2).2

/-- The alias is imported. -/
def lentRun : Host :=
  (Act.importNow Act.lookOutside ⟨⟨1⟩, "z"⟩ lent).2

theorem lentRun_run : Run default lentRun :=
  Relation.ReflTransGen.tail (.tail (.single (.build _)) (.build _))
    (.importNow ⟨⟨1⟩, "z"⟩ (by decide +kernel))

/-- Both modules are linked together, nothing is unmet, and each one depends on the other. -/
theorem linking_meets_requests_lent :
    (∃ unmet, .linking [⟨0⟩, ⟨1⟩] unmet ∈ lentRun.chronicle ∧ unmet = []) ∧
      (lentRun.dependencies (lentRun.record ⟨0⟩)).map some = [some ⟨1⟩] := by
  obtain ⟨hunmet, -, hdependencies⟩ := linking_meets_requests lentRun_run
  have hbatch : .linking [⟨0⟩, ⟨1⟩] [] ∈ lentRun.chronicle := by decide +kernel
  refine ⟨⟨[], hbatch, hunmet _ _ hbatch⟩, (hdependencies ⟨0⟩ (by decide +kernel)).trans ?_⟩
  decide +kernel

end Host

end ModuleLoader
