import ModuleLoader.Proofs.Regimes
import ModuleLoader.Proofs.Shifts
import ModuleLoader.Proofs.Turns
/-!
Actions that keep a host coherent. Linking the closure of a key is one: records that were loaded begin to
be linked, and then each of them is linked or fails, with all that it depends on there.
-/

namespace ModuleLoader
set_option autoImplicit false

/-- An action that starts in a coherent host keeps it coherent, and leaves alone what it must. -/
def Act.Coheres {α : Type} (act : Act α) (moving : List (Ref .record)) (host : Host)
    (post : α → Host → Prop) : Prop :=
  After host act fun result host' =>
    host'.Coherent ∧ Follows moving host host' ∧ post result host'

namespace Act.Coheres

variable {α β : Type} {moving : List (Ref .record)} {host : Host}

theorem mono {act : Act α} {post post' : α → Host → Prop} (h : act.Coheres moving host post)
    (himp : ∀ result host', post result host' → post' result host') :
    act.Coheres moving host post' :=
  ⟨h.1, h.2.1, himp _ _ h.2.2⟩

theorem grow {act : Act α} {post : α → Host → Prop} (h : act.Coheres [] host post)
    (moving : List (Ref .record)) : act.Coheres moving host post :=
  ⟨h.1, h.2.1.grow moving, h.2.2⟩

theorem getBind {next : Host → Act β} {post : β → Host → Prop}
    (h : (next host).Coheres moving host post) :
    (MonadState.get >>= next : Act β).Coheres moving host post :=
  h

theorem pure {post : α → Host → Prop} {result : α} (h : host.Coherent) (hpost : post result host) :
    (Pure.pure result : Act α).Coheres moving host post :=
  ⟨h, .refl moving host, hpost⟩

theorem bindWithin {act : Act α} {next : α → Act β} {more : List (Ref .record)} {post : α → Host → Prop}
    {post' : β → Host → Prop} (hmore : moving ⊆ more) (h : act.Coheres moving host post)
    (hnext : ∀ result host', host'.Coherent → Follows moving host host' → post result host' →
      (next result).Coheres more host' post') : (act >>= next).Coheres more host post' := by
  obtain ⟨hcoherent, hfollows, hpost⟩ := h
  obtain ⟨hcoherent', hfollows', hpost'⟩ := hnext _ _ hcoherent hfollows hpost
  exact ⟨hcoherent', (hfollows.weaken hmore).trans hfollows', hpost'⟩

theorem bind {act : Act α} {next : α → Act β} {post : α → Host → Prop} {post' : β → Host → Prop}
    (h : act.Coheres moving host post)
    (hnext : ∀ result host', host'.Coherent → Follows moving host host' → post result host' →
      (next result).Coheres moving host' post') : (act >>= next).Coheres moving host post' :=
  bindWithin (List.Subset.refl _) h hnext

theorem first {act : Act α} {next : α → Act β} {post : α → Host → Prop} {post' : β → Host → Prop}
    (h : act.Coheres [] host post)
    (hnext : ∀ result host', host'.Coherent → Follows [] host host' → post result host' →
      (next result).Coheres moving host' post') : (act >>= next).Coheres moving host post' :=
  bindWithin (List.nil_subset _) h hnext

theorem aside {act : Act α} (hact : act.IsAside) (h : host.Coherent) :
    act.Coheres moving host fun _ host' => Aside host host' :=
  ⟨h.quiet (hact host).quiet, (Follows.quiet h (hact host).quiet).grow moving, hact host⟩

theorem afterAside {act : Act α} {next : α → Act β} {post : β → Host → Prop} (hact : act.IsAside)
    (h : host.Coherent) (hnext : ∀ result host', host'.Coherent → Follows [] host host' →
      Aside host host' → (next result).Coheres moving host' post) :
    (act >>= next).Coheres moving host post :=
  first (aside hact h) hnext

end Act.Coheres

/-- What a look at a completion comes to. -/
def LookReady.Coheres (look : LookReady) : Prop :=
  ∀ host watch waker, host.Coherent → (look watch waker).Coheres [] host fun result host' =>
    match result with
    | .pending next => next.job = watch.job
    | .ready result => host'.CameTo watch.job result

namespace Host

variable {host : Host} {ref : Ref .record}

theorem Recorded.records_of_linked (h : host.Recorded) (hlinked : host.Linked ref) :
    (host.records.get? ref).isSome := by
  obtain ⟨record, hrecord, -⟩ := h.moved ref .linked hlinked
  exact hrecord ▸ rfl

/-- A record that is not past linking was not linked. -/
theorem Recorded.not_linked (h : host.Recorded) {record : Record}
    (hrecord : host.records.get? ref = some record) (hphase : record.phase.rank < Phase.linked.rank) :
    ¬ host.Linked ref := by
  intro hlinked
  obtain ⟨found, hfound, -, hsame | hallows⟩ := h.moved ref .linked hlinked
  · obtain rfl := Option.some.inj (hfound.symm.trans hrecord)
    rw [← hsame] at hphase
    exact absurd hphase (Nat.lt_irrefl _)
  · obtain rfl := Option.some.inj (hfound.symm.trans hrecord)
    unfold Phase.allows at hallows
    simp only [Bool.and_eq_true, decide_eq_true_eq] at hallows
    omega

theorem Recorded.error_none (h : host.Recorded) {record : Record}
    (hrecord : host.records.get? ref = some record) (hphase : record.phase ≠ .failed) :
    record.error = none := by
  have hown : host.record ref = record := congrArg (Option.getD · default) hrecord
  have hfailed := h.failed ref
  rw [hown] at hfailed
  exact Option.not_isSome_iff_eq_none.1 fun hsome => hphase (hfailed.2 hsome)

/-- The members of the drivers of a host were linked. -/
theorem Coherent.member_linked (h : host.Coherent) {driver : Ref .driver} {work : DriverWork}
    (hdrives : host.Drives driver work) {component : Component}
    (hcomponent : component ∈ work.components) (href : ref ∈ component.members) :
    host.Linked ref :=
  (h.manned.proper driver work hdrives component hcomponent).linked h.recorded href

end Host

/-- Records that were not linked may enter phases on the way to running. -/
theorem Shifts.due_of_unlinked {host host' : Host} (h : host.Coherent)
    {phases : List (Ref .record × Phase)} (hunlinked : ∀ ref ∈ phases.map Prod.fst, ¬ host.Linked ref)
    (hphases : ∀ pair ∈ phases, pair.2 ≠ .ready ∧ pair.2 ≠ .executing)
    (hlinked : ∀ ref, (ref, .linked) ∈ phases → ∀ key ∈ (host'.record ref).requestKeys,
      (host'.lookup? ⟨(host'.record ref).home, key⟩).isSome) : Due host host' [] phases where
  linked := hlinked
  ready _ hmem := absurd rfl (hphases _ hmem).1
  begins _ hmem := absurd rfl (hphases _ hmem).2
  scheduled ref hmem hbefore := absurd hbefore (hunlinked ref hmem)
  driven _ bell _ hwork _ hcomponent ref href hmem :=
    absurd (h.member_linked ⟨bell, .inr hwork⟩ hcomponent href) (hunlinked ref hmem)
  idle _ bell _ hwork _ hcomponent ref href hmem :=
    absurd (h.member_linked ⟨bell, .inl hwork⟩ hcomponent href) (hunlinked ref hmem)

namespace Begins

variable {host before : Host} {refs : List (Ref .record)}

theorem shifts (h : Begins host before refs) (hrecorded : host.Recorded) (hnodup : refs.Nodup) :
    Shifts host before (refs.map fun ref => (ref, .linking)) where
  later := h.moves.later
  tasks := by rw [h.rest]
  readies := by rw [h.rest]
  drivers := by rw [h.rest]
  verdicts := by rw [h.rest]
  nodup := by
    rw [List.map_map]
    exact (List.map_id refs).symm ▸ hnodup
  moved ref phase hmem := by
    obtain ⟨found, hfound, heq⟩ := List.mem_map.1 hmem
    obtain ⟨rfl, rfl⟩ := Prod.mk.inj heq
    obtain ⟨record, hrecord, hloaded, hnext⟩ := h.begun found hfound
    have herror := hrecorded.error_none hrecord (by rw [hloaded]; decide)
    refine ⟨record, { record with phase := .linking }, hrecord, hnext, by rw [hloaded]; rfl, rfl, rfl, ?_⟩
    change Phase.linking = .failed ↔ record.error.isSome = true
    rw [herror]
    exact iff_of_false (fun heq => nomatch heq) Bool.false_ne_true
  others ref hnot := by
    refine h.others ref fun hmem => hnot ?_
    rw [List.map_map]
    exact List.mem_map_of_mem hmem
  chronicle := by
    rw [List.map_map]
    exact h.chronicle

theorem coherent (h : Begins host before refs) (hcoherent : host.Coherent) (hnodup : refs.Nodup) :
    before.Coherent ∧ Follows [] host before := by
  refine hcoherent.shifts (h.shifts hcoherent.recorded hnodup)
    (Shifts.due_of_unlinked hcoherent (fun ref hmem => ?_) (fun pair hmem => ?_) fun ref hmem => ?_)
    h.loads (h.moves.undisturbed.tidy hcoherent.tidy)
  · rw [List.map_map] at hmem
    obtain ⟨found, hfound, rfl⟩ := List.mem_map.1 hmem
    obtain ⟨record, hrecord, hloaded, -⟩ := h.begun found hfound
    exact hcoherent.recorded.not_linked hrecord (by rw [hloaded]; decide)
  · obtain ⟨ref, -, rfl⟩ := List.mem_map.1 hmem
    exact ⟨(fun heq => nomatch heq), fun heq => nomatch heq⟩
  · obtain ⟨found, -, heq⟩ := List.mem_map.1 hmem
    cases heq

end Begins

namespace Act

namespace Links

variable {before start host : Host} {refs : List (Ref .record)}
  {slots : List (Ref .record × List (String × Ref .slot))}

/-- The phase that linking leads a record to. -/
def phaseOf (before : Host) (refs : List (Ref .record)) (ref : Ref .record) : Phase :=
  settledPhase ((Batch.ofRecords before refs).outcome (Batch.describe before ref))

/-- A record was linked with a wiring, or failed. -/
theorem outcome_cases (h : Links before start host refs slots) {ref : Ref .record} (hmem : ref ∈ refs) :
    ∃ record, before.records.get? ref = some record ∧ record.phase = .linking ∧
      ((phaseOf before refs ref = .linked ∧ (∃ environment,
        host.records.get? ref = some { record with environment, phase := .linked }) ∧
          ∃ wiring, (Batch.ofRecords before refs).wire (Batch.describe before ref) = .ok wiring) ∨
      (phaseOf before refs ref = .failed ∧ ∃ failure,
        host.records.get? ref = some { record with phase := .failed, error := some failure })) := by
  obtain ⟨record, hblank⟩ := h.blank ref hmem
  have hown : before.record ref = record := congrArg (Option.getD · default) hblank.get
  have hunit : Batch.describe before ref ∈ (Batch.ofRecords before refs).units := List.mem_map_of_mem hmem
  refine ⟨record, hblank.get, hblank.phase, ?_⟩
  have hsettled : Settled slots start host ref (start.record ref)
      ((Batch.ofRecords before refs).outcome (Batch.describe before ref)) :=
    h.settles.settled _ (List.mem_map_of_mem hunit)
  rw [h.startRecord, hown] at hsettled
  unfold phaseOf
  cases houtcome : (Batch.ofRecords before refs).outcome (Batch.describe before ref) with
  | ok wiring =>
    rw [houtcome] at hsettled
    exact .inl ⟨rfl, hsettled.2, wiring, ((Batch.outcome_ok hunit).1 houtcome).wired⟩
  | error failure =>
    rw [houtcome] at hsettled
    exact .inr ⟨rfl, failure, hsettled.2⟩

theorem shifts (h : Links before start host refs slots) (hrecorded : before.Recorded)
    (hnodup : refs.Nodup) : Shifts before host (refs.map fun ref => (ref, phaseOf before refs ref)) where
  later := h.later
  tasks := by rw [h.settles.rest, h.made.rest]
  readies := by rw [h.settles.rest, h.made.rest]
  drivers := by rw [h.settles.rest, h.made.rest]
  verdicts := by rw [h.settles.rest, h.made.rest]
  nodup := by
    rw [List.map_map]
    exact (List.map_id refs).symm ▸ hnodup
  moved ref phase hmem := by
    obtain ⟨found, hfound, heq⟩ := List.mem_map.1 hmem
    cases heq
    obtain ⟨record, hrecord, hlinking, ⟨hphase, ⟨environment, hget⟩, -⟩ | ⟨hphase, failure, hget⟩⟩ :=
      h.outcome_cases hfound
    · have herror := hrecorded.error_none hrecord (by rw [hlinking]; decide)
      rw [hphase]
      refine ⟨record, _, hrecord, hget, by rw [hlinking]; rfl, rfl, rfl, ?_⟩
      change Phase.linked = .failed ↔ record.error.isSome = true
      rw [herror]
      exact iff_of_false (fun heq => nomatch heq) Bool.false_ne_true
    · rw [hphase]
      exact ⟨record, _, hrecord, hget, by rw [hlinking]; rfl, rfl, rfl, iff_of_true rfl rfl⟩
  others ref hnot := by
    refine h.records fun hmem => hnot ?_
    rw [List.map_map]
    exact List.mem_map_of_mem hmem
  chronicle := by
    rw [h.chronicle]
    change ((refs.map (Batch.describe before)).map _).reverse ++ _ = _
    rw [List.map_map, List.map_map]
    rfl

/-- A record that was linked has all its dependencies there. -/
theorem fixed (h : Links before start host refs slots) {ref : Ref .record} (hmem : ref ∈ refs)
    (hphase : phaseOf before refs ref = .linked) : ∀ key ∈ (host.record ref).requestKeys,
      (host.lookup? ⟨(host.record ref).home, key⟩).isSome := by
  intro key hkey
  obtain ⟨record, hrecord, -, ⟨-, -, wiring, hwire⟩ | ⟨hfailed, -⟩⟩ := h.outcome_cases hmem
  · have honward := h.later.record (hrecord ▸ rfl : (before.records.get? ref).isSome)
    have hkeys : (host.record ref).requestKeys = (before.record ref).requestKeys :=
      congrArg (List.map Prod.snd) honward.requests
    rw [hkeys] at hkey
    obtain ⟨pair, hpair, rfl⟩ := List.mem_map.1 hkey
    have hrequest : (⟨pair.1, pair.2, before.lookup? ⟨(before.record ref).home, pair.2⟩⟩ : Request) ∈
        (Batch.describe before ref).requests := List.mem_map_of_mem hpair
    obtain ⟨target, htarget, -⟩ :=
      Batch.checkRequests_targets (Batch.wired_of_wire hwire).requests _ hrequest
    rw [honward.home, h.later.lookup? htarget]
    rfl
  · rw [hphase] at hfailed
    cases hfailed

theorem coherent (h : Links before start host refs slots) (hcoherent : before.Coherent)
    (hnodup : refs.Nodup) : host.Coherent ∧ Follows [] before host := by
  refine hcoherent.shifts (h.shifts hcoherent.recorded hnodup)
    (Shifts.due_of_unlinked hcoherent (fun ref hmem => ?_) (fun pair hmem => ?_) fun ref hmem => ?_)
    h.loadsAlike h.tidy_after
  · rw [List.map_map] at hmem
    obtain ⟨found, hfound, rfl⟩ := List.mem_map.1 hmem
    obtain ⟨record, hrecord, hlinking, -⟩ := h.outcome_cases hfound
    exact hcoherent.recorded.not_linked hrecord (by rw [hlinking]; decide)
  · obtain ⟨ref, hfound, rfl⟩ := List.mem_map.1 hmem
    obtain ⟨-, -, -, ⟨hphase, -⟩ | ⟨hphase, -⟩⟩ := h.outcome_cases hfound <;>
    · dsimp only
      rw [hphase]
      exact ⟨(fun heq => nomatch heq), fun heq => nomatch heq⟩
  · obtain ⟨found, hfound, heq⟩ := List.mem_map.1 hmem
    obtain ⟨rfl, hphase⟩ := Prod.mk.inj heq
    exact h.fixed hfound hphase

end Links

/-- Linking the closure of a key keeps a host coherent. -/
theorem linkClosure_coheres {host : Host} (h : host.Coherent) (root : Node) :
    (linkClosure root).Coheres [] host fun _ _ => True := by
  have hfair : host.Fair host.chronicle
      (.linking (host.unlinked root) (host.unmet (host.unlinked root))) := trivial
  obtain ⟨hmarked, hsteady⟩ := h.marked (fun ref phase (heq : .linking (host.unlinked root)
    (host.unmet (host.unlinked root)) = Milestone.moved ref phase) => nomatch heq)
      (fun _ _ heq => nomatch heq) hfair
  obtain ⟨hnodup, hloaded⟩ := Host.unlinked_allLoaded h.loads root
  have hlink := link_links hmarked.loads hmarked.tidy hnodup hloaded
  suffices hafter : After _ (link (host.unlinked root)) fun _ after =>
      after.Coherent ∧ Follows [] host after ∧ True from hafter
  refine hlink.mono fun _ after hlinks => ?_
  obtain ⟨before, start, slots, hbegins, hlinks⟩ := hlinks
  obtain ⟨hbefore, hfollows⟩ := hbegins.coherent hmarked hnodup
  obtain ⟨hafter, hfollows'⟩ := hlinks.coherent hbefore hnodup
  exact ⟨hafter, ((h.follows hsteady).trans hfollows).trans hfollows', trivial⟩

end Act

end ModuleLoader
