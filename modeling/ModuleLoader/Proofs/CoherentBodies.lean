import ModuleLoader.Proofs.CoherentImports
import ModuleLoader.Proofs.Entrances
/-!
Bodies keep a host coherent, and so does the run of a component: its members begin one after another, each
when those before it have completed, and when one throws, all after it fail.
-/

namespace ModuleLoader
set_option autoImplicit false

variable {host : Host} {look : LookReady}

/-- What bodies keep: a coherent host stays coherent, and what somebody else drives is left alone. -/
def coherence : Regime where
  stands := Host.Coherent
  rel host host' := host.Coherent → host'.Coherent ∧ Follows [] host host'
  scope host scope := host.Coherent ∧ scope.Good host
  work host work := host.Coherent ∧ work.Good host

theorem BodyWork.fits_coherence {work : BodyWork} (h : host.Coherent) :
    work.Fits coherence host ↔ work.Good host := by
  constructor
  · refine fun hfits => ⟨hfits.scope.2, fun specifier target importWork heq => ?_⟩
    have hawaiting := hfits.awaiting
    rw [heq] at hawaiting
    exact hawaiting.2
  · refine fun hgood => ⟨⟨h, hgood.scope⟩, ?_⟩
    cases hawaiting : work.awaiting with
    | gate name => trivial
    | turns left => trivial
    | importing specifier target importWork => exact ⟨h, hgood.importing specifier target importWork hawaiting⟩

/-- Assigning a name of a record that exists keeps a host coherent. -/
theorem Act.assignIn_coheres (h : host.Coherent) {ref : Ref .record}
    (href : (host.records.get? ref).isSome) (name : String) (value : Value) :
    (assignIn ref name value).Coheres [] host fun _ _ => True := by
  refine (assignIn_assigns h.tidy href name value).mono fun _ after hafter => ?_
  rcases hafter with ⟨-, -, rfl⟩ | ⟨-, -, slot, hassigned, -⟩
  · exact ⟨h, .refl [] after, trivial⟩
  · exact ⟨h.assigned hassigned, h.follows hassigned.steady, trivial⟩

theorem coherence_kept (hlook : look.Coheres) : coherence.Kept look where
  refl host h := ⟨h, .refl [] host⟩
  trans hab hbc h := by
    obtain ⟨hmiddle, hfollows⟩ := hab h
    obtain ⟨hlast, hfollows'⟩ := hbc hmiddle
    exact ⟨hlast, hfollows.trans hfollows'⟩
  scopes hrel hscope := by
    obtain ⟨hafter, hfollows⟩ := hrel hscope.1
    exact ⟨hafter, hscope.2.carries hfollows.toCarries⟩
  works hrel hwork := by
    obtain ⟨hafter, hfollows⟩ := hrel hwork.1
    exact ⟨hafter, hwork.2.carries hwork.1.recorded hfollows.toCarries⟩
  aside h haside := ⟨h.quiet haside.quiet, fun h => ⟨h.quiet haside.quiet, .quiet h haside.quiet⟩⟩
  assigns {_ scope} h hscope name value := by
    have href := h.recorded.records_of_linked hscope.2.linked
    obtain ⟨hafter, hfollows, -⟩ := Act.assignIn_coheres h href name value
    exact ⟨hafter, fun _ => ⟨hafter, hfollows⟩⟩
  starts {_ scope} h hscope key := by
    refine ⟨h, hscope.2.built, fun stage heq => ?_, fun _ heq => nomatch heq⟩
    cases heq
    exact hscope.2.built
  polls h hwork waker := by
    obtain ⟨hafter, hfollows, hnext⟩ := ImportWork.poll_coheres hlook h hwork.2 waker
    exact ⟨hafter, fun _ => ⟨hafter, hfollows⟩, fun next heq => ⟨hafter, hnext next heq⟩⟩
  imports {_ scope} h hscope key := by
    have hbuilt : Host.Built _ (Node.mk scope.home key).compartment := hscope.2.built
    obtain ⟨hafter, hfollows, -⟩ := Act.importNow_coheres hlook h hbuilt
    exact ⟨hafter, fun _ => ⟨hafter, hfollows⟩⟩

/-- What bodies do, as actions that keep a host coherent. -/
theorem Act.Respects.coheres {α : Type} {act : Act α} {post : α → Host → Prop} (h : host.Coherent)
    (hact : act.Respects coherence host post) : act.Coheres [] host post :=
  ⟨hact.1, (hact.2.1 h).2, hact.2.2⟩

/-- A suspended body is good. -/
def Body.Well (result : Poll BodyWork (Except Value Unit)) (host : Host) : Prop :=
  ∀ next, result = .pending next → next.Good host

theorem Act.Respects.well {act : Act (Poll BodyWork (Except Value Unit))} (h : host.Coherent)
    (hact : act.Respects coherence host (Body.Polled coherence)) : act.Coheres [] host Body.Well := by
  obtain ⟨hafter, hrel, hpost⟩ := hact
  exact ⟨hafter, (hrel h).2, fun next heq => (BodyWork.fits_coherence hafter).1 (hpost next heq)⟩

namespace Host

/-- The members of a component of a driver that somebody drives. -/
def Held (host : Host) (members : List (Ref .record)) : Prop :=
  ∃ driver bell work, Shelf.drivers.get? host driver = some ⟨bell, .driven work⟩ ∧
    ∃ component ∈ work.components, component.members = members

/-- The members of a component that its driver runs: nobody waits any more for what they need from
outside. -/
structure Runs (host : Host) (members : List (Ref .record)) : Prop where
  held : host.Held members
  given : ∀ ref ∈ members, ∀ needed ∈ host.dependencies (host.record ref),
    needed ∈ members ∨ host.GivenIn host.chronicle needed

/-- A record ended: it completed, or its body threw. -/
def Ended (host : Host) (ref : Ref .record) : Except Failure Unit → Prop
  | .ok () => (host.record ref).phase = .ready
  | .error failure => (host.record ref).error = some failure ∧ ∃ value, host.Threw ref value

/-- A run of records broke off: one of them threw, and each has completed or failed with that. -/
structure Broke (host : Host) (members : List (Ref .record)) (failure : Failure) : Prop where
  thrown : ∃ ref ∈ members, host.Ended ref (.error failure)
  ends : ∀ ref ∈ members, host.EndsBy failure ref

theorem Ended.carries {after : Host} {ref : Ref .record} {failure : Failure}
    (h : host.Ended ref (.error failure)) (hf : Carries host after) : after.Ended ref (.error failure) := by
  obtain ⟨herror, value, hthrew⟩ := h
  exact ⟨hf.error ref failure herror, value, hf.threw hthrew⟩

theorem Broke.carries {after : Host} {members : List (Ref .record)} {failure : Failure}
    (h : host.Broke members failure) (hf : Carries host after) : after.Broke members failure where
  thrown := by
    obtain ⟨ref, href, hended⟩ := h.thrown
    exact ⟨ref, href, hended.carries hf⟩
  ends ref href := hf.endsBy (h.ends ref href)

/-- A linked record has passed the phase that it is in. -/
theorem Recorded.moved_of_linked (h : host.Recorded) {ref : Ref .record} (hlinked : host.Linked ref) :
    .moved ref (host.record ref).phase ∈ host.chronicle := by
  obtain ⟨record, hrecord, hsource, hphase⟩ := h.moved ref .linked hlinked
  have hown : host.record ref = record := congrArg (Option.getD · default) hrecord
  rw [hown]
  refine (h.phase ref record hrecord hsource).resolve_left fun hloaded => ?_
  rw [hloaded] at hphase
  rcases hphase with heq | hallows
  · cases heq
  · cases hallows

namespace Held

variable {members moving : List (Ref .record)} {ref : Ref .record}

theorem proper (hheld : host.Held members) (h : host.Coherent) :
    ∃ component : Component, component.members = members ∧ component.Proper host := by
  obtain ⟨driver, bell, work, hdriven, component, hcomponent, hmembers⟩ := hheld
  exact ⟨component, hmembers, h.manned.proper driver work ⟨bell, .inr hdriven⟩ component hcomponent⟩

theorem linked (hheld : host.Held members) (h : host.Coherent) (href : ref ∈ members) :
    host.Linked ref := by
  obtain ⟨component, rfl, hproper⟩ := hheld.proper h
  exact hproper.linked h.recorded href

theorem get? (hheld : host.Held members) (h : host.Coherent) (href : ref ∈ members) :
    ∃ record, host.records.get? ref = some record ∧ host.record ref = record := by
  obtain ⟨record, hrecord, -⟩ := h.recorded.moved ref .linked (hheld.linked h href)
  exact ⟨record, hrecord, congrArg (Option.getD · default) hrecord⟩

/-- The members are all different. -/
theorem nodup (hheld : host.Held members) (h : host.Coherent) : members.Nodup := by
  obtain ⟨component, rfl, hproper⟩ := hheld.proper h
  exact hproper.nodup

theorem ready_isSome (hheld : host.Held members) (h : host.Coherent) (href : ref ∈ members) :
    (host.record ref).ready.isSome := by
  obtain ⟨component, rfl, hproper⟩ := hheld.proper h
  obtain ⟨ready, hgrouped, -⟩ := hproper.group
  rw [(hgrouped ref).1 href]
  rfl

theorem follows (hheld : host.Held members) {host' : Host} (hf : Follows moving host host') :
    host'.Held members := by
  obtain ⟨driver, bell, work, hdriven, hcomponent⟩ := hheld
  exact ⟨driver, bell, work, hf.drivers driver bell work hdriven, hcomponent⟩

theorem phase (hheld : host.Held members) {host' : Host} (hf : Follows moving host host')
    (href : ref ∈ members) (hout : ref ∉ moving) :
    (host'.record ref).phase = (host.record ref).phase := by
  obtain ⟨driver, bell, work, hdriven, component, hcomponent, rfl⟩ := hheld
  exact hf.members driver bell work hdriven component hcomponent ref href hout

/-- Nobody else will drive the members. -/
theorem apart (hheld : host.Held members) (h : host.Coherent) (href : ref ∈ members)
    {driver : Ref .driver} {bell : Ref .bell} {work : DriverWork}
    (hidle : Shelf.drivers.get? host driver = some ⟨bell, .idle work⟩) {component : Component}
    (hcomponent : component ∈ work.components) : ref ∉ component.members := by
  obtain ⟨driver', bell', work', hdriven, component', hcomponent', rfl⟩ := hheld
  intro hmem
  obtain ⟨index, hindex⟩ := List.mem_iff_getElem?.1 hcomponent
  obtain ⟨index', hindex'⟩ := List.mem_iff_getElem?.1 hcomponent'
  obtain ⟨rfl, -⟩ := h.manned.disjoint driver driver' work work' ⟨bell, .inl hidle⟩
    ⟨bell', .inr hdriven⟩ index index' component component' hindex hindex' ref hmem href
  cases hidle.symm.trans hdriven

/-- Members that end or begin are due. -/
theorem due (hheld : host.Held members) (h : host.Coherent) {host' : Host}
    {phases : List (Ref .record × Phase)} (hmem : ∀ ref ∈ phases.map Prod.fst, ref ∈ members)
    (hlinked : ∀ ref, (ref, Phase.linked) ∉ phases)
    (hready : ∀ ref, (ref, Phase.ready) ∈ phases → .moved ref .executing ∈ host.chronicle)
    (hbegins : ∀ ref, (ref, Phase.executing) ∈ phases → phases = [(ref, .executing)] ∧
      host.BeginsIn host.chronicle ref) :
    Shifts.Due host host' (phases.map Prod.fst) phases where
  linked ref hmem := absurd hmem (hlinked ref)
  ready := hready
  begins := hbegins
  scheduled ref href _ := hheld.ready_isSome h (hmem ref href)
  driven _ _ _ _ _ _ _ _ href := href
  idle _ _ _ hidle _ hcomponent ref href hmoved :=
    hheld.apart h (hmem ref hmoved) hidle hcomponent href

end Held

namespace Runs

variable {members moving : List (Ref .record)} {ref : Ref .record}

theorem follows (hruns : host.Runs members) (h : host.Coherent) {host' : Host}
    (hf : Follows moving host host') : host'.Runs members where
  held := hruns.held.follows hf
  given ref href needed hneeded := by
    have hneeded := hf.later.dependencies_back h.recorded (hruns.held.linked h href) hneeded
    exact (hruns.given ref href needed hneeded).imp_right
      (hf.givenIn h.recorded hf.later.chronicle)

/-- A member may begin when those before it have completed. -/
theorem beginsIn (hruns : host.Runs members) (h : host.Coherent) {done rest : List (Ref .record)}
    (hmembers : members = done ++ ref :: rest)
    (hdone : ∀ other ∈ done, (host.record other).phase = .ready) :
    host.BeginsIn host.chronicle ref := by
  obtain ⟨component, hcomponent, hproper⟩ := hruns.held.proper h
  obtain ⟨root, groups, hscheduled, hgroup⟩ := hproper.scheduled
  obtain ⟨ready, hgrouped, -⟩ := hproper.group
  rw [hcomponent] at hgroup hgrouped
  subst hmembers
  refine ⟨root, groups, done, rest, ready, hscheduled, hgroup, hgrouped, fun other hother => ?_,
    fun other hother needed hneeded => ?_⟩
  · have hlinked := hruns.held.linked h (List.mem_append_left _ hother)
    have hmoved := h.recorded.moved_of_linked hlinked
    rwa [hdone other hother] at hmoved
  · exact (hruns.given other hother needed hneeded).imp_left (hgrouped needed).1

end Runs

end Host

namespace Act

variable {members : List (Ref .record)} {ref : Ref .record}

/-- A member of a component that runs enters a phase. -/
theorem enter_coheres (h : host.Coherent) (hheld : host.Held members) (href : ref ∈ members)
    {record : Record} {f : Record → Record} {phase : Phase} {error : Option Failure}
    (hrecord : host.records.get? ref = some record) (hallows : record.phase.allows phase = true)
    (hf : f record = { record with phase, error }) (herror : phase = .failed ↔ error.isSome = true)
    (hlinked : phase ≠ .linked) (hready : phase = .ready → .moved ref .executing ∈ host.chronicle)
    (hbegins : phase = .executing → host.BeginsIn host.chronicle ref) :
    (changeRecord ref f).Coheres [ref] host fun _ after => after.record ref = { record with phase, error } := by
  refine (changeRecord_enters hrecord hallows hf herror).mono fun _ after ⟨henters, hnew⟩ => ?_
  have hphase (other : Ref .record) (entered : Phase) (hmem : (other, entered) ∈ [(ref, phase)]) :
      other = ref ∧ entered = phase := Prod.mk.inj (List.mem_singleton.1 hmem)
  have hdue : Shifts.Due host after ([(ref, phase)].map Prod.fst) [(ref, phase)] := by
    refine hheld.due h (fun other hmem => ?_) (fun other hmem => ?_) (fun other hmem => ?_)
      fun other hmem => ?_
    · exact (List.mem_singleton.1 hmem : other = ref) ▸ href
    · exact hlinked (hphase other _ hmem).2.symm
    · obtain ⟨rfl, heq⟩ := hphase other _ hmem
      exact hready heq.symm
    · obtain ⟨rfl, rfl⟩ := hphase other _ hmem
      exact ⟨rfl, hbegins rfl⟩
  obtain ⟨hafter, hfollows⟩ := henters.coherent h hdue fun other hmem => hlinked (hphase other _ hmem).2.symm
  exact ⟨hafter, hfollows, congrArg (Option.getD · default) hnew⟩

/-- When members fail, all of them that have not ended get the failure. -/
theorem failAll_coheres (h : host.Coherent) (hheld : host.Held members) {refs : List (Ref .record)}
    (hnodup : refs.Nodup) (hrefs : ∀ ref ∈ refs, ref ∈ members) (failure : Failure) :
    (failAll failure refs).Coheres refs host fun _ after =>
      ∀ ref ∈ unended host refs, (after.record ref).error = some failure := by
  have hexist (ref : Ref .record) (href : ref ∈ refs) : (host.records.get? ref).isSome := by
    obtain ⟨record, hrecord, -⟩ := hheld.get? h (hrefs ref href)
    exact hrecord ▸ rfl
  refine (failAll_enters failure refs hnodup hexist).mono fun _ after ⟨henters, herrors⟩ => ?_
  have hphase (other : Ref .record) (entered : Phase)
      (hmem : (other, entered) ∈ (unended host refs).map fun ref => (ref, Phase.failed)) :
      entered = .failed := by
    obtain ⟨_, -, heq⟩ := List.mem_map.1 hmem
    exact (Prod.mk.inj heq).2.symm
  have hmem (other : Ref .record)
      (hmem : other ∈ ((unended host refs).map fun ref => (ref, Phase.failed)).map Prod.fst) :
      other ∈ refs := by
    rw [List.map_map] at hmem
    obtain ⟨ref, href, rfl⟩ := List.mem_map.1 hmem
    exact (mem_unended.1 href).1
  have hdue : Shifts.Due host after (((unended host refs).map fun ref => (ref, Phase.failed)).map Prod.fst)
      ((unended host refs).map fun ref => (ref, Phase.failed)) :=
    hheld.due h (fun other hother => hrefs other (hmem other hother))
      (fun other hother => nomatch hphase other _ hother)
      (fun other hother => nomatch hphase other _ hother) fun other hother => nomatch hphase other _ hother
  obtain ⟨hafter, hfollows⟩ := henters.coherent h hdue fun other hother => nomatch hphase other _ hother
  exact ⟨hafter, hfollows.weaken hmem, herrors⟩

/-- A record that is executing ends. -/
theorem conclude_coheres (h : host.Coherent) (hheld : host.Held members) (href : ref ∈ members)
    (hphase : (host.record ref).phase = .executing) (result : Except Value Unit) :
    (conclude ref result).Coheres [ref] host fun outcome after => after.Ended ref outcome := by
  obtain ⟨record, hrecord, hown⟩ := hheld.get? h href
  have hexecuting : .moved ref .executing ∈ host.chronicle := by
    rw [← hphase]
    exact h.recorded.moved_of_linked (hheld.linked h href)
  rw [hown] at hphase
  have herror := h.recorded.error_none hrecord (by rw [hphase]; decide)
  cases result with
  | ok _ =>
    have hallows : record.phase.allows .ready = true := by
      rw [hphase]
      rfl
    have hadvance : record.advance .ready = { record with phase := .ready, error := none } := by
      rw [Record.advance_of_allows hallows, ← herror]
    have henter : (changeRecord ref fun record => record.advance .ready).Coheres [ref] host fun _ after =>
        after.record ref = { record with phase := .ready, error := none } :=
      enter_coheres h hheld href hrecord hallows hadvance (by decide) (by decide) (fun _ => hexecuting)
        fun heq => nomatch heq
    refine henter.bind fun _ after hafter _ hrecord => .pure hafter ?_
    change (after.record ref).phase = .ready
    rw [hrecord]
  | error thrown =>
    have hallows : record.phase.allows .failed = true := by
      rw [hphase]
      rfl
    have hfail (failure : Failure) : record.fail failure =
        { record with phase := .failed, error := some failure } :=
      Record.fail_of_open (by rw [hphase]; rfl) failure
    refine .getBind ?_
    dsimp only
    refine (enter_coheres h hheld href hrecord hallows (hfail _) (iff_of_true rfl rfl) (by decide)
      (fun heq => nomatch heq) fun heq => nomatch heq).bind fun _ after hafter hfollows hrecord => ?_
    refine .pure hafter ?_
    have herror : (after.record ref).error = some (.initialization (host.record ref).key thrown) := by
      rw [hrecord]
    refine ⟨herror, thrown, hfollows.later.chronicle.subset hexecuting, ?_⟩
    rw [herror, hrecord, hown]

/-- What the start of a record comes to. -/
def StartedWell (ref : Ref .record) (result : Poll BodyWork (Except Failure Unit)) (host : Host) : Prop :=
  match result with
  | .pending body => (host.record ref).phase = .executing ∧ body.Good host
  | .ready outcome => host.Ended ref outcome

theorem concluded_coheres (h : host.Coherent) (hheld : host.Held members) (href : ref ∈ members)
    (hphase : (host.record ref).phase = .executing) (result : Except Value Unit) :
    (do return .ready (← conclude ref result) : Act (Poll BodyWork (Except Failure Unit))).Coheres [ref] host
      (StartedWell ref) :=
  (conclude_coheres h hheld href hphase result).bind fun _ _ hafter _ hended => .pure hafter hended

variable (hlook : look.Coheres)
include hlook

theorem startBody_coheres (h : host.Coherent) (hheld : host.Held members) (href : ref ∈ members)
    (hphase : (host.record ref).phase = .executing) (waker : Waker) :
    (startBody look ref waker).Coheres [ref] host (StartedWell ref) := by
  have kept := coherence_kept hlook
  unfold startBody
  refine .getBind ?_
  split
  · exact concluded_coheres h hheld href hphase _
  · rename_i source _
    have hscope : (scopeOf ref source).Coheres [] host fun scope after => scope.Good after := by
      refine (scopeOf_scopes host ref source).mono fun scope after ⟨haside, hrecord, hhome⟩ => ?_
      obtain ⟨hafter, hrel⟩ := kept.aside h haside
      obtain ⟨record, hget, hown⟩ := hheld.get? h href
      refine ⟨hafter, (hrel h).2, Scope.Good.carries ⟨?_, ?_⟩ (hrel h).2.toCarries⟩
      · rw [hrecord]
        exact hheld.linked h href
      · rw [hhome, hown]
        exact h.tidy.homes ref record hget
    refine hscope.first fun scope begun hbegun hfollows hscope => ?_
    have hphase := (hheld.phase hfollows href List.not_mem_nil).trans hphase
    have hheld := hheld.follows hfollows
    split
    · exact concluded_coheres hbegun hheld href hphase _
    · rename_i body _
      have hbody := body.runSynchronously_respects kept ⟨hbegun, hscope⟩ hbegun
      refine (hbody.coheres hbegun).first fun result after hafter hfollows _ => ?_
      exact concluded_coheres hafter (hheld.follows hfollows) href
        ((hheld.phase hfollows href List.not_mem_nil).trans hphase) result
    · rename_i body _
      have hbody := startAsync_respects kept ⟨hbegun, hscope⟩ body hbegun waker
      refine (hbody.well hbegun).first fun result after hafter hfollows hresult => ?_
      have hphase := (hheld.phase hfollows href List.not_mem_nil).trans hphase
      cases result with
      | pending work => exact .pure hafter ⟨hphase, hresult work rfl⟩
      | ready result => exact concluded_coheres hafter (hheld.follows hfollows) href hphase result

/-- A linked member whose turn it is begins, and ends or is suspended. -/
theorem startRecord_coheres (h : host.Coherent) (hruns : host.Runs members) {done rest : List (Ref .record)}
    (hmembers : members = done ++ ref :: rest) (hdone : ∀ other ∈ done, (host.record other).phase = .ready)
    (hphase : (host.record ref).phase = .linked) (waker : Waker) :
    (startRecord look ref waker).Coheres [ref] host (StartedWell ref) := by
  have href : ref ∈ members := hmembers ▸ List.mem_append_right _ List.mem_cons_self
  obtain ⟨record, hrecord, hown⟩ := hruns.held.get? h href
  unfold startRecord
  refine .getBind ?_
  dsimp only
  rw [hphase, if_pos (show Phase.linked.allows .executing = true from rfl)]
  rw [hown] at hphase
  have herror := h.recorded.error_none hrecord (by rw [hphase]; decide)
  have hallows : record.phase.allows .executing = true := by
    rw [hphase]
    rfl
  have hadvance : record.advance .executing = { record with phase := .executing, error := none } := by
    rw [Record.advance_of_allows hallows, ← herror]
  have henter : (changeRecord ref fun record => record.advance .executing).Coheres [ref] host
      fun _ after => after.record ref = { record with phase := .executing, error := none } :=
    enter_coheres h hruns.held href hrecord hallows hadvance (by decide) (by decide) (fun heq => nomatch heq)
      fun _ => hruns.beginsIn h hmembers hdone
  refine henter.bind fun _ after hafter hfollows hrecord => ?_
  refine startBody_coheres hlook hafter (hruns.held.follows hfollows) href ?_ waker
  rw [hrecord]

end Act

namespace ComponentRun

variable {members ran : List (Ref .record)}

/-- What the run of a component comes to. -/
def PolledWell (members : List (Ref .record)) (result : Poll ComponentRun (Except Failure Unit))
    (host : Host) : Prop :=
  match result with
  | .pending run => ∃ ran, run.Good host members ran
  | .ready (.ok ()) => ∀ ref ∈ members, (host.record ref).phase = .ready
  | .ready (.error failure) => host.Broke members failure

theorem rest_of_members (hheld : host.Held members) (h : host.Coherent) {ref : Ref .record}
    {rest : List (Ref .record)} (hmembers : members = ran ++ ref :: rest) :
    rest.Nodup ∧ ∀ other ∈ rest, other ∈ members := by
  have hnodup := hheld.nodup h
  rw [hmembers] at hnodup ⊢
  exact ⟨(List.nodup_cons.1 (List.nodup_append.1 hnodup).2.1).2,
    fun other hother => List.mem_append_right _ (List.mem_cons_of_mem _ hother)⟩

/-- When a member throws, all after it fail. -/
theorem failRest_coheres (h : host.Coherent) (hheld : host.Held members) {ref : Ref .record}
    {rest : List (Ref .record)} (hmembers : members = ran ++ ref :: rest)
    (hran : ∀ other ∈ ran, (host.record other).phase = .ready)
    (hrest : ∀ other ∈ rest, (host.record other).phase = .linked) {failure : Failure}
    (hended : host.Ended ref (.error failure)) :
    (do
      Act.failAll failure rest
      return .ready (.error failure) : Act (Poll ComponentRun (Except Failure Unit))).Coheres members host
        (PolledWell members) := by
  obtain ⟨hnodup, hin⟩ := rest_of_members hheld h hmembers
  have hfail : (Act.failAll failure rest).Coheres members host fun _ after => after.Broke members failure := by
    obtain ⟨hafter, hfollows, hfailed⟩ := Act.failAll_coheres h hheld hnodup hin failure
    have hended := hended.carries hfollows.toCarries
    refine ⟨hafter, hfollows.weaken hin,
      ⟨ref, hmembers ▸ List.mem_append_right _ List.mem_cons_self, hended⟩, fun other hother => ?_⟩
    rw [hmembers, List.mem_append, List.mem_cons] at hother
    rcases hother with hother | rfl | hother
    · have hmoved := h.recorded.moved_of_linked
        (hheld.linked h (hmembers ▸ List.mem_append_left _ hother))
      rw [hran other hother] at hmoved
      exact .inl (hfollows.later.chronicle.subset hmoved)
    · exact .inr hended.1
    · exact .inr (hfailed other (Act.mem_unended.2 ⟨hother, by rw [hrest other hother]; rfl⟩))
  exact hfail.bind fun _ _ hafter _ hbroke => .pure hafter hbroke

/-- Where one member moves, the others stay in their phases. -/
theorem phase_others (hheld : host.Held members) (h : host.Coherent) {ref : Ref .record}
    {rest : List (Ref .record)} (hmembers : members = ran ++ ref :: rest) {host' : Host}
    (hf : Follows [ref] host host') {other : Ref .record} (hother : other ∈ ran ∨ other ∈ rest) :
    (host'.record other).phase = (host.record other).phase := by
  have hnodup := hheld.nodup h
  rw [hmembers] at hnodup
  obtain ⟨-, hright, hapart⟩ := List.nodup_append.1 hnodup
  refine hheld.phase hf ?_ fun hmem => ?_
  · rw [hmembers]
    exact hother.elim (List.mem_append_left _) fun hmem => List.mem_append_right _ (List.mem_cons_of_mem _ hmem)
  · obtain rfl := List.mem_singleton.1 hmem
    rcases hother with hother | hother
    · exact hapart other hother other List.mem_cons_self rfl
    · exact (List.nodup_cons.1 hright).1 hother

/-- When a member was suspended, or goes on being suspended, the run is good. -/
theorem Good.suspend (hheld : host.Held members) (h : host.Coherent) {ref : Ref .record}
    {rest : List (Ref .record)} (hmembers : members = ran ++ ref :: rest)
    (hran : ∀ other ∈ ran, (host.record other).phase = .ready)
    (hrest : ∀ other ∈ rest, (host.record other).phase = .linked) {host' : Host}
    (hf : Follows [ref] host host') (hphase : (host'.record ref).phase = .executing) {body : BodyWork}
    (hbody : body.Good host') : ComponentRun.Good host' members ran ⟨some (ref, body), rest⟩ where
  members := hmembers
  ready other hother := (phase_others hheld h hmembers hf (.inl hother)).trans (hran other hother)
  current other work heq := by
    cases heq
    exact ⟨hphase, hbody⟩
  rest other hother := (phase_others hheld h hmembers hf (.inr hother)).trans (hrest other hother)

/-- When a member has completed, the run goes on with those after it. -/
theorem Good.complete (hheld : host.Held members) (h : host.Coherent) {ref : Ref .record}
    {rest : List (Ref .record)} (hmembers : members = ran ++ ref :: rest)
    (hran : ∀ other ∈ ran, (host.record other).phase = .ready)
    (hrest : ∀ other ∈ rest, (host.record other).phase = .linked) {host' : Host}
    (hf : Follows [ref] host host') (hphase : (host'.record ref).phase = .ready) :
    ComponentRun.Good host' members (ran ++ [ref]) ⟨none, rest⟩ where
  members := by
    rw [hmembers, List.append_assoc]
    rfl
  ready other hother := by
    rcases List.mem_append.1 hother with hother | hother
    · exact (phase_others hheld h hmembers hf (.inl hother)).trans (hran other hother)
    · rwa [List.mem_singleton.1 hother]
  current _ _ heq := nomatch heq
  rest other hother := (phase_others hheld h hmembers hf (.inr hother)).trans (hrest other hother)

variable (hlook : look.Coheres)
include hlook

theorem runRest_coheres (waker : Waker) : ∀ (rest ran : List (Ref .record)) {host : Host},
    host.Coherent → host.Runs members → ComponentRun.Good host members ran ⟨none, rest⟩ →
      (runRest look waker rest).Coheres members host (PolledWell members)
  -- By induction on the members that are left.
  | [], ran, host, h, hruns, hgood => by
    refine .pure h fun ref href => hgood.ready ref ?_
    have hmembers : members = ran ++ [] := hgood.members
    rwa [hmembers, List.append_nil] at href
  | ref :: rest, ran, host, h, hruns, hgood => by
    have hmembers : members = ran ++ ref :: rest := hgood.members
    have href : ref ∈ members := hmembers ▸ List.mem_append_right _ List.mem_cons_self
    have hrest (other : Ref .record) (hother : other ∈ rest) :=
      hgood.rest other (List.mem_cons_of_mem _ hother)
    have hstart := Act.startRecord_coheres hlook h hruns hmembers hgood.ready
      (hgood.rest ref List.mem_cons_self) waker
    unfold runRest
    refine Act.Coheres.bindWithin (List.cons_subset.2 ⟨href, List.nil_subset _⟩) hstart
      fun result after hafter hfollows hresult => ?_
    have hlater := hruns.follows h hfollows
    match result, hresult with
    | .pending body, ⟨hphase, hbody⟩ =>
      exact .pure hafter ⟨ran, .suspend hruns.held h hmembers hgood.ready hrest hfollows hphase hbody⟩
    | .ready (.ok ()), hphase =>
      exact runRest_coheres waker rest (ran ++ [ref]) hafter hlater
        (.complete hruns.held h hmembers hgood.ready hrest hfollows hphase)
    | .ready (.error failure), hended =>
      exact failRest_coheres hafter hlater.held hmembers
        (fun other hother => (phase_others hruns.held h hmembers hfollows (.inl hother)).trans
          (hgood.ready other hother))
        (fun other hother => (phase_others hruns.held h hmembers hfollows (.inr hother)).trans
          (hrest other hother)) hended

/-- A run goes on where it stands. -/
theorem poll_coheres (h : host.Coherent) (hruns : host.Runs members) {run : ComponentRun}
    (hgood : run.Good host members ran) (waker : Waker) :
    (run.poll look waker).Coheres members host (PolledWell members) := by
  have hmembers := hgood.members
  unfold poll
  split
  · rename_i hnone
    rw [hnone] at hmembers
    exact runRest_coheres hlook waker run.rest ran h hruns
      ⟨hmembers, hgood.ready, (fun _ _ heq => nomatch heq), hgood.rest⟩
  · rename_i ref work hcurrent
    rw [hcurrent] at hmembers
    change members = ran ++ ref :: run.rest at hmembers
    have href : ref ∈ members := hmembers ▸ List.mem_append_right _ List.mem_cons_self
    obtain ⟨hexecuting, hwork⟩ := hgood.current ref work hcurrent
    have hresume := work.resume_respects (coherence_kept hlook) ((BodyWork.fits_coherence h).2 hwork) h waker
    refine (hresume.well h).first fun result after hafter hfollows hresult => ?_
    have hexecuting := (hruns.held.phase hfollows href List.not_mem_nil).trans hexecuting
    cases result with
    | pending next =>
      refine .pure hafter ⟨ran, ?_⟩
      exact .suspend hruns.held h hmembers hgood.ready hgood.rest (hfollows.grow [ref]) hexecuting
        (hresult next rfl)
    | ready result =>
      refine .afterAside (Act.note_aside _) hafter fun _ noted hnoted hfollows' _ => ?_
      have hfollows := hfollows.trans hfollows'
      have hexecuting := (hruns.held.phase hfollows href List.not_mem_nil).trans
        (hgood.current ref work hcurrent).1
      have hlater := hruns.follows h hfollows
      refine Act.Coheres.bindWithin (List.cons_subset.2 ⟨href, List.nil_subset _⟩)
        (Act.conclude_coheres hnoted hlater.held href hexecuting result) fun outcome last hlast hends hended => ?_
      have hall := (hfollows.grow [ref]).trans hends
      match outcome, hended with
      | .ok (), hphase =>
        exact runRest_coheres hlook waker run.rest (ran ++ [ref]) hlast (hlater.follows hnoted hends)
          (.complete hruns.held h hmembers hgood.ready hgood.rest hall hphase)
      | .error failure, hended =>
        exact failRest_coheres hlast (hlater.held.follows hends) hmembers
          (fun other hother => (phase_others hruns.held h hmembers hall (.inl hother)).trans
            (hgood.ready other hother))
          (fun other hother => (phase_others hruns.held h hmembers hall (.inr hother)).trans
            (hgood.rest other hother)) hended

end ComponentRun

end ModuleLoader
