import ModuleLoader.Proofs.CoherentDrivers
import ModuleLoader.Proofs.LawfulDrivers
/-!
Completions keep a host coherent. Whoever looks at one drives its driver, and a driver is done only when
all its verdicts are announced, so everybody who waits learns what became of the record.
-/

namespace ModuleLoader
set_option autoImplicit false

variable {host after : Host} {look : LookReady} {work : ReadyWork}

/-- Who holds a driver does not matter. -/
theorem Host.Coherent.holders (h : host.Coherent) {drivers : Arena .driver Driver}
    (hsame : ∀ driver, (drivers.get? driver).map Driver.shared =
      (host.drivers.get? driver).map Driver.shared) :
    Host.Coherent { host with drivers } ∧ Follows [] host { host with drivers } := by
  have ht : Turns host { host with drivers } := ⟨rfl, fun _ => id, fun _ => id⟩
  have hdrives (driver : Ref .driver) (work : DriverWork) :
      Host.Drives { host with drivers } driver work ↔ host.Drives driver work := by
    unfold Host.Drives Shelf.drivers
    dsimp only
    rw [hsame]
  refine ⟨h.turns ht (h.announced.turns h.recorded ht (fun _ => id) (fun _ work hwork => ⟨work, hwork, rfl⟩)
    (fun _ _ _ _ => .inl) fun ready bell result hdone => ⟨hdone ▸ rfl, h.announced.done ready bell result hdone⟩)
      (h.manned.turns h.recorded ht (fun _ => id) (fun _ work hwork => ⟨work, hwork, rfl, rfl⟩)
        (fun driver work hwork => ⟨work, (hdrives driver work).1 hwork, rfl⟩)
        (fun driver work hwork => .inl ⟨work, (hdrives driver work).2 hwork, rfl⟩)
        fun driver bell work hidle => h.manned.idle driver bell work ((hsame driver).symm.trans hidle)), ?_⟩
  exact
    { toCarries := ht.carries
      tasks := rfl
      readies := fun _ _ _ hready => hready
      drivers := fun driver bell work hwork => (hsame driver).trans hwork
      members := fun _ _ _ _ _ _ _ _ _ => rfl }

/-- Who listens for a verdict does not matter. -/
theorem Host.Coherent.listeners (h : host.Coherent) {verdicts : Arena .verdict Verdict}
    (hexist : ∀ verdict, (host.verdicts.get? verdict).isSome → (verdicts.get? verdict).isSome)
    (hresult : ∀ verdict, (verdicts.get? verdict).bind Verdict.result =
      (host.verdicts.get? verdict).bind Verdict.result) :
    Host.Coherent { host with verdicts } ∧ Follows [] host { host with verdicts } := by
  have hspoken (verdict : Ref .verdict) (hspoken : host.Spoken verdict) :
      Host.Spoken { host with verdicts } verdict :=
    (congrArg Option.isSome (hresult verdict)).trans hspoken
  exact ⟨h.verdicts hexist hspoken fun _ work _ _ hfound => .inl ((hresult work.verdict).symm.trans hfound),
    .verdicts [] host _ hspoken⟩

/-- A completion drives its driver no more. -/
theorem Act.leaveDriver_coheres (h : host.Coherent) (watch : Watch .driver) :
    (leaveDriver watch).Coheres [] host fun _ _ => True := by
  refine .afterAside (Shelf.forget_aside watch) h fun _ left hleft _ _ => ?_
  have hholders : (modify fun host => { host with drivers := host.drivers.modify watch.job fun driver =>
      { driver with holders := driver.holders - 1 } } : Act Unit).Coheres [] left fun _ _ => True := by
    have hsame (driver : Ref .driver) : ((left.drivers.modify watch.job fun driver =>
        { driver with holders := driver.holders - 1 }).get? driver).map Driver.shared =
          (left.drivers.get? driver).map Driver.shared := by
      rw [Arena.get?_modify]
      split
      · rw [Option.map_map]
        rfl
      · rfl
    obtain ⟨hcoherent, hfollows⟩ := hleft.holders hsame
    exact ⟨hcoherent, hfollows, trivial⟩
  refine hholders.bind fun _ after hafter _ _ => .getBind ?_
  split
  · rename_i work _
    refine .afterAside (Pool.close_aside _) hafter fun _ _ hlast _ _ => ?_
    exact Act.Coheres.mono (.aside (DriverWork.forgetAll_aside work.members) hlast) fun _ _ _ => trivial
  · exact .pure hafter trivial

/-- Driving a driver moves only records that nobody else drives. -/
theorem Act.drive_coheres (hlook : look.Coheres) (h : host.Coherent) (watch : Watch .driver) (waker : Waker) :
    (Shelf.drivers.poll (DriverWork.poll look) watch waker).Coheres [] host fun result after =>
      match result with
      | .pending next => next.job = watch.job
      | .ready () => ∃ bell, Shelf.drivers.get? after watch.job = some ⟨bell, .done ()⟩ := by
  refine Shelf.after_poll ?_ ?_ ?_ ?_
  · exact fun _ => ⟨h, .refl [] host, rfl⟩
  · exact fun bell _ hdone => ⟨h, .refl [] host, bell, hdone⟩
  · intro bell work seat told _ haside
    exact ⟨h.quiet haside.quiet, .quiet h haside.quiet, rfl⟩
  · intro bell work seat told hidle haside
    have htold := h.quiet haside.quiet
    have hquiet := Follows.quiet h haside.quiet
    have hidle : Shelf.drivers.get? told watch.job = some ⟨bell, .idle work⟩ := by
      obtain ⟨_, _, _, _, _, _, rfl⟩ := haside
      exact hidle
    have hdrives : told.Drives watch.job work := ⟨bell, .inl hidle⟩
    have htaken : (Shelf.drivers.put told watch.job ⟨bell, .driven work⟩).Coherent :=
      htold.putDriver hdrives bell (show told.AllowsDriver work (.driven work) from rfl)
    have hput : Shelf.drivers.get? (Shelf.drivers.put told watch.job ⟨bell, .driven work⟩) watch.job =
        some ⟨bell, .driven work⟩ := by
      rw [Host.get?_putDriver, if_pos rfl, hidle]
      rfl
    have hgood : work.Good (Shelf.drivers.put told watch.job ⟨bell, .driven work⟩) :=
      (htold.manned.idle watch.job bell work hidle).carries htold.recorded
        (htold.manned.proper watch.job work hdrives) (Turns.carries ⟨rfl, fun _ => id, fun _ => id⟩)
          fun _ _ _ _ => rfl
    -- Nobody drives another driver with one of these records.
    have hapart (other : Ref .driver) (bell' : Ref .bell) (work' : DriverWork) (hne : watch.job ≠ other)
        (hother : Shelf.drivers.get? told other = some ⟨bell', .driven work'⟩) :
        ∀ component ∈ work'.components, ∀ ref ∈ component.members, ref ∉ work.crew := by
      intro component hcomponent ref href hcrew
      obtain ⟨found, hfound, hmember⟩ := List.mem_flatMap.1 hcrew
      obtain ⟨index, hindex⟩ := List.mem_iff_getElem?.1 hfound
      obtain ⟨index', hindex'⟩ := List.mem_iff_getElem?.1 hcomponent
      exact hne (htold.manned.disjoint watch.job other work work' hdrives ⟨bell', .inr hother⟩ index index'
        found component hindex hindex' ref hmember href).1
    refine After.mono (DriverWork.poll_coheres hlook htaken hgood hput (.bell bell)) fun result after hrun => ?_
    obtain ⟨hafter, hfollows, inside, hresult⟩ := hrun
    have hall (shared : Shared DriverWork Unit) :
        Follows [] host (Shelf.drivers.put after watch.job shared) :=
      hquiet.trans (hfollows.putDriver hidle hapart shared)
    have hold : after.Drives watch.job work := ⟨bell, .inr (hfollows.drivers watch.job bell work hput)⟩
    match result, hresult with
    | .pending next, hs =>
      have hallows : after.AllowsDriver work (.idle next) :=
        ⟨hs.atWork.alike, hs.nodup, hs.fresh, (fun hnot => nomatch hs.started.symm.trans hnot), inside,
          hs.atWork.wired, by
            unfold DriverWork.waits
            rw [if_pos hs.started]
            exact hs.balanced, hs.upright⟩
      exact ⟨hafter.putDriver hold bell hallows, hall _, rfl⟩
    | .ready (), hspoken =>
      intro last haside'
      have hdone := hafter.putDriver hold bell
        (show after.AllowsDriver work (.done ()) from hspoken)
      refine ⟨hdone.quiet haside'.quiet, (hall _).trans (.quiet hdone haside'.quiet), bell, ?_⟩
      obtain ⟨_, _, _, _, _, _, rfl⟩ := haside'
      change Shelf.drivers.get? (Shelf.drivers.put after watch.job ⟨bell, .done ()⟩) watch.job = _
      rw [Host.get?_putDriver, if_pos rfl, hfollows.drivers watch.job bell work hput]
      rfl

namespace ReadyWork

/-- Whoever waits for a driver that is done finds its verdict. -/
theorem spoken_of_done (h : host.Coherent) {ready : Ref .ready} (hwork : host.Completes ready work)
    (hdone : ∀ watch, work.driver = some watch →
      ∃ bell, Shelf.drivers.get? host watch.job = some ⟨bell, .done ()⟩) : host.Spoken work.verdict := by
  obtain ⟨watch, hwatch, hspoken | ⟨driver, ⟨bell, hdrives⟩, -⟩⟩ := h.manned.served ready work hwork
  · exact hspoken
  · obtain ⟨bell', hdone⟩ := hdone watch hwatch
    rcases hdrives with hdrives | hdrives <;> cases hdrives.symm.trans hdone

/-- What driving a completion comes to: it goes on for the same verdict, or it is over. -/
def PolledWell (work : ReadyWork) (ready : Ref .ready) (result : Poll ReadyWork (Except Failure Unit))
    (host : Host) : Prop :=
  match result with
  | .pending next => next.Alike work
  | .ready result => host.CameTo ready result

theorem listen_coheres (h : host.Coherent) {ready : Ref .ready} (hwork : host.Completes ready work)
    (hspoken : host.Spoken work.verdict) : work.listen.Coheres [] host (work.PolledWell ready) := by
  refine .getBind ?_
  split
  · rename_i result hresult
    exact .pure h (h.announced.verdicts ready work result hwork hresult)
  · rename_i hnone
    unfold Host.Spoken at hspoken
    rw [hnone] at hspoken
    cases hspoken

theorem poll_coheres (hlook : look.Coheres) (h : host.Coherent) {ready : Ref .ready} {bell : Ref .bell}
    (htaken : host.readies.get? ready = some ⟨bell, .driven work⟩) (waker : Waker) :
    (ReadyWork.poll look work waker).Coheres [] host (work.PolledWell ready) := by
  unfold ReadyWork.poll
  split
  · rename_i hnone
    have hwork : host.Completes ready work := ⟨bell, .inr htaken⟩
    exact listen_coheres h hwork (spoken_of_done h hwork fun watch hwatch => nomatch hnone.symm.trans hwatch)
  · rename_i watch hwatch
    refine (Act.drive_coheres hlook h watch waker).bind fun result after hafter hfollows hresult => ?_
    have hwork : after.Completes ready work := ⟨bell, .inr (hfollows.readies ready bell work htaken)⟩
    match result, hresult with
    | .ready (), hdone =>
      refine listen_coheres hafter hwork (spoken_of_done hafter hwork fun other hother => ?_)
      obtain rfl := Option.some.inj (hwatch.symm.trans hother)
      exact hdone
    | .pending next, hjob =>
      refine .getBind ?_
      split
      · rename_i result hspoken
        have hcame := hafter.announced.verdicts ready work result hwork hspoken
        refine (Act.leaveDriver_coheres hafter next).bind fun _ last hlast hleft _ => .pure hlast ?_
        exact hleft.toCarries.cameTo hafter.recorded hwork.isSome hcame
      · have hexist (verdict : Ref .verdict) (hexist : (after.verdicts.get? verdict).isSome) :
            ((after.verdicts.modify work.verdict fun verdict =>
              { verdict with listener := some waker }).get? verdict).isSome := by
          rw [Arena.get?_modify]
          split
          · rwa [Option.isSome_map]
          · exact hexist
        have hresult (verdict : Ref .verdict) : ((after.verdicts.modify work.verdict fun verdict =>
            { verdict with listener := some waker }).get? verdict).bind Verdict.result =
              (after.verdicts.get? verdict).bind Verdict.result := by
          rw [Arena.get?_modify]
          split
          · rw [Option.bind_map]
            rfl
          · rfl
        have hpending : ({ work with driver := some next } : ReadyWork).Alike work := by
          refine ⟨rfl, ?_⟩
          rw [hwatch]
          exact congrArg some hjob
        obtain ⟨hlistens, hfollows⟩ := hafter.listeners hexist hresult
        exact ⟨hlistens, hfollows, hpending⟩

end ReadyWork

/-- Looks at completions keep a host coherent, however deep they are nested. -/
theorem lookReady_coheres : ∀ depth : Nat, (lookReady depth).Coheres := by
  intro depth
  induction depth with
  | zero => exact fun host watch waker h => .pure h rfl
  | succ depth ih =>
    intro host watch waker h
    refine Shelf.after_poll ?_ ?_ ?_ ?_
    · exact fun _ => ⟨h, .refl [] host, rfl⟩
    · exact fun bell result hdone => ⟨h, .refl [] host, h.announced.done watch.job bell result hdone⟩
    · intro bell work seat told _ haside
      exact ⟨h.quiet haside.quiet, .quiet h haside.quiet, rfl⟩
    · intro bell work seat told hidle haside
      have htold := h.quiet haside.quiet
      have hquiet := Follows.quiet h haside.quiet
      have hidle : told.readies.get? watch.job = some ⟨bell, .idle work⟩ := by
        obtain ⟨_, _, _, _, _, _, rfl⟩ := haside
        exact hidle
      have htaken : (Shelf.readies.put told watch.job ⟨bell, .driven work⟩).Coherent :=
        htold.putReady ⟨bell, .inl hidle⟩ bell
          (show told.AllowsReady watch.job work (.driven work) from ⟨rfl, rfl⟩)
      have hput : (Shelf.readies.put told watch.job ⟨bell, .driven work⟩).readies.get? watch.job =
          some ⟨bell, .driven work⟩ := by
        rw [Host.get?_putReady, if_pos rfl, hidle]
        rfl
      refine After.mono (ReadyWork.poll_coheres ih htaken hput (.bell bell)) fun result after hrun => ?_
      obtain ⟨hafter, hfollows, hresult⟩ := hrun
      have hall (shared : Shared ReadyWork (Except Failure Unit)) :
          Follows [] host (Shelf.readies.put after watch.job shared) :=
        hquiet.trans (hfollows.putReady hidle shared)
      have hold : after.Completes watch.job work :=
        ⟨bell, .inr (hfollows.readies watch.job bell work hput)⟩
      match result, hresult with
      | .pending next, halike =>
        exact ⟨hafter.putReady hold bell (show after.AllowsReady watch.job work (.idle next) from halike),
          hall _, rfl⟩
      | .ready result, hcame =>
        intro last haside'
        have hdone := hafter.putReady hold bell
          (show after.AllowsReady watch.job work (.done result) from hcame)
        have hend := Follows.quiet hdone haside'.quiet
        refine ⟨hdone.quiet haside'.quiet, (hall _).trans hend, ?_⟩
        exact ((Follows.carries_putReady after watch.job _).trans hend.toCarries).cameTo hafter.recorded
          hold.isSome hcame

end ModuleLoader
