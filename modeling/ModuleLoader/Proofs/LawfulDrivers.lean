import ModuleLoader.Proofs.LawfulBodies
/-!
Drivers and completions keep every law that loading, linking and moving records keep. The failure of a
component is announced as it came, so results stay as fine as the failures they come from.
-/

namespace ModuleLoader
set_option autoImplicit false

variable {law : Law} (kept : law.Kept) {look : LookReady} (hlook : look.Obeys law) {host : Host}

open Act.Obeys

namespace Law.Stands

include kept

/-- The law stands when the work of a host was changed and is sane. -/
theorem works (h : law.Stands host) (readies : Arena .ready (Shared ReadyWork (Except Failure Unit)))
    (drivers : Arena .driver Driver) (verdicts : Arena .verdict Verdict) (tasks : Arena .task Task)
    (hhosted : law.rel host { host with readies, drivers, verdicts, tasks } →
      law.Hosted { host with readies, drivers, verdicts, tasks }) :
    law.Stands { host with readies, drivers, verdicts, tasks } ∧
      law.rel host { host with readies, drivers, verdicts, tasks } := by
  obtain ⟨hinv, hrel⟩ := kept.works h.inv readies drivers verdicts tasks
  exact ⟨⟨hinv, hhosted hrel⟩, hrel⟩

/-- A driver may be taken up, and laid down when it is sane. -/
theorem putDriver (h : law.Stands host) (driver : Ref .driver) (bell : Ref .bell)
    (progress : Progress DriverWork Unit)
    (hprogress : ∀ work, progress = .idle work → work.Sane law host) :
    law.Stands (Shelf.drivers.put host driver ⟨bell, progress⟩) ∧
      law.rel host (Shelf.drivers.put host driver ⟨bell, progress⟩) := by
  refine h.works kept _ _ _ _ fun hrel =>
    { readies := h.hosted.readies
      verdicts := h.hosted.verdicts
      tasks := fun ref task htask => (h.hosted.tasks ref task htask).lasts kept hrel
      drivers := fun other bell work hwork => ?_ }
  change ((host.drivers.modify driver _).get? other).map Driver.shared = _ at hwork
  rw [Arena.get?_modify] at hwork
  split at hwork
  · obtain ⟨_, hfound, hwork⟩ := Option.map_eq_some_iff.1 hwork
    obtain ⟨_, _, rfl⟩ := Option.map_eq_some_iff.1 hfound
    cases hwork
    exact (hprogress work rfl).lasts kept hrel
  · exact (h.hosted.drivers other bell work hwork).lasts kept hrel

/-- A completion may be taken up, and laid down with a result that is fine. -/
theorem putReady (h : law.Stands host) (ready : Ref .ready) (bell : Ref .bell)
    (progress : Progress ReadyWork (Except Failure Unit))
    (hprogress : ∀ failure, progress = .done (.error failure) → law.fine failure) :
    law.Stands (Shelf.readies.put host ready ⟨bell, progress⟩) ∧
      law.rel host (Shelf.readies.put host ready ⟨bell, progress⟩) := by
  refine h.works kept _ _ _ _ fun hrel =>
    { verdicts := h.hosted.verdicts
      drivers := fun driver bell work hwork =>
        (h.hosted.drivers driver bell work hwork).lasts kept hrel
      tasks := fun ref task htask => (h.hosted.tasks ref task htask).lasts kept hrel
      readies := fun other bell failure hother => ?_ }
  change (host.readies.set ready _).get? other = _ at hother
  rw [Arena.get?_set] at hother
  split at hother
  · obtain ⟨_, _, heq⟩ := Option.map_eq_some_iff.1 hother
    cases heq
    exact hprogress failure rfl
  · exact h.hosted.readies other bell failure hother

/-- Verdicts may change, if all that are announced are fine. -/
theorem putVerdicts (h : law.Stands host) {verdicts : Arena .verdict Verdict}
    (hverdicts : ∀ verdict failure, (verdicts.get? verdict).bind Verdict.result =
      some (.error failure) → law.fine failure) :
    law.Stands { host with verdicts } ∧ law.rel host { host with verdicts } :=
  h.works kept _ _ _ _ fun hrel =>
    { readies := h.hosted.readies
      verdicts := hverdicts
      drivers := fun driver bell work hwork =>
        (h.hosted.drivers driver bell work hwork).lasts kept hrel
      tasks := fun ref task htask => (h.hosted.tasks ref task htask).lasts kept hrel }

end Law.Stands

include kept in
theorem Act.announce_obeys (verdict : Ref .verdict) {result : Except Failure Unit}
    (hresult : ∀ failure, result = .error failure → law.fine failure) (h : law.Stands host) :
    (announce verdict result).Obeys law host fun _ _ => True := by
  refine .getBind (Obeys.seq kept ?_ fun _ _ h _ => .aside kept (tell_aside _) h)
  have hverdicts : ∀ other failure, ((host.verdicts.set verdict ⟨some result, none⟩).get? other).bind
      Verdict.result = some (.error failure) → law.fine failure := by
    intro other failure hother
    rw [Arena.get?_set] at hother
    split at hother
    · obtain ⟨found, hfound, hother⟩ := Option.bind_eq_some_iff.1 hother
      obtain ⟨_, _, rfl⟩ := Option.map_eq_some_iff.1 hfound
      exact hresult failure (Option.some.inj hother)
    · exact h.hosted.verdicts other failure hother
  obtain ⟨hstands, hrel⟩ := h.putVerdicts kept hverdicts
  exact ⟨hstands, hrel, trivial⟩

/-- A failure that a driver learns of is fine. -/
def DriverEvent.Fine (law : Law) : DriverEvent → Prop
  | .outside _ result => ∀ failure, result = .error failure → law.fine failure
  | .finished _ result => ∀ failure, result = .error failure → law.fine failure

namespace DriverWait

/-- What a look at something that a driver waits for comes to. -/
def Polled (law : Law) (result : Poll DriverWait DriverEvent) (host : Host) : Prop :=
  match result with
  | .pending wait => wait.Sane law host
  | .ready event => event.Fine law

include kept hlook in
theorem poll_obeys {wait : DriverWait} (hwait : wait.Sane law host) (h : law.Stands host)
    (waker : Waker) : (wait.poll look waker).Obeys law host (Polled law) := by
  cases wait with
  | outside component completion =>
    refine Act.Obeys.bind kept (completion.poll_obeys kept hlook hwait h waker)
      fun result after hafter _ hresult => ?_
    cases result <;> exact .pure kept hafter hresult
  | run component work =>
    refine Act.Obeys.bind kept (ComponentRun.poll_obeys kept hlook hwait h waker)
      fun result after hafter _ hresult => ?_
    cases result <;> exact .pure kept hafter hresult

theorem forget_aside (wait : DriverWait) : wait.forget.IsAside := by
  cases wait with
  | outside component completion => exact completion.forget_aside
  | run component work =>
    unfold forget
    dsimp only
    split
    · exact BodyWork.forget_aside _
    · exact .pure _

end DriverWait

namespace DriverWork

section
include kept

theorem add_obeys {driver : DriverWork} (hdriver : driver.Sane law host) {wait : DriverWait}
    (hwait : wait.Sane law host) (h : law.Stands host) :
    (driver.add wait).Obeys law host fun next host' => next.Sane law host' := by
  refine Act.Obeys.bind kept (.aside kept (Act.changePool_aside _ _) h) fun _ after hafter hrel _ => ?_
  refine .pure kept hafter ⟨hdriver.outside, fun member hmem => ?_⟩
  rcases List.mem_cons.1 hmem with rfl | hmem
  · exact hwait.lasts kept hrel
  · exact (hdriver.members member hmem).lasts kept hrel

theorem addAll_obeys : ∀ (waits : List DriverWait) {host : Host} {driver : DriverWork},
    driver.Sane law host → (∀ wait ∈ waits, wait.Sane law host) → law.Stands host →
      (driver.addAll waits).Obeys law host fun next host' => next.Sane law host' := by
  intro waits
  induction waits with
  | nil => exact fun hdriver _ h => .pure kept h hdriver
  | cons wait rest ih =>
    intro host driver hdriver hwaits h
    refine Act.Obeys.bind kept (add_obeys kept hdriver (hwaits wait List.mem_cons_self) h)
      fun next after hafter hrel hnext => ?_
    exact ih hnext (fun other hmem => (hwaits other (List.mem_cons_of_mem _ hmem)).lasts kept hrel)
      hafter

omit kept in
/-- The run of a component that has not begun is sane. -/
theorem fresh_sane (members : List (Ref .record)) : ComponentRun.Sane law host ⟨none, members⟩ :=
  fun _ _ heq => nomatch heq

omit kept in
theorem firstWaits_sane {components : List Component}
    (h : ∀ component ∈ components, ∀ completion ∈ component.outside, completion.Fine law) :
    ∀ wait ∈ firstWaits components, wait.Sane law host := by
  intro wait hmem
  obtain ⟨⟨component, index⟩, hcomponent, hmem⟩ := List.mem_flatMap.1 hmem
  rcases List.mem_append.1 hmem with hmem | hmem
  · obtain ⟨completion, hcompletion, rfl⟩ := List.mem_map.1 hmem
    exact h component (List.fst_mem_of_mem_zipIdx hcomponent) completion hcompletion
  · split at hmem
    · obtain rfl := List.mem_singleton.1 hmem
      exact fresh_sane component.members
    · cases hmem

omit kept in
/-- A component that changes in nothing but its counts waits for the same records. -/
theorem outside_modify {components : List Component} {index : Nat} {f : Component → Component}
    (hf : ∀ component, (f component).outside = component.outside)
    (h : ∀ component ∈ components, ∀ completion ∈ component.outside, completion.Fine law) :
    ∀ component ∈ components.modify index f, ∀ completion ∈ component.outside,
      completion.Fine law := by
  intro component hmem
  obtain ⟨place, hplace⟩ := List.mem_iff_getElem?.1 hmem
  rw [List.getElem?_modify] at hplace
  obtain ⟨old, hold, rfl⟩ := Option.map_eq_some_iff.1 hplace
  have hfine := h old (List.mem_of_getElem? hold)
  split
  · rw [hf]
    exact hfine
  · exact hfine

theorem release_obeys {driver : DriverWork} (hdriver : driver.Sane law host) (index : Nat)
    (h : law.Stands host) :
    (driver.release index).Obeys law host fun next host' => next.Sane law host' := by
  unfold release
  split
  · exact .pure kept h hdriver
  · split
    · exact .pure kept h hdriver
    · have hnext : DriverWork.Sane law host { driver with
          components := driver.components.modify index fun component =>
            { component with waiting := component.waiting - 1 } } :=
        ⟨outside_modify (fun _ => rfl) hdriver.outside, hdriver.members⟩
      dsimp only
      split
      · exact add_obeys kept hnext (fresh_sane _) h
      · exact .pure kept h hnext

theorem releaseAll_obeys : ∀ (indices : List Nat) {host : Host} {driver : DriverWork},
    driver.Sane law host → law.Stands host →
      (driver.releaseAll indices).Obeys law host fun next host' => next.Sane law host' := by
  intro indices
  induction indices with
  | nil => exact fun hdriver h => .pure kept h hdriver
  | cons index rest ih =>
    intro host driver hdriver h
    exact Act.Obeys.bind kept (release_obeys kept hdriver index h)
      fun next after hafter _ hnext => ih hnext hafter

theorem failFrom_obeys {failure : Failure} (hfailure : law.fine failure) :
    ∀ (fuel : Nat) (indices : List Nat) {components : List Component} {host : Host},
      law.Stands host →
        (∀ component ∈ components, ∀ completion ∈ component.outside, completion.Fine law) →
          (failFrom failure fuel indices components).Obeys law host fun components _ =>
            ∀ component ∈ components, ∀ completion ∈ component.outside, completion.Fine law := by
  -- By induction on the steps a failure can take.
  intro fuel
  induction fuel with
  | zero => exact fun _ _ _ h hcomponents => .pure kept h hcomponents
  | succ fuel ih =>
    intro indices components host h hcomponents
    cases indices with
    | nil => exact .pure kept h hcomponents
    | cons index rest =>
      unfold failFrom
      split
      · exact ih rest h hcomponents
      · rename_i component hcomponent
        split
        · exact ih rest h hcomponents
        · refine Act.Obeys.bind kept (.advance kept (Act.failAll_advance hfailure _) h)
            fun _ failed hfailed _ _ => ?_
          have hresult : ∀ found, Except.error (α := Unit) failure = .error found → law.fine found := by
            rintro _ ⟨⟩
            exact hfailure
          refine Act.Obeys.bind kept (Act.announce_obeys kept component.verdict hresult hfailed)
            fun _ after hafter _ _ => ?_
          exact ih _ hafter (outside_modify (fun _ => rfl) hcomponents)

theorem fail_obeys {driver : DriverWork} (hdriver : driver.Sane law host) (index : Nat)
    {failure : Failure} (hfailure : law.fine failure) (h : law.Stands host) :
    (driver.fail index failure).Obeys law host fun next host' => next.Sane law host' := by
  refine Act.Obeys.bind kept (failFrom_obeys kept hfailure _ _ h hdriver.outside)
    fun components after hafter hrel hcomponents => ?_
  exact .pure kept hafter ⟨hcomponents, (hdriver.lasts kept hrel).members⟩

theorem succeed_obeys {driver : DriverWork} (hdriver : driver.Sane law host) (index : Nat)
    (h : law.Stands host) :
    (driver.succeed index).Obeys law host fun next host' => next.Sane law host' := by
  unfold succeed
  split
  · exact .pure kept h hdriver
  · rename_i component _
    have hresult : ∀ failure, Except.ok (ε := Failure) () = .error failure → law.fine failure := by
      rintro _ ⟨⟩
    refine Act.Obeys.bind kept (Act.announce_obeys kept component.verdict hresult h)
      fun _ after hafter hrel _ => ?_
    exact releaseAll_obeys kept _ ⟨outside_modify (fun _ => rfl) hdriver.outside,
      (hdriver.lasts kept hrel).members⟩ hafter

theorem take_obeys {driver : DriverWork} (hdriver : driver.Sane law host) {event : DriverEvent}
    (hevent : event.Fine law) (h : law.Stands host) :
    (driver.take event).Obeys law host fun next host' => next.Sane law host' := by
  cases event with
  | outside index result =>
    cases result with
    | ok _ => exact release_obeys kept hdriver index h
    | error failure => exact fail_obeys kept hdriver index (hevent failure rfl) h
  | finished index result =>
    cases result with
    | ok _ => exact succeed_obeys kept hdriver index h
    | error failure => exact fail_obeys kept hdriver index (hevent failure rfl) h

omit kept in
theorem forgetAll_aside : ∀ members : List (Nat × DriverWait), (forgetAll members).IsAside := by
  intro members
  induction members with
  | nil => exact .pure _
  | cons member rest ih => exact member.2.forget_aside.bind fun _ => ih

end

include kept hlook

/-- What the members of a driver come to. -/
theorem next_obeys {driver : DriverWork} (hdriver : driver.Sane law host) (h : law.Stands host)
    (waker : Waker) :
    (Pool.next (DriverWait.poll look) driver.pool waker driver.members).Obeys law host
      fun result host' => match result with
        | .pending members => ∀ member ∈ members, member.2.Sane law host'
        | .exhausted => True
        | .finished event members =>
          event.Fine law ∧ ∀ member ∈ members, member.2.Sane law host' := by
  let holds (members : List (Nat × DriverWait)) (now : Host) : Prop :=
    law.Stands now ∧ law.rel host now ∧ ∀ member ∈ members, member.2.Sane law now
  have hstart : holds driver.members host := ⟨h, kept.refl host, hdriver.members⟩
  refine Pool.after_next ?_ ?_ ?_ ?_ hstart
  · rintro members before after haside ⟨hbefore, hrel, hmembers⟩
    obtain ⟨hafter, hrel'⟩ := hbefore.aside kept haside
    exact ⟨hafter, kept.trans hrel hrel', fun member hmem => (hmembers member hmem).lasts kept hrel'⟩
  · rintro members index work before ⟨hbefore, hrel, hmembers⟩ hmem
    refine After.mono (DriverWait.poll_obeys kept hlook (hmembers _ hmem) hbefore
      (.member driver.pool index)) fun result after hrun => ?_
    obtain ⟨hafter, hrel', hresult⟩ := hrun
    have hothers : ∀ member ∈ members.filter fun member => member.1 ≠ index,
        member.2.Sane law after := fun member hmem =>
      (hmembers member (List.mem_filter.1 hmem).1).lasts kept hrel'
    cases result with
    | pending next =>
      refine ⟨hafter, kept.trans hrel hrel', fun member hmem => ?_⟩
      rcases List.mem_cons.1 hmem with rfl | hmem
      · exact hresult
      · exact hothers member hmem
    | ready event =>
      intro last haside
      obtain ⟨hlast, hend⟩ := hafter.aside kept haside
      exact ⟨hlast, kept.trans hrel (kept.trans hrel' hend), hresult,
        fun member hmem => (hothers member hmem).lasts kept hend⟩
  · exact fun members after hholds => hholds
  · exact fun after hholds => ⟨hholds.1, hholds.2.1, trivial⟩

theorem proceed_obeys (waker : Waker) : ∀ (fuel : Nat) {host : Host} {driver : DriverWork},
    driver.Sane law host → law.Stands host →
      (proceed look waker fuel driver).Obeys law host fun result host' =>
        ∀ next, result = .pending next → next.Sane law host' := by
  -- By induction on the events that are left.
  intro fuel
  induction fuel with
  | zero =>
    intro host driver hdriver h
    refine .pure kept h ?_
    rintro _ ⟨⟩
    exact hdriver
  | succ fuel ih =>
    intro host driver hdriver h
    refine Act.Obeys.bind kept (next_obeys kept hlook hdriver h waker)
      fun result after hafter _ hresult => ?_
    cases result with
    | pending members =>
      refine .pure kept hafter ?_
      rintro _ ⟨⟩
      exact ⟨hdriver.outside, hresult⟩
    | exhausted =>
      refine afterAside kept (Pool.close_aside _) hafter fun _ _ h => .pure kept h ?_
      rintro _ ⟨⟩
    | finished event members =>
      have hrest : DriverWork.Sane law after { driver with members } :=
        ⟨hdriver.outside, hresult.2⟩
      exact Act.Obeys.bind kept (take_obeys kept hrest hresult.1 hafter)
        fun _ _ htaken _ hnext => ih hnext htaken

theorem poll_obeys {driver : DriverWork} (hdriver : driver.Sane law host) (h : law.Stands host)
    (waker : Waker) : (DriverWork.poll look driver waker).Obeys law host fun result host' =>
      ∀ next, result = .pending next → next.Sane law host' := by
  have hwaits : ∀ wait ∈ (if driver.started then [] else firstWaits driver.components),
      wait.Sane law host := by
    split
    · exact fun _ hmem => nomatch hmem
    · exact firstWaits_sane hdriver.outside
  refine Act.Obeys.bind kept (addAll_obeys kept _ ⟨hdriver.outside, hdriver.members⟩ hwaits h)
    fun next after hafter _ hnext => ?_
  exact proceed_obeys kept hlook waker _ hnext hafter

end DriverWork

include kept in
theorem Act.leaveDriver_obeys (watch : Watch .driver) (h : law.Stands host) :
    (leaveDriver watch).Obeys law host fun _ _ => True := by
  refine afterAside kept (Shelf.forget_aside watch) h fun _ left hleft => ?_
  refine Obeys.seq kept ?_ fun _ after hafter _ => .getBind ?_
  · have hdrivers : ∀ driver bell work, ((left.drivers.modify watch.job fun driver =>
        { driver with holders := driver.holders - 1 }).get? driver).map Driver.shared =
          some ⟨bell, .idle work⟩ → Shelf.drivers.get? left driver = some ⟨bell, .idle work⟩ := by
      intro driver bell work hwork
      rw [Arena.get?_modify] at hwork
      split at hwork
      · rw [Option.map_map] at hwork
        exact hwork
      · exact hwork
    obtain ⟨hstands, hrel⟩ := hleft.works kept left.readies (left.drivers.modify watch.job
      fun driver => { driver with holders := driver.holders - 1 }) left.verdicts left.tasks fun hrel =>
        { readies := hleft.hosted.readies
          verdicts := hleft.hosted.verdicts
          tasks := fun ref task htask => (hleft.hosted.tasks ref task htask).lasts kept hrel
          drivers := fun driver bell work hwork =>
            (hleft.hosted.drivers driver bell work (hdrivers driver bell work hwork)).lasts kept hrel }
    exact ⟨hstands, hrel, trivial⟩
  · split
    · rename_i work _
      exact afterAside kept (Pool.close_aside _) hafter fun _ _ h =>
        .aside kept (DriverWork.forgetAll_aside work.members) h
    · exact .pure kept hafter trivial

namespace ReadyWork

include kept

theorem listen_obeys (work : ReadyWork) (h : law.Stands host) :
    work.listen.Obeys law host fun result _ =>
      ∀ failure, result = .ready (.error failure) → law.fine failure := by
  refine .getBind ?_
  split
  · rename_i result hresult
    refine .pure kept h ?_
    rintro failure ⟨⟩
    exact h.hosted.verdicts work.verdict failure hresult
  · refine .pure kept h ?_
    rintro _ ⟨⟩
    exact kept.excused h.inv work.first

include hlook

/-- Whoever looks at a driver drives it, unless somebody else does. -/
theorem drive_obeys (watch : Watch .driver) (h : law.Stands host) (waker : Waker) :
    (Shelf.drivers.poll (DriverWork.poll look) watch waker).Obeys law host fun _ _ => True := by
  refine Shelf.after_poll ?_ ?_ ?_ ?_
  · exact fun _ => ⟨h, kept.refl host, trivial⟩
  · exact fun _ _ _ => ⟨h, kept.refl host, trivial⟩
  · intro bell work seat told _ haside
    obtain ⟨htold, hrel⟩ := h.aside kept haside
    exact ⟨htold, hrel, trivial⟩
  · intro bell work seat told hidle haside
    obtain ⟨htold, hrel⟩ := h.aside kept haside
    have hwork := (h.hosted.drivers watch.job bell work hidle).lasts kept hrel
    obtain ⟨htaken, htake⟩ := htold.putDriver kept watch.job bell (.driven work)
      fun _ heq => nomatch heq
    refine After.mono (DriverWork.poll_obeys kept hlook (hwork.lasts kept htake) htaken (.bell bell))
      fun result after hrun => ?_
    obtain ⟨hafter, hdrive, hresult⟩ := hrun
    have hall := kept.trans hrel (kept.trans htake hdrive)
    cases result with
    | pending next =>
      obtain ⟨hlast, hput⟩ := hafter.putDriver kept watch.job bell (.idle next) fun _ heq => by
        cases heq
        exact hresult next rfl
      exact ⟨hlast, kept.trans hall hput, trivial⟩
    | ready result =>
      intro last haside'
      obtain ⟨hdone, hput⟩ := hafter.putDriver kept watch.job bell (.done result)
        fun _ heq => nomatch heq
      obtain ⟨hlast, hend⟩ := hdone.aside kept haside'
      exact ⟨hlast, kept.trans hall (kept.trans hput hend), trivial⟩

theorem poll_obeys (work : ReadyWork) (h : law.Stands host) (waker : Waker) :
    (ReadyWork.poll look work waker).Obeys law host fun result _ =>
      ∀ failure, result = .ready (.error failure) → law.fine failure := by
  unfold ReadyWork.poll
  split
  · exact listen_obeys kept work h
  · rename_i watch _
    refine Act.Obeys.seq kept (drive_obeys kept hlook watch h waker) fun result after hafter _ => ?_
    cases result with
    | ready _ => exact listen_obeys kept work hafter
    | pending watch =>
      refine .getBind ?_
      split
      · rename_i result hresult
        refine Act.Obeys.seq kept (Act.leaveDriver_obeys kept watch hafter) fun _ _ hlast _ => ?_
        refine .pure kept hlast ?_
        rintro failure ⟨⟩
        exact hafter.hosted.verdicts work.verdict failure hresult
      · refine Act.Obeys.seq kept ?_ fun _ _ hlast _ => .pure kept hlast ?_
        · have hverdicts : ∀ other failure, ((after.verdicts.modify work.verdict fun verdict =>
              { verdict with listener := some waker }).get? other).bind Verdict.result =
                some (.error failure) → law.fine failure := by
            intro other failure hother
            rw [Arena.get?_modify] at hother
            refine hafter.hosted.verdicts other failure ?_
            split at hother
            · rw [Option.bind_map] at hother
              exact hother
            · exact hother
          obtain ⟨hstands, hrel⟩ := hafter.putVerdicts kept hverdicts
          exact ⟨hstands, hrel, trivial⟩
        · rintro _ ⟨⟩

end ReadyWork

include kept in
/-- Looking at completions keeps the law, however deep looks are nested. -/
theorem lookReady_obeys : ∀ depth : Nat, (lookReady depth).Obeys law := by
  intro depth
  induction depth with
  | zero =>
    intro host watch waker h
    refine .pure kept h ?_
    rintro _ ⟨⟩
  | succ depth ih =>
    intro host watch waker h
    refine Shelf.after_poll ?_ ?_ ?_ ?_
    · refine fun _ => ⟨h, kept.refl host, ?_⟩
      rintro _ ⟨⟩
    · intro bell result hdone
      refine ⟨h, kept.refl host, ?_⟩
      rintro failure ⟨⟩
      exact h.hosted.readies watch.job bell failure hdone
    · intro bell work seat told _ haside
      obtain ⟨htold, hrel⟩ := h.aside kept haside
      refine ⟨htold, hrel, ?_⟩
      rintro _ ⟨⟩
    · intro bell work seat told hidle haside
      obtain ⟨htold, hrel⟩ := h.aside kept haside
      obtain ⟨htaken, htake⟩ := htold.putReady kept watch.job bell (.driven work)
        fun _ heq => nomatch heq
      refine After.mono (ReadyWork.poll_obeys kept ih work htaken (.bell bell))
        fun result after hrun => ?_
      obtain ⟨hafter, hdrive, hresult⟩ := hrun
      have hall := kept.trans hrel (kept.trans htake hdrive)
      cases result with
      | pending next =>
        obtain ⟨hlast, hput⟩ := hafter.putReady kept watch.job bell (.idle next)
          fun _ heq => nomatch heq
        refine ⟨hlast, kept.trans hall hput, ?_⟩
        rintro _ ⟨⟩
      | ready result =>
        intro last haside'
        obtain ⟨hdone, hput⟩ := hafter.putReady kept watch.job bell (.done result)
          fun failure heq => hresult failure (congrArg Poll.ready (Progress.done.inj heq))
        obtain ⟨hlast, hend⟩ := hdone.aside kept haside'
        refine ⟨hlast, kept.trans hall (kept.trans hput hend), ?_⟩
        rintro failure ⟨⟩
        exact hresult failure rfl

end ModuleLoader
