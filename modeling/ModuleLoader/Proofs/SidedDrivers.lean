import ModuleLoader.Proofs.LawfulDrivers
import ModuleLoader.Proofs.SidedBodies
/-!
Drivers and completions keep sides apart: a driver runs the records of its components, which are on the side
of whoever drives it.
-/

namespace ModuleLoader
set_option autoImplicit false

variable {sides : Sides} {host : Host}

namespace DriverWait

/-- What a look at something that a driver waits for comes to. -/
def ComesTo (sides : Sides) (result : Poll DriverWait DriverEvent) (host : Host) : Prop :=
  ∀ next, result = .pending next → next.OnSide host sides sides.active

theorem poll_stays {look : LookReady} (hlook : look.Stays sides) (h : host.Sided sides)
    {wait : DriverWait} (hwait : wait.OnSide host sides sides.active) (waker : Waker) :
    (wait.poll look waker).Stays sides host (ComesTo sides) := by
  cases wait with
  | outside component completion =>
    refine (completion.poll_stays hlook h hwait waker).bind fun result polled hpolled _ hresult => ?_
    cases result with
    | pending next =>
      refine .pure hpolled ?_
      rintro _ ⟨⟩
      exact hresult next rfl
    | ready result => exact .pure hpolled fun _ heq => nomatch heq
  | run component work =>
    refine (ComponentRun.poll_stays hlook h hwait waker).bind fun result polled hpolled _ hresult => ?_
    cases result with
    | pending next =>
      refine .pure hpolled ?_
      rintro _ ⟨⟩
      exact hresult next rfl
    | ready result => exact .pure hpolled fun _ heq => nomatch heq

end DriverWait

namespace DriverWork

theorem add_stays (h : host.Sided sides) {driver : DriverWork}
    (hdriver : driver.OnSide host sides sides.active) {wait : DriverWait}
    (hwait : wait.OnSide host sides sides.active) :
    (driver.add wait).Stays sides host fun next host' => next.OnSide host' sides sides.active := by
  refine .afterAside (Act.changePool_aside _ _) h fun _ last hlast hmoves => ?_
  refine .pure hlast ⟨(hdriver.carried hmoves.carries).components, fun member hmem => ?_⟩
  rcases List.mem_cons.1 hmem with rfl | hmem
  · exact hwait.carried hmoves.carries
  · exact (hdriver.members member hmem).carried hmoves.carries

theorem addAll_stays : ∀ (waits : List DriverWait) {host : Host} {driver : DriverWork},
    host.Sided sides → driver.OnSide host sides sides.active →
      (∀ wait ∈ waits, wait.OnSide host sides sides.active) →
        (driver.addAll waits).Stays sides host fun next host' =>
          next.OnSide host' sides sides.active := by
  intro waits
  induction waits with
  | nil => exact fun h hdriver _ => .pure h hdriver
  | cons wait rest ih =>
    intro host driver h hdriver hwaits
    refine (add_stays h hdriver (hwaits wait List.mem_cons_self)).bind
      fun next added hadded hmoves hnext => ?_
    exact ih hadded hnext fun other hmem =>
      (hwaits other (List.mem_cons_of_mem wait hmem)).carried hmoves.carries

/-- A component that has not begun runs all its members. -/
theorem fresh_onSide {members : List (Ref .record)}
    (hmembers : ∀ ref ∈ members, host.OnSide sides sides.active ref) (index : Nat) :
    (DriverWait.run index ⟨none, members⟩).OnSide host sides sides.active :=
  ⟨(fun _ _ heq => nomatch heq), hmembers⟩

theorem firstWaits_onSide {components : List Component}
    (h : ∀ component ∈ components, component.OnSide host sides sides.active) :
    ∀ wait ∈ firstWaits components, wait.OnSide host sides sides.active := by
  intro wait hmem
  obtain ⟨⟨component, index⟩, hcomponent, hmem⟩ := List.mem_flatMap.1 hmem
  have hside := h component (List.fst_mem_of_mem_zipIdx hcomponent)
  rcases List.mem_append.1 hmem with hmem | hmem
  · obtain ⟨completion, hcompletion, rfl⟩ := List.mem_map.1 hmem
    exact hside.outside completion hcompletion
  · split at hmem
    · obtain rfl := List.mem_singleton.1 hmem
      exact fresh_onSide hside.members index
    · cases hmem

theorem release_stays (h : host.Sided sides) {driver : DriverWork}
    (hdriver : driver.OnSide host sides sides.active) (index : Nat) :
    (driver.release index).Stays sides host fun next host' => next.OnSide host' sides sides.active := by
  unfold release
  split
  · exact .pure h hdriver
  · rename_i component hcomponent
    have hside := hdriver.components component (List.mem_of_getElem? hcomponent)
    split
    · exact .pure h hdriver
    · have hnext : DriverWork.OnSide host sides sides.active { driver with
          components := driver.components.modify index fun component =>
            { component with waiting := component.waiting - 1 } } :=
        ⟨Component.forall_modify
          (fun _ hcomponent => ⟨hcomponent.members, hcomponent.outside, hcomponent.verdict⟩)
            hdriver.components, hdriver.members⟩
      dsimp only
      split
      · exact add_stays h hnext (fresh_onSide hside.members index)
      · exact .pure h hnext

theorem releaseAll_stays : ∀ (indices : List Nat) {host : Host} {driver : DriverWork},
    host.Sided sides → driver.OnSide host sides sides.active →
      (driver.releaseAll indices).Stays sides host fun next host' =>
        next.OnSide host' sides sides.active := by
  intro indices
  induction indices with
  | nil => exact fun h hdriver => .pure h hdriver
  | cons index rest ih =>
    intro host driver h hdriver
    exact (release_stays h hdriver index).bind fun next _ hafter _ hnext => ih hafter hnext

theorem announce_stays (h : host.Sided sides) {verdict : Ref .verdict}
    (hverdict : sides.of verdict = sides.active) (result : Except Failure Unit) :
    (Act.announce verdict result).Stays sides host fun _ _ => True := by
  obtain ⟨hset, hmoves⟩ := h.putVerdicts (.set hverdict trivial)
  have hput : Act.Stays (modify fun host => { host with
      verdicts := host.verdicts.set verdict ⟨some result, none⟩ }) sides host fun _ _ => True :=
    ⟨hset, hmoves, trivial⟩
  exact .getBind (hput.bind fun _ _ hafter _ _ => .aside (Act.tell_aside _) hafter)

theorem failFrom_stays (failure : Failure) : ∀ (fuel : Nat) (indices : List Nat)
    {components : List Component} {host : Host}, host.Sided sides →
      (∀ component ∈ components, component.OnSide host sides sides.active) →
        (failFrom failure fuel indices components).Stays sides host fun components host' =>
          ∀ component ∈ components, component.OnSide host' sides sides.active := by
  -- By induction on the steps a failure can take.
  intro fuel
  induction fuel with
  | zero => exact fun _ _ _ h hcomponents => .pure h hcomponents
  | succ fuel ih =>
    intro indices components host h hcomponents
    cases indices with
    | nil => exact .pure h hcomponents
    | cons index rest =>
      unfold failFrom
      split
      · exact ih rest h hcomponents
      · rename_i component hcomponent
        have hside := hcomponents component (List.mem_of_getElem? hcomponent)
        split
        · exact ih rest h hcomponents
        · refine (Act.Stays.fills h (Act.failAll_fills failure component.members h.apart
            fun ref hmem => (hside.members ref hmem).2)).bind fun _ failed hfailed hmoves _ => ?_
          refine (announce_stays hfailed hside.verdict.2 _).bind fun _ last hlast hmoves' _ => ?_
          have hsince := hmoves.trans sides.law_kept hmoves'
          refine ih _ hlast (Component.forall_modify
            (fun _ hcomponent => ⟨hcomponent.members, hcomponent.outside, hcomponent.verdict⟩)
              fun other hmem => ?_)
          exact (hcomponents other hmem).carried hsince.carries

theorem fail_stays (h : host.Sided sides) {driver : DriverWork}
    (hdriver : driver.OnSide host sides sides.active) (index : Nat) (failure : Failure) :
    (driver.fail index failure).Stays sides host fun next host' =>
      next.OnSide host' sides sides.active := by
  refine (failFrom_stays failure _ _ h hdriver.components).bind
    fun components last hlast hmoves hcomponents => ?_
  exact .pure hlast ⟨hcomponents, (hdriver.carried hmoves.carries).members⟩

theorem succeed_stays (h : host.Sided sides) {driver : DriverWork}
    (hdriver : driver.OnSide host sides sides.active) (index : Nat) :
    (driver.succeed index).Stays sides host fun next host' =>
      next.OnSide host' sides sides.active := by
  unfold succeed
  split
  · exact .pure h hdriver
  · rename_i component hcomponent
    have hside := hdriver.components component (List.mem_of_getElem? hcomponent)
    refine (announce_stays h hside.verdict.2 _).bind fun _ last hlast hmoves _ => ?_
    exact releaseAll_stays _ hlast ⟨Component.forall_modify
      (fun _ hcomponent => ⟨hcomponent.members, hcomponent.outside, hcomponent.verdict⟩)
        (hdriver.carried hmoves.carries).components, (hdriver.carried hmoves.carries).members⟩

theorem take_stays (h : host.Sided sides) {driver : DriverWork}
    (hdriver : driver.OnSide host sides sides.active) (event : DriverEvent) :
    (driver.take event).Stays sides host fun next host' => next.OnSide host' sides sides.active := by
  cases event with
  | outside index result =>
    cases result with
    | ok _ => exact release_stays h hdriver index
    | error failure => exact fail_stays h hdriver index failure
  | finished index result =>
    cases result with
    | ok _ => exact succeed_stays h hdriver index
    | error failure => exact fail_stays h hdriver index failure

section
variable {look : LookReady} (hlook : look.Stays sides)
include hlook

/-- What the members of a driver come to. -/
theorem next_stays (h : host.Sided sides) {driver : DriverWork}
    (hdriver : driver.OnSide host sides sides.active) (waker : Waker) :
    (Pool.next (DriverWait.poll look) driver.pool waker driver.members).Stays sides host
      fun result host' => match result with
        | .pending members => ∀ member ∈ members, member.2.OnSide host' sides sides.active
        | .exhausted => True
        | .finished _ members => ∀ member ∈ members, member.2.OnSide host' sides sides.active := by
  let holds (members : List (Nat × DriverWait)) (now : Host) : Prop :=
    now.Sided sides ∧ (sides.law sides.active).Moves host now ∧
      ∀ member ∈ members, member.2.OnSide now sides sides.active
  have hstart : holds driver.members host := ⟨h, .refl sides.law_kept host, hdriver.members⟩
  refine Pool.after_next ?_ ?_ ?_ ?_ hstart
  · rintro members before after haside ⟨hbefore, hmoves, hmembers⟩
    obtain ⟨hafter, hmoves'⟩ := hbefore.aside haside
    exact ⟨hafter, hmoves.trans sides.law_kept hmoves',
      fun member hmem => (hmembers member hmem).carried hmoves'.carries⟩
  · rintro members index work before ⟨hbefore, hmoves, hmembers⟩ hmem
    refine After.mono (DriverWait.poll_stays hlook hbefore (hmembers _ hmem)
      (.member driver.pool index)) fun result after hrun => ?_
    obtain ⟨hafter, hmoves', hresult⟩ := hrun
    have hothers : ∀ member ∈ members.filter fun member => member.1 ≠ index,
        member.2.OnSide after sides sides.active := fun member hmem =>
      (hmembers member (List.mem_filter.1 hmem).1).carried hmoves'.carries
    cases result with
    | pending next =>
      refine ⟨hafter, hmoves.trans sides.law_kept hmoves', fun member hmem => ?_⟩
      rcases List.mem_cons.1 hmem with rfl | hmem
      · exact hresult next rfl
      · exact hothers member hmem
    | ready event =>
      intro last haside
      obtain ⟨hlast, hend⟩ := hafter.aside haside
      exact ⟨hlast, (hmoves.trans sides.law_kept hmoves').trans sides.law_kept hend,
        fun member hmem => (hothers member hmem).carried hend.carries⟩
  · exact fun members after hholds => hholds
  · exact fun after hholds => ⟨hholds.1, hholds.2.1, trivial⟩

theorem proceed_stays (waker : Waker) : ∀ (fuel : Nat) {host : Host} {driver : DriverWork},
    host.Sided sides → driver.OnSide host sides sides.active →
      (proceed look waker fuel driver).Stays sides host fun result host' =>
        ∀ next, result = .pending next → next.OnSide host' sides sides.active := by
  -- By induction on the events that are left.
  intro fuel
  induction fuel with
  | zero =>
    intro host driver h hdriver
    refine .pure h ?_
    rintro _ ⟨⟩
    exact hdriver
  | succ fuel ih =>
    intro host driver h hdriver
    refine (next_stays hlook h hdriver waker).bind fun result last hlast hmoves hresult => ?_
    have hcomponents := (hdriver.carried hmoves.carries).components
    cases result with
    | pending members =>
      refine .pure hlast ?_
      rintro _ ⟨⟩
      exact ⟨hcomponents, hresult⟩
    | exhausted => exact .afterAside (Pool.close_aside _) hlast fun _ _ h _ => .pure h fun _ heq => nomatch heq
    | finished event members =>
      have hrest : DriverWork.OnSide last sides sides.active { driver with members } :=
        ⟨hcomponents, hresult⟩
      exact (take_stays hlast hrest event).bind fun _ _ htaken _ hnext => ih htaken hnext

theorem poll_stays (h : host.Sided sides) {driver : DriverWork}
    (hdriver : driver.OnSide host sides sides.active) (waker : Waker) :
    (DriverWork.poll look driver waker).Stays sides host fun result host' =>
      ∀ next, result = .pending next → next.OnSide host' sides sides.active := by
  have hwaits : ∀ wait ∈ (if driver.started then [] else firstWaits driver.components),
      wait.OnSide host sides sides.active := by
    split
    · exact fun _ hmem => nomatch hmem
    · exact firstWaits_onSide hdriver.components
  have hbegun : DriverWork.OnSide host sides sides.active { driver with started := true } :=
    ⟨hdriver.components, hdriver.members⟩
  exact (addAll_stays _ h hbegun hwaits).bind
    fun next _ hadded _ hnext => proceed_stays hlook waker _ hadded hnext

end

end DriverWork

namespace Host.Sided

/-- A driver of the acting side may be taken up, and laid down when it is on its side. -/
theorem putDriver (h : host.Sided sides) {driver : Ref .driver}
    (hdriver : sides.of driver = sides.active) (bell : Ref .bell)
    (progress : Progress DriverWork Unit)
    (hprogress : ∀ work, progress = .idle work → work.OnSide host sides sides.active) :
    (Shelf.drivers.put host driver ⟨bell, progress⟩).Sided sides ∧
      (sides.law sides.active).Moves host (Shelf.drivers.put host driver ⟨bell, progress⟩) := by
  refine h.putDrivers (.modify hdriver fun _ _ => trivial) fun hmoves other bell work hwork => ?_
  rw [Arena.get?_modify] at hwork
  split at hwork
  · rename_i hsame
    obtain ⟨_, hfound, hwork⟩ := Option.map_eq_some_iff.1 hwork
    obtain ⟨_, _, rfl⟩ := Option.map_eq_some_iff.1 hfound
    cases hwork
    rw [← hsame, hdriver]
    exact (hprogress work rfl).carried hmoves.carries
  · exact (h.work.drivers other bell work hwork).carried hmoves.carries

/-- A completion of the acting side may be taken up, and laid down when its driver is on its side. -/
theorem putReady (h : host.Sided sides) {ready : Ref .ready} (hready : sides.of ready = sides.active)
    (bell : Ref .bell) (progress : Progress ReadyWork (Except Failure Unit))
    (hprogress : ∀ work, progress = .idle work → work.OnSide host sides sides.active) :
    (Shelf.readies.put host ready ⟨bell, progress⟩).Sided sides ∧
      (sides.law sides.active).Moves host (Shelf.readies.put host ready ⟨bell, progress⟩) := by
  refine h.putReadies (.set hready trivial) fun hmoves other bell work hwork => ?_
  rw [Arena.get?_set] at hwork
  split at hwork
  · rename_i hsame
    obtain ⟨_, _, heq⟩ := Option.map_eq_some_iff.1 hwork
    cases heq
    rw [← hsame, hready]
    exact (hprogress work rfl).carried hmoves.carries
  · exact (h.work.readies other bell work hwork).carried hmoves.carries

end Host.Sided

theorem Act.leaveDriver_stays (h : host.Sided sides) {watch : Watch .driver}
    (hwatch : sides.of watch.job = sides.active) :
    (leaveDriver watch).Stays sides host fun _ _ => True := by
  refine .afterAside (Shelf.forget_aside watch) h fun _ left hleft _ => ?_
  have hdrivers : ∀ driver bell work, ((left.drivers.modify watch.job fun driver =>
      { driver with holders := driver.holders - 1 }).get? driver).map Driver.shared =
        some ⟨bell, .idle work⟩ → Shelf.drivers.get? left driver = some ⟨bell, .idle work⟩ := by
    intro driver bell work hwork
    rw [Arena.get?_modify] at hwork
    split at hwork
    · rw [Option.map_map] at hwork
      exact hwork
    · exact hwork
  obtain ⟨hchanged, hmoves⟩ := hleft.putDrivers (.modify hwatch fun _ _ => trivial)
    fun hmoves driver bell work hwork =>
      (hleft.work.drivers driver bell work (hdrivers driver bell work hwork)).carried hmoves.carries
  have hchange : Act.Stays (modify fun host => { host with
      drivers := host.drivers.modify watch.job fun driver => { driver with holders := driver.holders - 1 } })
        sides left fun _ _ => True := ⟨hchanged, hmoves, trivial⟩
  refine hchange.bind fun _ after hafter _ _ => .getBind ?_
  split
  · rename_i work _
    exact .afterAside (Pool.close_aside _) hafter fun _ _ hlast _ =>
      .aside (DriverWork.forgetAll_aside work.members) hlast
  · exact .pure hafter trivial

namespace ReadyWork

theorem listen_stays (h : host.Sided sides) (work : ReadyWork) :
    work.listen.Stays sides host fun result _ => ∀ next, result ≠ .pending next := by
  refine .getBind ?_
  split <;> exact .pure h fun _ heq => nomatch heq

variable {look : LookReady} (hlook : look.Stays sides)
include hlook

/-- Whoever looks at a driver of the acting side drives it, unless somebody else does. -/
theorem drive_stays (h : host.Sided sides) {watch : Watch .driver}
    (hwatch : host.OnSide sides sides.active watch.job) (waker : Waker) :
    (Shelf.drivers.poll (DriverWork.poll look) watch waker).Stays sides host fun result _ =>
      ∀ next, result = .pending next → next.job = watch.job := by
  refine Shelf.after_poll ?_ ?_ ?_ ?_
  · intro _
    refine ⟨h, .refl sides.law_kept host, ?_⟩
    rintro _ ⟨⟩
    rfl
  · exact fun _ _ _ => ⟨h, .refl sides.law_kept host, fun _ heq => nomatch heq⟩
  · intro bell work seat told _ haside
    obtain ⟨htold, hmoves⟩ := h.aside haside
    refine ⟨htold, hmoves, ?_⟩
    rintro _ ⟨⟩
    rfl
  · intro bell work seat told hidle haside
    obtain ⟨htold, hmoves⟩ := h.aside haside
    have hwork := (h.work.drivers watch.job bell work hidle).carried hmoves.carries
    rw [hwatch.2] at hwork
    obtain ⟨htaken, htake⟩ := htold.putDriver hwatch.2 bell (.driven work) fun _ heq => nomatch heq
    refine After.mono (DriverWork.poll_stays hlook htaken (hwork.carried htake.carries) (.bell bell))
      fun result after hrun => ?_
    obtain ⟨hafter, hdrive, hresult⟩ := hrun
    have hall := (hmoves.trans sides.law_kept htake).trans sides.law_kept hdrive
    cases result with
    | pending next =>
      obtain ⟨hlast, hput⟩ := hafter.putDriver hwatch.2 bell (.idle next) fun _ heq => by
        cases heq
        exact hresult next rfl
      refine ⟨hlast, hall.trans sides.law_kept hput, ?_⟩
      rintro _ ⟨⟩
      rfl
    | ready result =>
      intro last haside'
      obtain ⟨hdone, hput⟩ := hafter.putDriver hwatch.2 bell (.done result) fun _ heq => nomatch heq
      obtain ⟨hlast, hend⟩ := hdone.aside haside'
      exact ⟨hlast, (hall.trans sides.law_kept hput).trans sides.law_kept hend, fun _ heq => nomatch heq⟩

theorem poll_stays (h : host.Sided sides) {work : ReadyWork}
    (hwork : work.OnSide host sides sides.active) (waker : Waker) :
    (ReadyWork.poll look work waker).Stays sides host fun result host' =>
      ∀ next, result = .pending next → next.OnSide host' sides sides.active := by
  unfold ReadyWork.poll
  split
  · exact (listen_stays h work).mono fun _ _ hready next heq => (hready next heq).elim
  · rename_i watch hdriver
    have hwatch := hwork.driver watch hdriver
    refine (drive_stays hlook h hwatch waker).bind fun result after hafter hmoves hresult => ?_
    cases result with
    | ready _ => exact (listen_stays hafter work).mono fun _ _ hready next heq => (hready next heq).elim
    | pending next =>
      have hnext : sides.of next.job = sides.active := hresult next rfl ▸ hwatch.2
      refine .getBind ?_
      split
      · exact (Act.leaveDriver_stays hafter hnext).bind fun _ _ hlast _ _ => .pure hlast fun _ heq => nomatch heq
      · obtain ⟨hlistens, hmoves'⟩ := hafter.putVerdicts (.modify hwork.verdict.2 fun _ _ => trivial)
        have hlisten : Act.Stays (modify fun host => { host with
            verdicts := host.verdicts.modify work.verdict fun verdict =>
              { verdict with listener := some waker } }) sides after fun _ _ => True :=
          ⟨hlistens, hmoves', trivial⟩
        refine hlisten.bind fun _ last hlast hmoves'' _ => .pure hlast ?_
        have hborn {k : Noun} (ref : Ref k) (href : host.Born ref) : last.Born ref :=
          Remains.born (hmoves.trans sides.law_kept hmoves'').rel ref href
        rintro _ ⟨⟩
        refine ⟨?_, hwork.verdict.mono hborn⟩
        rintro _ ⟨⟩
        rw [hresult next rfl]
        exact hwatch.mono hborn

end ReadyWork

/-- Looking at completions of the acting side, by induction on how deep looks are nested. -/
theorem lookReady_stays : ∀ depth : Nat, (lookReady depth).Stays sides := by
  intro depth
  induction depth with
  | zero =>
    intro host watch waker h _
    refine .pure h ?_
    rintro _ ⟨⟩
    rfl
  | succ depth ih =>
    intro host watch waker h hwatch
    refine Shelf.after_poll ?_ ?_ ?_ ?_
    · intro _
      refine ⟨h, .refl sides.law_kept host, ?_⟩
      rintro _ ⟨⟩
      rfl
    · exact fun _ _ _ => ⟨h, .refl sides.law_kept host, fun _ heq => nomatch heq⟩
    · intro bell work seat told _ haside
      obtain ⟨htold, hmoves⟩ := h.aside haside
      refine ⟨htold, hmoves, ?_⟩
      rintro _ ⟨⟩
      rfl
    · intro bell work seat told hidle haside
      obtain ⟨htold, hmoves⟩ := h.aside haside
      have hwork := (h.work.readies watch.job bell work hidle).carried hmoves.carries
      rw [hwatch.2] at hwork
      obtain ⟨htaken, htake⟩ := htold.putReady hwatch.2 bell (.driven work) fun _ heq => nomatch heq
      refine After.mono (ReadyWork.poll_stays ih htaken (hwork.carried htake.carries) (.bell bell))
        fun result after hrun => ?_
      obtain ⟨hafter, hdrive, hresult⟩ := hrun
      have hall := (hmoves.trans sides.law_kept htake).trans sides.law_kept hdrive
      cases result with
      | pending next =>
        obtain ⟨hlast, hput⟩ := hafter.putReady hwatch.2 bell (.idle next) fun _ heq => by
          cases heq
          exact hresult next rfl
        refine ⟨hlast, hall.trans sides.law_kept hput, ?_⟩
        rintro _ ⟨⟩
        rfl
      | ready result =>
        intro last haside'
        obtain ⟨hdone, hput⟩ := hafter.putReady hwatch.2 bell (.done result) fun _ heq => nomatch heq
        obtain ⟨hlast, hend⟩ := hdone.aside haside'
        exact ⟨hlast, (hall.trans sides.law_kept hput).trans sides.law_kept hend, fun _ heq => nomatch heq⟩

end ModuleLoader
