import ModuleLoader.Proofs.Advances
import ModuleLoader.Proofs.Regimes
import ModuleLoader.Session.Setup
/-!
Laws that every action of the library keeps. A law says what holds of a host between any two actions,
how a later host is related to an earlier one, and what it takes for the work in progress to be sound.
Whoever gives a law shows that loading, linking and moving records keep it; that importing, running
bodies and driving components keep it as well follows for all laws alike.
-/

namespace ModuleLoader
set_option autoImplicit false

/-- A law about hosts. -/
structure Law where
  /-- What holds of a host. -/
  inv : Host → Prop
  /-- How a later host is related to an earlier one. -/
  rel : Host → Host → Prop
  /-- What holds of the load of a closure under way. -/
  stage : Host → ClosureStage → Prop
  /-- What holds of a key whose closure was loaded. -/
  whole : Host → Node → Prop
  /-- What holds of a drafted closure. -/
  drafted : Host → Node → Drafted → Prop
  /-- For which reasons records may fail. -/
  fine : Failure → Prop

/-- Completions, drivers, verdicts and tasks are what they were. -/
structure SameWork (host host' : Host) : Prop where
  readies : host'.readies = host.readies
  drivers : host'.drivers = host.drivers
  verdicts : host'.verdicts = host.verdicts
  tasks : host'.tasks = host.tasks

namespace SameWork

variable {a b c host host' : Host}

theorem trans (hab : SameWork a b) (hbc : SameWork b c) : SameWork a c :=
  ⟨hbc.readies.trans hab.readies, hbc.drivers.trans hab.drivers, hbc.verdicts.trans hab.verdicts,
    hbc.tasks.trans hab.tasks⟩

theorem of_aside (h : Aside host host') : SameWork host host' := by
  obtain ⟨_, _, _, _, _, _, rfl⟩ := h
  exact ⟨rfl, rfl, rfl, rfl⟩

theorem of_advances {fine : Failure → Prop} (h : Advances fine host host') :
    SameWork host host' := by
  rw [h.rest]
  exact ⟨rfl, rfl, rfl, rfl⟩

theorem of_grows (h : Grows host host') : SameWork host host' :=
  ⟨h.readies, h.drivers, h.verdicts, h.tasks⟩

end SameWork

/-- A schedule may begin at any moment, and an import may end with the namespace that is memoized. -/
def Host.Admits (host : Host) : Milestone → Prop
  | .scheduled _ _ => True
  | .imported node space => host.exportsOf node = .ok space
  | _ => False

/-- Every single action keeps the law. -/
structure Law.Kept (law : Law) : Prop where
  refl : ∀ host, law.rel host host
  trans : ∀ {a b c}, law.rel a b → law.rel b c → law.rel a c
  later : ∀ {host host'}, law.rel host host' → Later host host'
  homes : ∀ {host}, law.inv host → ∀ ref record, host.records.get? ref = some record →
    host.Built record.home
  excused : ∀ {host}, law.inv host → ∀ ref, law.fine (host.record ref).failure
  thrown : ∀ key value, law.fine (.initialization key value)
  lasts : ∀ {host host' stage}, law.rel host host' → law.stage host stage → law.stage host' stage
  fresh : ∀ {host root}, law.inv host → host.Built root.compartment → law.stage host (.fresh root)
  aside : ∀ {host host'}, law.inv host → Aside host host' → law.inv host' ∧ law.rel host host'
  advances : ∀ {host host'}, law.inv host → Advances law.fine host host' →
    law.inv host' ∧ law.rel host host'
  works : ∀ {host}, law.inv host → ∀ readies drivers verdicts tasks,
    law.inv { host with readies, drivers, verdicts, tasks } ∧
      law.rel host { host with readies, drivers, verdicts, tasks }
  passes : ∀ {host mark}, law.inv host → host.Admits mark →
    law.inv { host with chronicle := mark :: host.chronicle } ∧
      law.rel host { host with chronicle := mark :: host.chronicle }
  polls : ∀ {host stage}, law.inv host → law.stage host stage → ∀ waker,
    After host (stage.poll waker) fun result host' => law.inv host' ∧ law.rel host host' ∧
      SameWork host host' ∧ match result with
        | .pending next => law.stage host' next ∧ next.root = stage.root
        | .ready (.ok ()) => law.whole host' stage.root
        | .ready (.error _) => True
  drafts : ∀ {host root}, law.inv host → host.Built root.compartment →
    After host (Act.draft root) fun result host' => law.inv host' ∧ law.rel host host' ∧
      SameWork host host' ∧ ∀ drafted, result = .ok drafted → law.drafted host' root drafted
  enters : ∀ {host root drafted}, law.inv host → law.drafted host root drafted →
    After host (Act.enterDraft drafted) fun _ host' => law.inv host' ∧ law.rel host host' ∧
      SameWork host host' ∧ law.whole host' root
  builds : ∀ {host}, law.inv host → ∀ plan, After host (Act.newCompartment plan)
    fun _ host' => law.inv host' ∧ law.rel host host' ∧ SameWork host host'
  links : ∀ {host root}, law.inv host → law.whole host root →
    After host (Act.linkClosure root) fun _ host' => law.inv host' ∧ law.rel host host' ∧
      SameWork host host'

/-- A result that is known is fine. -/
def Completion.Fine (law : Law) : Completion → Prop
  | .known (.error failure) => law.fine failure
  | _ => True

/-- The load of an import is about its own key, and what it waits for is fine. -/
structure ImportWork.Sane (law : Law) (host : Host) (work : ImportWork) : Prop where
  built : host.Built work.node.compartment
  loading : ∀ stage, work.stage = .loading stage → law.stage host stage ∧ stage.root = work.node
  running : ∀ completion, work.stage = .running completion → completion.Fine law

/-- The import that a body waits for is sane. -/
def Awaiting.Sane (law : Law) (host : Host) : Awaiting → Prop
  | .importing _ _ work => work.Sane law host
  | _ => True

/-- A suspended body belongs to a compartment that was built, and so does what it waits for. -/
structure BodyWork.Sane (law : Law) (host : Host) (work : BodyWork) : Prop where
  built : host.Built work.scope.home
  awaiting : work.awaiting.Sane law host

/-- The body that is suspended is sane. -/
def ComponentRun.Sane (law : Law) (host : Host) (run : ComponentRun) : Prop :=
  ∀ ref body, run.current = some (ref, body) → body.Sane law host

/-- What a driver waits for is sane. -/
def DriverWait.Sane (law : Law) (host : Host) : DriverWait → Prop
  | .outside _ completion => completion.Fine law
  | .run _ work => work.Sane law host

/-- What a driver waits for, now or when it starts, is sane. -/
structure DriverWork.Sane (law : Law) (host : Host) (driver : DriverWork) : Prop where
  outside : ∀ component ∈ driver.components, ∀ completion ∈ component.outside, completion.Fine law
  members : ∀ member ∈ driver.members, member.2.Sane law host

/-- What a task does is sane. -/
def TaskWork.Sane (law : Law) (host : Host) : TaskWork → Prop
  | .loading stage => law.stage host stage
  | .importing work => work.Sane law host
  | _ => True

/-- All work that a host keeps is sane, and so are the results that it knows. -/
structure Law.Hosted (law : Law) (host : Host) : Prop where
  readies : ∀ ready bell failure, host.readies.get? ready = some ⟨bell, .done (.error failure)⟩ →
    law.fine failure
  drivers : ∀ driver bell work, Shelf.drivers.get? host driver = some ⟨bell, .idle work⟩ →
    work.Sane law host
  verdicts : ∀ verdict failure, (host.verdicts.get? verdict).bind Verdict.result =
    some (.error failure) → law.fine failure
  tasks : ∀ ref task, host.tasks.get? ref = some task → task.work.Sane law host

/-- What the law says holds of a host, and its work in progress is sane. -/
structure Law.Stands (law : Law) (host : Host) : Prop where
  inv : law.inv host
  hosted : law.Hosted host

/-- An action that starts in a host in which the law stands keeps the law. -/
def Act.Obeys {α : Type} (act : Act α) (law : Law) (host : Host) (post : α → Host → Prop) : Prop :=
  After host act fun result host' => law.Stands host' ∧ law.rel host host' ∧ post result host'

section
variable {law : Law} {host host' : Host}

theorem ImportWork.Sane.lasts (kept : law.Kept) (hrel : law.rel host host') {work : ImportWork}
    (h : work.Sane law host) : work.Sane law host' where
  built := (kept.later hrel).keeps.built _ h.built
  loading stage hstage := (h.loading stage hstage).imp_left (kept.lasts hrel)
  running := h.running

theorem Awaiting.Sane.lasts (kept : law.Kept) (hrel : law.rel host host') {awaiting : Awaiting}
    (h : awaiting.Sane law host) : awaiting.Sane law host' := by
  cases awaiting with
  | gate name => trivial
  | turns left => trivial
  | importing specifier target work => exact ImportWork.Sane.lasts kept hrel h

theorem BodyWork.Sane.lasts (kept : law.Kept) (hrel : law.rel host host') {work : BodyWork}
    (h : work.Sane law host) : work.Sane law host' :=
  ⟨(kept.later hrel).keeps.built _ h.built, h.awaiting.lasts kept hrel⟩

theorem ComponentRun.Sane.lasts (kept : law.Kept) (hrel : law.rel host host') {run : ComponentRun}
    (h : run.Sane law host) : run.Sane law host' :=
  fun ref body heq => (h ref body heq).lasts kept hrel

theorem DriverWait.Sane.lasts (kept : law.Kept) (hrel : law.rel host host') {wait : DriverWait}
    (h : wait.Sane law host) : wait.Sane law host' := by
  cases wait with
  | outside component completion => exact h
  | run component run => exact ComponentRun.Sane.lasts kept hrel h

theorem DriverWork.Sane.lasts (kept : law.Kept) (hrel : law.rel host host') {driver : DriverWork}
    (h : driver.Sane law host) : driver.Sane law host' :=
  ⟨h.outside, fun member hmem => (h.members member hmem).lasts kept hrel⟩

theorem TaskWork.Sane.lasts (kept : law.Kept) (hrel : law.rel host host') {work : TaskWork}
    (h : work.Sane law host) : work.Sane law host' := by
  cases work with
  | loading stage => exact kept.lasts hrel h
  | importing work => exact ImportWork.Sane.lasts kept hrel h
  | finished => trivial
  | dropped => trivial

/-- The law stands after an action that keeps it and leaves all work as it is. -/
theorem Law.Stands.same (kept : law.Kept) (h : law.Stands host) (hinv : law.inv host')
    (hrel : law.rel host host') (hsame : SameWork host host') : law.Stands host' where
  inv := hinv
  hosted :=
    { readies := fun ready bell failure hready =>
        h.hosted.readies ready bell failure (hsame.readies ▸ hready)
      drivers := fun driver bell work hwork => by
        have hold : Shelf.drivers.get? host' driver = Shelf.drivers.get? host driver :=
          congrArg (fun drivers => (drivers.get? driver).map Driver.shared) hsame.drivers
        exact (h.hosted.drivers driver bell work (hold.symm.trans hwork)).lasts kept hrel
      verdicts := fun verdict failure hverdict =>
        h.hosted.verdicts verdict failure (hsame.verdicts ▸ hverdict)
      tasks := fun ref task htask =>
        (h.hosted.tasks ref task (hsame.tasks ▸ htask)).lasts kept hrel }

theorem Law.Stands.aside (kept : law.Kept) (h : law.Stands host) (haside : Aside host host') :
    law.Stands host' ∧ law.rel host host' := by
  obtain ⟨hinv, hrel⟩ := kept.aside h.inv haside
  exact ⟨h.same kept hinv hrel (.of_aside haside), hrel⟩

end

namespace Act.Obeys

variable {law : Law} {α β : Type} {host : Host}

theorem mono {act : Act α} {post post' : α → Host → Prop} (h : act.Obeys law host post)
    (himp : ∀ result host', post result host' → post' result host') : act.Obeys law host post' :=
  ⟨h.1, h.2.1, himp _ _ h.2.2⟩

theorem getBind {next : Host → Act β} {post : β → Host → Prop}
    (h : (next host).Obeys law host post) :
    (MonadState.get >>= next : Act β).Obeys law host post :=
  h

variable (kept : law.Kept)
include kept

theorem pure {post : α → Host → Prop} {result : α} (h : law.Stands host)
    (hpost : post result host) : (Pure.pure result : Act α).Obeys law host post :=
  ⟨h, kept.refl host, hpost⟩

theorem bind {act : Act α} {next : α → Act β} {post : α → Host → Prop} {post' : β → Host → Prop}
    (h : act.Obeys law host post)
    (hnext : ∀ result host', law.Stands host' → law.rel host host' → post result host' →
      (next result).Obeys law host' post') : (act >>= next).Obeys law host post' := by
  obtain ⟨hstands, hrel, hpost⟩ := h
  obtain ⟨hstands', hrel', hpost'⟩ := hnext _ _ hstands hrel hpost
  exact ⟨hstands', kept.trans hrel hrel', hpost'⟩

theorem seq {act : Act α} {next : α → Act β} {post : β → Host → Prop}
    (h : act.Obeys law host fun _ _ => True)
    (hnext : ∀ result host', law.Stands host' → law.rel host host' →
      (next result).Obeys law host' post) : (act >>= next).Obeys law host post :=
  bind kept h fun result host' hafter hrel _ => hnext result host' hafter hrel

theorem same {act : Act α} {post : α → Host → Prop} (h : law.Stands host)
    (hact : After host act fun result host' => law.inv host' ∧ law.rel host host' ∧
      SameWork host host' ∧ post result host') : act.Obeys law host post := by
  obtain ⟨hinv, hrel, hsame, hpost⟩ := hact
  exact ⟨h.same kept hinv hrel hsame, hrel, hpost⟩

theorem aside {act : Act α} (hact : act.IsAside) (h : law.Stands host) :
    act.Obeys law host fun _ _ => True := by
  obtain ⟨hstands, hrel⟩ := h.aside kept (hact host)
  exact ⟨hstands, hrel, trivial⟩

theorem advance {act : Act α} (hact : act.IsAdvance law.fine) (h : law.Stands host) :
    act.Obeys law host fun _ _ => True := by
  obtain ⟨hinv, hrel⟩ := kept.advances h.inv (hact host)
  exact same kept h ⟨hinv, hrel, .of_advances (hact host), trivial⟩

theorem onStore (change : StateM Store α) (h : law.Stands host) :
    (Act.onStore change).Obeys law host fun _ _ => True :=
  advance kept (onStore_advance change) h

theorem passes {mark : Milestone} (h : law.Stands host) (hmark : host.Admits mark) :
    (Act.mark [mark]).Obeys law host fun _ _ => True := by
  obtain ⟨hinv, hrel⟩ := kept.passes h.inv hmark
  exact same kept h ⟨hinv, hrel, ⟨rfl, rfl, rfl, rfl⟩, trivial⟩

end Act.Obeys

/-- Whatever looks at the completion of a record keeps the law, and finds no failure but a fine one. -/
def LookReady.Obeys (law : Law) (look : LookReady) : Prop :=
  ∀ host watch waker, law.Stands host → (look watch waker).Obeys law host fun result _ =>
    ∀ failure, result = .ready (.error failure) → law.fine failure

section
variable {law : Law} (kept : law.Kept) {look : LookReady} (hlook : look.Obeys law) {host : Host}
include kept

/-- A new verdict is not announced yet. -/
theorem Act.newVerdicts_obeys : ∀ (groups : List (List (Ref .record))) {host : Host},
    law.Stands host → (newVerdicts groups).Obeys law host fun _ _ => True := by
  intro groups
  induction groups with
  | nil => exact fun h => .pure kept h trivial
  | cons members rest ih =>
    intro host h
    refine .getBind (Obeys.seq kept ?_ fun _ after hafter _ => ?_)
    · obtain ⟨hinv, hrel⟩ := kept.works h.inv host.readies host.drivers
        (host.verdicts.push ⟨none, none⟩) host.tasks
      refine ⟨⟨hinv, ?_⟩, hrel, trivial⟩
      refine { h.hosted with
        drivers := fun driver bell work hwork =>
          (h.hosted.drivers driver bell work hwork).lasts kept hrel
        tasks := fun ref task htask => (h.hosted.tasks ref task htask).lasts kept hrel
        verdicts := fun verdict failure hverdict => ?_ }
      change ((host.verdicts.push _).get? verdict).bind Verdict.result = _ at hverdict
      rw [Arena.get?_push] at hverdict
      split at hverdict
      · cases hverdict
      · exact h.hosted.verdicts verdict failure hverdict
    · exact Obeys.bind kept (ih hafter) fun _ _ hlast _ _ => .pure kept hlast trivial

theorem Act.newCompletion_obeys (driver : Ref .driver) (members : List (Ref .record))
    (verdict : Ref .verdict) (h : law.Stands host) :
    (newCompletion driver members verdict).Obeys law host fun _ _ => True := by
  unfold newCompletion
  cases members with
  | nil => exact .pure kept h trivial
  | cons first rest =>
    dsimp only
    refine Obeys.bind kept (.aside kept newBell_aside h) fun bell belled hbelled _ _ => .getBind ?_
    refine Obeys.seq kept ?_ fun _ _ hafter _ => ?_
    · obtain ⟨hinv, hrel⟩ := kept.works hbelled.inv
        (belled.readies.push ⟨bell, .idle ⟨some ⟨driver, none⟩, verdict, first⟩⟩) belled.drivers
        belled.verdicts belled.tasks
      refine ⟨⟨hinv, ?_⟩, hrel, trivial⟩
      refine { hbelled.hosted with
        drivers := fun driver bell work hwork =>
          (hbelled.hosted.drivers driver bell work hwork).lasts kept hrel
        tasks := fun ref task htask => (hbelled.hosted.tasks ref task htask).lasts kept hrel
        readies := fun ready bell failure hready => ?_ }
      change (belled.readies.push _).get? ready = _ at hready
      rw [Arena.get?_push] at hready
      split at hready
      · cases hready
      · exact hbelled.hosted.readies ready bell failure hready
    · exact .advance kept (forM_advance (fun ref => ready_advance ref _) _) hafter

theorem Act.newCompletions_obeys (driver : Ref .driver) :
    ∀ (groups : List (List (Ref .record) × Ref .verdict)) {host : Host}, law.Stands host →
      (newCompletions driver groups).Obeys law host fun _ _ => True := by
  intro groups
  induction groups with
  | nil => exact fun h => .pure kept h trivial
  | cons first rest ih =>
    intro host h
    exact Obeys.bind kept (newCompletion_obeys kept driver first.1 first.2 h)
      fun _ _ hafter _ _ => ih hafter

/-- What is known of a record that was scheduled is fine. -/
theorem Law.Stands.completion_fine (h : law.Stands host) (ref : Ref .record) :
    (host.completion ref).Fine law := by
  unfold Host.completion
  dsimp only
  split
  · trivial
  · split
    · exact kept.excused h.inv ref
    · trivial

omit kept in
theorem Host.addDependent_outside : ∀ (others : List Nat) (components : List Component)
    (index : Nat), (Component.addDependent components index others).map Component.outside =
      components.map Component.outside := by
  intro others
  induction others with
  | nil => exact fun _ _ => rfl
  | cons other rest ih =>
    intro components index
    unfold Component.addDependent
    rw [ih]
    apply List.ext_getElem?
    intro place
    simp only [List.getElem?_map, List.getElem?_modify]
    split
    · cases components[place]? <;> rfl
    · cases components[place]? <;> rfl

/-- The components of a driver wait for records scheduled earlier, and what is known of these is
fine. -/
theorem Law.Stands.componentsOf_fine (h : law.Stands host) (owner : Ref .record → Option Nat) :
    ∀ (groups : List (List (Ref .record) × Ref .verdict)) (index : Nat)
      (components : List Component),
      (∀ outside ∈ components.map Component.outside, ∀ completion ∈ outside, completion.Fine law) →
        ∀ outside ∈ (host.componentsOf owner index components groups).map Component.outside,
          ∀ completion ∈ outside, completion.Fine law := by
  intro groups
  induction groups with
  | nil => exact fun _ _ hcomponents => hcomponents
  | cons first rest ih =>
    intro index components hcomponents
    obtain ⟨members, verdict⟩ := first
    refine ih _ _ fun outside hmem completion hcompletion => ?_
    rw [List.map_append, Host.addDependent_outside] at hmem
    rcases List.mem_append.1 hmem with hmem | hmem
    · exact hcomponents outside hmem completion hcompletion
    · obtain rfl := List.mem_singleton.1 hmem
      obtain ⟨ref, -, rfl⟩ := List.mem_map.1 hcompletion
      exact h.completion_fine kept ref

theorem Act.startDriver_obeys (groups : List (List (Ref .record))) (h : law.Stands host) :
    (startDriver groups).Obeys law host fun _ _ => True := by
  refine Obeys.bind kept (newVerdicts_obeys kept groups h) fun verdicts fresh hfresh _ _ => ?_
  refine .getBind (Obeys.bind kept (.aside kept newPool_aside hfresh) fun pool pooled hpooled _ _ => ?_)
  refine Obeys.bind kept (.aside kept newBell_aside hpooled) fun bell belled hbelled _ _ => ?_
  refine .getBind (Obeys.seq kept ?_ fun _ _ hafter _ => ?_)
  · obtain ⟨hinv, hrel⟩ := kept.works hbelled.inv belled.readies
      (belled.drivers.push ⟨⟨bell, .idle ⟨false,
        fresh.componentsOf (fresh.ownerIn groups) 0 [] verdicts, pool, [], 0⟩⟩,
        (fresh.componentsOf (fresh.ownerIn groups) 0 [] verdicts).length⟩)
      belled.verdicts belled.tasks
    refine ⟨⟨hinv, ?_⟩, hrel, trivial⟩
    refine { hbelled.hosted with
      drivers := fun driver bell work hwork => ?_
      tasks := fun ref task htask => (hbelled.hosted.tasks ref task htask).lasts kept hrel }
    change ((belled.drivers.push _).get? driver).map Driver.shared = _ at hwork
    rw [Arena.get?_push] at hwork
    split at hwork
    · cases hwork
      refine ⟨fun component hmem => ?_, fun _ hmem => nomatch hmem⟩
      exact hfresh.componentsOf_fine kept _ verdicts 0 [] (fun _ hmem => nomatch hmem) _
        (List.mem_map_of_mem hmem)
    · exact (hbelled.hosted.drivers driver bell work hwork).lasts kept hrel
  · exact newCompletions_obeys kept _ verdicts hafter

theorem Act.schedule_obeys (root : Ref .record) (h : law.Stands host) :
    (schedule root).Obeys law host fun completion _ => completion.Fine law := by
  refine .getBind ?_
  dsimp only
  split
  · refine Obeys.bind kept (.passes kept h trivial) fun _ marked hmarked _ _ => ?_
    refine Obeys.bind kept (startDriver_obeys kept _ hmarked) fun _ after hafter _ _ => .getBind ?_
    exact .pure kept hafter (hafter.completion_fine kept root)
  · refine Obeys.bind kept (.passes kept h trivial) fun _ marked hmarked _ _ => .getBind ?_
    exact .pure kept hmarked (hmarked.completion_fine kept root)

/-- A closure that was loaded is linked and scheduled. -/
theorem Act.linkAndSchedule_obeys {root : Node} (h : law.Stands host)
    (hwhole : law.whole host root) : (linkAndSchedule root).Obeys law host fun result _ =>
      ∀ completion, result = .ok completion → completion.Fine law := by
  refine .getBind ?_
  split
  · refine .pure kept h ?_
    rintro _ ⟨⟩
  · split
    · refine .pure kept h ?_
      rintro _ ⟨⟩
      trivial
    · refine Obeys.seq kept ?_ fun _ linked hlinked _ => ?_
      · exact .same kept h ((kept.links h.inv hwhole).mono fun _ _ ⟨hinv, hrel, hsame⟩ =>
          ⟨hinv, hrel, hsame, trivial⟩)
      · refine Obeys.bind kept (schedule_obeys kept _ hlinked) fun _ _ hlast _ hfine => ?_
        refine .pure kept hlast ?_
        rintro _ ⟨⟩
        exact hfine

theorem Act.concludeImport_obeys (node : Node) (h : law.Stands host) :
    (concludeImport node).Obeys law host fun _ _ => True := by
  refine .getBind ?_
  split
  · exact .pure kept h trivial
  · rename_i space hspace
    exact Obeys.bind kept (.passes kept h hspace) fun _ _ hafter _ _ => .pure kept hafter trivial

include hlook

theorem Completion.poll_obeys {completion : Completion} (hfine : completion.Fine law)
    (h : law.Stands host) (waker : Waker) :
    (completion.poll look waker).Obeys law host fun result _ => match result with
      | .pending next => next.Fine law
      | .ready result => ∀ failure, result = .error failure → law.fine failure := by
  cases completion with
  | known result =>
    refine .pure kept h ?_
    rintro _ rfl
    exact hfine
  | shared watch =>
    refine Act.Obeys.bind kept (hlook host watch waker h) fun result after hafter _ hresult => ?_
    cases result with
    | pending next => exact .pure kept hafter trivial
    | ready result =>
      refine .pure kept hafter ?_
      rintro _ rfl
      exact hresult _ rfl

namespace ImportWork

/-- What a look at an import comes to. -/
def Polled (law : Law) (result : Poll ImportWork (Except Failure (Ref .exports))) (host : Host) :
    Prop :=
  ∀ next, result = .pending next → next.Sane law host

theorem awaitRun_obeys {node : Node} (hnode : host.Built node.compartment)
    {completion : Completion} (hfine : completion.Fine law) (h : law.Stands host) (waker : Waker) :
    (awaitRun look node completion waker).Obeys law host (Polled law) := by
  refine Act.Obeys.bind kept (completion.poll_obeys kept hlook hfine h waker)
    fun result after hafter hrel hresult => ?_
  cases result with
  | pending next =>
    refine .pure kept hafter ?_
    rintro _ ⟨⟩
    exact ⟨(kept.later hrel).keeps.built _ hnode, (fun _ heq => nomatch heq), fun _ heq => by
      cases heq
      exact hresult⟩
  | ready result =>
    cases result with
    | error failure =>
      refine .pure kept hafter ?_
      rintro _ ⟨⟩
    | ok _ =>
      refine Act.Obeys.bind kept (Act.concludeImport_obeys kept node hafter)
        fun _ _ hlast _ _ => .pure kept hlast ?_
      rintro _ ⟨⟩

omit hlook in
theorem start_sane {node : Node} (h : law.Stands host) (hnode : host.Built node.compartment) :
    (start node).Sane law host where
  built := hnode
  loading stage heq := by
    cases heq
    exact ⟨kept.fresh h.inv hnode, rfl⟩
  running _ heq := nomatch heq

theorem poll_obeys {work : ImportWork} (hwork : work.Sane law host) (h : law.Stands host)
    (waker : Waker) : (work.poll look waker).Obeys law host (Polled law) := by
  unfold poll
  split
  · rename_i completion hstage
    exact awaitRun_obeys kept hlook hwork.built (hwork.running completion hstage) h waker
  · rename_i stage hstage
    obtain ⟨hgood, hroot⟩ := hwork.loading stage hstage
    refine Act.Obeys.bind kept (.same kept h (kept.polls h.inv hgood waker))
      fun result after hafter hrel hresult => ?_
    have hbuilt := (kept.later hrel).keeps.built _ hwork.built
    cases result with
    | pending next =>
      refine .pure kept hafter ?_
      rintro _ ⟨⟩
      refine ⟨hbuilt, fun _ heq => ?_, fun _ heq => nomatch heq⟩
      cases heq
      exact ⟨hresult.1, hresult.2.trans hroot⟩
    | ready result =>
      cases result with
      | error failure =>
        refine .pure kept hafter ?_
        rintro _ ⟨⟩
      | ok _ =>
        refine Act.Obeys.bind kept (Act.linkAndSchedule_obeys kept hafter (hroot ▸ hresult))
          fun result last hlast hrel' hresult => ?_
        cases result with
        | error failure =>
          refine .pure kept hlast ?_
          rintro _ ⟨⟩
        | ok completion =>
          exact awaitRun_obeys kept hlook ((kept.later hrel').keeps.built _ hbuilt)
            (hresult completion rfl) hlast waker

end ImportWork

theorem Act.runNow_obeys (node : Node) {completion : Completion} (hfine : completion.Fine law)
    (h : law.Stands host) : (runNow look node completion).Obeys law host fun _ _ => True := by
  refine Obeys.bind kept (completion.poll_obeys kept hlook hfine h .nobody)
    fun result after hafter _ _ => ?_
  cases result with
  | pending next =>
    exact Obeys.bind kept (.aside kept next.forget_aside hafter)
      fun _ _ hlast _ _ => .pure kept hlast trivial
  | ready result =>
    cases result with
    | error failure => exact .pure kept hafter trivial
    | ok _ => exact concludeImport_obeys kept node hafter

theorem Act.importNow_obeys {node : Node} (hnode : host.Built node.compartment)
    (h : law.Stands host) : (importNow look node).Obeys law host fun _ _ => True := by
  refine Obeys.bind kept (.same kept h (kept.drafts h.inv hnode)) fun result after hafter _ hresult => ?_
  cases result with
  | error failure => exact .pure kept hafter trivial
  | ok drafted =>
    refine .getBind ?_
    split
    · exact .pure kept hafter trivial
    · refine Obeys.bind kept (.same kept hafter (kept.enters hafter.inv (hresult drafted rfl)))
        fun _ entered hentered _ hwhole => ?_
      refine Obeys.bind kept (linkAndSchedule_obeys kept hentered hwhole)
        fun result last hlast _ hresult => ?_
      cases result with
      | error failure => exact .pure kept hlast trivial
      | ok completion => exact runNow_obeys kept hlook node (hresult completion rfl) hlast

end

end ModuleLoader
