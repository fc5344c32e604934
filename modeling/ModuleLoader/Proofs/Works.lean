import ModuleLoader.Execution.Driving
import ModuleLoader.Proofs.Verdicts
/-!
What has to hold of work in progress: of completions and imports, of suspended bodies and running
components, and of drivers, whose components wait for exactly what has not settled. All of it stays
true while somebody else works.
-/

namespace ModuleLoader
set_option autoImplicit false

/-- Who waits for the completion waits for the record. -/
def Completion.StandsFor (host : Host) (ref : Ref .record) : Completion → Prop
  | .known (.ok ()) => host.GivenIn host.chronicle ref
  | .known (.error failure) => host.Lost ref failure
  | .shared watch => (host.record ref).ready = some watch.job

/-- An import under way is about a node of a compartment that was built, and waits for its record. -/
structure ImportWork.Good (host : Host) (work : ImportWork) : Prop where
  built : host.Built work.node.compartment
  loading : ∀ stage, work.stage = .loading stage → stage.Good host
  running : ∀ completion, work.stage = .running completion →
    ∃ ref, host.lookup? work.node = some ref ∧ completion.StandsFor host ref

/-- A body sees the scope of a linked record. -/
structure Scope.Good (host : Host) (scope : Scope) : Prop where
  linked : host.Linked scope.record
  built : host.Built scope.home

/-- What a suspended body works with is good. -/
structure BodyWork.Good (host : Host) (work : BodyWork) : Prop where
  scope : work.scope.Good host
  importing : ∀ specifier target importWork,
    work.awaiting = .importing specifier target importWork → importWork.Good host

/-- What a task works with is good. -/
def TaskWork.Good (host : Host) : TaskWork → Prop
  | .loading stage => stage.Good host
  | .importing work => work.Good host
  | _ => True

/-- The records of a component that runs: some have run, at most one is running, the rest is
linked. -/
structure ComponentRun.Good (host : Host) (members ran : List (Ref .record)) (run : ComponentRun) :
    Prop where
  members : members = ran ++ (run.current.toList.map Prod.fst ++ run.rest)
  ready : ∀ ref ∈ ran, (host.record ref).phase = .ready
  current : ∀ ref body, run.current = some (ref, body) →
    (host.record ref).phase = .executing ∧ body.Good host
  rest : ∀ ref ∈ run.rest, (host.record ref).phase = .linked

namespace Host

/-- A completion is still worked for. -/
def Completes (host : Host) (ready : Ref .ready) (work : ReadyWork) : Prop :=
  ∃ bell, host.readies.get? ready = some ⟨bell, .idle work⟩ ∨
    host.readies.get? ready = some ⟨bell, .driven work⟩

theorem Completes.isSome {host : Host} {ready : Ref .ready} {work : ReadyWork}
    (h : host.Completes ready work) : (host.readies.get? ready).isSome := by
  obtain ⟨bell, h | h⟩ := h <;> exact h ▸ rfl

/-- A driver is still at work. -/
def Drives (host : Host) (driver : Ref .driver) (work : DriverWork) : Prop :=
  ∃ bell, Shelf.drivers.get? host driver = some ⟨bell, .idle work⟩ ∨
    Shelf.drivers.get? host driver = some ⟨bell, .driven work⟩

/-- What was announced is true. -/
structure Announced (host : Host) : Prop where
  exist : ∀ ready work, host.Completes ready work → (host.verdicts.get? work.verdict).isSome
  verdicts : ∀ ready work result, host.Completes ready work →
    (host.verdicts.get? work.verdict).bind Verdict.result = some result →
      host.CameTo ready result
  done : ∀ ready bell result, host.readies.get? ready = some ⟨bell, .done result⟩ →
    host.CameTo ready result

end Host

/-- The members of a component are all records that share a completion, as they were scheduled, and
the component announces its verdict for that completion only. -/
structure Component.Proper (host : Host) (component : Component) : Prop where
  nonempty : component.members ≠ []
  nodup : component.members.Nodup
  scheduled : ∃ root groups, .scheduled root groups ∈ host.chronicle ∧ component.members ∈ groups
  verdict : (host.verdicts.get? component.verdict).isSome
  group : ∃ ready, host.Grouped component.members ready ∧
    ∀ other work, host.Completes other work → work.verdict = component.verdict → other = ready

/-- Whether a component has run and every member has completed. -/
def Component.isOver (host : Host) (component : Component) : Bool :=
  component.settled && component.members.all fun ref => (host.record ref).phase = .ready

/-- Whether a component is not over. -/
def Component.isOpen (host : Host) (components : List Component) (index : Nat) : Bool :=
  match components[index]? with
  | some component => !component.isOver host
  | none => true

namespace DriverWait

/-- Whether a component waits here for a dependency scheduled earlier. -/
def isOutside (index : Nat) : DriverWait → Bool
  | .outside component _ => component = index
  | .run _ _ => false

/-- Whether a component runs here. -/
def isRun (index : Nat) : DriverWait → Bool
  | .outside _ _ => false
  | .run component _ => component = index

end DriverWait

/-- How the components of a driver depend on each other: `inside` lists those that each one depends
on. -/
structure Wired (host : Host) (inside : Nat → List Nat) (components : List Component) : Prop where
  wellFounded : WellFounded fun earlier index => earlier ∈ inside index
  unique : ∀ index, (inside index).Nodup
  known : ∀ index, ∀ earlier ∈ inside index, earlier < components.length
  dependents : ∀ index (component : Component), components[index]? = some component →
    component.dependents.Nodup ∧ ∀ other, other ∈ component.dependents ↔ index ∈ inside other
  edges : ∀ index earlier, earlier ∈ inside index → ∀ component other : Component,
    components[index]? = some component → components[earlier]? = some other →
      ∃ ref ∈ component.members, ∃ needed ∈ other.members,
        needed ∈ host.dependencies (host.record ref)

/-- The components of a driver are in balance with what it waits for. `busy` is a component whose run
has just ended, and `owed` are those that have still to be released, once for each mention. -/
structure Balanced (host : Host) (inside : Nat → List Nat) (components : List Component)
    (waits : List DriverWait) (busy : Option Nat) (owed : List Nat) : Prop where
  /-- A component waits for exactly as much as has not settled. -/
  counted : ∀ index (component : Component), components[index]? = some component → component.settled = false →
    (inside index).countP (Component.isOpen host components) +
      waits.countP (DriverWait.isOutside index) + owed.count index = component.waiting
  given : ∀ index (component : Component), components[index]? = some component → component.settled = false →
    ∀ ref ∈ component.members, ∀ needed ∈ host.dependencies (host.record ref),
      needed ∈ component.members ∨ host.GivenIn host.chronicle needed ∨
        (∃ earlier ∈ inside index, ∃ other : Component, components[earlier]? = some other ∧
          needed ∈ other.members) ∨
        ∃ completion, .outside index completion ∈ waits ∧ completion.StandsFor host needed
  idle : ∀ index (component : Component), components[index]? = some component → component.settled = false →
    busy ≠ some index → (∀ run, .run index run ∉ waits) →
      ∀ ref ∈ component.members, (host.record ref).phase = .linked
  runs : ∀ index run, .run index run ∈ waits → busy ≠ some index ∧ ∃ component : Component,
    components[index]? = some component ∧ component.settled = false ∧ component.waiting = 0 ∧
      ∃ ran, run.Good host component.members ran
  once : ∀ index, waits.countP (DriverWait.isRun index) ≤ 1
  /-- A component that waits for nothing runs. -/
  poised : ∀ index (component : Component), components[index]? = some component → component.settled = false →
    component.waiting = 0 → busy = some index ∨ ∃ run, .run index run ∈ waits
  /-- Whatever it waits for outside stands for a record that one of its members needs. -/
  outside : ∀ index completion, .outside index completion ∈ waits → ∃ component : Component,
    components[index]? = some component ∧ ∃ ref ∈ component.members,
      ∃ needed ∈ host.dependencies (host.record ref), needed ∉ component.members ∧
        completion.StandsFor host needed
  announced : ∀ (index : Nat) (component : Component), components[index]? = some component →
    component.settled = true → ((host.verdicts.get? component.verdict).bind Verdict.result).isSome

/-- No component depends on one that failed, unless it is about to fail itself. -/
def Upright (host : Host) (inside : Nat → List Nat) (components : List Component)
    (falling : List Nat) : Prop :=
  ∀ index (component : Component), components[index]? = some component → component.settled = false →
    index ∉ falling → ∀ earlier ∈ inside index, ∀ other : Component,
      components[earlier]? = some other → other.settled = true → other.isOver host = true

namespace DriverWork

/-- What a driver waits for, or will once it has started. -/
def waits (driver : DriverWork) : List DriverWait :=
  if driver.started then driver.members.map Prod.snd else firstWaits driver.components

/-- A driver that nobody drives. -/
structure Good (host : Host) (driver : DriverWork) : Prop where
  nodup : (driver.members.map Prod.fst).Nodup
  fresh : ∀ index ∈ driver.members.map Prod.fst, index < driver.nextIndex
  unstarted : driver.started = false → driver.members = []
  balanced : ∃ inside, Wired host inside driver.components ∧
    Balanced host inside driver.components driver.waits none [] ∧
      Upright host inside driver.components []

end DriverWork

namespace Host

/-- What holds of the drivers of a host in every state. -/
structure Manned (host : Host) : Prop where
  proper : ∀ driver work, host.Drives driver work → ∀ component ∈ work.components,
    component.Proper host
  disjoint : ∀ driver driver' work work', host.Drives driver work → host.Drives driver' work' →
    ∀ (index index' : Nat) (component component' : Component),
      work.components[index]? = some component → work'.components[index']? = some component' →
        ∀ ref ∈ component.members, ref ∈ component'.members → driver = driver' ∧ index = index'
  idle : ∀ driver bell work, Shelf.drivers.get? host driver = some ⟨bell, .idle work⟩ →
    work.Good host
  /-- Whoever waits for a verdict that was not announced keeps the driver that will. -/
  served : ∀ ready work, host.Completes ready work → ∃ watch, work.driver = some watch ∧
    (((host.verdicts.get? work.verdict).bind Verdict.result).isSome ∨
      ∃ driver, host.Drives watch.job driver ∧
        ∃ component ∈ driver.components, component.verdict = work.verdict)

/-- What holds of a host between any two steps of a run. -/
structure Coherent (host : Host) : Prop where
  loads : host.LoadsInOrder
  calm : ∀ load bell work, host.loads.get? load ≠ some ⟨bell, .driven work⟩
  tidy : host.Tidy
  recorded : host.Recorded
  told : host.Told
  announced : host.Announced
  manned : host.Manned
  tasks : ∀ ref task, host.tasks.get? ref = some task → task.work.Good host

end Host

section
variable {host host' : Host}

theorem Completion.StandsFor.carries {ref : Ref .record} {completion : Completion}
    (h : completion.StandsFor host ref) (hrecorded : host.Recorded) (hf : Carries host host') :
    completion.StandsFor host' ref := by
  match completion, h with
  | .known (.ok ()), hgiven => exact hf.givenIn hrecorded hf.later.chronicle hgiven
  | .known (.error _), hlost => exact hf.lost hlost
  | .shared watch, hready => exact hf.ready ref _ hready

theorem ImportWork.Good.carries {work : ImportWork} (h : work.Good host)
    (hrecorded : host.Recorded) (hf : Carries host host') : work.Good host' where
  built := hf.later.keeps.built _ h.built
  loading stage hstage := (h.loading stage hstage).keeps hf.later.keeps
  running completion hstage := by
    obtain ⟨ref, hlookup, hstands⟩ := h.running completion hstage
    exact ⟨ref, hf.later.lookup? hlookup, hstands.carries hrecorded hf⟩

theorem Scope.Good.carries {scope : Scope} (h : scope.Good host) (hf : Carries host host') :
    scope.Good host' :=
  ⟨hf.later.linked h.linked, hf.later.keeps.built _ h.built⟩

theorem BodyWork.Good.carries {work : BodyWork} (h : work.Good host) (hrecorded : host.Recorded)
    (hf : Carries host host') : work.Good host' :=
  ⟨h.scope.carries hf, fun specifier target importWork heq =>
    (h.importing specifier target importWork heq).carries hrecorded hf⟩

theorem TaskWork.Good.carries {work : TaskWork} (h : work.Good host) (hrecorded : host.Recorded)
    (hf : Carries host host') : work.Good host' := by
  cases work with
  | loading stage => exact ClosureStage.Good.keeps hf.later.keeps h
  | importing work => exact ImportWork.Good.carries h hrecorded hf
  | finished => trivial
  | dropped => trivial

theorem ComponentRun.Good.carries {members ran : List (Ref .record)} {run : ComponentRun}
    (h : run.Good host members ran) (hrecorded : host.Recorded) (hf : Carries host host')
    (hphase : ∀ ref ∈ members, (host'.record ref).phase = (host.record ref).phase) :
    run.Good host' members ran := by
  have hmembers := h.members
  refine ⟨hmembers, fun ref hmem => ?_, fun ref body heq => ?_, fun ref hmem => ?_⟩
  · rw [hphase ref (hmembers ▸ List.mem_append_left _ hmem)]
    exact h.ready ref hmem
  · obtain ⟨hexecuting, hbody⟩ := h.current ref body heq
    refine ⟨?_, hbody.carries hrecorded hf⟩
    rw [hphase ref]
    · exact hexecuting
    · rw [hmembers, heq]
      exact List.mem_append_right _ (List.mem_append_left _ (List.mem_singleton_self _))
  · rw [hphase ref (hmembers ▸ List.mem_append_right _ (List.mem_append_right _ hmem))]
    exact h.rest ref hmem

theorem Component.Proper.linked {component : Component} (h : component.Proper host)
    (hrecorded : host.Recorded) {ref : Ref .record} (hmem : ref ∈ component.members) :
    host.Linked ref := by
  obtain ⟨ready, hgroup, -⟩ := h.group
  exact (hrecorded.ready ref ready ((hgroup ref).1 hmem)).1

theorem Component.isOver_congr {component : Component}
    (hphase : ∀ ref ∈ component.members, (host'.record ref).phase = (host.record ref).phase) :
    component.isOver host' = component.isOver host := by
  unfold isOver
  have hall : (component.members.all fun ref => (host'.record ref).phase = .ready) =
      component.members.all fun ref => (host.record ref).phase = .ready := by
    rw [Bool.eq_iff_iff, List.all_eq_true, List.all_eq_true]
    refine forall₂_congr fun ref hmem => ?_
    rw [hphase ref hmem]
  rw [hall]

theorem Component.isOpen_of_get? {components : List Component} {index : Nat} {component : Component}
    (hcomponent : components[index]? = some component) :
    isOpen host components index = !component.isOver host := by
  unfold isOpen
  rw [hcomponent]

theorem Component.isOver_of_unsettled {component : Component} (h : component.settled = false) :
    component.isOver host = false := by
  unfold isOver
  rw [h]
  rfl

/-- What is over stays over while those that have settled stay in their phases. -/
theorem Component.isOpen_congr {components : List Component}
    (hphase : ∀ component ∈ components, component.settled = true → ∀ ref ∈ component.members,
      (host'.record ref).phase = (host.record ref).phase) :
    Component.isOpen host' components = Component.isOpen host components := by
  funext index
  cases hcomponent : components[index]? with
  | none =>
    unfold isOpen
    rw [hcomponent]
  | some component =>
    rw [isOpen_of_get? hcomponent, isOpen_of_get? hcomponent]
    cases hsettled : component.settled with
    | true => rw [isOver_congr (hphase component (List.mem_of_getElem? hcomponent) hsettled)]
    | false => rw [isOver_of_unsettled hsettled, isOver_of_unsettled hsettled]

theorem Wired.carries {inside : Nat → List Nat} {components : List Component}
    (h : Wired host inside components) (hf : Carries host host') : Wired host' inside components where
  wellFounded := h.wellFounded
  unique := h.unique
  known := h.known
  dependents := h.dependents
  edges index earlier hearlier component other hcomponent hother := by
    obtain ⟨ref, href, needed, hneeded, hdepends⟩ :=
      h.edges index earlier hearlier component other hcomponent hother
    exact ⟨ref, href, needed, hneeded, hf.later.mem_dependencies hdepends⟩

/-- The balance of a driver stays while its records stay in their phases, but for those of a busy
component. -/
theorem Balanced.carries {inside : Nat → List Nat} {components : List Component}
    {waits : List DriverWait} {busy : Option Nat} {owed : List Nat}
    (h : Balanced host inside components waits busy owed) (hrecorded : host.Recorded)
    (hproper : ∀ component ∈ components, component.Proper host) (hf : Carries host host')
    (hphase : ∀ (index : Nat) (component : Component), components[index]? = some component →
      busy ≠ some index → ∀ ref ∈ component.members,
        (host'.record ref).phase = (host.record ref).phase)
    (hbusy : ∀ (index : Nat) (component : Component), busy = some index →
      components[index]? = some component → component.settled = false) :
    Balanced host' inside components waits busy owed where
  counted index component hcomponent hsettled := by
    rw [Component.isOpen_congr fun other hother hsettled => ?_]
    · exact h.counted index component hcomponent hsettled
    · obtain ⟨place, hplace⟩ := List.mem_iff_getElem?.1 hother
      refine hphase place other hplace fun hsame => ?_
      rw [hbusy place other hsame hplace] at hsettled
      cases hsettled
  given index component hcomponent hsettled ref href needed hneeded := by
    have hlinked := (hproper component (List.mem_of_getElem? hcomponent)).linked hrecorded href
    have hneeded := hf.later.dependencies_back hrecorded hlinked hneeded
    rcases h.given index component hcomponent hsettled ref href needed hneeded with
      hmember | hgiven | hearlier | ⟨completion, hwait, hstands⟩
    · exact .inl hmember
    · exact .inr (.inl (hf.givenIn hrecorded hf.later.chronicle hgiven))
    · exact .inr (.inr (.inl hearlier))
    · exact .inr (.inr (.inr ⟨completion, hwait, hstands.carries hrecorded hf⟩))
  idle index component hcomponent hsettled hnot hrun ref href := by
    rw [hphase index component hcomponent hnot ref href]
    exact h.idle index component hcomponent hsettled hnot hrun ref href
  runs index run hmem := by
    obtain ⟨hnot, component, hcomponent, hsettled, hwaiting, ran, hgood⟩ := h.runs index run hmem
    exact ⟨hnot, component, hcomponent, hsettled, hwaiting, ran, hgood.carries hrecorded hf
      (hphase index component hcomponent hnot)⟩
  once := h.once
  poised := h.poised
  outside index completion hmem := by
    obtain ⟨component, hcomponent, ref, href, needed, hneeded, hout, hstands⟩ :=
      h.outside index completion hmem
    exact ⟨component, hcomponent, ref, href, needed, hf.later.mem_dependencies hneeded, hout,
      hstands.carries hrecorded hf⟩
  announced index component hcomponent hsettled :=
    hf.spoken _ (h.announced index component hcomponent hsettled)

theorem Upright.carries {inside : Nat → List Nat} {components : List Component} {falling : List Nat}
    (h : Upright host inside components falling) (hphase : ∀ component ∈ components,
      component.settled = true → ∀ ref ∈ component.members,
        (host'.record ref).phase = (host.record ref).phase) :
    Upright host' inside components falling := by
  intro index component hcomponent hsettled hnot earlier hearlier other hother hover
  rw [Component.isOver_congr (hphase other (List.mem_of_getElem? hother) hover)]
  exact h index component hcomponent hsettled hnot earlier hearlier other hother hover

theorem DriverWork.Good.carries {driver : DriverWork} (h : driver.Good host)
    (hrecorded : host.Recorded) (hproper : ∀ component ∈ driver.components, component.Proper host)
    (hf : Carries host host') (hphase : ∀ component ∈ driver.components,
      ∀ ref ∈ component.members, (host'.record ref).phase = (host.record ref).phase) :
    driver.Good host' := by
  obtain ⟨inside, hwired, hbalanced, hupright⟩ := h.balanced
  refine ⟨h.nodup, h.fresh, h.unstarted, inside, hwired.carries hf, ?_,
    hupright.carries fun component hcomponent _ => hphase component hcomponent⟩
  exact hbalanced.carries hrecorded hproper hf
    (fun _ component hcomponent _ => hphase component (List.mem_of_getElem? hcomponent))
    fun _ _ heq => nomatch heq

/-- A component stays what it is while verdicts stay, and no new completion has its verdict. -/
theorem Component.Proper.carries {component : Component} (h : component.Proper host)
    (hrecorded : host.Recorded) (hf : Carries host host')
    (hverdict : (host'.verdicts.get? component.verdict).isSome)
    (hcompletes : ∀ other work, host'.Completes other work → work.verdict = component.verdict →
      ∃ old, host.Completes other old ∧ old.verdict = component.verdict) :
    component.Proper host' := by
  obtain ⟨root, groups, hscheduled, hmem⟩ := h.scheduled
  obtain ⟨ready, hgroup, honly⟩ := h.group
  refine ⟨h.nonempty, h.nodup, ⟨root, groups, hf.later.chronicle.subset hscheduled, hmem⟩, hverdict,
    ready, hf.grouped hrecorded h.nonempty hgroup, fun other work hother hwork => ?_⟩
  obtain ⟨old, hold, hold'⟩ := hcompletes other work hother hwork
  exact honly other old hold hold'

end

end ModuleLoader
