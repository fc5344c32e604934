import Mathlib.Data.Set.Card
import ModuleLoader.Proofs.DriverTurns
import ModuleLoader.Proofs.Enlistments
/-!
# The accounts of a driver

Whatever groups of records a driver is installed for, as long as none of them depends on a later one, and
whatever events come to it in whatever order, the counts of its components are right: each waits for the
components it depends on that have not settled, and for what has not come from outside. No driver gets
stuck, and one that waits for nothing has settled everything.
-/

namespace ModuleLoader
set_option autoImplicit false

open DriverWait DriverWork Component

/-! ## Groups of records -/

namespace Dependencies

variable {owner : Ref .record → Option Nat} {index : Nat}

/-- What was found outside was met, and is listed once. -/
theorem add_distinct {found : Dependencies} (h : found.outside ⊆ found.seen ∧ found.outside.Nodup)
    (record : Ref .record) : (add owner index found record).outside ⊆ (add owner index found record).seen ∧
      (add owner index found record).outside.Nodup := by
  obtain ⟨hsub, hnodup⟩ := h
  refine ⟨fun ref href => mem_seen_add.2 ?_, ?_⟩
  · rcases mem_outside_add.1 href with hold | ⟨rfl, hnone, -⟩
    · exact .inl (hsub hold)
    · exact .inr ⟨rfl, fun heq => nomatch hnone.symm.trans heq⟩
  · cases howner : owner record with
    | some other =>
      rw [add_inside howner]
      split <;> exact hnodup
    | none =>
      rw [add_outside howner]
      split
      · exact hnodup
      · rename_i hnew
        refine List.nodup_append.2 ⟨hnodup, List.nodup_singleton _, fun ref href last hlast heq => ?_⟩
        rw [List.mem_singleton.1 hlast] at heq
        exact hnew (hsub (heq ▸ href))

theorem ofMembers_outside_nodup (dependencies : Ref .record → List (Ref .record))
    (members : List (Ref .record)) : (ofMembers owner index dependencies members).outside.Nodup := by
  have hall : ∀ (needed : List (Ref .record)) (found : Dependencies),
      found.outside ⊆ found.seen ∧ found.outside.Nodup →
        (needed.foldl (add owner index) found).outside ⊆ (needed.foldl (add owner index) found).seen ∧
          (needed.foldl (add owner index) found).outside.Nodup := by
    intro needed
    induction needed with
    | nil => exact fun _ h => h
    | cons record rest ih => exact fun found h => ih _ (add_distinct h record)
  unfold ofMembers
  rw [← List.foldl_flatMap]
  exact (hall _ ⟨[], [], []⟩ ⟨List.nil_subset _, List.nodup_nil⟩).2

end Dependencies

namespace Host

/-- A group of records depends on another one: a member of it needs a member of the other. -/
def DependsOn (host : Host) (groups : List (List (Ref .record))) (index other : Nat) : Prop :=
  other ≠ index ∧ ∃ members others, groups[index]? = some members ∧ groups[other]? = some others ∧
    ∃ ref ∈ members, ∃ needed ∈ others, needed ∈ host.dependencies (host.record ref)

/-- The records that a group depends on and that belong to no group. -/
def outsideOf (host : Host) (groups : List (List (Ref .record))) (index : Nat) : Set (Ref .record) :=
  {needed | needed ∉ groups.flatten ∧ ∃ members, groups[index]? = some members ∧
    ∃ ref ∈ members, needed ∈ host.dependencies (host.record ref)}

variable {host : Host} {groups : List (List (Ref .record))}
  {pairs : List (List (Ref .record) × Ref .verdict)} {index : Nat}

theorem ownerIn_eq_none (hnodup : groups.flatten.Nodup)
    (hexist : ∀ ref ∈ groups.flatten, (host.records.get? ref).isSome) {ref : Ref .record} :
    host.ownerIn groups ref = none ↔ ref ∉ groups.flatten := by
  rw [Option.eq_none_iff_forall_ne_some]
  constructor
  · intro hnone hmem
    obtain ⟨members, hmembers, href⟩ := List.mem_flatten.1 hmem
    obtain ⟨place, hplace⟩ := List.mem_iff_getElem?.1 hmembers
    exact hnone place ((ownerIn_eq_some hnodup hexist).2 ⟨members, hplace, href⟩)
  · intro hout place howner
    obtain ⟨members, hplace, href⟩ := (ownerIn_eq_some hnodup hexist).1 howner
    exact hout (List.mem_flatten_of_mem (List.mem_of_getElem? hplace) href)

theorem getElem?_groups (hgroups : pairs.map Prod.fst = groups) {members : List (Ref .record)} :
    groups[index]? = some members ↔ ∃ verdict, pairs[index]? = some (members, verdict) := by
  rw [← hgroups, List.getElem?_map, Option.map_eq_some_iff]
  exact ⟨fun ⟨⟨_, verdict⟩, hpair, heq⟩ => ⟨verdict, heq ▸ hpair⟩, fun ⟨_, hpair⟩ => ⟨_, hpair, rfl⟩⟩

/-- What is planned for a component are the components it depends on. -/
theorem mem_insideOf_groups (hnodup : groups.flatten.Nodup)
    (hexist : ∀ ref ∈ groups.flatten, (host.records.get? ref).isSome)
    (hgroups : pairs.map Prod.fst = groups) {other : Nat} :
    other ∈ host.insideOf (host.ownerIn groups) pairs index ↔ host.DependsOn groups index other := by
  rw [mem_insideOf]
  refine and_congr_right fun _ => ⟨?_, ?_⟩
  · rintro ⟨members, verdict, hpair, ref, href, needed, hneeded, howner⟩
    obtain ⟨others, hothers, hmem⟩ := (ownerIn_eq_some hnodup hexist).1 howner
    exact ⟨members, others, (getElem?_groups hgroups).2 ⟨verdict, hpair⟩, hothers, ref, href, needed, hmem,
      hneeded⟩
  · rintro ⟨members, others, hmembers, hothers, ref, href, needed, hmem, hneeded⟩
    obtain ⟨verdict, hpair⟩ := (getElem?_groups hgroups).1 hmembers
    exact ⟨members, verdict, hpair, ref, href, needed, hneeded,
      (ownerIn_eq_some hnodup hexist).2 ⟨others, hothers, hmem⟩⟩

theorem mem_found_outside (hnodup : groups.flatten.Nodup)
    (hexist : ∀ ref ∈ groups.flatten, (host.records.get? ref).isSome) {members : List (Ref .record)}
    (hmembers : groups[index]? = some members) {needed : Ref .record} :
    needed ∈ host.outsideOf groups index ↔
      needed ∈ (host.found (host.ownerIn groups) index members).outside := by
  unfold outsideOf
  rw [(host.found_found (host.ownerIn groups) index members).outside, ownerIn_eq_none hnodup hexist,
    Set.mem_ofPred_eq, and_comm, List.mem_flatMap]
  refine and_congr_left fun _ => ⟨?_, fun h => ⟨members, hmembers, h⟩⟩
  rintro ⟨found, hfound, h⟩
  rwa [← Option.some.inj (hmembers.symm.trans hfound)] at h

/-- A component that was planned. -/
theorem Planned.of_get? {owner : Ref .record → Option Nat} {components : List Component}
    (h : host.Planned owner pairs components) {component : Component}
    (hcomponent : components[index]? = some component) :
    pairs[index]? = some (component.members, component.verdict) ∧ component.settled = false ∧
      component.waiting = (host.insideOf owner pairs index).length + component.outside.length ∧
        component.outside = (host.found owner index component.members).outside.map host.completion ∧
          component.dependents.Nodup ∧
            ∀ other, other ∈ component.dependents ↔ index ∈ host.insideOf owner pairs other := by
  obtain ⟨hlt, -⟩ := List.getElem?_eq_some_iff.1 hcomponent
  obtain ⟨⟨members, verdict⟩, hpair⟩ : ∃ pair, pairs[index]? = some pair :=
    ⟨_, List.getElem?_eq_getElem (h.length ▸ hlt)⟩
  obtain ⟨found, hfound, hmembers, hverdict, hsettled, hwaiting, houtside, hdependents⟩ :=
    h.component index members verdict hpair
  obtain rfl := Option.some.inj (hfound.symm.trans hcomponent)
  have hinside : host.insideOf owner pairs index = (host.found owner index members).inside := by
    unfold insideOf
    rw [hpair]
  refine ⟨by rw [hpair, hmembers, hverdict], hsettled, ?_, by rw [houtside, hmembers], hdependents⟩
  rw [hwaiting, hinside, houtside, List.length_map]

/-- A driver is planned as it has to be when it starts, as long as no group depends on a later one. -/
theorem Planned.installed (hnodup : groups.flatten.Nodup)
    (hexist : ∀ ref ∈ groups.flatten, (host.records.get? ref).isSome)
    (hordered : ∀ index other, host.DependsOn groups index other → other < index)
    (hgroups : pairs.map Prod.fst = groups) (hverdicts : (pairs.map Prod.snd).Nodup) {work : DriverWork}
    (h : host.Planned (host.ownerIn groups) pairs work.components) (hmembers : work.members = []) :
    work.components.map lasting = pairs ∧
      work.Installed (host.insideOf (host.ownerIn groups) pairs) := by
  have hlasting : work.components.map lasting = pairs := by
    refine List.ext_getElem? fun index => ?_
    rw [List.getElem?_map]
    cases hcomponent : work.components[index]? with
    | none =>
      rw [List.getElem?_eq_none_iff, h.length] at hcomponent
      exact (List.getElem?_eq_none hcomponent).symm
    | some component => exact (h.of_get? hcomponent).1.symm
  refine ⟨hlasting, hmembers, ⟨fun index other hmem => ?_, insideOf_nodup pairs,
    fun index component hcomponent => (h.of_get? hcomponent).2.2.2.2⟩, ?_, fun index component hcomponent => ?_⟩
  · exact hordered index other ((mem_insideOf_groups hnodup hexist hgroups).1 hmem)
  · rw [← hlasting, List.map_map] at hverdicts
    exact hverdicts
  · obtain ⟨-, hsettled, hwaiting, -⟩ := h.of_get? hcomponent
    exact ⟨hsettled, hwaiting⟩

/-- A set counts as much as a list of its elements. -/
theorem ncard_of_nodup {α : Type} [DecidableEq α] {set : Set α} {elements : List α}
    (hnodup : elements.Nodup) (hmem : ∀ element, element ∈ set ↔ element ∈ elements) :
    set.ncard = elements.length := by
  have hset : set = elements.toFinset := by
    ext element
    rw [hmem, List.coe_toFinset, Set.mem_ofPred_eq]
  rw [hset, Set.ncard_coe_finset, List.toFinset_card_of_nodup hnodup]

/-- A driver waits at first for each record outside that a group depends on, once. -/
theorem Planned.countP_outside (hnodup : groups.flatten.Nodup)
    (hexist : ∀ ref ∈ groups.flatten, (host.records.get? ref).isSome)
    (hgroups : pairs.map Prod.fst = groups) {components : List Component}
    (h : host.Planned (host.ownerIn groups) pairs components) (index : Nat) :
    (firstWaits components).countP (isOutside index) = (host.outsideOf groups index).ncard := by
  rw [DriverWork.countP_outside]
  cases hcomponent : components[index]? with
  | none =>
    have hempty : host.outsideOf groups index = ∅ := by
      refine Set.eq_empty_of_forall_notMem ?_
      rintro needed ⟨-, members, hmembers, -⟩
      obtain ⟨verdict, hpair⟩ := (getElem?_groups hgroups).1 hmembers
      rw [List.getElem?_eq_none_iff, h.length, ← List.getElem?_eq_none_iff, hpair] at hcomponent
      cases hcomponent
    rw [hempty, Set.ncard_empty]
    rfl
  | some component =>
    obtain ⟨hpair, -, -, houtside, -⟩ := h.of_get? hcomponent
    have hmembers := (getElem?_groups hgroups).2 ⟨_, hpair⟩
    rw [ncard_of_nodup (Dependencies.ofMembers_outside_nodup _ component.members) fun needed =>
      mem_found_outside hnodup hexist hmembers, Option.map_some, houtside, List.length_map]
    rfl

end Host

/-! ## Installation -/

namespace Act

/-- Shared completions leave verdicts and drivers alone. -/
theorem newCompletions_aside (driver : Ref .driver) :
    ∀ (pairs : List (List (Ref .record) × Ref .verdict)) (host : Host),
      After host (newCompletions driver pairs) fun _ after =>
        after.verdicts = host.verdicts ∧ after.drivers = host.drivers
  | [], _ => ⟨rfl, rfl⟩
  | (group, verdict) :: rest, host => by
    have hfirst : After host (newCompletion driver group verdict) fun _ after =>
        after.verdicts = host.verdicts ∧ after.drivers = host.drivers := by
      unfold newCompletion
      cases group with
      | nil => exact ⟨rfl, rfl⟩
      | cons first others =>
        dsimp only
        rw [after_bind]
        have hbell : After host newBell fun _ belled =>
            belled.verdicts = host.verdicts ∧ belled.drivers = host.drivers := ⟨rfl, rfl⟩
        refine hbell.mono fun bell belled hbelled => ?_
        rw [after_bind, after_get, after_bind, after_modify]
        refine (forM_ready belled.readies.next (first :: others) _).mono fun _ after hafter => ?_
        rw [hafter.1]
        exact hbelled
    unfold newCompletions
    rw [after_bind]
    refine hfirst.mono fun _ between hbetween => ?_
    refine (newCompletions_aside driver rest between).mono fun _ after hafter => ?_
    exact ⟨hafter.1.trans hbetween.1, hafter.2.trans hbetween.2⟩

/-- Installing a driver posts verdicts and plans its components. -/
theorem startDriver_installs (groups : List (List (Ref .record))) (host : Host) :
    After host (startDriver groups) fun _ after => ∃ posted pairs driver bell work,
      Posts host posted groups pairs ∧ after.verdicts = posted.verdicts ∧
        host.drivers.get? driver = none ∧
          after.drivers.get? driver = some ⟨⟨bell, .idle work⟩, work.components.length⟩ ∧
            work.started = false ∧ work.members = [] ∧
              work.components = host.componentsOf (host.ownerIn groups) 0 [] pairs := by
  refine startDriver_plans fun pairs posted pool board bell hposts => ?_
  refine (newCompletions_aside host.drivers.next pairs _).mono fun _ after hafter => ?_
  refine ⟨posted, pairs, host.drivers.next, bell, plannedDriver host groups pairs pool, hposts, hafter.1,
    Arena.get?_next _, ?_, rfl, rfl, rfl⟩
  rw [hafter.2]
  exact (Arena.get?_push _ _ _).trans (if_pos rfl)

end Act

/-! ## Accounts -/

/-- A wait as it is left by a look at it that brought no event. -/
def DriverWait.Suspended (wait : DriverWait) : Prop :=
  ∃ before : DriverWait, before.Continues wait

namespace DriverWork

/-- The accounts of a driver for groups of records of a host, in a state that it comes to by some events. -/
structure Accounts (work : DriverWork) (host : Host) (groups : List (List (Ref .record)))
    (events : List DriverEvent) (settled : List Nat) (next : DriverWork) : Prop where
  lasting : next.components.map lasting = work.components.map lasting
  /-- Whoever has not settled counts what it depends on that has not settled, and what it waits for
  outside. -/
  counted : ∀ index (component : Component), next.components[index]? = some component →
    component.settled = false → component.waiting =
      {other | host.DependsOn groups index other ∧ isUnsettled next.components other}.ncard +
        (next.members.map Prod.snd).countP (isOutside index)
  /-- Each record outside is waited for until it comes. -/
  outside : ∀ index, (next.members.map Prod.snd).countP (isOutside index) +
    events.countP (DriverEvent.isDelivery index) = (host.outsideOf groups index).ncard
  /-- Whoever has not settled runs when it counts nothing any more, and has never run before. -/
  begun : ∀ index (component : Component), next.components[index]? = some component →
    component.settled = false →
      (next.members.map Prod.snd).countP (isRun index) = (if component.waiting = 0 then 1 else 0) ∧
        events.countP (DriverEvent.isFinished index) = 0
  /-- Nobody runs twice, and nobody runs that has settled. -/
  once : ∀ index, (next.members.map Prod.snd).countP (isRun index) +
    events.countP (DriverEvent.isFinished index) ≤ 1
  idle : ∀ index, SettledAt next.components index → (next.members.map Prod.snd).countP (isRun index) = 0
  /-- No count falls below zero. -/
  owes : ∀ index wait event, (index, wait) ∈ next.members → wait.Ends event → ∀ mid place,
    (next.without index).Releases event mid place → mid.Owes place
  /-- Everybody settles once. -/
  entered : ∀ index < next.components.length,
    settled.count index = if isUnsettled next.components index then 0 else 1
  /-- Each event tells its result to those that settle with it, and to nobody else. -/
  tells : ∀ index wait event, (index, wait) ∈ next.members → wait.Ends event → ∀ now : Host,
    After now ((next.without index).take event) fun last later =>
      Tells event.result now later next.components last.components
  /-- When no event comes, whoever has not settled depends, in some steps, on a component whose body is
  suspended, or that waits for something outside. -/
  progress : (∀ wait ∈ next.members.map Prod.snd, wait.Suspended) →
    ∀ index, isUnsettled next.components index → ∃ other,
      Relation.ReflTransGen (host.DependsOn groups) index other ∧ isUnsettled next.components other ∧
        ((∃ component : Component, next.components[other]? = some component ∧
          ∃ ref ∈ component.members, ∃ body rest,
            .run other ⟨some (ref, body), rest⟩ ∈ next.members.map Prod.snd) ∨
          ∃ watch, .outside other (.shared watch) ∈ next.members.map Prod.snd)
  /-- Where nothing is waited for, everybody has settled. -/
  complete : next.members = [] → ∀ component ∈ next.components, component.settled = true
  /-- Driven on, the driver stays on a course, and ends only where nothing is waited for. -/
  goes : ∀ (look : LookReady) (waker : Waker) (now : Host),
    After now (next.poll look waker) fun result _ => work.Comes look waker events result

/-- A driver was installed for groups of records, and keeps its accounts whatever events come. -/
structure Serves (work : DriverWork) (host after : Host) (groups : List (List (Ref .record)))
    (driver : Ref .driver) (bell : Ref .bell) : Prop where
  fresh : host.drivers.get? driver = none
  installed : after.drivers.get? driver = some ⟨⟨bell, .idle work⟩, work.components.length⟩
  grouped : work.components.map Component.members = groups
  distinct : (work.components.map Component.verdict).Nodup
  /-- Nobody has settled, and nothing was announced. -/
  posted : ∀ component ∈ work.components, component.settled = false ∧
    host.verdicts.get? component.verdict = none ∧ after.verdicts.get? component.verdict = some ⟨none, none⟩
  /-- Nothing is announced when the driver starts. -/
  starts : ∀ now : Host, After now ({ work with started := true }.addAll (firstWaits work.components))
    fun next later => next.components = work.components ∧ later.verdicts = now.verdicts
  polls : ∀ (look : LookReady) (waker : Waker) (now : Host),
    After now (work.poll look waker) fun result _ => work.Comes look waker [] result
  accounts : ∀ events settled next, work.Course events settled next →
    work.Accounts host groups events settled next

variable {work next : DriverWork} {events : List DriverEvent} {settled : List Nat} {host : Host}
  {groups : List (List (Ref .record))} {inside : Nat → List Nat}

/-- The accounts of a driver are its books, read for the groups it was installed for. -/
theorem OnCourse.accounts (h : work.OnCourse inside events settled next)
    (hcourse : work.Course events settled next)
    (hinside : ∀ index other, other ∈ inside index ↔ host.DependsOn groups index other)
    (houtside : ∀ index, (firstWaits work.components).countP (isOutside index) =
      (host.outsideOf groups index).ncard) : work.Accounts host groups events settled next := by
  have hbooks := h.inOrder.books
  have hunique := h.inOrder.arranged.unique
  have hprogress := hbooks.progress h.inOrder.arranged
  have hdepends : (fun index other => other ∈ inside index) = host.DependsOn groups := by
    funext index other
    exact propext (hinside index other)
  rw [hdepends] at hprogress
  refine
    { lasting := h.lasting
      counted := fun index component hcomponent hopen => ?_
      outside := fun index => (h.outside index).trans (houtside index)
      begun := fun index component hcomponent hopen =>
        hbooks.begun index component hcomponent hopen List.not_mem_nil
      once := hbooks.once
      idle := fun index hsettled => hbooks.idle index (.inl hsettled)
      owes := fun index wait event hmem hends mid place => h.owes hmem hends
      entered := h.once
      tells := fun index wait event hmem hends now => (h.take hmem hends now).mono fun _ _ => And.right
      progress := fun hsuspended index hunsettled => ?_
      complete := fun hnone component hmem => ?_
      goes := fun look waker now => hcourse.poll h.inOrder.started look waker now }
  · rw [← hbooks.counted index component hcomponent hopen List.not_mem_nil, List.count_nil, Nat.add_zero,
      List.countP_eq_length_filter]
    refine congrArg (· + _) (Host.ncard_of_nodup ((hunique index).filter _) fun other => ?_).symm
    rw [List.mem_filter, hinside]
    rfl
  · obtain ⟨other, hreach, hstill, ⟨run, hmem⟩ | ⟨completion, hmem⟩⟩ := hprogress index hunsettled
    · obtain ⟨component, hcomponent, hsuffix⟩ := h.inOrder.runs other run hmem
      obtain ⟨before, hcontinues⟩ := hsuspended _ hmem
      cases hcontinues with
      | run _ _ ref body rest =>
        exact ⟨other, hreach, hstill, .inl ⟨component, hcomponent, ref, hsuffix.subset List.mem_cons_self,
          body, rest, hmem⟩⟩
    · obtain ⟨before, hcontinues⟩ := hsuspended _ hmem
      cases hcontinues with
      | outside _ _ watch => exact ⟨other, hreach, hstill, .inr ⟨watch, hmem⟩⟩
  · obtain ⟨index, hindex⟩ := List.mem_iff_getElem?.1 hmem
    by_contra hopen
    obtain ⟨other, -, -, ⟨run, hrun⟩ | ⟨completion, hout⟩⟩ :=
      hprogress index (isUnsettled_iff.2 ⟨component, hindex, Bool.eq_false_iff.2 hopen⟩)
    · rw [hnone] at hrun
      cases hrun
    · rw [hnone] at hout
      cases hout

end DriverWork

namespace Act

/-- A driver that is installed for groups of which none depends on a later one keeps its accounts. -/
theorem startDriver_accounts {host : Host} {groups : List (List (Ref .record))}
    (hnodup : groups.flatten.Nodup)
    (hexist : ∀ ref ∈ groups.flatten, (host.records.get? ref).isSome)
    (hordered : ∀ index other, host.DependsOn groups index other → other < index) :
    After host (startDriver groups) fun _ after => ∃ driver bell, ∃ work : DriverWork,
      work.Serves host after groups driver bell := by
  refine (startDriver_installs groups host).mono fun _ after hinstalls => ?_
  obtain ⟨posted, pairs, driver, bell, work, hposts, hverdicts, hfresh, hdriver, hunstarted, hmembers,
    hcomponents⟩ := hinstalls
  have hinside (index other : Nat) :
      other ∈ host.insideOf (host.ownerIn groups) pairs index ↔ host.DependsOn groups index other :=
    Host.mem_insideOf_groups hnodup hexist hposts.groups
  have hnone : Host.Planned host (host.ownerIn groups) [] [] := ⟨rfl, fun _ _ _ hnone => nomatch hnone⟩
  have hplanned : host.Planned (host.ownerIn groups) pairs work.components := by
    rw [hcomponents]
    exact Host.componentsOf_planned pairs [] hnone fun index other hmem =>
      hordered index other ((hinside index other).1 hmem)
  obtain ⟨hlasting, hinstalled⟩ :=
    hplanned.installed hnodup hexist hordered hposts.groups hposts.nodup hmembers
  have hpairs (component : Component) (hmem : component ∈ work.components) :
      (component.members, component.verdict) ∈ pairs := hlasting ▸ List.mem_map_of_mem hmem
  refine ⟨driver, bell, work,
    { fresh := hfresh
      installed := hdriver
      grouped := ?_
      distinct := hinstalled.verdicts
      posted := fun component hmem => ?_
      starts := fun now => (hinstalled.start now).mono fun _ _ => And.right
      polls := fun look waker now => DriverWork.poll_comes hunstarted look waker now
      accounts := fun events settled next hcourse => (hinstalled.onCourse hcourse).accounts hcourse hinside
        (hplanned.countP_outside hnodup hexist hposts.groups) }⟩
  · rw [← hposts.groups, ← hlasting, List.map_map]
    rfl
  · obtain ⟨index, hindex⟩ := List.mem_iff_getElem?.1 hmem
    obtain ⟨hnew, hannounced⟩ := hposts.fresh _ (hpairs component hmem)
    exact ⟨(hinstalled.waiting index component hindex).1, hnew, by rw [hverdicts]; exact hannounced⟩

/-- A record that needs two others, each of which needs a record that has run. -/
def diamond : Host :=
  let record (key : String) (requests : List String) (phase : Phase) : Record :=
    { (default : Record) with key, requests := requests.map fun key => (key, key), phase }
  { (default : Host) with
    compartments := ⟨#[{ (default : Compartment) with
      memo := ⟨[("base", .own ⟨3⟩), ("left", .own ⟨1⟩), ("main", .own ⟨0⟩), ("right", .own ⟨2⟩)]⟩ }]⟩
    records := ⟨#[record "main" ["left", "right", "left"] .linked, record "left" ["base"] .linked,
      record "right" ["base", "base"] .linked, record "base" [] .ready]⟩ }

/-- Its records that have not run, each a group of its own. -/
def diamondGroups : List (List (Ref .record)) :=
  [[⟨1⟩], [⟨2⟩], [⟨0⟩]]

/-- The record that needs the others comes last, and its driver keeps its accounts. -/
theorem startDriver_accounts_diamond :
    diamond.DependsOn diamondGroups 2 0 ∧ diamond.DependsOn diamondGroups 2 1 ∧
      After diamond (startDriver diamondGroups) fun _ after => ∃ driver bell, ∃ work : DriverWork,
        work.Serves diamond after diamondGroups driver bell := by
  have hordered : ∀ index < 3, ∀ other < 3, ∀ ref ∈ (diamondGroups[index]?).getD [],
      ∀ needed ∈ (diamondGroups[other]?).getD [],
        needed ∈ diamond.dependencies (diamond.record ref) → other < index := by
    decide +kernel
  refine ⟨⟨by decide, [⟨0⟩], [⟨1⟩], rfl, rfl, ⟨0⟩, by decide, ⟨1⟩, by decide, by decide +kernel⟩,
    ⟨by decide, [⟨0⟩], [⟨2⟩], rfl, rfl, ⟨0⟩, by decide, ⟨2⟩, by decide, by decide +kernel⟩,
    startDriver_accounts (by decide) (by decide +kernel) fun index other hdepends => ?_⟩
  obtain ⟨-, members, others, hmembers, hothers, ref, href, needed, hneeded, hdepends⟩ := hdepends
  obtain ⟨hindex, -⟩ := List.getElem?_eq_some_iff.1 hmembers
  obtain ⟨hother, -⟩ := List.getElem?_eq_some_iff.1 hothers
  refine hordered index hindex other hother ref ?_ needed ?_ hdepends
  · rwa [hmembers]
  · rwa [hothers]

end Act

end ModuleLoader
