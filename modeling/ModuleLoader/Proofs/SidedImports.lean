import ModuleLoader.Proofs.DriverPlans
import ModuleLoader.Proofs.PendingGraphs
import ModuleLoader.Proofs.SidedWork
/-!
Scheduling and importing keep sides apart: the records that are run together with one are on its side, and
they get a driver and completions there.
-/

namespace ModuleLoader
set_option autoImplicit false

variable {sides : Sides} {side : Bool} {host host' : Host}

open Act.Stays

namespace Component

/-- What holds of components however they are counted holds after a change of one of them. -/
theorem forall_modify {good : Component → Prop} {f : Component → Component}
    (hf : ∀ component, good component → good (f component)) {components : List Component} {index : Nat}
    (h : ∀ component ∈ components, good component) :
    ∀ component ∈ components.modify index f, good component := by
  intro component hmem
  obtain ⟨place, hplace⟩ := List.mem_iff_getElem?.1 hmem
  rw [List.getElem?_modify] at hplace
  obtain ⟨old, hold, rfl⟩ := Option.map_eq_some_iff.1 hplace
  have hgood := h old (List.mem_of_getElem? hold)
  split
  · exact hf old hgood
  · exact hgood

theorem forall_addDependent {good : Component → Prop}
    (hgood : ∀ component dependents, good component → good { component with dependents }) (index : Nat) :
    ∀ (others : List Nat) {components : List Component}, (∀ component ∈ components, good component) →
      ∀ component ∈ addDependent components index others, good component := by
  intro others
  induction others with
  | nil => exact fun h => h
  | cons other rest ih =>
    exact fun h => ih (forall_modify (fun component hcomponent => hgood component _ hcomponent) h)

end Component

/-- The components of a driver are on the side of their groups. -/
theorem Host.Sided.componentsOf (h : host.Sided sides) (owner : Ref .record → Option Nat) :
    ∀ (groups : List (List (Ref .record) × Ref .verdict)) (index : Nat) (components : List Component),
      (∀ pair ∈ groups, (∀ ref ∈ pair.1, host.OnSide sides side ref) ∧ host.OnSide sides side pair.2) →
        (∀ component ∈ components, component.OnSide host sides side) →
          ∀ component ∈ host.componentsOf owner index components groups,
            component.OnSide host sides side := by
  intro groups
  induction groups with
  | nil => exact fun _ _ _ hcomponents => hcomponents
  | cons first rest ih =>
    intro index components hgroups hcomponents
    obtain ⟨members, verdict⟩ := first
    obtain ⟨hmembers, hverdict⟩ := hgroups _ List.mem_cons_self
    refine ih _ _ (fun pair hmem => hgroups pair (List.mem_cons_of_mem _ hmem)) fun component hmem => ?_
    rcases List.mem_append.1 hmem with hmem | hmem
    · exact Component.forall_addDependent (fun component dependents hcomponent =>
        ⟨hcomponent.members, hcomponent.outside, hcomponent.verdict⟩) index _ hcomponents component hmem
    · obtain rfl := List.mem_singleton.1 hmem
      refine ⟨hmembers, fun completion hcompletion => ?_, hverdict⟩
      obtain ⟨ref, href, rfl⟩ := List.mem_map.1 hcompletion
      have hneeded := ((Dependencies.ofMembers_found owner index _ members).outside ref).1 href
      obtain ⟨member, hmember, hdepends⟩ := List.mem_flatMap.1 hneeded.1
      exact h.completion (h.apart.dependencies (hmembers member hmember) ref hdepends)

/-- A pending record leads to records of its own side. -/
theorem Sides.Apart.components (h : sides.Apart host) {root : Ref .record}
    (hroot : host.OnSide sides side root) (hpending : host.Pending root) :
    ∀ members ∈ host.components root, ∀ ref ∈ members, host.OnSide sides side ref := by
  have hpath {ref : Ref .record} (hpath : host.PendingPath root ref) : host.OnSide sides side ref := by
    induction hpath with
    | refl => exact hroot
    | tail _ hstep ih => exact h.dependencies ih _ (Host.mem_pendingDependencies.1 hstep).1
  intro members hmembers ref href
  exact hpath (hpending.mem_components.1 (List.mem_flatten.2 ⟨members, hmembers, href⟩))

/-- A completion may be added that waits for a driver of the acting side. -/
theorem Host.Sided.addReady (h : host.Sided sides) {work : ReadyWork}
    (hwork : work.OnSide host sides sides.active) (bell : Ref .bell) :
    Host.Sided { host with readies := host.readies.push ⟨bell, .idle work⟩ } sides ∧
      (sides.law sides.active).Moves host
        { host with readies := host.readies.push ⟨bell, .idle work⟩ } := by
  have hnext := h.apart.next_ready
  refine h.putReadies (.push hnext trivial) fun hmoves ready other found hfound => ?_
  rw [Arena.get?_push] at hfound
  split at hfound
  · rename_i hsame
    cases hfound
    rw [hsame, hnext]
    exact hwork.carried hmoves.carries
  · exact (h.work.readies ready other found hfound).carried hmoves.carries

/-- A driver of the acting side may be added. -/
theorem Host.Sided.addDriver (h : host.Sided sides) {work : DriverWork}
    (hwork : work.OnSide host sides sides.active) (bell : Ref .bell) (holders : Nat) :
    Host.Sided { host with drivers := host.drivers.push ⟨⟨bell, .idle work⟩, holders⟩ } sides ∧
      (sides.law sides.active).Moves host
        { host with drivers := host.drivers.push ⟨⟨bell, .idle work⟩, holders⟩ } := by
  have hnext := h.apart.next_driver
  refine h.putDrivers (.push hnext trivial) fun hmoves driver other found hfound => ?_
  rw [Arena.get?_push] at hfound
  split at hfound
  · rename_i hsame
    cases hfound
    rw [hsame, hnext]
    exact hwork.carried hmoves.carries
  · exact (h.work.drivers driver other found hfound).carried hmoves.carries

/-- Whatever looks at a completion of the acting side leaves the sides apart. -/
def LookReady.Stays (sides : Sides) (look : LookReady) : Prop :=
  ∀ (host : Host) (watch : Watch .ready) (waker : Waker), host.Sided sides →
    host.OnSide sides sides.active watch.job →
      (look watch waker).Stays sides host fun result _ => ∀ next, result = .pending next →
        next.job = watch.job

namespace Act

theorem newVerdicts_stays : ∀ (groups : List (List (Ref .record))) {host : Host}, host.Sided sides →
    (newVerdicts groups).Stays sides host fun pairs host' => ∀ pair ∈ pairs,
      pair.1 ∈ groups ∧ host'.OnSide sides sides.active pair.2 := by
  intro groups
  induction groups with
  | nil => exact fun h => .pure h fun _ hmem => nomatch hmem
  | cons members rest ih =>
    intro host h
    have hnext := h.apart.next_verdict
    obtain ⟨hpushed, hmoves⟩ := h.putVerdicts (.push hnext trivial)
    have hpush : Act.Stays (modify fun host => { host with
        verdicts := host.verdicts.push ⟨none, none⟩ }) sides host
          fun _ host' => host'.OnSide sides sides.active host.verdicts.next := by
      refine ⟨hpushed, hmoves, ?_, hnext⟩
      change host.verdicts.size < (host.verdicts.push _).size
      rw [Arena.size_push]
      exact Nat.lt_succ_self _
    refine .getBind (hpush.bind fun _ pushed hpushed _ hverdict => (ih hpushed).bind
      fun pairs last hlast hmoves hpairs => .pure hlast fun pair hmem => ?_)
    rcases List.mem_cons.1 hmem with rfl | hmem
    · exact ⟨List.mem_cons_self, hverdict.mono (Remains.born hmoves.rel)⟩
    · exact (hpairs pair hmem).imp_left (List.mem_cons_of_mem _)

theorem newCompletion_stays (h : host.Sided sides) {driver : Ref .driver}
    (hdriver : host.OnSide sides sides.active driver) {members : List (Ref .record)}
    (hmembers : ∀ ref ∈ members, sides.of ref = sides.active) {verdict : Ref .verdict}
    (hverdict : host.OnSide sides sides.active verdict) :
    (newCompletion driver members verdict).Stays sides host fun _ _ => True := by
  unfold newCompletion
  cases members with
  | nil => exact .pure h trivial
  | cons first rest =>
    refine .afterAside newBell_aside h fun bell belled hbelled hmoves => .getBind ?_
    have hdriver := hdriver.mono (Remains.born hmoves.rel)
    have hverdict := hverdict.mono (Remains.born hmoves.rel)
    have hready := hbelled.apart.next_ready
    have hwork : ReadyWork.OnSide belled sides sides.active ⟨some ⟨driver, none⟩, verdict, first⟩ := by
      refine ⟨?_, hverdict⟩
      rintro _ ⟨⟩
      exact hdriver
    obtain ⟨hpushed, hmoves'⟩ := hbelled.addReady hwork bell
    have hpush : Act.Stays (modify fun host => { host with
        readies := host.readies.push ⟨bell, .idle ⟨some ⟨driver, none⟩, verdict, first⟩⟩ }) sides belled
          fun _ host' => host'.OnSide sides sides.active belled.readies.next := by
      refine ⟨hpushed, hmoves', ?_, hready⟩
      change belled.readies.size < (belled.readies.push _).size
      rw [Arena.size_push]
      exact Nat.lt_succ_self _
    dsimp only
    refine hpush.bind fun _ pushed hpushed _ hready => .fills hpushed ?_
    -- The completion exists before any record refers to it.
    have hgive : ∀ (members : List (Ref .record)) {host : Host}, sides.Apart host →
        host.OnSide sides sides.active belled.readies.next →
          (∀ ref ∈ members, sides.of ref = sides.active) →
            (members.forM fun member => changeRecord member fun record =>
              { record with ready := some belled.readies.next }).Fills sides host fun _ _ => True := by
      intro members
      induction members with
      | nil => exact fun h _ _ => .pure h trivial
      | cons member rest ih =>
        intro host h hready hmembers
        refine (changeRecord_fills h (hmembers member List.mem_cons_self) fun record hrecord => ?_).bind
          fun _ changed hchanged _ => ?_
        · refine ⟨hrecord.home, hrecord.space, hrecord.slots, ?_⟩
          rintro _ ⟨⟩
          exact hready
        · exact ih hchanged.apart (hready.mono hchanged.remains.born)
            fun ref hmem => hmembers ref (List.mem_cons_of_mem member hmem)
    exact hgive _ hpushed.apart hready hmembers

theorem newCompletions_stays {driver : Ref .driver} :
    ∀ (pairs : List (List (Ref .record) × Ref .verdict)) {host : Host}, host.Sided sides →
      host.OnSide sides sides.active driver →
        (∀ pair ∈ pairs, (∀ ref ∈ pair.1, sides.of ref = sides.active) ∧
          host.OnSide sides sides.active pair.2) →
          (newCompletions driver pairs).Stays sides host fun _ _ => True := by
  intro pairs
  induction pairs with
  | nil => exact fun h _ _ => .pure h trivial
  | cons first rest ih =>
    intro host h hdriver hpairs
    obtain ⟨hmembers, hverdict⟩ := hpairs first List.mem_cons_self
    refine (newCompletion_stays h hdriver hmembers hverdict).bind fun _ made hmade hmoves _ => ?_
    exact ih hmade (hdriver.mono (Remains.born hmoves.rel)) fun pair hmem =>
      (hpairs pair (List.mem_cons_of_mem first hmem)).imp_right fun hverdict =>
        hverdict.mono (Remains.born hmoves.rel)

theorem startDriver_stays (h : host.Sided sides) {groups : List (List (Ref .record))}
    (hgroups : ∀ members ∈ groups, ∀ ref ∈ members, host.OnSide sides sides.active ref) :
    (startDriver groups).Stays sides host fun _ _ => True := by
  unfold startDriver
  refine (newVerdicts_stays groups h).bind fun pairs announced hannounced hmoves hpairs => .getBind ?_
  have hmembers : ∀ pair ∈ pairs, (∀ ref ∈ pair.1, announced.OnSide sides sides.active ref) ∧
      announced.OnSide sides sides.active pair.2 := fun pair hpair =>
    (hpairs pair hpair).imp_left fun hmem ref href =>
      (hgroups pair.1 hmem ref href).mono (Remains.born hmoves.rel)
  have hcomponents := hannounced.componentsOf (announced.ownerIn groups) pairs 0 [] hmembers
    fun _ hmem => nomatch hmem
  dsimp only
  generalize announced.componentsOf (announced.ownerIn groups) 0 [] pairs = components at hcomponents ⊢
  refine .afterAside newPool_aside hannounced fun pool pooled hpooled hmoves' => ?_
  refine .afterAside newBell_aside hpooled fun bell belled hbelled hmoves'' => .getBind ?_
  have hsince := hmoves'.trans sides.law_kept hmoves''
  have hdriver := hbelled.apart.next_driver
  have hwork : DriverWork.OnSide belled sides sides.active ⟨false, components, pool, [], 0⟩ :=
    ⟨fun component hmem => (hcomponents component hmem).carried hsince.carries, fun _ hmem => nomatch hmem⟩
  obtain ⟨hpushed, hmoves'''⟩ := hbelled.addDriver hwork bell components.length
  have hpush : Act.Stays (modify fun host => { host with
      drivers := host.drivers.push ⟨⟨bell, .idle ⟨false, components, pool, [], 0⟩⟩, components.length⟩ })
        sides belled fun _ host' => host'.OnSide sides sides.active belled.drivers.next := by
    refine ⟨hpushed, hmoves''', ?_, hdriver⟩
    change belled.drivers.size < (belled.drivers.push _).size
    rw [Arena.size_push]
    exact Nat.lt_succ_self _
  refine hpush.bind fun _ pushed hpushed hlast hdriver => ?_
  have hsince' := hsince.trans sides.law_kept hlast
  refine newCompletions_stays pairs hpushed hdriver fun pair hpair => ?_
  obtain ⟨hmembers, hverdict⟩ := hmembers pair hpair
  exact ⟨fun ref href => (hmembers ref href).2, hverdict.mono (Remains.born hsince'.rel)⟩

theorem schedule_stays (h : host.Sided sides) {root : Ref .record}
    (hroot : host.OnSide sides sides.active root) :
    (schedule root).Stays sides host fun completion host' =>
      completion.OnSide host' sides sides.active := by
  refine .getBind ?_
  dsimp only
  split
  · rename_i hpending
    refine (Stays.fills h (mark_fills h.apart _)).bind fun _ marked hmarked hmoves _ => ?_
    refine (startDriver_stays hmarked fun members hmembers ref href => ?_).bind
      fun _ started hstarted hmoves' _ => .getBind ?_
    · exact (h.apart.components hroot hpending members hmembers ref href).mono (Remains.born hmoves.rel)
    · exact .pure hstarted (hstarted.completion (hroot.mono
        (Remains.born (hmoves.trans sides.law_kept hmoves').rel)))
  · refine (Stays.fills h (mark_fills h.apart _)).bind fun _ marked hmarked hmoves _ => .getBind ?_
    exact .pure hmarked (hmarked.completion (hroot.mono (Remains.born hmoves.rel)))

/-- Linking and scheduling what a key of the acting side leads to. -/
theorem linkAndSchedule_stays (h : host.Sided sides) {root : Node}
    (hroot : sides.of root.compartment = sides.active) :
    (linkAndSchedule root).Stays sides host fun result host' =>
      ∀ completion, result = .ok completion → completion.OnSide host' sides sides.active := by
  refine .getBind ?_
  split
  · exact .pure h fun _ heq => nomatch heq
  · rename_i entry hentry
    have hrecord : host.OnSide sides sides.active entry.record := by
      unfold Host.entryOf at hentry
      split at hentry
      · rename_i hfound
        cases hentry
        exact hroot ▸ (h.apart.memo root entry hfound).record
      · cases hentry
    split
    · rename_i ready hready
      refine .pure h ?_
      rintro _ ⟨⟩
      exact (h.apart.record hrecord).2.ready ready hready
    · refine (Stays.fills h (linkClosure_fills h.apart hroot)).bind fun _ linked hlinked hmoves _ => ?_
      refine (schedule_stays hlinked (hrecord.mono (Remains.born hmoves.rel))).bind
        fun completion last hlast _ hcompletion => .pure hlast ?_
      rintro _ ⟨⟩
      exact hcompletion

theorem concludeImport_stays (h : host.Sided sides) (node : Node) :
    (concludeImport node).Stays sides host fun _ _ => True := by
  refine .getBind ?_
  split
  · exact .pure h trivial
  · exact (Stays.fills h (mark_fills h.apart _)).bind fun _ _ hlast _ _ => .pure hlast trivial

end Act

section
variable {look : LookReady} (hlook : look.Stays sides)
include hlook

theorem Completion.poll_stays (h : host.Sided sides) {completion : Completion}
    (hcompletion : completion.OnSide host sides sides.active) (waker : Waker) :
    (completion.poll look waker).Stays sides host fun result host' =>
      ∀ next, result = .pending next → next.OnSide host' sides sides.active := by
  cases completion with
  | known result => exact .pure h fun _ heq => nomatch heq
  | shared watch =>
    refine (hlook host watch waker h hcompletion).bind fun result polled hpolled hmoves hresult => ?_
    cases result with
    | pending next =>
      refine .pure hpolled ?_
      rintro _ ⟨⟩
      have hjob := hresult next rfl
      change polled.OnSide sides sides.active next.job
      rw [hjob]
      exact Host.OnSide.mono (Remains.born hmoves.rel) hcompletion
    | ready result => exact .pure hpolled fun _ heq => nomatch heq

namespace ImportWork

/-- What a look at an import comes to. -/
def ComesTo (sides : Sides) (result : Poll ImportWork (Except Failure (Ref .exports))) (host : Host) :
    Prop :=
  ∀ next, result = .pending next → next.OnSide host sides sides.active

theorem awaitRun_stays (h : host.Sided sides) {node : Node}
    (hnode : sides.of node.compartment = sides.active) {completion : Completion}
    (hcompletion : completion.OnSide host sides sides.active) (waker : Waker) :
    (awaitRun look node completion waker).Stays sides host (ComesTo sides) := by
  refine (completion.poll_stays hlook h hcompletion waker).bind fun result polled hpolled _ hresult => ?_
  cases result with
  | pending next =>
    refine .pure hpolled ?_
    rintro _ ⟨⟩
    refine ⟨hnode, (fun _ heq => nomatch heq), ?_⟩
    rintro _ ⟨⟩
    exact hresult next rfl
  | ready result =>
    cases result with
    | error failure => exact .pure hpolled fun _ heq => nomatch heq
    | ok _ =>
      exact (Act.concludeImport_stays hpolled node).bind fun _ _ hlast _ _ => .pure hlast fun _ heq => nomatch heq

omit hlook in
theorem start_onSide {node : Node} (hnode : sides.of node.compartment = side) :
    (start node).OnSide host sides side := by
  refine ⟨hnode, ?_, fun _ heq => nomatch heq⟩
  rintro _ ⟨⟩
  exact hnode

theorem poll_stays (h : host.Sided sides) {work : ImportWork}
    (hwork : work.OnSide host sides sides.active) (waker : Waker) :
    (work.poll look waker).Stays sides host (ComesTo sides) := by
  unfold poll
  split
  · rename_i completion hstage
    exact awaitRun_stays hlook h hwork.node (hwork.running completion hstage) waker
  · rename_i stage hstage
    have hheeds := hwork.loading stage hstage
    refine (Act.Stays.heeds h (stage.poll_heeds sides.law_kept h.loads hheeds waker)
      (stage.poll_sameWork h.loads hheeds waker)).bind fun result polled hpolled _ hresult => ?_
    cases result with
    | pending next =>
      refine .pure hpolled ?_
      rintro _ ⟨⟩
      refine ⟨hwork.node, ?_, fun _ heq => nomatch heq⟩
      rintro _ ⟨⟩
      exact hresult next rfl
    | ready result =>
      cases result with
      | error failure => exact .pure hpolled fun _ heq => nomatch heq
      | ok _ =>
        refine (Act.linkAndSchedule_stays hpolled hwork.node).bind
          fun result last hlast _ hresult => ?_
        cases result with
        | error failure => exact .pure hlast fun _ heq => nomatch heq
        | ok completion =>
          exact awaitRun_stays hlook hlast hwork.node (hresult completion rfl) waker

end ImportWork

namespace Act

theorem runNow_stays (h : host.Sided sides) (node : Node) {completion : Completion}
    (hcompletion : completion.OnSide host sides sides.active) :
    (runNow look node completion).Stays sides host fun _ _ => True := by
  refine (completion.poll_stays hlook h hcompletion .nobody).bind
    fun result polled hpolled _ _ => ?_
  cases result with
  | pending next => exact .afterAside next.forget_aside hpolled fun _ _ hlast _ => .pure hlast trivial
  | ready result =>
    cases result with
    | error failure => exact .pure hpolled trivial
    | ok _ => exact concludeImport_stays hpolled node

omit hlook in
theorem draft_stays (h : host.Sided sides) {root : Node}
    (hroot : sides.of root.compartment = sides.active) :
    (draft root).Stays sides host fun result host' => ∀ drafted, result = .ok drafted →
      ∀ pair ∈ drafted.entries, (sides.law sides.active).Suits host' pair.1 pair.2 :=
  .heeds h (draft_heeds sides.law_kept h.loads hroot) (draft_sameWork h.loads root)

omit hlook in
theorem enterDraft_stays (h : host.Sided sides) {drafted : Drafted}
    (hdrafted : ∀ pair ∈ drafted.entries, (sides.law sides.active).Suits host pair.1 pair.2) :
    (enterDraft drafted).Stays sides host fun _ _ => True :=
  .heeds h (enterDraft_heeds sides.law_kept h.loads hdrafted) (enterDraft_sameWork h.loads drafted)

omit hlook in
theorem loadNow_stays (h : host.Sided sides) {root : Node}
    (hroot : sides.of root.compartment = sides.active) :
    (loadNow root).Stays sides host fun _ _ => True := by
  refine (draft_stays h hroot).bind fun result drafted hdrafted _ hresult => ?_
  cases result with
  | error failure => exact .pure hdrafted trivial
  | ok found =>
    exact (enterDraft_stays hdrafted (hresult found rfl)).bind fun _ _ hlast _ _ => .pure hlast trivial

theorem importNow_stays (h : host.Sided sides) {node : Node}
    (hnode : sides.of node.compartment = sides.active) :
    (importNow look node).Stays sides host fun _ _ => True := by
  refine (draft_stays h hnode).bind fun result drafted hdrafted _ hresult => ?_
  cases result with
  | error failure => exact .pure hdrafted trivial
  | ok found =>
    refine .getBind ?_
    split
    · exact .pure hdrafted trivial
    · refine (enterDraft_stays hdrafted (hresult found rfl)).bind fun _ entered hentered _ _ => ?_
      refine (linkAndSchedule_stays hentered hnode).bind fun result last hlast _ hresult => ?_
      cases result with
      | error failure => exact .pure hlast trivial
      | ok completion => exact runNow_stays hlook hlast node (hresult completion rfl)

end Act

end

end ModuleLoader
