import ModuleLoader.Proofs.LoadLaws
/-!
Shallow loads keep every law of loading: whatever a load comes to fits its node, and the load of an alias
only ever waits for the load of a node that is no alias.
-/

namespace ModuleLoader
set_option autoImplicit false

open Act (Heeds)

/-- Only aliases point anywhere. -/
theorem Host.isAlias_of_pointsTo {host : Host} {node target : Node} {descriptor : Descriptor}
    (h : host.pointsTo node descriptor = .ok (some target)) : descriptor.isAlias = true := by
  cases descriptor with
  | instanceAlias key owner => rfl
  | recordAlias key => rfl
  | compiled source => cases h
  | «virtual» source => cases h
  | exportsAlias value => cases h

/-- A descriptor that is understood as an alias points to the node found. -/
theorem Act.interpret_elsewhere (host : Host) (node : Node) (descriptor : Descriptor) :
    After host (Act.interpret node descriptor) fun result _ =>
      ∀ target, result = .ok (.elsewhere target) → host.pointsTo node descriptor = .ok (some target) := by
  have hmodule (source : Source) : After host (newModule node source) fun result _ =>
      ∀ target, result ≠ .ok (.elsewhere target) := by
    unfold newModule
    rw [after_bind, after_get]
    dsimp only
    split <;> rintro target ⟨⟩
  cases descriptor with
  | compiled source => exact fun target heq => absurd heq (hmodule source target)
  | «virtual» source => exact fun target heq => absurd heq (hmodule source target)
  | exportsAlias value =>
    unfold interpret
    cases value <;> rintro target ⟨⟩
  | instanceAlias key owner =>
    unfold interpret
    cases owner with
    | some owner =>
      rintro target ⟨⟩
      rfl
    | none =>
      dsimp only
      split
      · rintro target ⟨⟩
      · rintro target ⟨⟩
        rfl
  | recordAlias key =>
    unfold interpret
    rw [after_bind, after_get]
    cases howner : host.aliasOwner node key with
    | error failure => rintro target ⟨⟩
    | ok owner =>
      rintro target ⟨⟩
      unfold Host.pointsTo
      dsimp only
      rw [howner]

section
variable {law : LoadLaw} (kept : law.Kept) {host : Host} {node : Node}
include kept

namespace LoadLaw

/-- A load that is begun is about its node. -/
theorem Stands.begin (h : law.Stands host) (node : Node) (bell : Ref .bell) :
    law.Stands (host.begun node bell) ∧ law.Moves host (host.begun node bell) ∧
      law.Lends (host.begun node bell) node host.loads.next := by
  have hstirs : Stirs host (host.begun node bell) := by
    have hmodify := Stirs.modify host node.compartment
      (f := fun compartment => { compartment with loading := compartment.loading.insert node.key host.loads.next })
      fun _ => rfl
    exact ⟨rfl, rfl, rfl, rfl, rfl, rfl, rfl, rfl, hmodify.size, hmodify.compartment⟩
  obtain ⟨hinv, hrel⟩ := kept.stirs h.inv hstirs
  have hextends : host.loads.Extends (host.begun node bell).loads := .push _ _
  have hnew : law.Lends (host.begun node bell) node host.loads.next :=
    ⟨_, Host.get?_begun.trans (if_pos rfl), rfl⟩
  have hmoves : law.Moves host (host.begun node bell) := by
    refine ⟨⟨hrel, fun _ _ => answers_same kept hrel rfl, fun other load hlends => ?_⟩,
      fun load _ _ => hextends load _⟩
    obtain ⟨shared, hshared, hlends⟩ := hlends
    exact ⟨shared, hextends load shared hshared, hlends.mono kept hrel⟩
  refine ⟨⟨hinv, fun other call hcall => ?_, fun other load hload => ?_, fun load work hflight => ?_⟩,
    hmoves, hnew⟩
  · rw [Host.callAt?_begun] at hcall
    exact hmoves.answers other call (h.calls other call hcall)
  · rcases Host.begun_loadAt? hload with hold | ⟨rfl, rfl⟩
    · exact hmoves.lends other load (h.loads other load hold)
    · exact hnew
  · rcases Host.begun_inFlight hflight with hold | ⟨-, rfl⟩
    · exact (h.flight load work hold).mono kept hmoves.toGoes
    · trivial

/-- A load that is about one node goes on, or ends. -/
theorem Stands.putLoad (h : law.Stands host) {load : Ref .load} {bell : Ref .bell}
    {before progress : Progress LoadWork (Except Failure Delivery)}
    (hload : host.loads.get? load = some ⟨bell, before⟩)
    (hlive : ∀ other, law.LendsAs host other before → other = node)
    (hprogress : law.LendsAs host node progress)
    (hwaits : ∀ work, progress = .idle work ∨ progress = .driven work → law.Waits host node work.stage) :
    law.Stands (Shelf.loads.put host load ⟨bell, progress⟩) ∧
      law.Goes host (Shelf.loads.put host load ⟨bell, progress⟩) ∧
        ∀ other, (Shelf.loads.put host load ⟨bell, progress⟩).loads.get? other =
          if load = other then some ⟨bell, progress⟩ else host.loads.get? other := by
  have hstirs : Stirs host (Shelf.loads.put host load ⟨bell, progress⟩) :=
    ⟨rfl, rfl, rfl, rfl, rfl, rfl, rfl, rfl, rfl, fun _ => rfl⟩
  obtain ⟨hinv, hrel⟩ := kept.stirs h.inv hstirs
  have hget (other : Ref .load) : (Shelf.loads.put host load ⟨bell, progress⟩).loads.get? other =
      if load = other then some ⟨bell, progress⟩ else host.loads.get? other := by
    change (host.loads.set load _).get? other = _
    rw [Arena.get?_set]
    split
    · rename_i hsame
      rw [← hsame, hload]
      rfl
    · rfl
  have hgoes : law.Goes host (Shelf.loads.put host load ⟨bell, progress⟩) := by
    refine ⟨hrel, fun _ _ => answers_same kept hrel rfl, fun other ref hlends => ?_⟩
    obtain ⟨shared, hshared, hlends⟩ := hlends
    by_cases hsame : load = ref
    · subst hsame
      rw [hload] at hshared
      cases hshared
      obtain rfl := hlive other hlends
      exact ⟨_, (hget load).trans (if_pos rfl), hprogress.mono kept hrel⟩
    · exact ⟨shared, (hget ref).trans ((if_neg hsame).trans hshared), hlends.mono kept hrel⟩
  refine ⟨⟨hinv, fun other call hcall => hgoes.answers _ _ (h.calls other call hcall),
    fun other ref hkept => hgoes.lends _ _ (h.loads other ref hkept), fun ref work hflight => ?_⟩, hgoes, hget⟩
  obtain ⟨bell', hflight⟩ := hflight
  rw [hget] at hflight
  by_cases hsame : load = ref
  · rw [if_pos hsame] at hflight
    have hwork : progress = .idle work ∨ progress = .driven work := by
      rcases hflight with hflight | hflight <;> cases hflight
      · exact .inl rfl
      · exact .inr rfl
    have hnode : work.node = node := by
      rcases hwork with rfl | rfl <;> exact hprogress
    rw [hnode]
    exact (hwaits work hwork).mono kept hgoes
  · rw [if_neg hsame] at hflight
    exact (h.flight ref work ⟨bell', hflight⟩).mono kept hgoes

/-- A load that failed is not kept any more. -/
theorem Stands.letGo (h : law.Stands host) (node : Node) :
    law.Stands (host.letGo node) ∧ law.Moves host (host.letGo node) := by
  obtain ⟨hinv, hrel⟩ := kept.stirs h.inv (Stirs.modify host node.compartment
    (f := fun compartment => { compartment with loading := compartment.loading.erase node.key }) fun _ => rfl)
  have hunasked := Host.letGo_unasked host node
  exact h.same kept hinv hrel rfl rfl (fun other call hcall => (hunasked.callAt other).symm.trans hcall)
    hunasked.loadAt

theorem Stands.delivered (h : law.Stands host) {delivery : Delivery}
    (hdelivered : host.delivered? node = some delivery) : law.Delivers host node delivery := by
  obtain ⟨entry, hentry, rfl⟩ := Option.map_eq_some_iff.1 hdelivered
  have hfits := kept.memo h.inv hentry
  exact ⟨hfits, kept.continues h.inv hfits⟩

end LoadLaw

theorem Act.loadOf_heeds (h : law.Stands host) (node : Node) :
    (loadOf node).Heeds law host fun result host' => match result with
      | .already delivery => law.Delivers host' node delivery
      | .shared load => law.Lends host' node load ∧ host.entryAt? node = none := by
  refine .getBind ?_
  split
  · rename_i delivery hdelivered
    exact .pure kept h (h.delivered kept hdelivered)
  · rename_i hdelivered
    have hentry : host.entryAt? node = none := by
      simpa [Host.delivered?] using hdelivered
    split
    · rename_i load hload
      exact .pure kept h ⟨h.loads node load hload, hentry⟩
    · have hbell : newBell.Heeds law host fun _ _ => True := .aside kept h newBell_aside trivial
      refine Heeds.bind kept hbell fun bell belled hbelled _ _ => ?_
      obtain ⟨hstands, hmoves, hlends⟩ := hbelled.begin kept node bell
      exact ⟨hstands, hmoves, hlends, hentry⟩

theorem Act.interpret_heeds (h : law.Stands host) {descriptor : Descriptor}
    (hwithin : law.within node.compartment) (htells : law.tells host node descriptor) :
    (Act.interpret node descriptor).Heeds law host fun result host' => match result with
      | .error _ => True
      | .ok (.entry entry) => law.fits host' node entry
      | .ok (.elsewhere target) => host.pointsTo node descriptor = .ok (some target) := by
  refine (((kept.interprets h.inv hwithin htells).and (interpret_adds host node descriptor)).and
    (interpret_elsewhere host node descriptor)).mono fun result host' hresult => ?_
  obtain ⟨⟨⟨hinv, hrel, hfits⟩, store, records, rfl⟩, helsewhere⟩ := hresult
  obtain ⟨hstands, hmoves⟩ := h.same kept hinv hrel rfl rfl (fun _ _ => id) fun _ _ => id
  refine ⟨hstands, hmoves, ?_⟩
  match result with
  | .error failure => trivial
  | .ok (.entry entry) => exact hfits entry rfl
  | .ok (.elsewhere target) => exact helsewhere target rfl

end

namespace LoadWork

/-- A look at the load of a node keeps the law. -/
def Look.Heeds (law : LoadLaw) (look : Look) : Prop :=
  ∀ (host : Host) (node : Node) (watch : Watch .load) (waker : Waker), law.Stands host →
    law.within node.compartment → law.Lends host node watch.job →
      (look watch waker).Heeds law host fun result host' => match result with
        | .pending next => next.job = watch.job
        | .ready outcome => law.LendsAs host' node (.done outcome)

/-- How far a load has come after a step. -/
def cameTo : Poll LoadWork (Except Failure Delivery) → Progress LoadWork (Except Failure Delivery)
  | .pending next => .idle next
  | .ready outcome => .done outcome

/-- What a step of the load of a node comes to. -/
def Lands (law : LoadLaw) (work : LoadWork) (result : Poll LoadWork (Except Failure Delivery))
    (host' : Host) : Prop :=
  match result with
  | .pending next => next.node = work.node ∧ law.Waits host' work.node next.stage
  | .ready outcome => law.LendsAs host' work.node (.done outcome)

section
variable {law : LoadLaw} (kept : law.Kept) {look : Look} (hlook : look.Heeds law) {host : Host}
  {work : LoadWork} {waker : Waker}
include kept

/-- An alias takes the entry of the node it leads to. -/
theorem adopt_heeds (h : law.Stands host) {target : Node}
    (hnear : law.near work.node.compartment target.compartment) {loaded : Except Failure Delivery}
    (hloaded : law.LendsAs host target (.done loaded)) :
    (do return Poll.ready (← work.adopt target loaded) : Act _).Heeds law host (Lands law work) := by
  cases loaded with
  | error failure => exact .pure kept h trivial
  | ok delivery =>
    have hdelivers : law.Delivers host target delivery := hloaded
    have hfits := kept.lends h.inv hdelivers.entry hnear
    have hstirs : Stirs host { host with chronicle := [.stands work.node target] ++ host.chronicle } :=
      ⟨rfl, rfl, rfl, rfl, rfl, rfl, rfl, rfl, rfl, fun _ => rfl⟩
    obtain ⟨hinv, hrel⟩ := kept.stirs h.inv hstirs
    obtain ⟨hstands, hmoves⟩ := h.same kept hinv hrel rfl rfl (fun _ _ => id) fun _ _ => id
    exact ⟨hstands, hmoves, kept.fits_mono hrel hfits, List.forall_mem_singleton.2 hnear⟩

include hlook

theorem awaitLoad_heeds (h : law.Stands host) (hwithin : law.within work.node.compartment) {target : Node}
    (hnear : law.near work.node.compartment target.compartment) (hkind : law.Kind host work.node true)
    (htarget : law.Kind host target false) {watch : Watch .load} (hwatch : law.Lends host target watch.job) :
    (work.awaitLoad look target watch waker).Heeds law host (Lands law work) := by
  unfold awaitLoad
  refine Heeds.bind kept (hlook host target watch waker h (kept.within_near hwithin hnear) hwatch)
    fun result looked hlooked hmoves hresult => ?_
  cases result with
  | pending next =>
    have hjob : next.job = watch.job := hresult
    refine .pure kept hlooked ⟨rfl, ?_, hnear, hkind.mono kept hmoves.rel, htarget.mono kept hmoves.rel⟩
    rw [hjob]
    exact hmoves.lends target _ hwatch
  | ready loaded => exact adopt_heeds kept hlooked hnear hresult

/-- A chain of aliases ends at a node that is memoized, or is no alias. Only the latter is waited for. -/
theorem borrow_heeds (h : law.Stands host) (hwithin : law.within work.node.compartment) {target : Node}
    (hnear : law.near work.node.compartment target.compartment) (hkind : law.Kind host work.node true)
    (htarget : (host.entryAt? target).isSome ∨ law.Kind host target false) :
    (work.borrow look target waker).Heeds law host (Lands law work) := by
  unfold borrow
  refine Heeds.bind kept (Act.loadOf_heeds kept h target) fun result after hafter hmoves hresult => ?_
  cases result with
  | already delivery => exact adopt_heeds kept hafter hnear hresult
  | shared load =>
    obtain ⟨hlends, hentry⟩ := hresult
    have hplain := htarget.resolve_left (by simp [hentry])
    exact awaitLoad_heeds kept hlook hafter hwithin hnear (hkind.mono kept hmoves.rel)
      (hplain.mono kept hmoves.rel) hlends

/-- Both ways of going on along a chain of aliases, by induction on the patience left. -/
theorem follow_arrive_heeds (hwithin : law.within work.node.compartment) : ∀ fuel : Nat,
    (∀ (host : Host) (visited : List Node) (node : Node), law.Stands host →
      law.near work.node.compartment node.compartment → law.Kind host work.node true →
        (work.follow look waker fuel visited node).Heeds law host (Lands law work)) ∧
    (∀ (host : Host) (visited : List Node) (node : Node) (described : Except Failure Descriptor),
      law.Stands host → law.near work.node.compartment node.compartment → law.Kind host work.node true →
        (∀ descriptor, described = .ok descriptor → law.tells host node descriptor) →
          (work.arrive look waker fuel visited node described).Heeds law host (Lands law work)) := by
  intro fuel
  induction fuel with
  | zero =>
    refine ⟨fun host visited node h _ _ => ?_, fun host visited node described h _ _ _ => ?_⟩
    · unfold follow
      exact .pure kept h trivial
    · unfold arrive
      exact .pure kept h trivial
  | succ fuel ih =>
    refine ⟨fun host visited node h hnear hkind => ?_,
      fun host visited node described h hnear hkind htells => ?_⟩
    · unfold follow
      split
      · exact .pure kept h trivial
      · refine .getBind ?_
        split
        · rename_i hsome
          exact borrow_heeds kept hlook h hwithin hnear hkind (.inl hsome)
        · refine Heeds.bind kept (Act.describe_heeds kept h (kept.within_near hwithin hnear) waker)
            fun result after hafter hmoves hresult => ?_
          have hkind := hkind.mono kept hmoves.rel
          cases result with
          | pending call => exact .pure kept hafter ⟨rfl, hresult, hnear, hkind⟩
          | ready described =>
            refine ih.2 after _ node described hafter hnear hkind fun descriptor heq => ?_
            subst heq
            exact hresult
    · unfold arrive
      cases described with
      | error failure => exact .pure kept h trivial
      | ok descriptor =>
        have htells := htells descriptor rfl
        dsimp only
        refine .getBind ?_
        split
        · exact .pure kept h trivial
        · rename_i next hpoints
          exact ih.1 host visited next h (kept.near_trans hnear (kept.points h.inv htells hpoints)) hkind
        · rename_i hpoints
          refine borrow_heeds kept hlook h hwithin hnear hkind (.inr ⟨descriptor, htells, ?_⟩)
          cases descriptor with
          | instanceAlias key owner => cases hpoints
          | recordAlias key =>
            unfold Host.pointsTo at hpoints
            dsimp only at hpoints
            split at hpoints <;> cases hpoints
          | compiled source => rfl
          | «virtual» source => rfl
          | exportsAlias value => rfl

end

section
variable {law : LoadLaw} (kept : law.Kept) {look : Look} (hlook : look.Heeds law) {host : Host}
  {work : LoadWork} {waker : Waker}
include kept hlook

theorem interpret_heeds (h : law.Stands host) (hwithin : law.within work.node.compartment)
    {described : Except Failure Descriptor}
    (htells : ∀ descriptor, described = .ok descriptor → law.tells host work.node descriptor) :
    (work.interpret look waker described).Heeds law host (Lands law work) := by
  unfold interpret
  cases described with
  | error failure => exact .pure kept h trivial
  | ok descriptor =>
    have htells := htells descriptor rfl
    refine Heeds.bind kept (Act.interpret_heeds kept h hwithin htells)
      fun result after hafter hmoves hresult => ?_
    match result, hresult with
    | .error failure, _ => exact .pure kept hafter trivial
    | .ok (.entry entry), hfits =>
      exact .getBind (.pure kept hafter ⟨hfits, kept.continues hafter.inv hfits⟩)
    | .ok (.elsewhere target), hpoints =>
      refine .getBind ((follow_arrive_heeds kept hlook hwithin _).1 after _ target hafter
        (kept.points h.inv htells hpoints) ⟨descriptor, kept.tells_mono hmoves.rel htells, ?_⟩)
      exact Host.isAlias_of_pointsTo hpoints

theorem proceed_heeds (h : law.Stands host) (hwithin : law.within work.node.compartment)
    (hwaits : law.Waits host work.node work.stage) :
    (work.proceed look waker).Heeds law host (Lands law work) := by
  unfold proceed
  split
  · refine .getBind ?_
    split
    · rename_i delivery hdelivered
      exact .pure kept h (h.delivered kept hdelivered)
    · refine Heeds.bind kept (Act.describe_heeds kept h hwithin waker)
        fun result after hafter _ hresult => ?_
      cases result with
      | pending call => exact .pure kept hafter ⟨rfl, hresult⟩
      | ready described =>
        refine interpret_heeds kept hlook hafter hwithin fun descriptor heq => ?_
        subst heq
        exact hresult
  · rename_i call hstage
    rw [hstage] at hwaits
    refine Heeds.bind kept (Act.awaitCall_heeds kept h hwithin hwaits waker)
      fun result after hafter _ hresult => ?_
    cases result with
    | pending call => exact .pure kept hafter ⟨rfl, hresult⟩
    | ready described =>
      refine interpret_heeds kept hlook hafter hwithin fun descriptor heq => ?_
      subst heq
      exact hresult
  · rename_i visited node call hstage
    rw [hstage] at hwaits
    obtain ⟨hcall, hnear, hkind⟩ := hwaits
    refine Heeds.bind kept (Act.awaitCall_heeds kept h (kept.within_near hwithin hnear) hcall waker)
      fun result after hafter hmoves hresult => ?_
    have hkind := hkind.mono kept hmoves.rel
    cases result with
    | pending call => exact .pure kept hafter ⟨rfl, hresult, hnear, hkind⟩
    | ready described =>
      refine .getBind ((follow_arrive_heeds kept hlook hwithin _).2 after visited node described hafter
        hnear hkind fun descriptor heq => ?_)
      subst heq
      exact hresult
  · rename_i target watch hstage
    rw [hstage] at hwaits
    obtain ⟨hlends, hnear, hkind, htarget⟩ := hwaits
    exact awaitLoad_heeds kept hlook h hwithin hnear hkind htarget hlends

/-- A step of driving, seen from before the load was taken up. -/
theorem drive_heeds (h : law.Stands host) (hwithin : law.within work.node.compartment) {load : Ref .load}
    {bell : Ref .bell} (hidle : host.loads.get? load = some ⟨bell, .idle work⟩) :
    After (Shelf.loads.put host load ⟨bell, .driven work⟩) (drive look work (.bell bell))
      fun result after =>
        law.LendsAs (Shelf.loads.put after load ⟨bell, cameTo result⟩) work.node (cameTo result) ∧
          law.Stands (Shelf.loads.put after load ⟨bell, cameTo result⟩) ∧
            law.Moves host (Shelf.loads.put after load ⟨bell, cameTo result⟩) := by
  have hwaits := h.flight load work ⟨bell, .inl hidle⟩
  have hstarts : law.LendsAs host work.node (.driven work) := rfl
  obtain ⟨htaken, hgoes, hget⟩ := h.putLoad kept hidle (fun _ => Eq.symm) hstarts fun next hnext => by
    rcases hnext with hnext | hnext <;> cases hnext
    exact hwaits
  have hdriven : (Shelf.loads.put host load ⟨bell, .driven work⟩).loads.get? load =
      some ⟨bell, .driven work⟩ := (hget load).trans (if_pos rfl)
  -- whatever was driven before is another load, and stays driven to the end
  have hend {after : Host} (hafter : law.Stands after)
      (hmoves : law.Moves (Shelf.loads.put host load ⟨bell, .driven work⟩) after)
      {progress : Progress LoadWork (Except Failure Delivery)} (hprogress : law.LendsAs after work.node progress)
      (hstage : ∀ next, progress = .idle next ∨ progress = .driven next → law.Waits after work.node next.stage) :
      law.LendsAs (Shelf.loads.put after load ⟨bell, progress⟩) work.node progress ∧
        law.Stands (Shelf.loads.put after load ⟨bell, progress⟩) ∧
          law.Moves host (Shelf.loads.put after load ⟨bell, progress⟩) := by
    obtain ⟨hlast, hgoes', hget'⟩ := hafter.putLoad kept (hmoves.driven load bell work hdriven)
      (fun _ => Eq.symm) hprogress hstage
    refine ⟨hprogress.mono kept hgoes'.rel, hlast, (hgoes.trans kept hmoves.toGoes).trans kept hgoes',
      fun other bell' work' hother => ?_⟩
    have hne : load ≠ other := by
      rintro rfl
      rw [hidle] at hother
      cases hother
    rw [hget', if_neg hne]
    refine hmoves.driven other bell' work' ?_
    rw [hget, if_neg hne]
    exact hother
  unfold drive
  rw [after_bind]
  have hproceed : After _ (work.proceed look (.bell bell)) _ :=
    proceed_heeds kept hlook htaken hwithin (hwaits.mono kept hgoes)
  refine hproceed.mono fun result after hproceed => ?_
  obtain ⟨hafter, hmoves, hlands⟩ := hproceed
  rcases result with next | failure | delivery
  · obtain ⟨hnode, hnext⟩ := hlands
    have hprogress : law.LendsAs after work.node (.idle next) := hnode
    refine hend hafter hmoves hprogress fun other hother => ?_
    rcases hother with hother | hother <;> cases hother
    exact hnext
  · obtain ⟨hgone, hgoes⟩ := hafter.letGo kept work.node
    have hprogress : law.LendsAs (after.letGo work.node) work.node (.done (.error failure)) := trivial
    refine hend hgone (hmoves.trans kept hgoes) hprogress fun other hother => ?_
    rcases hother with hother | hother <;> cases hother
  · refine hend hafter hmoves hlands fun other hother => ?_
    rcases hother with hother | hother <;> cases hother

omit hlook in
/-- Whatever looks at a shallow load keeps the law, by induction on how deep loads wait for each other. -/
theorem look_heeds : ∀ depth : Nat, (LoadWork.look depth).Heeds law := by
  intro depth
  induction depth with
  | zero => exact fun host node watch waker h _ _ => .pure kept h rfl
  | succ depth ih =>
    intro host node watch waker h hwithin hwatch
    obtain ⟨shared, hshared, hlends⟩ := hwatch
    unfold LoadWork.look
    refine Shelf.after_poll ?_ ?_ ?_ ?_
    · intro hmissing
      cases hshared.symm.trans hmissing
    · intro bell result hdone
      cases hshared.symm.trans hdone
      exact ⟨h, .refl kept host, hlends⟩
    · intro bell work seat host' _ haside
      obtain ⟨hstands, hmoves⟩ := h.aside kept haside
      exact ⟨hstands, hmoves, rfl⟩
    · intro bell work seat told hidle htold
      cases hshared.symm.trans hidle
      obtain ⟨hstands, hmoves⟩ := h.aside kept htold
      have hidle : told.loads.get? watch.job = some ⟨bell, .idle work⟩ := htold.quiet.loads ▸ hshared
      obtain rfl : work.node = node := hlends
      refine (drive_heeds kept ih hstands hwithin hidle).mono fun result after hafter => ?_
      obtain ⟨hlends, hlast, hall⟩ := hafter
      cases result with
      | pending next => exact ⟨hlast, hmoves.trans kept hall, rfl⟩
      | ready result =>
        intro last haside
        obtain ⟨hlast, hend⟩ := hlast.aside kept haside
        exact ⟨hlast, (hmoves.trans kept hall).trans kept hend, hlends.mono kept hend.rel⟩

end

end LoadWork

theorem Act.awaitDelivery_heeds {law : LoadLaw} (kept : law.Kept) {host : Host} (h : law.Stands host)
    {node : Node} (hwithin : law.within node.compartment) {watch : Watch .load}
    (hwatch : law.Lends host node watch.job) (waker : Waker) :
    (awaitDelivery watch waker).Heeds law host fun result host' => match result with
      | .pending next => next.job = watch.job
      | .ready outcome => law.LendsAs host' node (.done outcome) :=
  .getBind (LoadWork.look_heeds kept _ host node watch waker h hwithin hwatch)

end ModuleLoader
