import ModuleLoader.Proofs.DriverBooks
/-!
# What a driver does, event by event

A driver is followed from its first look on, through any events in any order, each taken in by any host.
Its books stay in order, and every event announces exactly the components that settle with it.
-/

namespace ModuleLoader
set_option autoImplicit false

open DriverWait DriverWork Component

namespace Component

/-- What stays of a component: its members, and where its result is announced. -/
def lasting (component : Component) : List (Ref .record) × Ref .verdict :=
  (component.members, component.verdict)

/-- Components of which the same stays are found at the same places. -/
theorem getElem?_of_lasting {old new : List Component} (h : new.map lasting = old.map lasting) {index : Nat}
    {component : Component} (hcomponent : new[index]? = some component) :
    ∃ component', old[index]? = some component' ∧ component'.members = component.members ∧
      component'.verdict = component.verdict := by
  have heq := congrArg (fun pairs => pairs[index]?) h
  rw [List.getElem?_map, List.getElem?_map, hcomponent] at heq
  obtain ⟨component', hcomponent', hsame⟩ := Option.map_eq_some_iff.1 heq.symm
  obtain ⟨hmembers, hverdict⟩ := Prod.mk.inj hsame
  exact ⟨component', hcomponent', hmembers, hverdict⟩

theorem map_verdict_of_lasting {old new : List Component} (h : new.map lasting = old.map lasting) :
    new.map Component.verdict = old.map Component.verdict := by
  have heq := congrArg (List.map Prod.snd) h
  rwa [List.map_map, List.map_map] at heq

theorem map_lasting_modify {f : Component → Component}
    (hlasting : ∀ component, lasting (f component) = lasting component) (components : List Component)
    (index : Nat) : (components.modify index f).map lasting = components.map lasting := by
  refine List.ext_getElem? fun place => ?_
  rw [List.getElem?_map, List.getElem?_map, List.getElem?_modify]
  cases components[place]? with
  | none => rfl
  | some component =>
    by_cases same : index = place <;> simp [same, hlasting]

theorem map_lasting_markSettled (components : List Component) (index : Nat) :
    (markSettled components index).map lasting = components.map lasting :=
  map_lasting_modify (f := fun component => { component with settled := true }) (fun _ => rfl) components index

/-- No verdict belongs to two components. -/
theorem index_of_verdict {components : List Component}
    (hnodup : (components.map Component.verdict).Nodup) {index place : Nat} {component other : Component}
    (hcomponent : components[index]? = some component) (hother : components[place]? = some other)
    (hsame : component.verdict = other.verdict) : index = place := by
  obtain ⟨hlt, -⟩ := List.getElem?_eq_some_iff.1 hcomponent
  refine (List.getElem?_inj (by rwa [List.length_map]) hnodup).1 ?_
  rw [List.getElem?_map, List.getElem?_map, hcomponent, hother]
  exact congrArg some hsame

/-- The components that settle between two states of a driver. -/
def settling (old new : List Component) : List Nat :=
  (List.range old.length).filter fun index => isUnsettled old index && !isUnsettled new index

theorem count_settling {old new : List Component} {index : Nat} (hlt : index < old.length) :
    (settling old new).count index = if isUnsettled old index ∧ isUnsettled new index = false then 1 else 0 := by
  unfold settling
  rw [(List.nodup_range.filter _).count]
  refine if_congr ?_ rfl rfl
  rw [List.mem_filter, List.mem_range, and_iff_right hlt, Bool.and_eq_true, Bool.not_eq_true']

end Component

/-! ## Announcements -/

/-- Between two states of a driver, the components that settled were told the result, and nobody else was
told anything. -/
structure Tells (result : Except Failure Unit) (before after : Host) (old new : List Component) : Prop where
  lasting : new.map lasting = old.map lasting
  settled : ∀ index, SettledAt old index → SettledAt new index
  told : ∀ index (component : Component), old[index]? = some component → component.settled = false →
    SettledAt new index → after.verdicts.get? component.verdict =
      (before.verdicts.get? component.verdict).map fun _ => ⟨some result, none⟩
  kept : ∀ verdict, (∀ index (component : Component), old[index]? = some component →
    component.settled = false → SettledAt new index → component.verdict ≠ verdict) →
      after.verdicts.get? verdict = before.verdicts.get? verdict

namespace Tells

variable {result : Except Failure Unit} {a b c : Host} {old mid new : List Component}

/-- Where nobody settles, nobody is told. -/
theorem still (result : Except Failure Unit) (hverdicts : b.verdicts = a.verdicts)
    (hlasting : new.map Component.lasting = old.map Component.lasting)
    (hsettled : isUnsettled new = isUnsettled old) : Tells result a b old new where
  lasting := hlasting
  settled index h := by rwa [← isUnsettled_eq_false, hsettled, isUnsettled_eq_false]
  told index component hcomponent hopen h := by
    rw [← isUnsettled_eq_false, hsettled, isUnsettled_eq_false] at h
    rw [h component hcomponent] at hopen
    cases hopen
  kept verdict _ := by rw [hverdicts]

theorem refl (result : Except Failure Unit) (host : Host) (components : List Component) :
    Tells result host host components components :=
  .still result rfl rfl rfl

theorem trans (h : Tells result a b old mid) (h' : Tells result b c mid new)
    (hnodup : (old.map Component.verdict).Nodup) : Tells result a c old new where
  lasting := h'.lasting.trans h.lasting
  settled index hsettled := h'.settled index (h.settled index hsettled)
  told index component hcomponent hopen hsettled := by
    by_cases hmid : SettledAt mid index
    · -- Told in the first part: whoever is told later has another verdict.
      rw [← h.told index component hcomponent hopen hmid]
      refine h'.kept _ fun place other hother hstill _ hsame => ?_
      obtain ⟨old', hold, -, hverdict⟩ := getElem?_of_lasting h.lasting hother
      obtain rfl := index_of_verdict hnodup hold hcomponent (hverdict.trans hsame)
      rw [hmid other hother] at hstill
      cases hstill
    · obtain ⟨found, hfound, hstill⟩ := isUnsettled_iff.1
        (Bool.not_eq_false _ ▸ isUnsettled_eq_false.not.2 hmid)
      obtain ⟨old', hold, -, hverdict⟩ := getElem?_of_lasting h.lasting hfound
      obtain rfl := Option.some.inj (hold.symm.trans hcomponent)
      rw [hverdict, h'.told index found hfound hstill hsettled, ← hverdict]
      refine congrArg (Option.map _) (h.kept _ fun place other hother _ hover hsame => ?_)
      obtain rfl := index_of_verdict hnodup hother hcomponent hsame
      exact hmid hover
  kept verdict hkept := by
    rw [h'.kept verdict fun index found hfound hstill hsettled hsame => ?_,
      h.kept verdict fun index component hcomponent hopen hsettled =>
        hkept index component hcomponent hopen (h'.settled index hsettled)]
    obtain ⟨old', hold, -, hverdict⟩ := getElem?_of_lasting h.lasting hfound
    refine hkept index old' hold ?_ hsettled (hverdict.trans hsame)
    by_contra hover
    rw [Bool.not_eq_false] at hover
    have hover : SettledAt old index := fun other hother =>
      Option.some.inj (hold.symm.trans hother) ▸ hover
    rw [h.settled index hover found hfound] at hstill
    cases hstill

/-- Whoever settles was not entered among those that had settled, and is now. -/
theorem count_settling (h : Tells result a b old new) {settled : List Nat} (honce : ∀ index < old.length,
      settled.count index = if isUnsettled old index then 0 else 1) :
    ∀ index < new.length, (settled ++ settling old new).count index =
      if isUnsettled new index then 0 else 1 := by
  intro index hlt
  have hlength : new.length = old.length := by
    rw [← List.length_map (f := Component.lasting), h.lasting, List.length_map]
  rw [hlength] at hlt
  rw [List.count_append, honce index hlt, Component.count_settling hlt]
  cases hold : isUnsettled old index with
  | false =>
    have hnew := isUnsettled_eq_false.2 (h.settled index (isUnsettled_eq_false.1 hold))
    rw [hnew]
    rfl
  | true => cases isUnsettled new index <;> rfl

end Tells

/-- A component settles and is told. -/
theorem Act.announce_tells (result : Except Failure Unit) {host : Host} {components : List Component}
    {index : Nat} {component : Component} (hcomponent : components[index]? = some component)
    (hopen : component.settled = false) :
    After host (announce component.verdict result) fun _ after =>
      Tells result host after components (markSettled components index) := by
  have hget (verdict : Ref .verdict) : (host.verdicts.set component.verdict ⟨some result, none⟩).get? verdict =
      if component.verdict = verdict then (host.verdicts.get? verdict).map fun _ => ⟨some result, none⟩
      else host.verdicts.get? verdict := Arena.get?_set _ _ _ _
  refine ⟨map_lasting_markSettled components index, fun place h => settledAt_markSettled (.inr h),
    fun place other hother hstill hsettled => ?_, fun verdict hkept => ?_⟩
  · by_cases hsame : place = index
    · subst hsame
      obtain rfl := Option.some.inj (hcomponent.symm.trans hother)
      exact (hget _).trans (if_pos rfl)
    · rw [DriverBooks.settledAt_of_markSettled hsame hsettled other hother] at hstill
      cases hstill
  · exact (hget verdict).trans
      (if_neg (hkept index component hcomponent hopen (settledAt_markSettled (.inl rfl))))

theorem Act.failAll_verdicts (failure : Failure) : ∀ (members : List (Ref .record)) (host : Host),
    After host (failAll failure members) fun _ after => after.verdicts = host.verdicts
  | [], _ => rfl
  | _ :: rest, _ => failAll_verdicts failure rest _

/-! ## Drivers in order -/

/-- Changes that leave alone who depends on whom. -/
theorem Arranged.modify {inside : Nat → List Nat} {components : List Component}
    (h : Arranged inside components) {f : Component → Component}
    (hdependents : ∀ component, (f component).dependents = component.dependents) (index : Nat) :
    Arranged inside (components.modify index f) where
  earlier := h.earlier
  unique := h.unique
  released place component hcomponent := by
    obtain ⟨found, hfound, ⟨-, rfl⟩ | ⟨-, rfl⟩⟩ := getElem?_modify_cases hcomponent
    · rw [hdependents]
      exact h.released place found hfound
    · exact h.released place component hfound

theorem Arranged.markSettled {inside : Nat → List Nat} {components : List Component}
    (h : Arranged inside components) (index : Nat) : Arranged inside (markSettled components index) :=
  h.modify (f := fun component => { component with settled := true }) (fun _ => rfl) index

/-- The records that a run has not ended yet. -/
def ComponentRun.records (run : ComponentRun) : List (Ref .record) :=
  run.current.toList.map Prod.fst ++ run.rest

namespace DriverWork

/-- How a driver stands that has started, but for its books. -/
structure Standing (work : DriverWork) (inside : Nat → List Nat) : Prop where
  started : work.started = true
  nodup : (work.members.map Prod.fst).Nodup
  fresh : ∀ index ∈ work.members.map Prod.fst, index < work.nextIndex
  arranged : Arranged inside work.components
  verdicts : (work.components.map Component.verdict).Nodup
  runs : ∀ index run, .run index run ∈ work.members.map Prod.snd → ∃ component : Component,
    work.components[index]? = some component ∧ run.records <:+ component.members

/-- A driver that has started, with its books in order. -/
structure InOrder (work : DriverWork) (inside : Nat → List Nat) (finished : Nat → Nat)
    (owed falling : List Nat) : Prop extends work.Standing inside where
  books : DriverBooks inside work.components (work.members.map Prod.snd) finished owed falling

variable {work next : DriverWork} {inside : Nat → List Nat} {finished : Nat → Nat}
  {owed falling : List Nat} {index : Nat} {component : Component} {host : Host}

namespace Standing

/-- The members of the components stay. -/
theorem components (hs : work.Standing inside) {components : List Component}
    (hlasting : components.map lasting = work.components.map lasting)
    (harranged : Arranged inside components) : Standing { work with components } inside where
  started := hs.started
  nodup := hs.nodup
  fresh := hs.fresh
  arranged := harranged
  verdicts := by
    rw [map_verdict_of_lasting hlasting]
    exact hs.verdicts
  runs index run hmem := by
    obtain ⟨component, hcomponent, hsuffix⟩ := hs.runs index run hmem
    obtain ⟨found, hfound, hmembers, -⟩ := getElem?_of_lasting hlasting.symm hcomponent
    exact ⟨found, hfound, hmembers ▸ hsuffix⟩

/-- What is waited for changes otherwise than in number. -/
theorem members (hs : work.Standing inside) {members : List (Nat × DriverWait)}
    (hnodup : (members.map Prod.fst).Nodup) (hsub : members.map Prod.fst ⊆ work.members.map Prod.fst)
    (hruns : ∀ index run, .run index run ∈ members.map Prod.snd → ∃ component : Component,
      work.components[index]? = some component ∧ run.records <:+ component.members) :
    Standing { work with members } inside where
  started := hs.started
  nodup := hnodup
  fresh index hmem := hs.fresh index (hsub hmem)
  arranged := hs.arranged
  verdicts := hs.verdicts
  runs := hruns

theorem waitFor (hs : work.Standing inside) {wait : DriverWait}
    (hwait : ∀ index run, wait = .run index run → ∃ component : Component,
      work.components[index]? = some component ∧ run.records <:+ component.members) :
    (work.waitFor wait).Standing inside where
  started := hs.started
  nodup := List.nodup_cons.2 ⟨fun hmem => Nat.lt_irrefl _ (hs.fresh _ hmem), hs.nodup⟩
  fresh index hmem := by
    rcases List.mem_cons.1 hmem with rfl | hmem
    · exact Nat.lt_succ_self _
    · exact Nat.lt_succ_of_lt (hs.fresh index hmem)
  arranged := hs.arranged
  verdicts := hs.verdicts
  runs index run hmem := by
    rcases List.mem_cons.1 hmem with heq | hmem
    · exact hwait index run heq.symm
    · exact hs.runs index run hmem

end Standing

/-- In some steps of a host, a driver comes to another state in order, where some components settled with
a result. -/
structure Moves (result : Except Failure Unit) (host after : Host) (work next : DriverWork)
    (inside : Nat → List Nat) (finished : Nat → Nat) (owed : List Nat) : Prop where
  inOrder : next.InOrder inside finished owed []
  tells : Tells result host after work.components next.components
  outside : ∀ index, (next.members.map Prod.snd).countP (isOutside index) =
    (work.members.map Prod.snd).countP (isOutside index)

variable {result : Except Failure Unit}

theorem InOrder.moves (h : work.InOrder inside finished owed []) (result : Except Failure Unit) (host : Host) :
    Moves result host host work work inside finished owed :=
  ⟨h, .refl result host work.components, fun _ => rfl⟩

/-- A component that was owed a release is released. -/
theorem release_moves (h : work.InOrder inside finished (index :: owed) []) (result : Except Failure Unit)
    (host : Host) : After host (work.release index) fun next after =>
      Moves result host after work next inside finished owed := by
  unfold release
  cases hcomponent : work.components[index]? with
  | none =>
    refine InOrder.moves ⟨h.toStanding, h.books.excuse fun component hcomponent' => ?_⟩ result host
    rw [hcomponent] at hcomponent'
    cases hcomponent'
  | some component =>
    dsimp only
    cases hsettled : component.settled with
    | true =>
      refine InOrder.moves ⟨h.toStanding, h.books.excuse fun found hfound => ?_⟩ result host
      rw [← hsettled, Option.some.inj (hcomponent.symm.trans hfound)]
    | false =>
      have hlasting := map_lasting_modify (f := countOff) (fun _ => rfl) work.components index
      have hstanding := h.toStanding.components hlasting
        (h.arranged.modify (f := countOff) (fun _ => rfl) index)
      have htells (after : Host) (hverdicts : after.verdicts = host.verdicts) :
          Tells result host after work.components (work.components.modify index countOff) :=
        .still result hverdicts hlasting (isUnsettled_modify (f := countOff) (fun _ => rfl) work.components index)
      have hbooks := h.books.release hcomponent hsettled
      rw [if_neg Bool.false_ne_true]
      by_cases hlast : component.waiting = 1
      · rw [if_pos hlast] at hbooks ⊢
        refine ⟨⟨hstanding.waitFor fun place run heq => ?_, hbooks⟩, htells _ rfl,
          fun _ => countP_isOutside_run_cons⟩
        cases heq
        obtain ⟨found, hfound, hmembers, -⟩ := getElem?_of_lasting hlasting.symm hcomponent
        refine ⟨found, hfound, ?_⟩
        rw [hmembers]
        exact List.suffix_refl _
      · rw [if_neg hlast] at hbooks ⊢
        exact ⟨⟨hstanding, hbooks⟩, htells _ rfl, fun _ => rfl⟩

theorem releaseAll_moves (later : List Nat) (result : Except Failure Unit) : ∀ (earlier : List Nat)
    {work : DriverWork} (host : Host), work.InOrder inside finished (earlier ++ later) [] →
      After host (work.releaseAll earlier) fun next after =>
        Moves result host after work next inside finished later
  -- By induction on what is released.
  | [], _, host, h => h.moves result host
  | index :: rest, work, host, h => by
    unfold releaseAll
    rw [after_bind]
    refine (release_moves h result host).mono fun mid between hfirst => ?_
    refine (releaseAll_moves later result rest between hfirst.inOrder).mono fun next after hrest => ?_
    exact ⟨hrest.inOrder, hfirst.tells.trans hrest.tells h.verdicts,
      fun place => (hrest.outside place).trans (hfirst.outside place)⟩

/-- A component that ran settles: those that depend on it have to be released. -/
theorem InOrder.settle (h : work.InOrder inside finished [] [index])
    (hcomponent : work.components[index]? = some component) (hopen : component.settled = false) :
    InOrder { work with components := markSettled work.components index } inside finished
      component.dependents [] where
  toStanding := h.toStanding.components (map_lasting_markSettled work.components index)
    (h.arranged.markSettled index)
  books := h.books.succeed h.arranged hcomponent hopen

/-- A component succeeds: it is told, and those that depend on it are released. -/
theorem succeed_moves (h : work.InOrder inside finished [] [index])
    (hcomponent : work.components[index]? = some component) (hopen : component.settled = false)
    (host : Host) : After host (work.succeed index) fun next after =>
      Moves (.ok ()) host after work next inside finished [] := by
  unfold succeed
  rw [hcomponent]
  dsimp only
  rw [after_bind]
  refine (Act.announce_tells (.ok ()) hcomponent hopen).mono fun _ told htells => ?_
  have hsettled := h.settle hcomponent hopen
  rw [← List.append_nil component.dependents] at hsettled
  refine (releaseAll_moves [] (.ok ()) component.dependents told hsettled).mono fun next after hrest => ?_
  exact ⟨hrest.inOrder, htells.trans hrest.tells h.verdicts, hrest.outside⟩

/-- Components that are about to fail do, and all that depend on them. -/
theorem failFrom_books (failure : Failure) {waits : List DriverWait} : ∀ (fuel : Nat) (falling : List Nat)
    {components : List Component} (host : Host), Arranged inside components →
      (components.map Component.verdict).Nodup →
        DriverBooks inside components waits finished owed falling →
          falling.length + costs components ≤ fuel →
            After host (failFrom failure fuel falling components) fun next after =>
              Arranged inside next ∧ DriverBooks inside next waits finished owed [] ∧
                Tells (.error failure) host after components next
  -- By induction on the steps that this may take.
  | 0, [], _, host, harranged, _, hb, _ => ⟨harranged, hb, .refl _ host _⟩
  | 0, _ :: _, _, _, _, _, _, hfuel => by
    rw [List.length_cons] at hfuel
    omega
  | _ + 1, [], _, host, harranged, _, hb, _ => ⟨harranged, hb, .refl _ host _⟩
  | fuel + 1, index :: rest, components, host, harranged, hnodup, hb, hfuel => by
    rw [List.length_cons] at hfuel
    unfold failFrom
    cases hcomponent : components[index]? with
    | none =>
      refine failFrom_books failure fuel rest host harranged hnodup (hb.skip fun found hfound => ?_) (by omega)
      rw [hcomponent] at hfound
      cases hfound
    | some component =>
      dsimp only
      cases hsettled : component.settled with
      | true =>
        refine failFrom_books failure fuel rest host harranged hnodup (hb.skip fun found hfound => ?_)
          (by omega)
        rw [← hsettled, Option.some.inj (hcomponent.symm.trans hfound)]
      | false =>
        rw [if_neg Bool.false_ne_true, after_bind]
        refine (Act.failAll_verdicts failure component.members host).mono fun _ failed hverdicts => ?_
        rw [after_bind]
        refine (Act.announce_tells (.error failure) hcomponent hsettled).mono fun _ told htells => ?_
        have hcosts := costs_markSettled components hcomponent hsettled
        have hfirst : Tells (.error failure) host told components (markSettled components index) :=
          (Tells.still (.error failure) hverdicts rfl rfl).trans htells hnodup
        refine (failFrom_books failure fuel (component.dependents.reverse ++ rest) told
          (harranged.markSettled index) ?_ (hb.fall harranged hcomponent hsettled) ?_).mono
            fun next after hrest => ⟨hrest.1, hrest.2.1, hfirst.trans hrest.2.2 hnodup⟩
        · rw [map_verdict_of_lasting hfirst.lasting]
          exact hnodup
        · rw [List.length_append, List.length_reverse]
          omega

/-- A component fails, and all that depend on it. -/
theorem fail_moves (h : work.InOrder inside finished owed [index]) (failure : Failure) (host : Host) :
    After host (work.fail index failure) fun next after =>
      Moves (.error failure) host after work next inside finished owed := by
  unfold fail
  rw [after_bind]
  refine (failFrom_books failure (failureSteps work.components) [index] host h.arranged h.verdicts h.books
    ?_).mono fun components after hfell => ?_
  · rw [List.length_singleton, Nat.add_comm]
    exact costs_lt_failureSteps work.components
  · obtain ⟨harranged, hbooks, htells⟩ := hfell
    exact ⟨⟨h.toStanding.components htells.lasting harranged, hbooks⟩, htells, fun _ => rfl⟩

end DriverWork

/-! ## Events -/

namespace DriverEvent

/-- What an event says about its component. -/
def result : DriverEvent → Except Failure Unit
  | .outside _ result => result
  | .finished _ result => result

/-- Whether the run of a component ends with an event. -/
def isFinished (index : Nat) : DriverEvent → Bool
  | .outside _ _ => false
  | .finished component _ => component = index

/-- Whether something comes with an event that a component waits for outside. -/
def isDelivery (index : Nat) : DriverEvent → Bool
  | .outside component _ => component = index
  | .finished _ _ => false

end DriverEvent

namespace DriverWait

/-- Events that a wait can end with. -/
inductive Ends : DriverWait → DriverEvent → Prop where
  | outside (index : Nat) (completion : Completion) (result : Except Failure Unit) :
    Ends (.outside index completion) (.outside index result)
  | run (index : Nat) (run : ComponentRun) (result : Except Failure Unit) :
    Ends (.run index run) (.finished index result)

/-- What a wait can be after a look at it that brought no event: it is still for a completion that is
shared, or a body is suspended. -/
inductive Continues : DriverWait → DriverWait → Prop where
  | outside (index : Nat) (completion : Completion) (watch : Watch .ready) :
    Continues (.outside index completion) (.outside index (.shared watch))
  | run (index : Nat) (run : ComponentRun) (ref : Ref .record) (body : BodyWork)
    (rest : List (Ref .record)) (left : ref :: rest <:+ run.records) :
    Continues (.run index run) (.run index ⟨some (ref, body), rest⟩)

variable {wait next : DriverWait} {event : DriverEvent}

theorem Continues.isOutside (h : wait.Continues next) (index : Nat) :
    isOutside index next = isOutside index wait := by
  cases h <;> rfl

theorem Continues.isRun (h : wait.Continues next) (index : Nat) : isRun index next = isRun index wait := by
  cases h <;> rfl

theorem Ends.isOutside (h : wait.Ends event) (index : Nat) :
    isOutside index wait = event.isDelivery index := by
  cases h <;> rfl

end DriverWait

namespace DriverWork

variable {work next : DriverWork} {inside : Nat → List Nat} {finished : Nat → Nat} {index : Nat}
  {wait : DriverWait} {event : DriverEvent}

/-- A driver takes in the event that a wait ended with. -/
theorem take_moves (hends : wait.Ends event) (hs : work.Standing inside)
    (hb : DriverBooks inside work.components (wait :: work.members.map Prod.snd) finished [] [])
    (host : Host) : After host (work.take event) fun next after =>
      Moves event.result host after work next inside
        (fun index => finished index + if event.isFinished index then 1 else 0) [] := by
  cases hends with
  | outside index completion result =>
    cases result with
    | ok => exact release_moves ⟨hs, hb.given⟩ (.ok ()) host
    | error failure => exact fail_moves ⟨hs, hb.lost⟩ failure host
  | run index run result =>
    obtain ⟨component, hcomponent, hopen, -⟩ := hb.running List.mem_cons_self
    have hended : work.InOrder inside
        (fun place => finished place + if (DriverEvent.finished index result).isFinished place then 1 else 0)
          [] [index] := by
      refine ⟨hs, ?_⟩
      simp only [DriverEvent.isFinished, decide_eq_true_eq]
      exact hb.ended
    cases result with
    | ok => exact succeed_moves hended hcomponent hopen host
    | error failure => exact fail_moves hended failure host

/-- A release of a component would find something to count down. -/
def Owes (work : DriverWork) (index : Nat) : Prop :=
  ∀ component : Component, work.components[index]? = some component → component.settled = false →
    1 ≤ component.waiting

/-- The releases that a driver comes to when it takes in an event, each with the driver as it is just
before, after any work of the host. -/
inductive Releases (work : DriverWork) : DriverEvent → DriverWork → Nat → Prop where
  | given (index : Nat) : Releases work (.outside index (.ok ())) work index
  | ran {index : Nat} {component : Component} (found : work.components[index]? = some component)
    {earlier later : List Nat} {dependent : Nat}
    (dependents : component.dependents = earlier ++ dependent :: later) (host : Host) :
    Releases work (.finished index (.ok ()))
      ({ work with components := markSettled work.components index }.releaseAll earlier host).1 dependent

theorem InOrder.owes {owed : List Nat} (h : work.InOrder inside finished (index :: owed) []) :
    work.Owes index := fun _ hcomponent hopen =>
  h.books.pos_waiting hcomponent hopen List.not_mem_nil (.inl List.mem_cons_self)

/-! ## Courses -/

/-- A driver that waits for a member no more. -/
def without (work : DriverWork) (index : Nat) : DriverWork :=
  { work with members := work.members.filter fun member => member.1 ≠ index }

/-- The states that a driver can come to by some events, in this order: it starts, looks at what it waits
for, and takes in one event after another, each in any host. With every event, the components that settle
are entered into a list. -/
inductive Course (work : DriverWork) : List DriverEvent → List Nat → DriverWork → Prop where
  | start (host : Host) :
    Course work [] [] ({ work with started := true }.addAll (firstWaits work.components) host).1
  | look {events : List DriverEvent} {settled : List Nat} {next : DriverWork}
    (course : Course work events settled next) {index : Nat} {wait wait' : DriverWait}
    (member : (index, wait) ∈ next.members) (continues : wait.Continues wait') :
    Course work events settled { next with members := (index, wait') :: (next.without index).members }
  | event {events : List DriverEvent} {settled : List Nat} {next : DriverWork}
    (course : Course work events settled next) {index : Nat} {wait : DriverWait} {event : DriverEvent}
    (member : (index, wait) ∈ next.members) (ends : wait.Ends event) (host : Host) :
    Course work (events ++ [event])
      (settled ++ settling next.components ((next.without index).take event host).1.components)
      ((next.without index).take event host).1

/-- A driver that was installed and has not started. -/
structure Installed (work : DriverWork) (inside : Nat → List Nat) : Prop where
  members : work.members = []
  arranged : Arranged inside work.components
  verdicts : (work.components.map Component.verdict).Nodup
  waiting : ∀ index (component : Component), work.components[index]? = some component →
    component.settled = false ∧ component.waiting = (inside index).length + component.outside.length

/-- How a driver stands after some events. -/
structure OnCourse (work : DriverWork) (inside : Nat → List Nat) (events : List DriverEvent)
    (settled : List Nat) (next : DriverWork) : Prop where
  inOrder : next.InOrder inside (fun index => events.countP (DriverEvent.isFinished index)) [] []
  lasting : next.components.map lasting = work.components.map lasting
  outside : ∀ index, (next.members.map Prod.snd).countP (isOutside index) +
    events.countP (DriverEvent.isDelivery index) = (firstWaits work.components).countP (isOutside index)
  once : ∀ index < next.components.length,
    settled.count index = if isUnsettled next.components index then 0 else 1

theorem addAll_standing : ∀ (waits : List DriverWait) {work : DriverWork} (host : Host),
    work.Standing inside → (∀ index run, .run index run ∈ waits → ∃ component : Component,
      work.components[index]? = some component ∧ run.records <:+ component.members) →
        After host (work.addAll waits) fun next after => next.Standing inside ∧
          next.components = work.components ∧ after.verdicts = host.verdicts ∧
            (next.members.map Prod.snd).Perm (waits ++ work.members.map Prod.snd)
  -- By induction on what is to be waited for.
  | [], _, _, hs, _ => ⟨hs, rfl, rfl, .refl _⟩
  | wait :: rest, work, host, hs, hruns => by
    unfold addAll
    rw [after_bind]
    have hadd : After host (work.add wait) fun next after =>
        next = work.waitFor wait ∧ after.verdicts = host.verdicts := ⟨rfl, rfl⟩
    refine hadd.mono fun added between hadded => ?_
    obtain ⟨rfl, hverdicts⟩ := hadded
    refine (addAll_standing rest between (hs.waitFor fun index run heq => hruns index run ?_)
      fun index run hmem => hruns index run (List.mem_cons_of_mem _ hmem)).mono fun next after hrest => ?_
    · rw [heq]
      exact List.mem_cons_self
    · obtain ⟨hstanding, hcomponents, hlater, hperm⟩ := hrest
      exact ⟨hstanding, hcomponents, hlater.trans hverdicts, hperm.trans List.perm_middle⟩

/-- The books of a driver that starts. -/
theorem Installed.books (h : work.Installed inside) :
    DriverBooks inside work.components (firstWaits work.components) (fun _ => 0) [] [] := by
  have hrun {index : Nat} (hrun : (firstWaits work.components).countP (isRun index) ≠ 0) :
      ∃ component : Component, work.components[index]? = some component ∧ component.waiting = 0 := by
    obtain ⟨run, hmem⟩ : ∃ run, .run index run ∈ firstWaits work.components := by
      by_contra hnone
      rw [not_exists] at hnone
      exact hrun (countP_isRun_eq_zero.2 hnone)
    obtain ⟨place, component, hcomponent, hwait⟩ := mem_firstWaits.1 hmem
    obtain ⟨rfl, hwaiting, -⟩ := mem_waitsOf_run.1 hwait
    exact ⟨component, hcomponent, hwaiting⟩
  refine ⟨fun index component hcomponent _ _ => ?_, fun index component hcomponent _ _ => ⟨?_, rfl⟩,
    fun index hidle => ?_, fun index => countP_run_le work.components index⟩
  · -- Nobody has settled.
    have hall : (inside index).countP (isUnsettled work.components) = (inside index).length := by
      refine List.countP_eq_length.2 fun other hother => ?_
      have hlt : other < work.components.length := Nat.lt_trans (h.arranged.earlier index other hother)
        (List.getElem?_eq_some_iff.1 hcomponent).1
      have hget := List.getElem?_eq_getElem hlt
      exact isUnsettled_iff.2 ⟨_, hget, (h.waiting other _ hget).1⟩
    rw [hall, countP_outside, hcomponent, (h.waiting index component hcomponent).2]
    rfl
  · have hle := countP_run_le work.components index
    split
    · rename_i hwaiting
      have hpos : 0 < (firstWaits work.components).countP (isRun index) :=
        List.countP_pos_iff.2 ⟨.run index ⟨none, component.members⟩, mem_firstWaits.2 ⟨index, component,
          hcomponent, mem_waitsOf_run.2 ⟨rfl, hwaiting, rfl⟩⟩, decide_eq_true rfl⟩
      omega
    · rename_i hwaiting
      by_contra hbegun
      obtain ⟨found, hfound, hzero⟩ := hrun hbegun
      rw [← Option.some.inj (hcomponent.symm.trans hfound)] at hzero
      exact hwaiting hzero
  · by_contra hbegun
    obtain ⟨component, hcomponent, -⟩ := hrun hbegun
    have hsettled := hidle.resolve_right List.not_mem_nil component hcomponent
    rw [(h.waiting index component hcomponent).1] at hsettled
    cases hsettled

/-- A driver starts. -/
theorem Installed.start (h : work.Installed inside) (host : Host) :
    After host ({ work with started := true }.addAll (firstWaits work.components)) fun next after =>
      work.OnCourse inside [] [] next ∧ next.components = work.components ∧
        after.verdicts = host.verdicts := by
  have hstanding : Standing { work with started := true } inside := by
    refine ⟨rfl, ?_, fun index hmem => ?_, h.arranged, h.verdicts, fun index run hmem => ?_⟩
    · change (work.members.map Prod.fst).Nodup
      rw [h.members]
      exact List.nodup_nil
    · change index ∈ work.members.map Prod.fst at hmem
      rw [h.members] at hmem
      cases hmem
    · change _ ∈ work.members.map Prod.snd at hmem
      rw [h.members] at hmem
      cases hmem
  refine (addAll_standing (firstWaits work.components) host hstanding fun index run hmem => ?_).mono
    fun next after hnext => ?_
  · obtain ⟨place, component, hcomponent, hwait⟩ := mem_firstWaits.1 hmem
    obtain ⟨rfl, -, rfl⟩ := mem_waitsOf_run.1 hwait
    exact ⟨component, hcomponent, List.suffix_refl _⟩
  · obtain ⟨hnext, hcomponents, hverdicts, hperm⟩ := hnext
    change (next.members.map Prod.snd).Perm (_ ++ work.members.map Prod.snd) at hperm
    rw [h.members, List.map_nil, List.append_nil] at hperm
    refine ⟨⟨⟨hnext, ?_⟩, congrArg (List.map lasting) hcomponents, fun index => ?_, fun index hlt => ?_⟩,
      hcomponents, hverdicts⟩
    · rw [hcomponents]
      exact h.books.perm hperm
    · rw [hperm.countP_eq, List.countP_nil, Nat.add_zero]
    · rw [hcomponents] at hlt ⊢
      have hget := List.getElem?_eq_getElem hlt
      rw [if_pos (isUnsettled_iff.2 ⟨_, hget, (h.waiting index _ hget).1⟩)]
      rfl

namespace OnCourse

variable {events : List DriverEvent} {settled : List Nat} {wait' : DriverWait}

theorem perm_without (h : work.OnCourse inside events settled next) (hmem : (index, wait) ∈ next.members) :
    (next.members.map Prod.snd).Perm (wait :: (next.without index).members.map Prod.snd) :=
  (perm_cons_filter h.inOrder.nodup hmem).map Prod.snd

/-- Without a member, a driver stands as before. -/
theorem standing_without (h : work.OnCourse inside events settled next) (index : Nat) :
    (next.without index).Standing inside :=
  h.inOrder.toStanding.members (h.inOrder.nodup.sublist (List.filter_sublist.map _))
    (List.filter_sublist.map _).subset fun place run hmem =>
      h.inOrder.runs place run ((List.filter_sublist.map _).subset hmem)

theorem look (h : work.OnCourse inside events settled next) (hmem : (index, wait) ∈ next.members)
    (hcontinues : wait.Continues wait') :
    work.OnCourse inside events settled
      { next with members := (index, wait') :: (next.without index).members } := by
  have hperm := h.perm_without hmem
  have hout : index ∉ (next.without index).members.map Prod.fst := by
    intro hmem
    obtain ⟨member, hmember, heq⟩ := List.mem_map.1 hmem
    exact of_decide_eq_true (List.mem_filter.1 hmember).2 heq
  have hcount {count : DriverWait → Bool} (hcount : count wait' = count wait) :
      (wait' :: (next.without index).members.map Prod.snd).countP count =
        (next.members.map Prod.snd).countP count := by
    rw [hperm.countP_eq, List.countP_cons, List.countP_cons, hcount]
  have hstanding : Standing { next with members := (index, wait') :: (next.without index).members } inside := by
    refine h.inOrder.toStanding.members (List.nodup_cons.2 ⟨hout, (h.standing_without index).nodup⟩)
      (List.cons_subset.2 ⟨List.mem_map.2 ⟨_, hmem, rfl⟩, (List.filter_sublist.map _).subset⟩)
      fun place run hrun => ?_
    rcases List.mem_cons.1 hrun with heq | hrun
    · -- The run of the component has come further.
      subst heq
      cases hcontinues with
      | run place run ref body rest left =>
        obtain ⟨component, hcomponent, hsuffix⟩ :=
          h.inOrder.runs place run (List.mem_map_of_mem (f := Prod.snd) hmem)
        exact ⟨component, hcomponent, left.trans hsuffix⟩
    · exact (h.standing_without index).runs place run hrun
  refine ⟨⟨hstanding, h.inOrder.books.congr (fun place => hcount (hcontinues.isOutside place))
    fun place => hcount (hcontinues.isRun place)⟩, h.lasting, fun place => ?_, h.once⟩
  rw [← h.outside place]
  exact congrArg (· + _) (hcount (hcontinues.isOutside place))

theorem books_without (h : work.OnCourse inside events settled next) (hmem : (index, wait) ∈ next.members) :
    DriverBooks inside (next.without index).components
      (wait :: (next.without index).members.map Prod.snd)
      (fun index => events.countP (DriverEvent.isFinished index)) [] [] :=
  h.inOrder.books.perm (h.perm_without hmem).symm

/-- What an event does to a driver. -/
theorem take (h : work.OnCourse inside events settled next) (hmem : (index, wait) ∈ next.members)
    (hends : wait.Ends event) (host : Host) : After host ((next.without index).take event) fun last after =>
      work.OnCourse inside (events ++ [event]) (settled ++ settling next.components last.components) last ∧
        Tells event.result host after next.components last.components := by
  refine (take_moves hends (h.standing_without index) (h.books_without hmem) host).mono
    fun last after hmoves => ?_
  have hinOrder := hmoves.inOrder
  have hfinished : (fun place => events.countP (DriverEvent.isFinished place) +
      if event.isFinished place then 1 else 0) =
        fun place => (events ++ [event]).countP (DriverEvent.isFinished place) := by
    funext place
    rw [List.countP_append, List.countP_singleton]
  rw [hfinished] at hinOrder
  refine ⟨⟨hinOrder, hmoves.tells.lasting.trans h.lasting, fun place => ?_,
    hmoves.tells.count_settling h.once⟩, hmoves.tells⟩
  rw [← h.outside place, hmoves.outside place, (h.perm_without hmem).countP_eq, List.countP_cons,
    List.countP_append, List.countP_singleton, hends.isOutside]
  omega

/-- Whoever is released counts something still. -/
theorem owes (h : work.OnCourse inside events settled next) (hmem : (index, wait) ∈ next.members)
    (hends : wait.Ends event) {mid : DriverWork} {place : Nat}
    (hreleases : (next.without index).Releases event mid place) : mid.Owes place := by
  have hs := h.standing_without index
  have hb := h.books_without hmem
  cases hreleases with
  | given place =>
    cases hends with
    | outside => exact InOrder.owes ⟨hs, hb.given⟩
  | ran hfound hdependents host =>
    cases hends with
    | run =>
      obtain ⟨component, hcomponent, hopen, -⟩ := hb.running List.mem_cons_self
      obtain rfl := Option.some.inj (hcomponent.symm.trans hfound)
      have hsettled := InOrder.settle ⟨hs, hb.ended⟩ hcomponent hopen
      rw [hdependents] at hsettled
      exact (releaseAll_moves _ (.ok ()) _ host hsettled).inOrder.owes

end OnCourse

theorem Installed.onCourse (h : work.Installed inside) {events : List DriverEvent} {settled : List Nat}
    {next : DriverWork} (hcourse : work.Course events settled next) :
    work.OnCourse inside events settled next := by
  induction hcourse with
  | start host => exact (h.start host).1
  | look _ member continues ih => exact ih.look member continues
  | event _ member ends host ih => exact (ih.take member ends host).1

end DriverWork

end ModuleLoader
