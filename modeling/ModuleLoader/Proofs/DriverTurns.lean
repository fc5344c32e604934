import ModuleLoader.Proofs.DriverCourses
/-!
# Looks at a driver

A look at a driver gives turns to what it waits for, and takes in the events that this brings, one after
another. However it ends, it follows a course: there are always enough steps to come to a state in which
the pool has no event, or in which nothing is waited for.
-/

namespace ModuleLoader
set_option autoImplicit false

open DriverWait DriverWork Component

/-! ## Looks -/

/-- What holds of every result in every host holds after any action. -/
theorem After.of_forall {α : Type} {host : Host} {act : Act α} {post : α → Host → Prop}
    (h : ∀ result after, post result after) : After host act post :=
  h _ _

theorem ComponentRun.runRest_suspends (look : LookReady) (waker : Waker) : ∀ (rest : List (Ref .record))
    (host : Host), After host (runRest look waker rest) fun result _ => ∀ run, result = .pending run →
      ∃ ref body left, run = ⟨some (ref, body), left⟩ ∧ ref :: left <:+ rest
  -- By induction on the records that are left.
  | [], _ => by
    rintro run heq
    cases heq
  | ref :: rest, host => by
    unfold runRest
    rw [after_bind]
    refine After.of_forall fun result after => ?_
    cases result with
    | pending body =>
      rintro run heq
      cases heq
      exact ⟨ref, body, rest, rfl, List.suffix_refl _⟩
    | ready result =>
      cases result with
      | ok done =>
        refine (runRest_suspends look waker rest after).mono fun result _ hrest run heq => ?_
        obtain ⟨place, body, left, hrun, hsuffix⟩ := hrest run heq
        exact ⟨place, body, left, hrun, hsuffix.trans (List.suffix_cons _ _)⟩
      | error failure =>
        rintro run heq
        cases heq

theorem ComponentRun.poll_suspends (look : LookReady) (run : ComponentRun) (waker : Waker) (host : Host) :
    After host (run.poll look waker) fun result _ => ∀ next, result = .pending next →
      ∃ ref body left, next = ⟨some (ref, body), left⟩ ∧ ref :: left <:+ run.records := by
  obtain ⟨current, rest⟩ := run
  unfold poll
  cases current with
  | none => exact runRest_suspends look waker rest host
  | some current =>
    obtain ⟨ref, body⟩ := current
    dsimp only
    rw [after_bind]
    refine After.of_forall fun result after => ?_
    cases result with
    | pending body =>
      rintro next heq
      cases heq
      exact ⟨ref, body, rest, rfl, List.suffix_refl _⟩
    | ready result =>
      dsimp only
      rw [after_bind]
      refine After.of_forall fun _ noted => ?_
      rw [after_bind]
      refine After.of_forall fun result concluded => ?_
      cases result with
      | ok done =>
        refine (runRest_suspends look waker rest concluded).mono fun result _ hrest next heq => ?_
        obtain ⟨place, body, left, hrun, hsuffix⟩ := hrest next heq
        exact ⟨place, body, left, hrun, hsuffix.trans (List.suffix_cons _ _)⟩
      | error failure => exact fun _ heq => nomatch heq

/-- A look at a wait ends it with an event, or lets it go on. -/
theorem DriverWait.poll_continues (look : LookReady) (wait : DriverWait) (waker : Waker) (host : Host) :
    After host (wait.poll look waker) fun result _ => match result with
      | .pending next => wait.Continues next
      | .ready event => wait.Ends event := by
  unfold DriverWait.poll
  cases wait with
  | outside index completion =>
    dsimp only
    rw [after_bind]
    have hpoll : After host (completion.poll look waker) fun result _ => ∀ next, result = .pending next →
        ∃ watch, next = .shared watch := by
      unfold Completion.poll
      cases completion with
      | known => exact fun _ heq => nomatch heq
      | shared watch =>
        dsimp only
        rw [after_bind]
        refine After.of_forall fun result after => ?_
        cases result with
        | pending watch => exact fun next heq => ⟨watch, (Poll.pending.inj heq).symm⟩
        | ready => exact fun _ heq => nomatch heq
    refine hpoll.mono fun result after hresult => ?_
    cases result with
    | pending next =>
      obtain ⟨watch, rfl⟩ := hresult next rfl
      exact .outside index completion watch
    | ready result => exact .outside index completion result
  | run index run =>
    dsimp only
    rw [after_bind]
    refine (run.poll_suspends look waker host).mono fun result after hresult => ?_
    cases result with
    | pending next =>
      obtain ⟨ref, body, rest, rfl, hleft⟩ := hresult next rfl
      exact .run index run ref body rest hleft
    | ready result => exact .run index run result

/-! ## Steps left -/

/-- What is counted among elements changes with one of them as much as it counts. -/
theorem countP_modify {α : Type} (count : α → Bool) (f : α → α) : ∀ {elements : List α} {index : Nat} {element : α},
    elements[index]? = some element → (elements.modify index f).countP count + (count element).toNat =
      elements.countP count + (count (f element)).toNat
  | first :: rest, 0, element, helement => by
    obtain rfl := Option.some.inj helement
    rw [List.modify_zero_cons, List.countP_cons, List.countP_cons]
    cases count first <;> cases count (f first) <;> simp
  | first :: rest, index + 1, element, helement => by
    rw [List.getElem?_cons_succ] at helement
    have hrest := countP_modify count f helement
    rw [List.modify_succ_cons, List.countP_cons, List.countP_cons]
    omega

/-- Whether a component has not settled and counts something still. -/
def Component.isHeld (component : Component) : Bool :=
  !component.settled && component.waiting != 0

namespace DriverWork

/-- How much a driver can still wait for: what it waits for now, and the runs that have not begun. -/
def left (work : DriverWork) : Nat :=
  work.members.length + work.components.countP Component.isHeld

theorem countP_isHeld_markSettled (components : List Component) (index : Nat) :
    (markSettled components index).countP Component.isHeld ≤ components.countP Component.isHeld := by
  cases hcomponent : components[index]? with
  | none =>
    unfold markSettled
    rw [List.modify_eq_self (List.getElem?_eq_none_iff.1 hcomponent)]
  | some component =>
    have hcount := countP_modify Component.isHeld (fun component => { component with settled := true }) hcomponent
    have hsettled : Component.isHeld { component with settled := true } = false := rfl
    rw [hsettled] at hcount
    exact Nat.le.intro hcount

theorem release_left (work : DriverWork) (index : Nat) (host : Host) :
    After host (work.release index) fun next _ => next.left ≤ work.left := by
  unfold release
  cases hcomponent : work.components[index]? with
  | none => exact Nat.le_refl _
  | some component =>
    dsimp only
    cases hsettled : component.settled with
    | true => exact Nat.le_refl _
    | false =>
      have hcount := countP_modify Component.isHeld countOff hcomponent
      have hheld : component.isHeld = (component.waiting != 0) := by
        unfold Component.isHeld
        rw [hsettled]
        rfl
      have hheld' : component.countOff.isHeld = (component.waiting - 1 != 0) := by
        unfold Component.isHeld
        rw [show component.countOff.settled = false from hsettled]
        rfl
      rw [hheld, hheld'] at hcount
      rw [if_neg Bool.false_ne_true]
      by_cases hlast : component.waiting = 1
      · rw [hlast] at hcount
        rw [if_pos hlast]
        change work.members.length + 1 + (work.components.modify index countOff).countP Component.isHeld ≤ _
        unfold left
        simp only [Nat.reduceBNe, Nat.sub_self, Bool.toNat_true, Bool.toNat_false] at hcount
        omega
      · have hsame : (component.waiting - 1 != 0) = (component.waiting != 0) := by
          rw [Bool.eq_iff_iff, bne_iff_ne, bne_iff_ne]
          omega
        rw [hsame] at hcount
        rw [if_neg hlast]
        exact Nat.add_le_add_left (Nat.le_of_eq (Nat.add_right_cancel hcount)) _

theorem releaseAll_left : ∀ (owed : List Nat) (work : DriverWork) (host : Host),
    After host (work.releaseAll owed) fun next _ => next.left ≤ work.left
  -- By induction on what is released.
  | [], _, _ => Nat.le_refl _
  | index :: rest, work, host => by
    unfold releaseAll
    rw [after_bind]
    refine (release_left work index host).mono fun mid between hmid => ?_
    exact (releaseAll_left rest mid between).mono fun _ _ hnext => Nat.le_trans hnext hmid

theorem failFrom_left (failure : Failure) : ∀ (fuel : Nat) (falling : List Nat) (components : List Component)
    (host : Host), After host (failFrom failure fuel falling components) fun next _ =>
      next.countP Component.isHeld ≤ components.countP Component.isHeld
  -- By induction on the steps that a failure may take.
  | 0, _, _, _ => Nat.le_refl _
  | _ + 1, [], _, _ => Nat.le_refl _
  | fuel + 1, index :: rest, components, host => by
    unfold failFrom
    cases components[index]? with
    | none => exact failFrom_left failure fuel rest components host
    | some component =>
      dsimp only
      split
      · exact failFrom_left failure fuel rest components host
      · rw [after_bind]
        refine After.of_forall fun _ failed => ?_
        rw [after_bind]
        refine After.of_forall fun _ told => ?_
        exact (failFrom_left failure fuel _ _ told).mono fun _ _ hnext =>
          Nat.le_trans hnext (countP_isHeld_markSettled components index)

/-- Taking in an event, a driver begins no more runs than it has left. -/
theorem take_left (work : DriverWork) (event : DriverEvent) (host : Host) :
    After host (work.take event) fun next _ => next.left ≤ work.left := by
  have hfail (index : Nat) (failure : Failure) :
      After host (work.fail index failure) fun next _ => next.left ≤ work.left := by
    unfold fail
    rw [after_bind]
    exact (failFrom_left failure _ _ work.components host).mono fun _ _ hnext => Nat.add_le_add_left hnext _
  match event with
  | .outside index (.ok ()) => exact release_left work index host
  | .outside index (.error failure) => exact hfail index failure
  | .finished index (.error failure) => exact hfail index failure
  | .finished index (.ok ()) =>
    unfold take succeed
    dsimp only
    cases work.components[index]? with
    | none => exact Nat.le_refl _
    | some component =>
      dsimp only
      rw [after_bind]
      refine After.of_forall fun _ told => ?_
      refine (releaseAll_left component.dependents _ told).mono fun next _ hnext => Nat.le_trans hnext ?_
      exact Nat.add_le_add_left (countP_isHeld_markSettled work.components index) _

/-- Without one of its members, a driver has less left. -/
theorem length_filter_lt {members : List (Nat × DriverWait)} {index : Nat} {wait : DriverWait}
    (hmem : (index, wait) ∈ members) :
    (members.filter fun member => member.1 ≠ index).length < members.length := by
  refine List.length_filter_lt_length_iff_exists.2 ⟨_, hmem, ?_⟩
  simp

/-! ## Drives -/

variable {work next : DriverWork} {events : List DriverEvent} {settled : List Nat}

/-- What a driver comes to by more events: it pauses where its pool brings no event, or it ends and waits for
nothing any more. -/
def Comes (work : DriverWork) (look : LookReady) (waker : Waker) (events : List DriverEvent)
    (result : Poll DriverWork Unit) : Prop :=
  ∃ more settled last, work.Course (events ++ more) settled last ∧ match result with
    | .pending next => next = last ∧ ∃ members host,
      (Pool.next (DriverWait.poll look) last.pool waker members host).1 = .pending last.members
    | .ready () => last.members = []

/-- By turns of its members, a driver comes to an event. -/
theorem Course.turns (hcourse : work.Course events settled next) (look : LookReady) (waker : Waker) (host : Host) :
    After host (Pool.next (DriverWait.poll look) next.pool waker next.members) fun result _ => match result with
      | .pending members => work.Course events settled { next with members }
      | .exhausted => work.Course events settled { next with members := [] }
      | .finished found members => members.length < next.members.length ∧ ∀ host, ∃ settled,
        work.Course (events ++ [found]) settled (({ next with members } : DriverWork).take found host).1 := by
  let holds (members : List (Nat × DriverWait)) (_ : Host) : Prop :=
    members.length ≤ next.members.length ∧ work.Course events settled { next with members }
  have hstart : holds next.members host := ⟨Nat.le_refl _, hcourse⟩
  refine Pool.after_next ?_ ?_ ?_ ?_ hstart
  · exact fun _ _ _ _ hholds => hholds
  · rintro members index wait before ⟨hlength, hholds⟩ hmem
    have hless := length_filter_lt hmem
    refine (wait.poll_continues look (.member next.pool index) before).mono fun result after hresult => ?_
    cases result with
    | pending wait' => exact ⟨Nat.le_trans hless hlength, Course.look hholds hmem hresult⟩
    | ready found =>
      exact fun _ _ => ⟨Nat.lt_of_lt_of_le hless hlength,
        fun host => ⟨_, Course.event hholds hmem hresult host⟩⟩
  · exact fun _ _ hholds => hholds.2
  · exact fun _ hholds => hholds.2

theorem Course.proceed (look : LookReady) (waker : Waker) : ∀ (fuel : Nat) {events : List DriverEvent}
    {settled : List Nat} {next : DriverWork} (host : Host), work.Course events settled next → next.left < fuel →
      After host (proceed look waker fuel next) fun result _ => work.Comes look waker events result
  -- By induction on the events that are left.
  | fuel + 1, events, settled, next, host, hcourse, hfuel => by
    unfold DriverWork.proceed
    rw [after_bind]
    have hturns : After host (Pool.next (DriverWait.poll look) next.pool waker next.members) fun result _ =>
        (Pool.next (DriverWait.poll look) next.pool waker next.members host).1 = result := rfl
    refine (hturns.and (hcourse.turns look waker host)).mono fun result after hresult => ?_
    obtain ⟨heq, hresult⟩ := hresult
    cases result with
    | pending members =>
      exact ⟨[], settled, { next with members }, by rwa [List.append_nil], rfl, next.members, host, heq⟩
    | exhausted => exact ⟨[], settled, { next with members := [] }, by rwa [List.append_nil], rfl⟩
    | finished found members =>
      dsimp only
      rw [after_bind]
      have htake : After after (({ next with members } : DriverWork).take found) fun taken _ =>
          ∃ settled, work.Course (events ++ [found]) settled taken := hresult.2 after
      refine (htake.and (take_left { next with members } found after)).mono fun taken between htaken => ?_
      have hless : taken.left < fuel := by
        have hle : taken.left ≤ members.length + next.components.countP Component.isHeld := htaken.2
        have hlength := hresult.1
        unfold left at hfuel hle ⊢
        omega
      obtain ⟨settled, hcourse⟩ := htaken.1
      refine (proceed look waker fuel between hcourse hless).mono fun result _ hcomes => ?_
      obtain ⟨more, settled, last, hlast, hend⟩ := hcomes
      exact ⟨found :: more, settled, last, by rwa [List.append_assoc] at hlast, hend⟩

theorem left_lt (work : DriverWork) : work.left < work.members.length + work.components.length + 1 :=
  Nat.lt_succ_of_le (Nat.add_le_add_left List.countP_le_length _)

/-- A driver that is driven for the first time. -/
theorem poll_comes (hunstarted : work.started = false) (look : LookReady) (waker : Waker) (host : Host) :
    After host (work.poll look waker) fun result _ => work.Comes look waker [] result := by
  unfold DriverWork.poll
  rw [hunstarted]
  exact (Course.start host).proceed look waker _ _ (left_lt _)

/-- A driver that is driven on. -/
theorem Course.poll (hcourse : work.Course events settled next) (hstarted : next.started = true) (look : LookReady)
    (waker : Waker) (host : Host) :
    After host (next.poll look waker) fun result _ => work.Comes look waker events result := by
  unfold DriverWork.poll
  obtain ⟨started, components, pool, members, nextIndex⟩ := next
  cases hstarted
  exact hcourse.proceed look waker _ host (left_lt _)

end DriverWork

end ModuleLoader
