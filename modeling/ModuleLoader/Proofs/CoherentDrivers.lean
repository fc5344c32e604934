import ModuleLoader.Proofs.DriverFailures
/-!
Drivers keep a host coherent: each event ends a wait, releases what waited for it or fails what depends on
it, and a driver that waits for nothing any more has announced all its verdicts.
-/

namespace ModuleLoader
set_option autoImplicit false

variable {host after : Host} {driver : Ref .driver} {old work : DriverWork} {inside : Nat → List Nat}
  {components : List Component} {waits : List DriverWait} {owed : List Nat} {index : Nat}
  {look : LookReady}

/-- A driver at work is in order, but for the balance of its components. -/
structure DriverWork.Manages (work : DriverWork) (host : Host) (driver : Ref .driver) (old : DriverWork)
    (inside : Nat → List Nat) : Prop where
  started : work.started = true
  nodup : (work.members.map Prod.fst).Nodup
  fresh : ∀ index ∈ work.members.map Prod.fst, index < work.nextIndex
  atWork : AtWork host driver old inside work.components
  upright : Upright host inside work.components []

/-- A driver at work is in order, where what is `owed` has still to be released. -/
structure DriverWork.Steers (work : DriverWork) (host : Host) (driver : Ref .driver) (old : DriverWork)
    (inside : Nat → List Nat) (owed : List Nat) : Prop extends work.Manages host driver old inside where
  balanced : Balanced host inside work.components (work.members.map Prod.snd) none owed

namespace DriverWork

theorem Manages.follows (hs : work.Manages host driver old inside) (hf : Follows [] host after) :
    work.Manages after driver old inside where
  started := hs.started
  nodup := hs.nodup
  fresh := hs.fresh
  atWork := hs.atWork.follows hf
  upright := hs.atWork.upright_still hs.upright hf

theorem Steers.follows (hs : work.Steers host driver old inside owed) (h : host.Coherent)
    (hf : Follows [] host after) : work.Steers after driver old inside owed where
  toManages := hs.toManages.follows hf
  balanced := hs.atWork.balanced_still h hs.balanced (fun _ _ heq => nomatch heq) hf

/-- A driver that waits for more. -/
def waitFor (work : DriverWork) (wait : DriverWait) : DriverWork :=
  { work with members := (work.nextIndex, wait) :: work.members, nextIndex := work.nextIndex + 1 }

theorem Manages.waitFor (hs : work.Manages host driver old inside) (wait : DriverWait) :
    (work.waitFor wait).Manages host driver old inside where
  started := hs.started
  nodup := List.nodup_cons.2 ⟨fun hmem => Nat.lt_irrefl _ (hs.fresh _ hmem), hs.nodup⟩
  fresh index hmem := by
    rcases List.mem_cons.1 hmem with rfl | hmem
    · exact Nat.lt_succ_self _
    · exact Nat.lt_succ_of_lt (hs.fresh index hmem)
  atWork := hs.atWork
  upright := hs.upright

/-- Waiting for more changes only the driver. -/
theorem add_coheres (h : host.Coherent) (work : DriverWork) (wait : DriverWait) :
    (work.add wait).Coheres [] host fun next _ => next = work.waitFor wait := by
  unfold add
  exact .afterAside (Act.changePool_aside _ _) h fun _ _ hafter _ _ => .pure hafter rfl

theorem addAll_coheres : ∀ (waits : List DriverWait) {host : Host} {work : DriverWork},
    host.Coherent → work.Manages host driver old inside →
      Balanced host inside work.components (work.members.map Prod.snd ++ waits) none [] →
        (work.addAll waits).Coheres [] host fun next after => next.Steers after driver old inside []
  -- By induction on what is to be waited for.
  | [], host, work, h, hs, hb => by
    rw [List.append_nil] at hb
    exact .pure h ⟨hs, hb⟩
  | wait :: rest, host, work, h, hs, hb => by
    refine (add_coheres h work wait).bind fun next after hafter hfollows hnext => ?_
    rw [hnext]
    refine addAll_coheres rest hafter ((hs.waitFor wait).follows hfollows) ?_
    exact (hs.atWork.balanced_still h hb (fun _ _ heq => nomatch heq) hfollows).perm List.perm_middle

/-- Components that only count on stand as upright. -/
theorem Manages.count (hs : work.Manages host driver old inside) (index : Nat) : Manages { work with
    components := work.components.modify index fun component =>
      { component with waiting := component.waiting - 1 } } host driver old inside where
  started := hs.started
  nodup := hs.nodup
  fresh := hs.fresh
  atWork := hs.atWork.modify (f := fun component => { component with waiting := component.waiting - 1 })
    (fun _ => rfl) (fun _ => rfl) (fun _ => rfl) index
  upright := by
    intro place other hother hopen hnot earlier hearlier found hfound hover
    obtain ⟨other', hother', hsame⟩ := Component.getElem?_modify_cases hother
    obtain ⟨found', hfound', hsame'⟩ := Component.getElem?_modify_cases hfound
    have hopen : other'.settled = false := by
      rcases hsame with ⟨-, rfl⟩ | ⟨-, rfl⟩ <;> exact hopen
    have hstill := hs.upright place other' hother' hopen hnot earlier hearlier found' hfound'
    rcases hsame' with ⟨-, rfl⟩ | ⟨-, rfl⟩ <;> exact hstill hover

/-- A component of a driver is released. -/
theorem release_coheres (h : host.Coherent) (hs : work.Steers host driver old inside (index :: owed)) :
    (work.release index).Coheres [] host fun next after => next.Steers after driver old inside owed := by
  unfold release
  split
  · rename_i hnone
    exact .pure h ⟨hs.toManages, hs.balanced.excuse fun component hcomponent =>
      nomatch hnone.symm.trans hcomponent⟩
  · rename_i component hcomponent
    split
    · rename_i hsettled
      exact .pure h ⟨hs.toManages, hs.balanced.excuse fun other hother =>
        Option.some.inj (hcomponent.symm.trans hother) ▸ hsettled⟩
    · rename_i hsettled
      have hb := hs.balanced.release hcomponent (Bool.eq_false_iff.2 hsettled)
      have hcount := hs.toManages.count index
      dsimp only
      split
      · rename_i hwaiting
        rw [if_pos hwaiting] at hb
        obtain ⟨hafter, hfollows, hnext⟩ := add_coheres h { work with
          components := work.components.modify index fun component =>
            { component with waiting := component.waiting - 1 } } (.run index ⟨none, component.members⟩)
        refine ⟨hafter, hfollows, ?_⟩
        rw [hnext]
        exact Steers.follows ⟨hcount.waitFor _, hb⟩ h hfollows
      · rename_i hwaiting
        rw [if_neg hwaiting] at hb
        exact .pure h ⟨hcount, hb⟩

theorem releaseAll_coheres : ∀ (owed : List Nat) {host : Host} {work : DriverWork}, host.Coherent →
    work.Steers host driver old inside owed →
      (work.releaseAll owed).Coheres [] host fun next after => next.Steers after driver old inside []
  -- By induction on what is owed.
  | [], _, _, h, hs => .pure h hs
  | _ :: rest, _, _, h, hs => (release_coheres h hs).bind fun _ _ hafter _ hnext =>
    releaseAll_coheres rest hafter hnext

/-- A component succeeds: what depends on it is released. -/
theorem succeed_coheres (h : host.Coherent) (hs : work.Manages host driver old inside)
    {component : Component} (hcomponent : work.components[index]? = some component)
    (hsettled : component.settled = false)
    (hb : Balanced host inside work.components (work.members.map Prod.snd) (some index) [])
    (hready : ∀ ref ∈ component.members, (host.record ref).phase = .ready) :
    (work.succeed index).Coheres [] host fun next after => next.Steers after driver old inside [] := by
  have hmem := List.mem_of_getElem? hcomponent
  have hproper := hs.atWork.proper h component hmem
  have hcame : ∀ ready, host.Grouped component.members ready → host.CameTo ready (.ok ()) :=
    fun ready hgrouped ref href => by
      have hmember := (hgrouped ref).2 href
      have hmoved := h.recorded.moved_of_linked (hproper.linked h.recorded hmember)
      rwa [hready ref hmember] at hmoved
  unfold succeed
  rw [hcomponent]
  refine (Act.announce_coheres h hproper hcame).bind fun _ after hafter hfollows hspoken => ?_
  have hb : Balanced after inside work.components (work.members.map Prod.snd) (some index) [] :=
    hs.atWork.balanced_moving h hb hcomponent hsettled (List.nil_subset _) hfollows
  have hready (ref : Ref .record) (href : ref ∈ component.members) :
      (after.record ref).phase = .ready :=
    ((hs.atWork.held hmem).phase hfollows href List.not_mem_nil).trans (hready ref href)
  have hat := hs.atWork.follows hfollows
  have hb := hb.succeed hat.wired hcomponent hsettled hready hspoken
  refine releaseAll_coheres _ hafter ⟨⟨hs.started, hs.nodup, hs.fresh, hat.markSettled index, ?_⟩, hb⟩
  intro place other hother hopen hnot earlier hearlier found hfound hover
  obtain ⟨other', hother', ⟨-, rfl⟩ | ⟨-, rfl⟩⟩ := Component.getElem?_modify_cases hother
  · cases hopen
  · obtain ⟨found', hfound', ⟨rfl, rfl⟩ | ⟨-, rfl⟩⟩ := Component.getElem?_modify_cases hfound
    · obtain rfl := Option.some.inj (hfound'.symm.trans hcomponent)
      exact Component.isOver_iff.2 ⟨rfl, hready⟩
    · exact hs.atWork.upright_still hs.upright hfollows place other hother' hopen hnot earlier hearlier found
        hfound' hover

/-- A component fails: everything that depends on it fails with it. -/
theorem fail_coheres (h : host.Coherent) (hs : work.Manages host driver old inside) {busy : Option Nat}
    (hb : Balanced host inside work.components waits busy []) (hbusy : ∀ other, busy = some other → other = index)
    (failure : Failure) (hdoomed : ∀ component : Component, work.components[index]? = some component →
      component.settled = false → Doomed host waits failure index component) :
    (work.fail index failure).Coheres old.crew host fun next after =>
      next.members = work.members ∧ next.Manages after driver old inside ∧
        Balanced after inside next.components waits none [] ∧ SettledAt next.components index := by
  unfold fail
  refine (failFrom_coheres _ [index] h ⟨hs.atWork, hb, ?_, ?_, ?_⟩ ?_).bind
    fun components after hafter _ hfailed => ?_
  · exact fun place component hcomponent hsettled _ => hs.upright place component hcomponent hsettled
      List.not_mem_nil
  · rintro other hsome
    exact ⟨[], congrArg (fun place => [place]) (hbusy other hsome).symm⟩
  · intro place hmem component hcomponent hsettled
    obtain rfl := List.mem_singleton.1 hmem
    exact hdoomed component hcomponent hsettled
  · have hcosts := costs_lt_failureSteps work.components
    rw [List.length_singleton]
    omega
  · exact .pure hafter ⟨rfl, ⟨hs.started, hs.nodup, hs.fresh, hfailed.atWork, hfailed.upright⟩,
      hfailed.balanced, hfailed.settled index (.inl (List.mem_singleton_self index))⟩

end DriverWork

/-- What an event says is true, and the components are in balance but for it. -/
def DriverEvent.Sound (host : Host) (inside : Nat → List Nat) (components : List Component)
    (waits : List DriverWait) : DriverEvent → Prop
  | .outside index (.ok ()) => Balanced host inside components waits none [index]
  | .outside index (.error failure) => ∃ completion,
    Balanced host inside components (.outside index completion :: waits) none [] ∧
      ∃ component : Component, components[index]? = some component ∧ ∃ ref ∈ component.members,
        ∃ needed ∈ host.dependencies (host.record ref), needed ∉ component.members ∧
          host.Lost needed failure
  | .finished index result => Balanced host inside components waits (some index) [] ∧
    ∃ component : Component, components[index]? = some component ∧ component.settled = false ∧
      ComponentRun.PolledWell component.members (.ready result) host

namespace DriverEvent

variable {event : DriverEvent}

/-- An event stays sound while nothing moves. -/
theorem Sound.follows (hevent : event.Sound host inside components waits) (h : host.Coherent)
    (hat : AtWork host driver old inside components) (hf : Follows [] host after) :
    event.Sound after inside components waits := by
  match event, hevent with
  | .outside index (.ok ()), hb => exact hat.balanced_still h hb (fun _ _ heq => nomatch heq) hf
  | .outside index (.error failure), ⟨completion, hb, component, hcomponent, ref, href, needed, hneeded,
      hout, hlost⟩ =>
    exact ⟨completion, hat.balanced_still h hb (fun _ _ heq => nomatch heq) hf, component, hcomponent, ref,
      href, needed, hf.later.mem_dependencies hneeded, hout, hf.lost hlost⟩
  | .finished index (.ok ()), ⟨hb, component, hcomponent, hsettled, hready⟩ =>
    refine ⟨hat.balanced_moving h hb hcomponent hsettled (List.nil_subset _) hf, component, hcomponent,
      hsettled, fun ref href => ?_⟩
    rw [(hat.held (List.mem_of_getElem? hcomponent)).phase hf href List.not_mem_nil]
    exact hready ref href
  | .finished index (.error failure), ⟨hb, component, hcomponent, hsettled, hbroke⟩ =>
    exact ⟨hat.balanced_moving h hb hcomponent hsettled (List.nil_subset _) hf, component, hcomponent,
      hsettled, Host.Broke.carries hbroke hf.toCarries⟩

end DriverEvent

namespace DriverWork

/-- A driver takes in an event. -/
theorem take_coheres (h : host.Coherent) (hs : work.Manages host driver old inside) {event : DriverEvent}
    (hevent : event.Sound host inside work.components (work.members.map Prod.snd)) :
    (work.take event).Coheres old.crew host fun next after => next.Steers after driver old inside [] := by
  match event, hevent with
  | .outside index (.ok ()), hb => exact (release_coheres h ⟨hs, hb⟩).grow _
  | .outside index (.error failure), ⟨completion, hb, component, hcomponent, ref, href, needed, hneeded,
      hout, hlost⟩ =>
    refine Act.Coheres.mono (fail_coheres h hs hb (fun _ heq => nomatch heq) failure
      fun other hother hsettled => ?_) fun next after hnext => ?_
    · obtain rfl := Option.some.inj (hother.symm.trans hcomponent)
      have hidle := hb.not_run hother fun _ hnone =>
        (hb.over_of_waiting hother hsettled hnone).2.1 completion List.mem_cons_self
      exact ⟨hidle, .inr ⟨hb.idle index other hother hsettled (fun heq => nomatch heq) hidle, ref, href,
        needed, hneeded, hout, hlost⟩⟩
    · obtain ⟨hmembers, hmanages, hbalanced, hsettled⟩ := hnext
      refine ⟨hmanages, ?_⟩
      rw [hmembers]
      exact hbalanced.outsideDropped hsettled
  | .finished index (.ok ()), ⟨hb, component, hcomponent, hsettled, hready⟩ =>
    exact (succeed_coheres h hs hcomponent hsettled hb hready).grow _
  | .finished index (.error failure), ⟨hb, component, hcomponent, hsettled, hbroke⟩ =>
    refine Act.Coheres.mono (fail_coheres h hs hb (fun _ heq => (Option.some.inj heq).symm)
      failure fun other hother _ => ?_) fun next after hnext => ?_
    · obtain rfl := Option.some.inj (hother.symm.trans hcomponent)
      exact ⟨fun found hmem => (hb.runs index found hmem).1 rfl, .inl hbroke⟩
    · obtain ⟨hmembers, hmanages, hbalanced, -⟩ := hnext
      refine ⟨hmanages, ?_⟩
      rw [hmembers]
      exact hbalanced

end DriverWork

namespace DriverWait

/-- What a look at something that a driver waits for comes to. -/
def PolledWell (inside : Nat → List Nat) (components : List Component) (waits : List DriverWait)
    (result : Poll DriverWait DriverEvent) (host : Host) : Prop :=
  Upright host inside components [] ∧ match result with
    | .pending wait => Balanced host inside components (wait :: waits) none []
    | .ready event => event.Sound host inside components waits

/-- A look at what a driver waits for moves only the records of the driver. -/
theorem poll_coheres (hlook : look.Coheres) (h : host.Coherent) {wait : DriverWait}
    (hat : AtWork host driver old inside components)
    (hb : Balanced host inside components (wait :: waits) none []) (hu : Upright host inside components [])
    (waker : Waker) :
    (wait.poll look waker).Coheres old.crew host (PolledWell inside components waits) := by
  cases wait with
  | outside index completion =>
    refine (Completion.poll_coheres hlook h completion waker).first
      fun result after hafter hfollows hresult => ?_
    have hb := hat.balanced_still h hb (fun _ _ heq => nomatch heq) hfollows
    have hu := hat.upright_still hu hfollows
    match result, hresult with
    | .pending next, hnext => exact .pure hafter ⟨hu, hb.outsideNext hnext⟩
    | .ready (.ok ()), hgiven => exact .pure hafter ⟨hu, hb.outsideGiven hgiven⟩
    | .ready (.error failure), hlost =>
      obtain ⟨component, hcomponent, ref, href, needed, hneeded, hout, hstands⟩ :=
        hb.outside index completion List.mem_cons_self
      exact .pure hafter ⟨hu, completion, hb, component, hcomponent, ref, href, needed, hneeded, hout,
        hlost needed hstands⟩
  | run index run =>
    obtain ⟨-, component, hcomponent, hsettled, hwaiting, ran, hgood⟩ := hb.runs index run List.mem_cons_self
    have hmem := List.mem_of_getElem? hcomponent
    have hcrew : component.members ⊆ old.crew := fun ref href => hat.mem_crew hmem href
    refine Act.Coheres.bindWithin hcrew (ComponentRun.poll_coheres hlook h
      (hat.runs h hb hcomponent hsettled hwaiting) hgood waker) fun result after hafter hfollows hresult => ?_
    have hu := hat.upright_moving h hu hcomponent hsettled (List.Subset.refl _) hfollows
    have hb : Balanced after inside components waits (some index) [] :=
      hat.balanced_moving h hb.takeOut hcomponent hsettled (List.Subset.refl _) hfollows
    match result, hresult with
    | .pending next, ⟨ran, hnext⟩ =>
      exact .pure hafter ⟨hu, hb.putBack hcomponent hsettled hwaiting hnext⟩
    | .ready result, hresult =>
      exact .pure hafter ⟨hu, hb, component, hcomponent, hsettled, hresult⟩

end DriverWait

/-- What is listed once under a name may be listed first. -/
theorem perm_cons_filter {α : Type} {index : Nat} {value : α} : ∀ {members : List (Nat × α)},
    (members.map Prod.fst).Nodup → (index, value) ∈ members →
      members.Perm ((index, value) :: members.filter fun member => member.1 ≠ index)
  | first :: rest, hnodup, hmem => by
    obtain ⟨hfirst, hrest⟩ := List.nodup_cons.1 hnodup
    rcases List.mem_cons.1 hmem with rfl | hmem
    · rw [List.filter_cons_of_neg (by simp), List.filter_eq_self.2]
      exact fun other hother => decide_eq_true fun heq =>
        hfirst (List.mem_map.2 ⟨other, hother, heq⟩)
    · rw [List.filter_cons_of_pos]
      · exact (List.Perm.cons first (perm_cons_filter hrest hmem)).trans (.swap _ _ _)
      · exact decide_eq_true fun heq => hfirst (List.mem_map.2 ⟨_, hmem, heq.symm⟩)

namespace DriverWork

/-- A driver whose members change otherwise than in number stays in order. -/
theorem Manages.members {members : List (Nat × DriverWait)} (hs : work.Manages host driver old inside)
    (hnodup : (members.map Prod.fst).Nodup)
    (hsub : members.map Prod.fst ⊆ work.members.map Prod.fst) :
    Manages { work with members } host driver old inside where
  started := hs.started
  nodup := hnodup
  fresh index hmem := hs.fresh index (hsub hmem)
  atWork := hs.atWork
  upright := hs.upright

/-- What the members of a driver come to. -/
def NextWell (work : DriverWork) (driver : Ref .driver) (old : DriverWork) (inside : Nat → List Nat)
    (result : Next DriverWait DriverEvent) (host : Host) : Prop :=
  match result with
  | .pending members => Steers { work with members } host driver old inside []
  | .exhausted => Steers { work with members := [] } host driver old inside []
  | .finished event members => Manages { work with members } host driver old inside ∧
    event.Sound host inside work.components (members.map Prod.snd)

/-- By turns of its members, a driver comes to an event. -/
theorem next_coheres (hlook : look.Coheres) (h : host.Coherent) (hs : work.Steers host driver old inside [])
    (waker : Waker) : (Pool.next (DriverWait.poll look) work.pool waker work.members).Coheres old.crew host
      (work.NextWell driver old inside) := by
  let holds (members : List (Nat × DriverWait)) (now : Host) : Prop :=
    now.Coherent ∧ Follows old.crew host now ∧ Steers { work with members } now driver old inside []
  have hstart : holds work.members host := ⟨h, .refl _ host, hs⟩
  refine Pool.after_next ?_ ?_ ?_ ?_ hstart
  · rintro members before after haside ⟨hbefore, hfollows, hs⟩
    have hquiet := Follows.quiet hbefore haside.quiet
    exact ⟨hbefore.quiet haside.quiet, hfollows.trans (hquiet.grow _), hs.follows hbefore hquiet⟩
  · rintro members index wait before ⟨hbefore, hfollows, hs⟩ hmem
    have hperm := perm_cons_filter hs.nodup hmem
    have hrest : ((members.filter fun member => member.1 ≠ index).map Prod.fst).Nodup :=
      hs.nodup.sublist (List.filter_sublist.map _)
    have hsub : (members.filter fun member => member.1 ≠ index).map Prod.fst ⊆ members.map Prod.fst :=
      (List.filter_sublist.map _).subset
    have hindex : index ∉ (members.filter fun member => member.1 ≠ index).map Prod.fst := by
      intro hmem
      obtain ⟨member, hmember, heq⟩ := List.mem_map.1 hmem
      exact of_decide_eq_true (List.mem_filter.1 hmember).2 heq
    refine After.mono (DriverWait.poll_coheres hlook hbefore hs.atWork (hs.balanced.perm (hperm.map Prod.snd))
      hs.upright (.member work.pool index)) fun result after hrun => ?_
    obtain ⟨hafter, hfollows', hupright, hresult⟩ := hrun
    have hmanages : Manages { work with members } after driver old inside :=
      ⟨hs.started, hs.nodup, hs.fresh, hs.atWork.follows hfollows', hupright⟩
    cases result with
    | pending next =>
      refine ⟨hafter, hfollows.trans hfollows', hmanages.members (List.nodup_cons.2 ⟨hindex, hrest⟩) ?_,
        hresult⟩
      exact List.cons_subset.2 ⟨List.mem_map.2 ⟨_, hmem, rfl⟩, hsub⟩
    | ready event =>
      intro last haside
      have hquiet := Follows.quiet hafter haside.quiet
      refine ⟨hafter.quiet haside.quiet, (hfollows.trans hfollows').trans (hquiet.grow _),
        (hmanages.members hrest hsub).follows hquiet, ?_⟩
      exact DriverEvent.Sound.follows hresult hafter hmanages.atWork hquiet
  · exact fun members after hholds => hholds
  · exact fun after hholds => hholds

/-- A driver that waits for nothing has settled all its components. -/
theorem Steers.settled (hs : Steers { work with members := [] } host driver old inside []) :
    ∀ component ∈ work.components, component.settled = true := by
  -- By induction on what they depend on.
  have hall : ∀ (index : Nat) (component : Component), work.components[index]? = some component →
      component.settled = true := by
    intro index
    induction index using hs.atWork.wired.wellFounded.induction with
    | _ index ih =>
      intro component hcomponent
      by_contra hopen
      have hopen : component.settled = false := Bool.eq_false_iff.2 hopen
      have hover : (inside index).countP (Component.isOpen host work.components) = 0 := by
        refine List.countP_eq_zero.2 fun earlier hearlier => ?_
        obtain ⟨other, hother⟩ : ∃ other, work.components[earlier]? = some other :=
          ⟨_, List.getElem?_eq_getElem (hs.atWork.wired.known index earlier hearlier)⟩
        rw [Component.isOpen_of_get? hother, hs.upright index component hcomponent hopen List.not_mem_nil
          earlier hearlier other hother (ih earlier hearlier other hother)]
        exact Bool.false_ne_true
      have hcounted := hs.balanced.counted index component hcomponent hopen
      rw [hover] at hcounted
      rcases hs.balanced.poised index component hcomponent hopen hcounted.symm with heq | ⟨run, hmem⟩
      · cases heq
      · cases hmem
  intro component hmem
  obtain ⟨index, hindex⟩ := List.mem_iff_getElem?.1 hmem
  exact hall index component hindex

/-- What driving a driver comes to: it goes on in order, or all its verdicts have been announced. -/
def PolledWell (driver : Ref .driver) (old : DriverWork) (inside : Nat → List Nat)
    (result : Poll DriverWork Unit) (host : Host) : Prop :=
  match result with
  | .pending next => next.Steers host driver old inside []
  | .ready () => ∀ component ∈ old.components, host.Spoken component.verdict

theorem proceed_coheres (hlook : look.Coheres) (waker : Waker) : ∀ (fuel : Nat) {host : Host}
    {work : DriverWork}, host.Coherent → work.Steers host driver old inside [] →
      (proceed look waker fuel work).Coheres old.crew host (PolledWell driver old inside)
  -- By induction on the events that are left.
  | 0, _, _, h, hs => .pure h hs
  | fuel + 1, host, work, h, hs => by
    unfold proceed
    refine (next_coheres hlook h hs waker).bind fun result after hafter _ hresult => ?_
    match result, hresult with
    | .pending members, hs => exact .pure hafter hs
    | .finished event members, ⟨hmanages, hsound⟩ =>
      exact (take_coheres hafter hmanages hsound).bind fun _ _ hlast _ hs =>
        proceed_coheres hlook waker fuel hlast hs
    | .exhausted, hs =>
      refine .afterAside (Pool.close_aside _) hafter fun _ last hlast hfollows _ => .pure hlast ?_
      intro component hmem
      obtain ⟨found, hfound, -, hverdict⟩ := hs.atWork.alike.symm.mem hmem
      obtain ⟨index, hindex⟩ := List.mem_iff_getElem?.1 hfound
      rw [← hverdict]
      exact hfollows.spoken _ (hs.balanced.announced index found hindex (hs.settled found hfound))

/-- Driving a driver that was taken up moves only its records. -/
theorem poll_coheres (hlook : look.Coheres) (h : host.Coherent) (hgood : old.Good host)
    {bell : Ref .bell} (htaken : Shelf.drivers.get? host driver = some ⟨bell, .driven old⟩) (waker : Waker) :
    (DriverWork.poll look old waker).Coheres old.crew host fun result after =>
      ∃ inside, PolledWell driver old inside result after := by
  obtain ⟨inside, hwired, hbalanced, hupright⟩ := hgood.balanced
  have hmanages : Manages { old with started := true } host driver old inside :=
    ⟨rfl, hgood.nodup, hgood.fresh, ⟨⟨bell, htaken⟩, rfl, hwired⟩, hupright⟩
  have hb : Balanced host inside old.components
      (old.members.map Prod.snd ++ if old.started then [] else firstWaits old.components) none [] := by
    unfold waits at hbalanced
    cases hstarted : old.started with
    | true =>
      rw [hstarted] at hbalanced
      exact (List.append_nil _).symm ▸ hbalanced
    | false =>
      rw [hstarted] at hbalanced
      rw [hgood.unstarted hstarted]
      exact hbalanced
  refine Act.Coheres.first (addAll_coheres _ h hmanages hb) fun next after hafter _ hs => ?_
  exact Act.Coheres.mono (proceed_coheres hlook waker _ hafter hs) fun _ _ hresult => ⟨inside, hresult⟩

end DriverWork

end ModuleLoader
