import ModuleLoader.Proofs.DriversAtWork
/-!
When a component of a driver fails, everything that depends on it fails with it, and each failure comes
from a record whose own body threw, or that had failed before.
-/

namespace ModuleLoader
set_option autoImplicit false

/-- A component is about to fail: one of its members threw, or needs a record that is lost. -/
structure Doomed (host : Host) (waits : List DriverWait) (failure : Failure) (index : Nat)
    (component : Component) : Prop where
  idle : ∀ run, .run index run ∉ waits
  cause : host.Broke component.members failure ∨
    (∀ ref ∈ component.members, (host.record ref).phase = .linked) ∧
      ∃ ref ∈ component.members, ∃ needed ∈ host.dependencies (host.record ref),
        needed ∉ component.members ∧ host.Lost needed failure

namespace Host

variable {host after : Host}

theorem Ended.fails {ref : Ref .record} {failure : Failure} (h : host.Ended ref (.error failure)) :
    host.FailsBy ref failure :=
  ⟨h.1, .inr h.2⟩

end Host

namespace Doomed

variable {host after : Host} {waits : List DriverWait} {failure : Failure} {index : Nat}
  {component : Component}

/-- A component stays doomed while its members stay in their phases. -/
theorem carries (h : Doomed host waits failure index component) (hf : Carries host after)
    (hphase : ∀ ref ∈ component.members, (after.record ref).phase = (host.record ref).phase) :
    Doomed after waits failure index component where
  idle := h.idle
  cause := by
    rcases h.cause with hbroke | ⟨hlinked, ref, href, needed, hneeded, hout, hlost⟩
    · exact .inl (hbroke.carries hf)
    · exact .inr ⟨fun ref href => (hphase ref href).trans (hlinked ref href), ref, href, needed,
        hf.later.mem_dependencies hneeded, hout, hf.lost hlost⟩

/-- When the members of a doomed component have failed, one of them has an error, and the group falls. -/
theorem falls (h : Doomed host waits failure index component) (hcoherent : host.Coherent)
    (hproper : component.Proper host) (hf : Carries host after)
    (hfailed : ∀ ref ∈ Act.unended host component.members, (after.record ref).error = some failure) :
    (∃ ref ∈ component.members, (after.record ref).error = some failure) ∧
      ∀ ready, after.Grouped component.members ready → after.Falls ready failure := by
  rcases h.cause with hbroke | ⟨hlinked, ref, href, needed, hneeded, hout, hlost⟩
  · have hbroke := hbroke.carries hf
    obtain ⟨ref, href, herror, value, hthrew⟩ := hbroke.thrown
    refine ⟨⟨ref, href, herror⟩, fun ready hgrouped => ?_⟩
    have hready := (hgrouped ref).1 href
    exact ⟨⟨ref, hready, herror⟩, fun other hother => hbroke.ends other ((hgrouped other).2 hother),
      ⟨ref, ref, hready, .refl, herror, .inr ⟨value, hthrew⟩⟩, .inl ⟨ref, value, hready, hthrew⟩⟩
  · have hall (other : Ref .record) (hother : other ∈ component.members) :
        (after.record other).error = some failure :=
      hfailed other (Act.mem_unended.2 ⟨hother, by rw [hlinked other hother]; rfl⟩)
    have herror := hall ref href
    refine ⟨⟨ref, href, herror⟩, fun ready hgrouped => ?_⟩
    have hready := (hgrouped ref).1 href
    have hlost := hf.lost hlost
    obtain ⟨origin, hcovers, hfails⟩ := hlost.origin
    have hdepends := hf.later.mem_dependencies hneeded
    have hneeds : after.Needs ref needed :=
      ⟨hf.later.linked (hproper.linked hcoherent.recorded href), hdepends⟩
    have hall (other : Ref .record) (hother : (after.record other).ready = some ready) :=
      hall other ((hgrouped other).2 hother)
    exact ⟨⟨ref, hready, herror⟩, fun other hother => .inr (hall other hother),
      ⟨ref, origin, hready, .head hneeds hcovers, hfails⟩,
      .inr ⟨hall, ref, needed, hready, hdepends, fun hsame => hout ((hgrouped needed).2 hsame), hlost.down⟩⟩

end Doomed

namespace DriverWork

/-- What the failure of a component may cost: a step for it, and one for each of its dependents. -/
def cost (component : Component) : Nat :=
  if component.settled then 0 else component.dependents.length + 1

/-- What all failures may cost. -/
def costs : List Component → Nat
  | [] => 0
  | component :: rest => cost component + costs rest

theorem costs_markSettled : ∀ (components : List Component) {index : Nat} {component : Component},
    components[index]? = some component → component.settled = false →
      costs (markSettled components index) + component.dependents.length + 1 = costs components
  | [], _, _, hcomponent, _ => nomatch hcomponent
  | first :: rest, 0, component, hcomponent, hsettled => by
    cases hcomponent
    unfold markSettled
    rw [List.modify_zero_cons, costs, costs]
    unfold cost
    rw [hsettled]
    simp
    omega
  | first :: rest, index + 1, component, hcomponent, hsettled => by
    have hrest := costs_markSettled rest (show rest[index]? = some component from hcomponent) hsettled
    unfold markSettled at hrest ⊢
    rw [List.modify_succ_cons, costs, costs]
    omega

theorem costs_lt_failureSteps (components : List Component) :
    costs components + 1 ≤ failureSteps components := by
  have hfold : ∀ (components : List Component) (start : Nat), start + costs components ≤
      components.foldl (fun total component => total + component.dependents.length + 1) start := by
    intro components
    induction components with
    | nil => exact fun start => Nat.le_refl _
    | cons first rest ih =>
      intro start
      rw [List.foldl_cons]
      refine Nat.le_trans ?_ (ih _)
      rw [costs]
      have hcost : cost first ≤ first.dependents.length + 1 := by
        unfold cost
        split <;> omega
      omega
  unfold failureSteps
  have := hfold components 1
  omega

/-- The component at a place has settled, if there is one. -/
def SettledAt (components : List Component) (index : Nat) : Prop :=
  ∀ component : Component, components[index]? = some component → component.settled = true

theorem settledAt_markSettled {components : List Component} {index place : Nat}
    (h : place = index ∨ SettledAt components place) : SettledAt (markSettled components index) place := by
  intro component hcomponent
  obtain ⟨found, hfound, ⟨-, rfl⟩ | ⟨hne, rfl⟩⟩ := Component.getElem?_modify_cases hcomponent
  · rfl
  · exact h.resolve_left hne component hfound

/-- A component of a driver at work has fallen, and this was not announced yet. -/
structure Fallen (host : Host) (inside : Nat → List Nat) (components : List Component)
    (waits : List DriverWait) (owed falling : List Nat) (failure : Failure) (index : Nat)
    (component : Component) : Prop where
  balanced : Balanced host inside components waits (some index) owed
  upright : Upright host inside components (index :: falling)
  fallen : ∃ ref ∈ component.members, (host.record ref).phase ≠ .ready
  falls : ∀ ready, host.Grouped component.members ready → host.Falls ready failure

variable {host : Host} {driver : Ref .driver} {old : DriverWork} {inside : Nat → List Nat}
  {components : List Component} {component : Component} {waits : List DriverWait} {busy : Option Nat}
  {owed falling : List Nat} {index : Nat} {failure : Failure}

/-- The members of a doomed component fail. -/
theorem failMembers_coheres (h : host.Coherent) (hat : AtWork host driver old inside components)
    (hb : Balanced host inside components waits busy owed)
    (hu : Upright host inside components (index :: falling))
    (hbusy : ∀ other, busy = some other → other = index)
    (hcomponent : components[index]? = some component) (hsettled : component.settled = false)
    (hdoomed : Doomed host waits failure index component) :
    (Act.failAll failure component.members).Coheres component.members host fun _ after =>
      Fallen after inside components waits owed falling failure index component := by
  have hmem := List.mem_of_getElem? hcomponent
  have hproper := hat.proper h component hmem
  obtain ⟨hafter, hfollows, hfailed⟩ := Act.failAll_coheres h (hat.held hmem) hproper.nodup
    (fun _ href => href) failure
  obtain ⟨⟨ref, href, herror⟩, hfalls⟩ := hdoomed.falls h hproper hfollows.toCarries hfailed
  refine ⟨hafter, hfollows, ?_, hat.upright_moving h hu hcomponent hsettled (List.Subset.refl _) hfollows,
    ⟨ref, href, fun hready => ?_⟩, hfalls⟩
  · exact hat.balanced_moving h (hb.seize hbusy hdoomed.idle) hcomponent hsettled (List.Subset.refl _)
      hfollows
  · have hphase := (hafter.recorded.failed ref).2 (herror ▸ rfl)
    cases hready.symm.trans hphase

/-- The failure of a component is announced. -/
theorem announceFailure_coheres (h : host.Coherent) (hat : AtWork host driver old inside components)
    (hcomponent : components[index]? = some component) (hsettled : component.settled = false)
    (hfallen : Fallen host inside components waits owed falling failure index component) :
    (Act.announce component.verdict (.error failure)).Coheres [] host fun _ after =>
      Balanced after inside (markSettled components index) waits none owed ∧
        Upright after inside (markSettled components index) (component.dependents.reverse ++ falling) ∧
          ∀ ref ∈ component.members, after.Lost ref failure := by
  have hmem := List.mem_of_getElem? hcomponent
  have hproper := hat.proper h component hmem
  have hstill (ref : Ref .record) (href : ref ∈ component.members) {after : Host}
      (hf : Follows [] host after) : (after.record ref).phase = (host.record ref).phase :=
    (hat.held hmem).phase hf href List.not_mem_nil
  have hcame : ∀ ready, host.Grouped component.members ready → host.CameTo ready (.error failure) :=
    hfallen.falls
  obtain ⟨hafter, hfollows, hspoken⟩ := Act.announce_coheres h hproper hcame
  obtain ⟨ref, href, hphase⟩ := hfallen.fallen
  obtain ⟨ready, hgrouped, -⟩ := hproper.group
  have hbalanced : Balanced _ inside components waits (some index) owed :=
    hat.balanced_moving h hfallen.balanced hcomponent hsettled (List.nil_subset _) hfollows
  refine ⟨hafter, hfollows, ?_, ?_, fun ref href => ?_⟩
  · refine hbalanced.fall hcomponent hsettled ⟨ref, href, fun hready => hphase ?_⟩ hspoken
    rwa [hstill ref href hfollows] at hready
  · -- Whoever depends on a settled component that is not over is about to fail.
    intro place other hother hopen hnot earlier hearlier found hfound hover
    obtain ⟨other', hother', ⟨-, rfl⟩ | ⟨hne, rfl⟩⟩ := Component.getElem?_modify_cases hother
    · cases hopen
    · rw [List.mem_append, List.mem_reverse, not_or] at hnot
      obtain ⟨found', hfound', ⟨rfl, rfl⟩ | ⟨-, rfl⟩⟩ := Component.getElem?_modify_cases hfound
      · obtain rfl := Option.some.inj (hfound'.symm.trans hcomponent)
        exact absurd (((hat.wired.dependents earlier found' hfound').2 place).2 hearlier) hnot.1
      · have hu := hat.upright_still hfallen.upright hfollows
        refine hu place other hother' hopen (fun hmem => ?_) earlier hearlier found hfound' hover
        exact (List.mem_cons.1 hmem).elim hne hnot.2
  · have hfalls := hfollows.falls h.recorded (hfallen.falls ready hgrouped)
    exact hfalls.lost hafter.recorded (hfollows.ready ref ready ((hgrouped ref).1 href))

/-- What depends on a component that fell is doomed. -/
theorem doomed_of_edge (h : host.Coherent)
    (hat : AtWork host driver old inside (markSettled components index))
    (hb : Balanced host inside (markSettled components index) waits none owed)
    (hcomponent : components[index]? = some component)
    (hfallen : ∃ ref ∈ component.members, (host.record ref).phase ≠ .ready)
    (hlost : ∀ ref ∈ component.members, host.Lost ref failure) {place : Nat}
    (hedge : index ∈ inside place) {other : Component}
    (hother : (markSettled components index)[place]? = some other) (hopen : other.settled = false) :
    Doomed host waits failure place other := by
  have hfound : (markSettled components index)[index]? = some { component with settled := true } := by
    unfold markSettled
    rw [Component.getElem?_modify_of hcomponent, if_pos rfl]
  have hwaiting : other.waiting ≠ 0 := by
    intro hnone
    have hover := (hb.over_of_waiting hother hopen hnone).1 index hedge _ hfound
    obtain ⟨ref, href, hphase⟩ := hfallen
    exact hphase ((Component.isOver_iff.1 hover).2 ref href)
  have hidle := hb.not_run hother fun _ => hwaiting
  obtain ⟨ref, href, needed, hneeded, hdepends⟩ :=
    hat.wired.edges place index hedge other _ hother hfound
  refine ⟨hidle, .inr ⟨hb.idle place other hother hopen (fun heq => nomatch heq) hidle, ref, href, needed,
    hdepends, fun hmember => ?_, hlost needed hneeded⟩⟩
  obtain rfl := hat.disjoint h hother hfound hmember hneeded
  obtain rfl := Option.some.inj (hother.symm.trans hfound)
  cases hopen

/-- What the failure of components comes to: they have settled, and so have those that depend on them. -/
structure Failed (host : Host) (driver : Ref .driver) (old : DriverWork) (inside : Nat → List Nat)
    (components : List Component) (waits : List DriverWait) (owed : List Nat) (settled : Nat → Prop) :
    Prop where
  atWork : AtWork host driver old inside components
  balanced : Balanced host inside components waits none owed
  upright : Upright host inside components []
  settled : ∀ index, settled index → SettledAt components index

/-- Components are about to fail: each of them is doomed until it settles. Only the first may be running. -/
structure Collapsing (host : Host) (driver : Ref .driver) (old : DriverWork) (inside : Nat → List Nat)
    (components : List Component) (waits : List DriverWait) (busy : Option Nat) (owed falling : List Nat)
    (failure : Failure) : Prop where
  atWork : AtWork host driver old inside components
  balanced : Balanced host inside components waits busy owed
  upright : Upright host inside components falling
  first : ∀ index, busy = some index → ∃ rest, falling = index :: rest
  doomed : ∀ index ∈ falling, ∀ component : Component, components[index]? = some component →
    component.settled = false → Doomed host waits failure index component

namespace Collapsing

theorem busy_eq (h : Collapsing host driver old inside components waits busy owed (index :: falling) failure)
    {other : Nat} (hbusy : busy = some other) : other = index := by
  obtain ⟨_, hcons⟩ := h.first other hbusy
  exact (List.cons.inj hcons).1.symm

theorem done (h : Collapsing host driver old inside components waits busy owed [] failure) :
    Failed host driver old inside components waits owed fun index =>
      index ∈ [] ∨ SettledAt components index := by
  refine ⟨h.atWork, h.balanced.free fun index heq => ?_, h.upright, fun index hsettled => ?_⟩
  · obtain ⟨rest, hnil⟩ := h.first index heq
    cases hnil
  · exact hsettled.resolve_left List.not_mem_nil

/-- A component that has settled, or that there is not, needs no step. -/
theorem skip (h : Collapsing host driver old inside components waits busy owed (index :: falling) failure)
    (hsettled : SettledAt components index) :
    Collapsing host driver old inside components waits none owed falling failure where
  atWork := h.atWork
  balanced := h.balanced.free fun _ heq => h.busy_eq heq ▸ hsettled
  upright place component hcomponent hopen hnot := by
    refine h.upright place component hcomponent hopen fun hmem => ?_
    rcases List.mem_cons.1 hmem with rfl | hmem
    · rw [hsettled component hcomponent] at hopen
      cases hopen
    · exact hnot hmem
  first _ heq := nomatch heq
  doomed place hmem := h.doomed place (List.mem_cons_of_mem _ hmem)

/-- The first component fails: then all that depends on it is about to. -/
theorem fail_coheres (h : host.Coherent)
    (hc : Collapsing host driver old inside components waits busy owed (index :: falling) failure)
    (hcomponent : components[index]? = some component) (hopen : component.settled = false) :
    (do
      Act.failAll failure component.members
      Act.announce component.verdict (.error failure)).Coheres old.crew host fun _ after =>
        Collapsing after driver old inside (markSettled components index) waits none owed
          (component.dependents.reverse ++ falling) failure := by
  have hmem := List.mem_of_getElem? hcomponent
  have hcrew : component.members ⊆ old.crew := fun ref href => hc.atWork.mem_crew hmem href
  refine Act.Coheres.bindWithin hcrew (failMembers_coheres h hc.atWork hc.balanced hc.upright
    (fun _ => hc.busy_eq) hcomponent hopen (hc.doomed index List.mem_cons_self component hcomponent hopen))
      fun _ failed hfailed hfails hfallen => ?_
  have hat := hc.atWork.follows hfails
  have hphase {after : Host} (hfollows : Follows [] failed after) :
      ∃ ref ∈ component.members, (after.record ref).phase ≠ .ready := by
    obtain ⟨ref, href, hphase⟩ := hfallen.fallen
    refine ⟨ref, href, ?_⟩
    rwa [(hat.held hmem).phase hfollows href List.not_mem_nil]
  obtain ⟨hafter, hfollows, hb, hu, hlost⟩ :=
    announceFailure_coheres hfailed hat hcomponent hopen hfallen
  refine ⟨hafter, hfollows.grow old.crew, ?_⟩
  have hat' := (hat.follows hfollows).markSettled index
  refine ⟨hat', hb, hu, (fun _ heq => nomatch heq), fun place hmem other hother hopen' => ?_⟩
  rcases List.mem_append.1 hmem with hdependent | hrest
  · rw [List.mem_reverse, (hc.atWork.wired.dependents index component hcomponent).2] at hdependent
    exact doomed_of_edge hafter hat' hb hcomponent (hphase hfollows) hlost hdependent hother hopen'
  · obtain ⟨other', hother', ⟨-, rfl⟩ | ⟨hne, rfl⟩⟩ := Component.getElem?_modify_cases hother
    · cases hopen'
    · refine ((hc.doomed place (List.mem_cons_of_mem _ hrest) other hother' hopen').carries
        hfails.toCarries fun ref href => ?_).carries hfollows.toCarries fun ref href => ?_
      · exact hc.atWork.phase_others h hcomponent (List.Subset.refl _) hfails hother' hne href
      · exact (hat.held (List.mem_of_getElem? hother')).phase hfollows href List.not_mem_nil

end Collapsing

theorem failFrom_coheres : ∀ (fuel : Nat) (falling : List Nat) {components : List Component}
    {busy : Option Nat} {host : Host}, host.Coherent →
      Collapsing host driver old inside components waits busy owed falling failure →
        falling.length + costs components ≤ fuel →
          (failFrom failure fuel falling components).Coheres old.crew host fun next after =>
            Failed after driver old inside next waits owed fun index =>
              index ∈ falling ∨ SettledAt components index := by
  -- By induction on the steps that the failure may take.
  intro fuel
  induction fuel with
  | zero =>
    intro falling components busy host h hc hfuel
    cases falling with
    | cons index rest =>
      rw [List.length_cons] at hfuel
      omega
    | nil => exact .pure h hc.done
  | succ fuel ih =>
    intro falling components busy host h hc hfuel
    cases falling with
    | nil => exact .pure h hc.done
    | cons index rest =>
      rw [List.length_cons] at hfuel
      have hskip (hsettled : SettledAt components index) :
          (failFrom failure fuel rest components).Coheres old.crew host fun next after =>
            Failed after driver old inside next waits owed fun place =>
              place ∈ index :: rest ∨ SettledAt components place := by
        refine Act.Coheres.mono (ih rest h (hc.skip hsettled) (by omega)) fun next after hfailed => ?_
        refine ⟨hfailed.atWork, hfailed.balanced, hfailed.upright, fun place hplace => ?_⟩
        refine hfailed.settled place (hplace.elim (fun hmem => ?_) .inr)
        exact (List.mem_cons.1 hmem).elim (fun heq => .inr (heq ▸ hsettled)) .inl
      unfold failFrom
      split
      · rename_i hnone
        exact hskip fun component hcomponent => nomatch hnone.symm.trans hcomponent
      · rename_i component hcomponent
        split
        · rename_i hover
          exact hskip fun other hother => Option.some.inj (hcomponent.symm.trans hother) ▸ hover
        · rename_i hopen
          have hopen : component.settled = false := Bool.eq_false_iff.2 hopen
          change ((do
            Act.failAll failure component.members
            Act.announce component.verdict (.error failure)) >>= fun _ =>
              failFrom failure fuel (component.dependents.reverse ++ rest)
                (markSettled components index)).Coheres old.crew host _
          refine Act.Coheres.bind (hc.fail_coheres h hcomponent hopen) fun _ after hafter _ hnext => ?_
          refine Act.Coheres.mono (ih _ hafter hnext ?_) fun next last hlast => ?_
          · have hcosts := costs_markSettled components hcomponent hopen
            rw [List.length_append, List.length_reverse]
            omega
          · refine ⟨hlast.atWork, hlast.balanced, hlast.upright, fun place hplace => ?_⟩
            refine hlast.settled place ?_
            rcases hplace with hplace | hsettled
            · rcases List.mem_cons.1 hplace with heq | hplace
              · exact .inr (settledAt_markSettled (.inl heq))
              · exact .inl (List.mem_append_right _ hplace)
            · exact .inr (settledAt_markSettled (.inr hsettled))

end DriverWork

end ModuleLoader
