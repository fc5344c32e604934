import ModuleLoader.Proofs.Balances
import ModuleLoader.Proofs.CoherentBodies
/-!
A driver at work: somebody drives it, so only its own records move. A component that waits for nothing may
run, and when a component ends, its verdict is announced.
-/

namespace ModuleLoader
set_option autoImplicit false

/-- The records that a driver runs. -/
def DriverWork.crew (driver : DriverWork) : List (Ref .record) :=
  driver.components.flatMap Component.members

/-- A driver at work was taken up as `old`; its components are the same, and depend on each other as
`inside` says. -/
structure AtWork (host : Host) (driver : Ref .driver) (old : DriverWork) (inside : Nat → List Nat)
    (components : List Component) : Prop where
  taken : ∃ bell, Shelf.drivers.get? host driver = some ⟨bell, .driven old⟩
  alike : DriverWork.Alike { old with components } old
  wired : Wired host inside components

namespace AtWork

variable {host after : Host} {driver : Ref .driver} {old : DriverWork} {inside : Nat → List Nat}
  {components : List Component} {moving : List (Ref .record)} {component other : Component}
  {index place : Nat} {ref : Ref .record}

theorem drives (hat : AtWork host driver old inside components) : host.Drives driver old := by
  obtain ⟨bell, htaken⟩ := hat.taken
  exact ⟨bell, .inr htaken⟩

theorem follows (hat : AtWork host driver old inside components) (hf : Follows moving host after) :
    AtWork after driver old inside components where
  taken := by
    obtain ⟨bell, htaken⟩ := hat.taken
    exact ⟨bell, hf.drivers driver bell old htaken⟩
  alike := hat.alike
  wired := hat.wired.carries hf.toCarries

theorem held (hat : AtWork host driver old inside components) (hmem : component ∈ components) :
    host.Held component.members := by
  obtain ⟨bell, htaken⟩ := hat.taken
  obtain ⟨found, hfound, hmembers, -⟩ := hat.alike.mem hmem
  exact ⟨driver, bell, old, htaken, found, hfound, hmembers⟩

theorem proper (hat : AtWork host driver old inside components) (h : host.Coherent) :
    ∀ component ∈ components, component.Proper host := by
  intro component hmem
  obtain ⟨found, hfound, hmembers, hverdict⟩ := hat.alike.mem hmem
  exact (h.manned.proper driver old hat.drives found hfound).congr hmembers hverdict

theorem mem_crew (hat : AtWork host driver old inside components) (hmem : component ∈ components)
    (href : ref ∈ component.members) : ref ∈ old.crew := by
  obtain ⟨found, hfound, hmembers, -⟩ := hat.alike.mem hmem
  exact List.mem_flatMap.2 ⟨found, hfound, hmembers ▸ href⟩

/-- No record belongs to two components. -/
theorem disjoint (hat : AtWork host driver old inside components) (h : host.Coherent)
    (hcomponent : components[index]? = some component) (hother : components[place]? = some other)
    (href : ref ∈ component.members) (href' : ref ∈ other.members) : index = place := by
  obtain ⟨found, hfound, hmembers, -⟩ := hat.alike.get? hcomponent
  obtain ⟨found', hfound', hmembers', -⟩ := hat.alike.get? hother
  exact (h.manned.disjoint driver driver old old hat.drives hat.drives index place found found' hfound
    hfound' ref (hmembers ▸ href) (hmembers' ▸ href')).2

/-- Where only one component moves, the records of the others stay in their phases. -/
theorem phase_others (hat : AtWork host driver old inside components) (h : host.Coherent)
    (hcomponent : components[index]? = some component) (hmoving : moving ⊆ component.members)
    (hf : Follows moving host after) (hother : components[place]? = some other) (hne : place ≠ index)
    (href : ref ∈ other.members) : (after.record ref).phase = (host.record ref).phase :=
  (hat.held (List.mem_of_getElem? hother)).phase hf href fun hmem =>
    hne (hat.disjoint h hother hcomponent href (hmoving hmem))

/-- What the components depend on does not change while they are counted and settle. -/
theorem modify (hat : AtWork host driver old inside components) {f : Component → Component}
    (hmembers : ∀ component, (f component).members = component.members)
    (hverdict : ∀ component, (f component).verdict = component.verdict)
    (hdependents : ∀ component, (f component).dependents = component.dependents) (index : Nat) :
    AtWork host driver old inside (components.modify index f) where
  taken := hat.taken
  alike := by
    refine Eq.trans ?_ hat.alike
    refine List.ext_getElem? fun place => ?_
    change ((components.modify index f).map _)[place]? = (components.map _)[place]?
    rw [List.getElem?_map, List.getElem?_map, List.getElem?_modify]
    cases components[place]? with
    | none => rfl
    | some component =>
      change some ((if index = place then f component else component).members,
        (if index = place then f component else component).verdict) = some _
      split
      · rw [hmembers, hverdict]
      · rfl
  wired :=
    { wellFounded := hat.wired.wellFounded
      unique := hat.wired.unique
      known := by
        rw [List.length_modify]
        exact hat.wired.known
      dependents := fun place component hcomponent => by
        obtain ⟨found, hfound, ⟨-, rfl⟩ | ⟨-, rfl⟩⟩ := Component.getElem?_modify_cases hcomponent
        · rw [hdependents]
          exact hat.wired.dependents place found hfound
        · exact hat.wired.dependents place component hfound
      edges := fun place earlier hmem component other hcomponent hother => by
        have hsame {place : Nat} {component : Component}
            (hcomponent : (components.modify index f)[place]? = some component) :
            ∃ found, components[place]? = some found ∧ component.members = found.members := by
          obtain ⟨found, hfound, ⟨-, rfl⟩ | ⟨-, rfl⟩⟩ := Component.getElem?_modify_cases hcomponent
          · exact ⟨found, hfound, hmembers found⟩
          · exact ⟨component, hfound, rfl⟩
        obtain ⟨found, hfound, hmembers⟩ := hsame hcomponent
        obtain ⟨found', hfound', hmembers'⟩ := hsame hother
        rw [hmembers, hmembers']
        exact hat.wired.edges place earlier hmem found found' hfound hfound' }

theorem markSettled (hat : AtWork host driver old inside components) (index : Nat) :
    AtWork host driver old inside (DriverWork.markSettled components index) :=
  hat.modify (f := fun component => { component with settled := true }) (fun _ => rfl) (fun _ => rfl)
    (fun _ => rfl) index

/-- What has completed with all that share its completion is given. -/
theorem given_of_over (hat : AtWork host driver old inside components) (h : host.Coherent)
    (hmem : component ∈ components) (hover : component.isOver host = true) (href : ref ∈ component.members) :
    host.GivenIn host.chronicle ref := by
  have hproper := hat.proper h component hmem
  obtain ⟨ready, hgrouped, -⟩ := hproper.group
  refine .inl (.inr ⟨ready, (hgrouped ref).1 href, fun found hfound => ?_⟩)
  have hfound := (hgrouped found).2 hfound
  have hmoved := h.recorded.moved_of_linked (hproper.linked h.recorded hfound)
  rwa [(Component.isOver_iff.1 hover).2 found hfound] at hmoved

/-- A component that waits for nothing may run. -/
theorem runs (hat : AtWork host driver old inside components) (h : host.Coherent)
    {waits : List DriverWait} {busy : Option Nat} {owed : List Nat}
    (hb : Balanced host inside components waits busy owed)
    (hcomponent : components[index]? = some component) (hsettled : component.settled = false)
    (hwaiting : component.waiting = 0) : host.Runs component.members where
  held := hat.held (List.mem_of_getElem? hcomponent)
  given ref href needed hneeded := by
    obtain ⟨hover, hnone, -⟩ := hb.over_of_waiting hcomponent hsettled hwaiting
    rcases hb.given index component hcomponent hsettled ref href needed hneeded with
      hmember | hgiven | ⟨earlier, hearlier, other, hother, hneeded⟩ | ⟨completion, hmem, -⟩
    · exact .inl hmember
    · exact .inr hgiven
    · exact .inr (hat.given_of_over h (List.mem_of_getElem? hother) (hover earlier hearlier other hother)
        hneeded)
    · exact absurd hmem (hnone completion)

variable {waits : List DriverWait} {busy : Option Nat} {owed falling : List Nat}

/-- The balance stays while one component moves, if it is busy and has not settled. -/
theorem balanced_moving (hat : AtWork host driver old inside components) (h : host.Coherent)
    (hb : Balanced host inside components waits (some index) owed)
    (hcomponent : components[index]? = some component) (hsettled : component.settled = false)
    (hmoving : moving ⊆ component.members) (hf : Follows moving host after) :
    Balanced after inside components waits (some index) owed := by
  refine hb.carries h.recorded (hat.proper h) hf.toCarries (fun place other hother hne ref href => ?_)
    fun place other heq hother => ?_
  · exact hat.phase_others h hcomponent hmoving hf hother (fun heq => hne (congrArg some heq.symm)) href
  · obtain rfl := Option.some.inj heq
    obtain rfl := Option.some.inj (hother.symm.trans hcomponent)
    exact hsettled

/-- The balance stays while nothing moves. -/
theorem balanced_still (hat : AtWork host driver old inside components) (h : host.Coherent)
    (hb : Balanced host inside components waits busy owed)
    (hbusy : ∀ (index : Nat) (component : Component), busy = some index →
      components[index]? = some component → component.settled = false) (hf : Follows [] host after) :
    Balanced after inside components waits busy owed :=
  hb.carries h.recorded (hat.proper h) hf.toCarries (fun _ _ hother _ _ href =>
    (hat.held (List.mem_of_getElem? hother)).phase hf href List.not_mem_nil) hbusy

theorem upright_moving (hat : AtWork host driver old inside components) (h : host.Coherent)
    (hu : Upright host inside components falling) (hcomponent : components[index]? = some component)
    (hsettled : component.settled = false) (hmoving : moving ⊆ component.members)
    (hf : Follows moving host after) : Upright after inside components falling := by
  refine hu.carries fun other hother hover ref href => ?_
  obtain ⟨place, hplace⟩ := List.mem_iff_getElem?.1 hother
  refine hat.phase_others h hcomponent hmoving hf hplace ?_ href
  rintro rfl
  obtain rfl := Option.some.inj (hplace.symm.trans hcomponent)
  rw [hsettled] at hover
  cases hover

theorem upright_still (hat : AtWork host driver old inside components)
    (hu : Upright host inside components falling) (hf : Follows [] host after) :
    Upright after inside components falling :=
  hu.carries fun _ hother _ _ href => (hat.held hother).phase hf href List.not_mem_nil

end AtWork

/-- Announcing what became of a component. -/
theorem Act.announce_coheres {host : Host} (h : host.Coherent) {component : Component}
    (hproper : component.Proper host) {result : Except Failure Unit}
    (hcame : ∀ ready, host.Grouped component.members ready → host.CameTo ready result) :
    (announce component.verdict result).Coheres [] host fun _ after => after.Spoken component.verdict := by
  have hget (verdict : Ref .verdict) : (host.verdicts.set component.verdict ⟨some result, none⟩).get? verdict =
      if component.verdict = verdict then (host.verdicts.get? verdict).map fun _ => ⟨some result, none⟩
      else host.verdicts.get? verdict := Arena.get?_set _ _ _ _
  have hspoken (verdict : Ref .verdict) (hspoken : host.Spoken verdict) : Host.Spoken { host with
      verdicts := host.verdicts.set component.verdict ⟨some result, none⟩ } verdict := by
    unfold Host.Spoken at hspoken ⊢
    dsimp only
    rw [hget]
    split
    · cases hfound : host.verdicts.get? verdict with
      | none =>
        rw [hfound] at hspoken
        cases hspoken
      | some found => rfl
    · exact hspoken
  have hnow : Host.Spoken { host with
      verdicts := host.verdicts.set component.verdict ⟨some result, none⟩ } component.verdict := by
    obtain ⟨verdict, hverdict⟩ := Option.isSome_iff_exists.1 hproper.verdict
    unfold Host.Spoken
    dsimp only
    rw [hget, if_pos rfl, hverdict]
    rfl
  have hcoherent : Host.Coherent { host with
      verdicts := host.verdicts.set component.verdict ⟨some result, none⟩ } := by
    refine h.verdicts (fun verdict hexist => ?_) hspoken fun ready work found hwork hfound => ?_
    · rw [hget]
      split
      · rwa [Option.isSome_map]
      · exact hexist
    · rw [hget] at hfound
      split at hfound
      · -- Only one completion is worked for under the verdict.
        rename_i hverdict
        obtain ⟨posted, hposted, hresult⟩ := Option.bind_eq_some_iff.1 hfound
        obtain ⟨_, _, rfl⟩ := Option.map_eq_some_iff.1 hposted
        obtain rfl : result = found := Option.some.inj hresult
        obtain ⟨own, hgrouped, honly⟩ := hproper.group
        obtain rfl := honly ready work hwork hverdict.symm
        exact .inr (hcame ready hgrouped)
      · exact .inl hfound
  have hannounce : (modify fun host => { host with
      verdicts := host.verdicts.set component.verdict ⟨some result, none⟩ } : Act Unit).Coheres [] host
        fun _ after => after.Spoken component.verdict :=
    ⟨hcoherent, .verdicts [] host _ hspoken, hnow⟩
  refine .getBind (hannounce.first fun _ after hafter _ hspoken => ?_)
  have htold : (tell (((host.verdicts.get? component.verdict).bind Verdict.listener).toList)).Coheres []
      after fun _ last => Aside after last := .aside (tell_aside _) hafter
  obtain ⟨hlast, hfollows, -⟩ := htold
  exact ⟨hlast, hfollows, hfollows.spoken _ hspoken⟩

end ModuleLoader
