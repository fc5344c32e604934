import ModuleLoader.Proofs.SidedTasks
/-!
Sides stay apart when compartments are built, and whichever side acts next. For both, sides are carried to
others, in a host with the same records and the same work.
-/

namespace ModuleLoader
set_option autoImplicit false

/-- In another host with the same calls, loads and other work things are on their sides, as other sides have
them, and descriptors lead nowhere else. -/
structure Sides.Follows (sides sides' : Sides) (host host' : Host) : Prop where
  calls : host'.calls = host.calls
  loads : host'.loads = host.loads
  work : SameWork host host'
  born : ∀ {k : Noun} (ref : Ref k), host.Born ref → host'.Born ref ∧ sides'.of ref = sides.of ref
  hooked : ∀ {node}, host.Hooked node → host'.Hooked node
  offers : ∀ {node blueprint}, host.Offers node blueprint → host'.Offers node blueprint
  confines : ∀ {ref descriptor}, host.Built ref → host.Confines sides ref descriptor →
    host'.Built ref ∧ host'.Confines sides' ref descriptor

/-- The same sides from here on, with the given one acting. Nothing that does not exist yet is on the other. -/
noncomputable def Sides.turned (sides : Sides) (host : Host) (active : Bool) : Sides where
  of ref := open Classical in if host.Born ref then sides.of ref else active
  active
  origin := host

variable {sides sides' : Sides} {side active : Bool} {host host' : Host}

namespace Sides.Follows

variable (h : sides.Follows sides' host host')
include h

theorem implies (a b : Bool) : (sides.law a).Implies (sides'.law b) host host' where
  calls := h.calls
  loads := h.loads
  hooked := h.hooked
  offers := h.offers
  tells htells := h.confines htells.1 htells.2
  fits {node _} hfits := by
    have hside := Entry.OnSide.follows h.born hfits
    rw [← (h.born node.compartment trivial).2] at hside
    exact hside
  near {a b} hnear := ((h.born a trivial).2.trans hnear).trans (h.born b trivial).2.symm

theorem carries : sides.Carries sides' host host' where
  born := h.born
  stage {side _} hstage :=
    (h.implies side side).stage (fun ref hwithin => (h.born ref trivial).2.trans hwithin) hstage

/-- Sides are apart in the other host, in all work in progress, once they are apart there. -/
theorem sided (hsided : host.Sided sides) (hapart : sides'.Apart host')
    (hcallAt : ∀ node call, host'.callAt? node = some call → host.callAt? node = some call)
    (hloadAt : ∀ node load, host'.loadAt? node = some load → host.loadAt? node = some load) :
    host'.Sided sides' where
  loads := (h.implies sides.active sides'.active).stands hapart hcallAt hloadAt hsided.loads
  work := hsided.work.carried h.carries h.work

end Sides.Follows

/-- What is there stays on its side when another side begins to act. -/
theorem Sides.turned_born (sides : Sides) (host : Host) (active : Bool) {k : Noun} (ref : Ref k)
    (href : host.Born ref) : host.Born ref ∧ (sides.turned host active).of ref = sides.of ref :=
  ⟨href, if_pos href⟩

theorem Host.born_of_record {ref : Ref .record} {record : Record}
    (h : host.records.get? ref = some record) : host.Born ref :=
  (Array.getElem?_eq_some_iff.1 h).1

/-- Another side begins to act, of whose hooks the offers are known. -/
theorem Host.Sided.turn (h : host.Sided sides) (active : Bool)
    (hoffers : ∀ (node : Node) (blueprint : Blueprint), sides.of node.compartment = active →
      host.Offers node blueprint → host.Safe sides node.compartment blueprint) :
    host.Sided (sides.turned host active) := by
  have hborn {k : Noun} (ref : Ref k) (href : host.Born ref) := sides.turned_born host active ref href
  have hsame (ref : Ref .compartment) : (sides.turned host active).of ref = sides.of ref :=
    (hborn ref trivial).2
  have hconfines {ref : Ref .compartment} {descriptor : Descriptor}
      (hconfines : host.Confines sides ref descriptor) :
      host.Confines (sides.turned host active) ref descriptor := by
    unfold Host.Confines at hconfines ⊢
    split
    · rw [hsame, hsame]
      exact hconfines
    · intro ancestor hancestor
      rw [hsame, hsame]
      exact hconfines ancestor hancestor
    · rw [hsame]
      exact Host.OnSide.follows hborn hconfines
    · trivial
  have hfollows : sides.Follows (sides.turned host active) host host :=
    ⟨rfl, rfl, ⟨rfl, rfl, rfl, rfl⟩, hborn, id, id, fun href hleads => ⟨href, hconfines hleads⟩⟩
  have hapart : (sides.turned host active).Apart host :=
    { records := fun ref record hrecord => by
        rw [(hborn ref (host.born_of_record hrecord)).2]
        exact (h.apart.records ref record hrecord).follows hborn
      spaces := fun ref space hspace => by
        have href : host.Born ref := (Array.getElem?_eq_some_iff.1 hspace).1
        rw [(hborn ref href).2]
        exact (h.apart.spaces ref space hspace).follows hborn
      memo := fun node entry hentry => by
        rw [hsame]
        exact (h.apart.memo node entry hentry).follows hborn
      tables := fun node descriptor htable => hconfines (h.apart.tables node descriptor htable)
      offers := fun node blueprint hnode hoffer => by
        rw [hsame] at hnode
        have hsafe := hoffers node blueprint hnode hoffer
        unfold Host.Safe at hsafe ⊢
        simp only [hsame]
        exact hsafe
      fresh := fun ref href => if_neg href
      spares := ⟨fun _ _ => rfl, fun _ _ => rfl, fun _ _ => rfl, fun _ _ => rfl, fun _ _ => rfl,
        fun _ _ => rfl, fun _ _ => rfl⟩ }
  exact hfollows.sided h hapart (fun _ _ => id) fun _ _ => id

section
variable {compartment : Compartment} (hbuilds : Builds host host' compartment)
include hbuilds

/-- Nothing but a compartment exists more than before. -/
theorem Builds.born {k : Noun} (ref : Ref k) : host'.Born ref ↔ host.Born ref := by
  rw [hbuilds.rest]
  cases k <;> exact Iff.rfl

/-- The ancestors of a compartment that was built before are what they were. -/
theorem Builds.descends (hgrounded : host.Grounded) {ref ancestor : Ref .compartment}
    (href : host.Built ref) (h : host'.Descends ref ancestor) : host.Descends ref ancestor := by
  have hparent {ref parent : Ref .compartment} (href : host.Built ref)
      (hparent : (host'.compartment ref).parent = some parent) :
      (host.compartment ref).parent = some parent := by
    rw [hbuilds.compartment_eq, if_neg] at hparent
    · exact hparent
    · rintro rfl
      exact Nat.lt_irrefl _ href
  have hboth : host.Descends ref ancestor ∧ host.Built ancestor := by
    induction h with
    | single hstep =>
      have hold := hparent href hstep
      exact ⟨.single hold, hgrounded.parents _ _ hold⟩
    | tail _ hstep ih =>
      have hold := hparent ih.2 hstep
      exact ⟨ih.1.tail hold, hgrounded.parents _ _ hold⟩
  exact hboth.1

/-- A compartment is built whose descriptors, and whose hooks, lead nowhere into the other side. -/
theorem Host.Sided.builds (h : host.Sided sides) (hgrounded : host.Grounded)
    (htables : ∀ (node : Node) (descriptor : Descriptor),
      (host'.compartment node.compartment).table.get? node.key = some descriptor →
        (host.compartment node.compartment).table.get? node.key = some descriptor ∨
          host'.Confines sides node.compartment descriptor)
    (hoffers : ∀ (node : Node) (blueprint : Blueprint), sides.of node.compartment = sides.active →
      host'.Offers node blueprint → host'.Safe sides node.compartment blueprint) :
    host'.Sided sides := by
  have hborn {k : Noun} (ref : Ref k) : host'.Born ref ↔ host.Born ref := hbuilds.born ref
  have hkeeps {k : Noun} (ref : Ref k) (href : host.Born ref) :
      host'.Born ref ∧ sides.of ref = sides.of ref := ⟨(hborn ref).2 href, rfl⟩
  have hunasked := Unasked.of_builds hbuilds
  have hposted := Host.Posted.of_builds hbuilds
  have hsame : SameWork host host' := by
    rw [hbuilds.rest]
    exact ⟨rfl, rfl, rfl, rfl⟩
  have hconfines {ref : Ref .compartment} {descriptor : Descriptor} (href : host.Built ref)
      (hconfines : host.Confines sides ref descriptor) : host'.Confines sides ref descriptor := by
    unfold Host.Confines at hconfines ⊢
    split
    · exact hconfines
    · exact fun ancestor hancestor => hconfines ancestor (hbuilds.descends hgrounded href hancestor)
    · exact Host.OnSide.follows hkeeps hconfines
    · trivial
  have hfollows : sides.Follows sides host host' :=
    ⟨hunasked.calls, hunasked.loads, hsame, hkeeps, hposted.hooked, hposted.offers,
      fun href hleads => ⟨hposted.built _ href, hconfines href hleads⟩⟩
  have hapart : sides.Apart host' :=
    { records := fun ref record hrecord => by
        rw [hbuilds.rest] at hrecord
        exact (h.apart.records ref record hrecord).follows hkeeps
      spaces := fun ref space hspace => by
        rw [hbuilds.rest] at hspace
        exact (h.apart.spaces ref space hspace).follows hkeeps
      memo := fun node entry hentry => by
        rw [hbuilds.entryAt? node] at hentry
        exact (h.apart.memo node entry hentry).follows hkeeps
      tables := fun node descriptor htable => (htables node descriptor htable).elim
        (fun hold => hconfines (Host.built_of_table hold) (h.apart.tables node descriptor hold)) id
      offers := hoffers
      fresh := fun ref href => h.apart.fresh ref fun hold => href ((hborn ref).2 hold)
      spares :=
        { memo := fun ref href =>
            (hbuilds.part Compartment.memo hbuilds.memo ref).trans (h.apart.spares.memo ref href)
          records := by
            rw [hbuilds.rest]
            exact h.apart.spares.records
          spaces := by
            rw [hbuilds.rest]
            exact h.apart.spares.spaces
          slots := by
            rw [hbuilds.rest]
            exact h.apart.spares.slots
          readies := by
            rw [hbuilds.rest]
            exact h.apart.spares.readies
          drivers := by
            rw [hbuilds.rest]
            exact h.apart.spares.drivers
          verdicts := by
            rw [hbuilds.rest]
            exact h.apart.spares.verdicts } }
  exact hfollows.sided h hapart (fun node call hcall => (hunasked.callAt node).symm.trans hcall) hunasked.loadAt

end

/-- A namespace that the descriptor shows is that of a memoized record. -/
def Descriptor.Memoized (host : Host) (descriptor : Descriptor) : Prop :=
  ∀ space, descriptor = .exportsAlias (.exports space) →
    ∃ node record, host.lookup? node = some record ∧ (host.record record).space = space

namespace Act

theorem build_memoized (host : Host) (home : String) (blueprint : Blueprint) :
    After host (build home blueprint) fun result host' =>
      (∀ descriptor, result = .ok descriptor → descriptor.Memoized host) ∧ Aside host host' := by
  refine After.and ?_ (build_aside home blueprint host)
  unfold build
  cases blueprint with
  | module compiled bindings body async needsImport needsMeta metaProperties =>
    dsimp only
    split
    · exact nofun
    · rw [after_bind]
      have hany : After host (evaluateMembers metaProperties) fun _ _ => True := trivial
      refine hany.mono fun properties after _ => ?_
      rintro _ ⟨⟩
      cases compiled <;> exact nofun
  | document text =>
    dsimp only
    split
    · exact nofun
    · rintro _ ⟨⟩
      exact nofun
  | text content =>
    rintro _ ⟨⟩
    exact nofun
  | redirect key label =>
    rintro _ ⟨⟩
    exact nofun
  | record key =>
    rintro _ ⟨⟩
    exact nofun
  | «exports» literal =>
    dsimp only
    rw [after_bind]
    refine (evaluate_exports host literal).mono fun value after hvalue => ?_
    rintro _ ⟨⟩ space ⟨⟩
    obtain ⟨label, key, owner, record, -, -, hlookup, hspace⟩ := hvalue space rfl
    exact ⟨⟨owner, key⟩, record, hlookup, hspace⟩

theorem buildAll_memoized (home : String) : ∀ (modules : List (String × Blueprint)) (host : Host),
    After host (buildAll home modules) fun result host' =>
      (∀ descriptors, result = .ok descriptors → ∀ pair ∈ descriptors, pair.2.Memoized host) ∧
        Aside host host' := by
  intro modules
  induction modules with
  | nil =>
    intro host
    refine ⟨?_, .refl host⟩
    rintro _ ⟨⟩ pair hmem
    cases hmem
  | cons first rest ih =>
    intro host
    obtain ⟨key, blueprint⟩ := first
    unfold buildAll
    rw [after_bind]
    refine (build_memoized host home blueprint).mono fun result middle hbuilt => ?_
    obtain ⟨hfirst, haside⟩ := hbuilt
    cases result with
    | error failure =>
      refine ⟨fun _ heq => ?_, haside⟩
      cases heq
    | ok descriptor =>
      rw [after_bind]
      refine (ih middle).mono fun result last hrest => ?_
      obtain ⟨hrest, haside'⟩ := hrest
      cases result with
      | error failure =>
        refine ⟨fun _ heq => ?_, haside.trans haside'⟩
        cases heq
      | ok others =>
        refine ⟨?_, haside.trans haside'⟩
        rintro _ ⟨⟩ pair hmem
        rcases List.mem_cons.1 hmem with rfl | hmem
        · exact hfirst descriptor rfl
        · obtain ⟨_, _, _, _, _, _, rfl⟩ := haside
          exact hrest others rfl pair hmem

/-- Descriptors are those from before, or were built just now. -/
theorem newCompartment_memoized (plan : CompartmentPlan) (host : Host) :
    After host (newCompartment plan) fun _ host' => ∀ (node : Node) (descriptor : Descriptor),
      (host'.compartment node.compartment).table.get? node.key = some descriptor →
        (host.compartment node.compartment).table.get? node.key = some descriptor ∨
          descriptor.Memoized host := by
  unfold newCompartment
  cases settingsOf plan with
  | error failure => exact fun _ _ => .inl
  | ok settings =>
    dsimp only
    rw [after_bind]
    refine (buildAll_memoized plan.label plan.modules host).mono fun result middle hbuilt => ?_
    obtain ⟨hall, haside⟩ := hbuilt
    obtain ⟨_, _, _, _, _, _, rfl⟩ := haside
    cases result with
    | error failure => exact fun _ _ => .inl
    | ok descriptors =>
      intro node descriptor htable
      unfold Host.compartment at htable
      change ((((host.compartments.push _).get? node.compartment).getD default).table).get? node.key = _
        at htable
      rw [Arena.get?_push] at htable
      split at htable
      · exact .inr (hall descriptors rfl _ (mem_of_get?_ofList htable))
      · exact .inl htable

end Act

end ModuleLoader
