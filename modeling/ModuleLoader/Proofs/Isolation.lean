import ModuleLoader.Proofs.Instances
import ModuleLoader.Proofs.SidedChanges
/-!
Isolation. Compartments are split into two groups, and no descriptor leads from one group to the other. Then
whatever is loaded, imported and run on behalf of one group leaves the other alone: its memos, and all that
its records consist of.
-/

namespace ModuleLoader
set_option autoImplicit false

namespace Host

/-- A descriptor of a compartment leads to another one: it is an alias of a key there, an alias of a record
that an ancestor may have, or it shows the namespace of a record there. -/
inductive LeadsInto (host : Host) (ref : Ref .compartment) : Descriptor → Ref .compartment → Prop where
  | instance (key : String) (owner : Ref .compartment) :
      LeadsInto host ref (.instanceAlias key (some owner)) owner
  | record (key : String) {ancestor : Ref .compartment} : host.Descends ref ancestor →
      LeadsInto host ref (.recordAlias key) ancestor
  | exports {ref' : Ref .record} {record : Record} : host.records.get? ref' = some record →
      LeadsInto host ref (.exportsAlias (.exports record.space)) record.home

/-- A compartment has that descriptor for a key: it is in its table, or a hook offers it as things are. -/
inductive Describes (host : Host) (node : Node) : Descriptor → Prop where
  | table {descriptor : Descriptor} :
      (host.compartment node.compartment).table.get? node.key = some descriptor →
        Describes host node descriptor
  | hook {blueprint : Blueprint} {descriptor : Descriptor} : host.Offers node blueprint →
      (Act.build (host.compartment node.compartment).label blueprint host).1 = .ok descriptor →
        Describes host node descriptor

/-- No descriptor leads from one of the two groups to the other. -/
def Divided (host : Host) (side : Ref .compartment → Bool) : Prop :=
  ∀ node descriptor other, host.Describes node descriptor →
    host.LeadsInto node.compartment descriptor other → side other = side node.compartment

/-- One group acts: a key of one of its compartments is loaded, imported or evaluated, at once or by a task
that starts or has its turn. Tasks may be dropped, gates may open, and what is aside may become anything. -/
inductive Acts (side : Ref .compartment → Bool) (group : Bool) (host : Host) : Host → Prop where
  | startLoad (name : String) (root : Node) : host.Built root.compartment →
      side root.compartment = group → Acts side group host (Act.startLoad name root host).2
  | startImport (name : String) (root : Node) : host.Built root.compartment →
      side root.compartment = group → Acts side group host (Act.startImport name root host).2
  | loadNow (root : Node) : host.Built root.compartment → side root.compartment = group →
      Acts side group host (Act.loadNow root host).2
  | importNow (root : Node) : host.Built root.compartment → side root.compartment = group →
      Acts side group host (Act.importNow Act.lookOutside root host).2
  | evaluate (compartment : Ref .compartment) (text : String) : host.Built compartment →
      side compartment = group → Acts side group host (Act.evaluateText compartment text host).2
  | turn (ref : Ref .task) : (∀ task root, host.tasks.get? ref = some task →
      task.work.root? = some root → side root.compartment = group) →
        Acts side group host (Act.pollTask ref host).2
  | drop (name : String) : Acts side group host (Act.dropNamed name host).2
  | openGate (name : String) : Acts side group host (Act.openGate name host).2
  | elsewhere {host' : Host} : Aside host host' → Acts side group host host'

/-- A session in whose every state no descriptor leads from one group to the other. -/
abbrev DividedRun (side : Ref .compartment → Bool) : Host → Host → Prop :=
  Relation.ReflTransGen fun before after => before.Step after ∧ after.Divided side

/-- The part of such a session in which one group acts. -/
abbrev GroupRun (side : Ref .compartment → Bool) (group : Bool) : Host → Host → Prop :=
  Relation.ReflTransGen fun before after => before.Acts side group after ∧ after.Divided side

end Host

/-- Everything that a record refers to is as it was: the slots of its scope, its namespace with all slots
there, and its completion with the driver and the verdict that it waits for. -/
structure Record.Untouched (record : Record) (host host' : Host) : Prop where
  slots : ∀ name bound, record.environment.bounds.get? name = some bound →
    host'.store.slots.get? bound.slot = host.store.slots.get? bound.slot
  space : host'.store.spaces.get? record.space = host.store.spaces.get? record.space
  exported : ∀ space name slot, host.store.spaces.get? record.space = some space →
    space.exports.get? name = some slot → host'.store.slots.get? slot = host.store.slots.get? slot
  ready : ∀ ready, record.ready = some ready → host'.readies.get? ready = host.readies.get? ready
  verdict : ∀ ready bell work, record.ready = some ready →
    host.readies.get? ready = some ⟨bell, .idle work⟩ →
      host'.verdicts.get? work.verdict = host.verdicts.get? work.verdict
  driver : ∀ ready bell work watch, record.ready = some ready →
    host.readies.get? ready = some ⟨bell, .idle work⟩ → work.driver = some watch →
      host'.drivers.get? watch.job = host.drivers.get? watch.job

/-- A group is left alone: the memos of its compartments are what they were, they own the same records, and
those are what they were, phase, failure and all. -/
structure Host.Leaves (host host' : Host) (side : Ref .compartment → Bool) (group : Bool) : Prop where
  memo : ∀ ref, side ref = group → (host'.compartment ref).memo = (host.compartment ref).memo
  records : ∀ ref record, side record.home = group →
    (host'.records.get? ref = some record ↔ host.records.get? ref = some record)
  untouched : ∀ ref record, host.records.get? ref = some record → side record.home = group →
    record.Untouched host host'

/-- Sides of a host whose compartments are in the given groups. -/
def Host.Parted (host : Host) (side : Ref .compartment → Bool) : Prop :=
  ∃ sides : Sides, (∀ ref : Ref .compartment, sides.of ref = side ref) ∧ host.Sided sides

/-- A memoized record is on the side of its key. -/
def Sides.Places (sides : Sides) (host : Host) : Prop :=
  ∀ node ref, host.lookup? node = some ref → host.records.get? ref = some (host.record ref) ∧
    (host.record ref).OnSide host sides (sides.of node.compartment)

variable {side : Ref .compartment → Bool} {group : Bool} {sides : Sides} {host host' : Host}

theorem Builds.lookup? {compartment : Compartment} (h : Builds host host' compartment) (node : Node) :
    host'.lookup? node = host.lookup? node := by
  unfold Host.lookup?
  rw [h.entryAt?]

theorem Sides.Apart.places (h : sides.Apart host) : sides.Places host := by
  intro node ref hlookup
  obtain ⟨entry, hentry, rfl⟩ := Option.map_eq_some_iff.1 hlookup
  exact h.record (h.memo node entry hentry).record

/-- What a literal that names a memoized namespace comes to. -/
theorem Act.exportsNamed_eq {label key : String} {owner : Ref .compartment} {ref : Ref .record}
    (howner : host.labels.get? label = some owner) (hlookup : host.lookup? ⟨owner, key⟩ = some ref) :
    After host (exportsNamed label key) fun value _ => value = .exports (host.record ref).space := by
  unfold exportsNamed
  rw [after_bind, after_get]
  split
  · rename_i hnone
    cases hnone.symm.trans howner
  · rename_i found hfound
    cases hfound.symm.trans howner
    split
    · rename_i hnone
      cases hnone.symm.trans hlookup
    · rename_i record hrecord
      cases hrecord.symm.trans hlookup
      rfl

theorem Sides.Places.builds {compartment : Compartment} (h : sides.Places host)
    (hbuilds : Builds host host' compartment) : sides.Places host' := by
  intro node ref hlookup
  rw [hbuilds.lookup?] at hlookup
  obtain ⟨hrecord, hon⟩ := h node ref hlookup
  rw [hbuilds.record]
  refine ⟨?_, hon.follows fun other hother => ⟨(hbuilds.born other).2 hother, rfl⟩⟩
  rw [hbuilds.rest]
  exact hrecord

theorem Descriptor.Memoized.builds {compartment : Compartment} {descriptor : Descriptor}
    (h : descriptor.Memoized host) (hbuilds : Builds host host' compartment) :
    descriptor.Memoized host' := by
  intro space heq
  obtain ⟨node, ref, hlookup, hspace⟩ := h space heq
  refine ⟨node, ref, ?_, ?_⟩
  · rw [hbuilds.lookup?]
    exact hlookup
  · rw [hbuilds.record]
    exact hspace

namespace Host.Divided

variable (hside : ∀ ref : Ref .compartment, sides.of ref = side ref) (hplaces : sides.Places host)
  (h : host.Divided side)
include hside hplaces h

/-- A namespace that leads nowhere into the other group is on the side of whoever shows it. -/
theorem space {node other : Node} {ref : Ref .record} (hlookup : host.lookup? other = some ref)
    (hdescribes : host.Describes node (.exportsAlias (.exports (host.record ref).space))) :
    sides.of other.compartment = sides.of node.compartment ∧
      host.OnSide sides (sides.of other.compartment) (host.record ref).space := by
  obtain ⟨hrecord, hon⟩ := hplaces other ref hlookup
  have hhome := h node _ _ hdescribes (.exports hrecord)
  rw [← hside, ← hside] at hhome
  exact ⟨hon.home.symm.trans hhome, hon.space⟩

/-- Where no descriptor leads to the other group, none does as sides have it. -/
theorem confines {node : Node} {descriptor : Descriptor} (hdescribes : host.Describes node descriptor)
    (hmemoized : descriptor.Memoized host) : host.Confines sides node.compartment descriptor := by
  unfold Host.Confines
  split
  · rename_i key owner
    rw [hside, hside]
    exact h node _ owner hdescribes (.instance key owner)
  · rename_i key
    intro ancestor hancestor
    rw [hside, hside]
    exact h node _ ancestor hdescribes (.record key hancestor)
  · rename_i space
    obtain ⟨other, ref, hlookup, rfl⟩ := hmemoized space rfl
    obtain ⟨hsame, hspace⟩ := h.space hside hplaces hlookup hdescribes
    exact hsame ▸ hspace
  · trivial

/-- What a hook may offer is safe. -/
theorem safe {node : Node} {blueprint : Blueprint} (hoffers : host.Offers node blueprint) :
    host.Safe sides node.compartment blueprint := by
  unfold Host.Safe
  split
  · rename_i key label
    intro owner howner
    rw [hside, hside]
    have hbuild : (Act.build (host.compartment node.compartment).label (.redirect key (some label)) host).1 =
        .ok (.instanceAlias key (some owner)) := by
      rw [← howner]
      rfl
    exact h node _ owner (.hook hoffers hbuild) (.instance key owner)
  · rename_i key
    intro ancestor hancestor
    rw [hside, hside]
    exact h node _ ancestor (.hook hoffers rfl) (.record key hancestor)
  · rename_i label key
    intro owner howner
    cases hentry : host.entryAt? ⟨owner, key⟩ with
    | none => exact .inr rfl
    | some entry =>
      refine .inl ?_
      have hlookup : host.lookup? ⟨owner, key⟩ = some entry.record := by
        unfold Host.lookup?
        rw [hentry]
        rfl
      have hbuild : (Act.build (host.compartment node.compartment).label
          (.exports (.exportsOf label key)) host).1 =
            .ok (.exportsAlias (.exports (host.record entry.record).space)) := by
        have hnamed : (Act.exportsNamed label key host).1 = _ := Act.exportsNamed_eq howner hlookup
        rw [← hnamed]
        unfold Act.build Act.evaluate
        rfl
      exact (h.space hside hplaces hlookup (.hook hoffers hbuild)).1
  · trivial

end Host.Divided

namespace Host.Parted

/-- Either group may act next. -/
theorem turn (h : host.Parted side) (hdivided : host.Divided side) (active : Bool) :
    ∃ sides : Sides, sides.active = active ∧ sides.origin = host ∧
      (∀ ref : Ref .compartment, sides.of ref = side ref) ∧ host.Sided sides := by
  obtain ⟨sides, hside, hsided⟩ := h
  refine ⟨sides.turned host active, rfl, rfl, fun ref => ?_, hsided.turn active fun node blueprint _ => ?_⟩
  · rw [(sides.turned_born host active ref trivial).2, hside]
  · exact hdivided.safe hside hsided.apart.places

/-- A compartment may be built. -/
theorem build (h : host.Parted side) (hgrounded : host.Grounded) (plan : CompartmentPlan)
    (hdivided : (Act.newCompartment plan host).2.Divided side) :
    (Act.newCompartment plan host).2.Parted side := by
  obtain ⟨sides, hside, hsided⟩ := h
  refine ⟨sides, hside, ?_⟩
  have hmemoized := Act.newCompartment_memoized plan host
  unfold After at hmemoized
  obtain ⟨middle, haside, hend⟩ := Act.newCompartment_builds hgrounded plan
  have hmiddle := (hsided.aside haside).1
  rcases hend with heq | ⟨compartment, hbuilds⟩
  · rw [heq]
    exact hmiddle
  · generalize (Act.newCompartment plan host).2 = last at hdivided hmemoized hbuilds ⊢
    have hplaces := hmiddle.apart.places.builds hbuilds
    have hgrounded := haside.quiet.grounded hgrounded
    have hkeeps {descriptor : Descriptor} (h : descriptor.Memoized host) : descriptor.Memoized last := by
      have hmiddle : descriptor.Memoized middle := by
        obtain ⟨_, _, _, _, _, _, rfl⟩ := haside
        exact h
      exact hmiddle.builds hbuilds
    obtain ⟨_, _, _, _, _, _, rfl⟩ := haside
    refine hmiddle.builds hbuilds hgrounded (fun node descriptor htable => ?_)
      fun node blueprint _ => hdivided.safe hside hplaces
    refine (hmemoized node descriptor htable).imp_right fun hnew => ?_
    exact hdivided.confines hside hplaces (.table htable) (hkeeps hnew)

end Host.Parted

namespace Host

/-- What one group does leaves the sides apart, while its side acts. -/
theorem Acts.sided (hside : ∀ ref : Ref .compartment, sides.of ref = side ref) (h : host.Sided sides)
    (hacts : host.Acts side sides.active host') : host'.Sided sides := by
  have hof {ref : Ref .compartment} (href : side ref = sides.active) : sides.of ref = sides.active :=
    (hside ref).trans href
  cases hacts with
  | startLoad name root _ hroot =>
    have hwork : (TaskWork.loading (.fresh root)).OnSide host sides sides.active := ⟨hof hroot, hof hroot⟩
    exact (Act.startTask_stays h name hwork).1
  | startImport name root _ hroot =>
    have hwork : (TaskWork.importing (.start root)).OnSide host sides sides.active :=
      ImportWork.start_onSide (hof hroot)
    exact (Act.startTask_stays h name hwork).1
  | loadNow root _ hroot => exact (Act.loadNow_stays h (hof hroot)).1
  | importNow root _ hroot => exact (Act.importNow_stays Act.lookOutside_stays h (hof hroot)).1
  | evaluate compartment text _ hgroup => exact (Act.evaluateText_stays h (hof hgroup) text).1
  | turn ref hroot =>
    exact (Act.pollTask_stays h ref fun task root htask hof' => hof (hroot task root htask hof')).1
  | drop name => exact (Act.Stays.getBind (Act.dropAll_stays (host.tasksNamed name) h)).1
  | openGate name => exact (h.aside (Act.openGate_isAside name host)).1
  | elsewhere haside => exact (h.aside haside).1

theorem Acts.step (h : host.Acts side group host') : host.Step host' := by
  cases h with
  | startLoad name root hroot _ => exact .startLoad name root hroot
  | startImport name root hroot _ => exact .startImport name root hroot
  | loadNow root hroot _ => exact .loadNow root hroot
  | importNow root hroot _ => exact .importNow root hroot
  | evaluate compartment text hbuilt _ => exact .evaluate compartment text hbuilt
  | turn ref _ => exact .turn ref
  | drop name => exact .drop name
  | openGate name => exact .openGate name
  | elsewhere haside => exact .elsewhere haside

/-- Each step leaves the groups apart. All steps but few are those of one group. -/
theorem Parted.step (h : host.Parted side) (hgrounded : host.Grounded) (hdivided : host.Divided side)
    (hstep : host.Step host') (hdivided' : host'.Divided side) : host'.Parted side := by
  have hacts {group : Bool} (hacts : host.Acts side group host') : host'.Parted side := by
    obtain ⟨sides, rfl, -, hside, hsided⟩ := h.turn hdivided group
    exact ⟨sides, hside, hacts.sided hside hsided⟩
  cases hstep with
  | build plan => exact h.build hgrounded plan hdivided'
  | startLoad name root hroot => exact hacts (.startLoad name root hroot rfl)
  | startImport name root hroot => exact hacts (.startImport name root hroot rfl)
  | loadNow root hroot => exact hacts (.loadNow root hroot rfl)
  | importNow root hroot => exact hacts (.importNow root hroot rfl)
  | evaluate compartment text hbuilt => exact hacts (.evaluate compartment text hbuilt rfl)
  | turn ref =>
    cases htask : host.tasks.get? ref with
    | none => exact @hacts false (.turn ref fun task root heq => nomatch htask.symm.trans heq)
    | some task =>
      obtain ⟨sides, hside, hsided⟩ := h
      obtain ⟨group, hgroup⟩ := hsided.work.tasks ref task htask
      refine @hacts group (.turn ref fun other root heq hroot => ?_)
      cases htask.symm.trans heq
      rw [← hside]
      exact hgroup.root hroot
  | drop name => exact @hacts false (.drop name)
  | openGate name => exact @hacts false (.openGate name)
  | assign ref name value =>
    obtain ⟨sides, hactive, -, hside, hsided⟩ := h.turn hdivided (side (host.record ref).home)
    have href : sides.of ref = sides.active := by
      by_cases hborn : host.Born ref
      · have hhome := (hsided.apart.record ⟨hborn, rfl⟩).2.home
        rw [hside, ← hactive] at hhome
        exact hhome.symm
      · exact hsided.apart.fresh ref hborn
    exact ⟨sides, hside, (Act.Stays.fills hsided (Act.assignIn_fills hsided.apart href name value)).1⟩
  | setExport node name value =>
    obtain ⟨sides, hactive, -, hside, hsided⟩ := h.turn hdivided (side node.compartment)
    have hnode := (hside node.compartment).trans hactive.symm
    exact ⟨sides, hside, (Act.setExport_stays hsided hnode name value).1⟩
  | elsewhere haside => exact @hacts false (.elsewhere haside)

/-- Nothing is there yet, so there is nothing on the wrong side. -/
theorem default_parted (side : Ref .compartment → Bool) : (default : Host).Parted side := by
  let sides : Sides :=
    { of := fun {k} ref => match k, ref with
        | .compartment, ref => side ref
        | _, _ => false
      active := false
      origin := default }
  refine ⟨sides, fun _ => rfl, ?_, ?_⟩
  · refine ⟨?_, (fun _ _ h => nomatch h), (fun _ _ h => nomatch h), fun _ _ h => ?_⟩
    · exact
        { records := fun _ _ h => nomatch h
          spaces := fun _ _ h => nomatch h
          memo := fun _ _ h => nomatch h
          tables := fun _ _ h => nomatch h
          offers := fun _ _ _ h => nomatch h.built
          fresh := fun {k} _ h => by
            cases k with
            | compartment => exact (h trivial).elim
            | _ => rfl
          spares := ⟨fun _ _ => rfl, fun _ _ => rfl, fun _ _ => rfl, fun _ _ => rfl, fun _ _ => rfl,
            fun _ _ => rfl, fun _ _ => rfl⟩ }
    · obtain ⟨_, h | h⟩ := h <;> cases h
  · exact ⟨(fun _ _ _ h => nomatch h), (fun _ _ _ h => nomatch h), fun _ _ h => nomatch h⟩

theorem default_divided (side : Ref .compartment → Bool) : (default : Host).Divided side := by
  intro node descriptor other hdescribes
  cases hdescribes with
  | table htable => exact nomatch htable
  | hook hoffers _ => exact nomatch hoffers.built

/-- Every state of a divided session is one, and its groups are apart. -/
theorem DividedRun.parted (hrun : DividedRun side default host) :
    Run default host ∧ host.Divided side ∧ host.Parted side := by
  induction hrun with
  | refl => exact ⟨.refl, default_divided side, default_parted side⟩
  | tail _ hstep ih =>
    obtain ⟨hrun, hdivided, hparted⟩ := ih
    exact ⟨hrun.tail hstep.1, hstep.2,
      hparted.step (orderly_of_run hrun).loads.grounded hdivided hstep.1 hstep.2⟩

namespace Leaves

variable {a b c : Host}

theorem refl (host : Host) (side : Ref .compartment → Bool) (group : Bool) :
    host.Leaves host side group where
  memo _ _ := rfl
  records _ _ _ := Iff.rfl
  untouched _ _ _ _ := ⟨fun _ _ _ => rfl, rfl, fun _ _ _ _ _ => rfl, fun _ _ => rfl, fun _ _ _ _ _ => rfl,
    fun _ _ _ _ _ _ _ => rfl⟩

theorem trans (hab : a.Leaves b side group) (hbc : b.Leaves c side group) : a.Leaves c side group where
  memo ref href := (hbc.memo ref href).trans (hab.memo ref href)
  records ref record hhome := (hbc.records ref record hhome).trans (hab.records ref record hhome)
  untouched ref record hrecord hhome := by
    have hfirst := hab.untouched ref record hrecord hhome
    have hsecond := hbc.untouched ref record ((hab.records ref record hhome).2 hrecord) hhome
    exact
      { slots := fun name bound hbound =>
          (hsecond.slots name bound hbound).trans (hfirst.slots name bound hbound)
        space := hsecond.space.trans hfirst.space
        exported := fun space name slot hspace hslot =>
          (hsecond.exported space name slot (hfirst.space.trans hspace) hslot).trans
            (hfirst.exported space name slot hspace hslot)
        ready := fun ready hready => (hsecond.ready ready hready).trans (hfirst.ready ready hready)
        verdict := fun ready bell work hready hwork =>
          (hsecond.verdict ready bell work hready ((hfirst.ready ready hready).trans hwork)).trans
            (hfirst.verdict ready bell work hready hwork)
        driver := fun ready bell work watch hready hwork hwatch =>
          (hsecond.driver ready bell work watch hready ((hfirst.ready ready hready).trans hwork)
            hwatch).trans (hfirst.driver ready bell work watch hready hwork hwatch) }

end Leaves

/-- What the acting side spares is left alone. -/
theorem Sided.leaves (hside : ∀ ref : Ref .compartment, sides.of ref = side ref)
    (hbefore : sides.origin.Sided sides) (hafter : host'.Sided sides) (hgroup : group ≠ sides.active) :
    sides.origin.Leaves host' side group := by
  have hspares := hafter.apart.spares
  have hother {now : Host} (hnow : now.Sided sides) {ref : Ref .record} {record : Record}
      (hrecord : now.records.get? ref = some record) (hhome : side record.home = group) :
      record.OnSide now sides group ∧ sides.of ref ≠ sides.active := by
    have hon := hnow.apart.records ref record hrecord
    have href : sides.of ref = group := by
      rw [← hon.home, hside, hhome]
    rw [href] at hon ⊢
    exact ⟨hon, hgroup⟩
  have hneq {k : Noun} {ref : Ref k} (href : sides.origin.OnSide sides group ref) : sides.of ref ≠ sides.active :=
    href.2 ▸ hgroup
  refine ⟨fun ref href => hspares.memo ref ?_, fun ref record hhome => ⟨fun hrecord => ?_, fun hrecord => ?_⟩,
    fun ref record hrecord hhome => ?_⟩
  · rw [hside, href]
    exact hgroup
  · rw [← hspares.records ref (hother hafter hrecord hhome).2]
    exact hrecord
  · rw [hspares.records ref (hother hbefore hrecord hhome).2]
    exact hrecord
  · obtain ⟨hon, -⟩ := hother hbefore hrecord hhome
    have hready {ready : Ref .ready} {bell : Ref .bell} {work : ReadyWork} (hof : record.ready = some ready)
        (hwork : sides.origin.readies.get? ready = some ⟨bell, .idle work⟩) :
        work.OnSide sides.origin sides group := by
      have hside := hbefore.work.readies ready bell work hwork
      rw [(hon.ready ready hof).2] at hside
      exact hside
    exact
      { slots := fun name bound hbound => hspares.slots _ (hneq (hon.slots name bound hbound))
        space := hspares.spaces _ (hneq hon.space)
        exported := fun space name slot hspace hslot => by
          have hslots := hbefore.apart.spaces _ space hspace name slot hslot
          rw [hon.space.2] at hslots
          exact hspares.slots _ (hneq hslots)
        ready := fun ready hof => hspares.readies _ (hneq (hon.ready ready hof))
        verdict := fun ready bell work hof hwork => hspares.verdicts _ (hneq (hready hof hwork).verdict)
        driver := fun ready bell work watch hof hwork hwatch =>
          hspares.drivers _ (hneq ((hready hof hwork).driver watch hwatch)) }

/-- What one group does leaves the other alone, in whatever state of a divided session it begins and
however long it acts. -/
theorem isolated (hrun : DividedRun side default host) (hacts : GroupRun side group host host') :
    host.Leaves host' side !group := by
  have hon : DividedRun side default host' ∧ host.Leaves host' side !group := by
    induction hacts with
    | refl => exact ⟨hrun, .refl host side _⟩
    | tail _ hstep ih =>
      rename_i middle last _
      obtain ⟨hrun, hleaves⟩ := ih
      obtain ⟨-, hdivided, hparted⟩ := DividedRun.parted hrun
      obtain ⟨sides, rfl, rfl, hside, hsided⟩ := hparted.turn hdivided group
      have hlast := hstep.1.sided hside hsided
      refine ⟨hrun.tail ⟨hstep.1.step, hstep.2⟩, hleaves.trans ?_⟩
      exact hsided.leaves hside hlast (Bool.not_ne_self _)
  exact hon.2

end Host

/-- A descriptor of a module of its own. -/
def Descriptor.isModule : Descriptor → Bool
  | .compiled _ => true
  | .virtual _ => true
  | _ => false

/-- A compartment without hooks, all of whose descriptors are modules. -/
def Compartment.Plain (compartment : Compartment) : Prop :=
  compartment.loadHook = none ∧ compartment.nowHook = none ∧
    ∀ pair ∈ compartment.table.entries, pair.2.isModule = true

instance (compartment : Compartment) : Decidable compartment.Plain :=
  inferInstanceAs (Decidable (_ ∧ _))

namespace Host

/-- Plain compartments may be split in any way. -/
theorem divided_of_plain (h : ∀ compartment ∈ host.compartments.cells, compartment.Plain)
    (side : Ref .compartment → Bool) : host.Divided side := by
  have hplain {node : Node} (hbuilt : host.Built node.compartment) :
      (host.compartment node.compartment).Plain := by
    have hget : host.compartments.get? node.compartment =
        some host.compartments.cells[node.compartment.index] := Array.getElem?_eq_getElem hbuilt
    unfold Host.compartment
    rw [hget]
    exact h _ (Array.getElem_mem hbuilt)
  intro node descriptor other hdescribes hleads
  have hmodule : descriptor.isModule = true := by
    cases hdescribes with
    | table htable => exact (hplain (built_of_table htable)).2.2 _ (Table.mem_of_find htable)
    | hook hoffers _ =>
      obtain ⟨hload, hnow, -⟩ := hplain hoffers.built
      cases hoffers with
      | onLoad hhook _ _ _ => cases hhook.symm.trans hload
      | now hhook _ => cases hhook.symm.trans hnow
  cases hleads <;> cases hmodule

/-- Two compartments with the same modules. In the second one everything was imported. -/
def twins : Host :=
  let modules := [("main", ChainKind.moduleOf [.exportFrom "x" "x" "lib"] (some [])),
    ("lib", ChainKind.moduleOf [.exportName "x"] (some [.assign "x" (.string "one")]))]
  let host := (Act.newCompartment (.simple "first" modules) default).2
  (Act.importNow Act.lookOutside ⟨⟨1⟩, "main"⟩ (Act.newCompartment (.simple "second" modules) host).2).2

/-- A task begins to import the first compartment's own module. -/
def twinsStarted : Host :=
  (Act.startImport "task" ⟨⟨0⟩, "main"⟩ twins).2

/-- The task has its turn, and the library of the first compartment is loaded once more. -/
def twinsRun : Host :=
  (Act.loadNow ⟨⟨0⟩, "lib"⟩ (Act.pollTask ⟨0⟩ twinsStarted).2).2

/-- The first compartment is a group of its own. -/
def isFirst (ref : Ref .compartment) : Bool :=
  ref.index == 0

theorem twins_divided : DividedRun isFirst default twins :=
  ((Relation.ReflTransGen.refl.tail ⟨.build _, divided_of_plain (by decide +kernel) _⟩).tail
    ⟨.build _, divided_of_plain (by decide +kernel) _⟩).tail
      ⟨.importNow _ (by decide +kernel), divided_of_plain (by decide +kernel) _⟩

theorem twinsRun_acts : GroupRun isFirst true twins twinsRun := by
  have hstart : GroupRun isFirst true twins twinsStarted :=
    .single ⟨.startImport _ _ (by decide +kernel) rfl, divided_of_plain (by decide +kernel) _⟩
  have hroot : (twinsStarted.tasks.get? ⟨0⟩).bind (fun task => task.work.root?) =
      some ⟨⟨0⟩, "main"⟩ := by decide +kernel
  have hturn : GroupRun isFirst true twins (Act.pollTask ⟨0⟩ twinsStarted).2 := by
    refine hstart.tail ⟨.turn ⟨0⟩ fun task root htask hof => ?_, divided_of_plain (by decide +kernel) _⟩
    rw [htask] at hroot
    cases hof.symm.trans hroot
    rfl
  exact hturn.tail ⟨.loadNow _ (by decide +kernel) rfl, divided_of_plain (by decide +kernel) _⟩

/-- The second compartment keeps its records while the first one makes its own from the same modules. -/
theorem isolated_twins : (DividedRun isFirst default twins ∧ GroupRun isFirst true twins twinsRun) ∧
    twins.Leaves twinsRun isFirst false ∧ (twins.lookup? ⟨⟨1⟩, "main"⟩).isSome = true ∧
      (twinsRun.lookup? ⟨⟨0⟩, "main"⟩).isSome = true :=
  ⟨⟨twins_divided, twinsRun_acts⟩, isolated twins_divided twinsRun_acts, by decide +kernel,
    by decide +kernel⟩

end Host

end ModuleLoader
