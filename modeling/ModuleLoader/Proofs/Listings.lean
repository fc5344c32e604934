import ModuleLoader.Proofs.Forwardings
import ModuleLoader.Proofs.Readings
import ModuleLoader.Proofs.Sessions
/-!
What the namespace of a linked record lists: the names that a search finds on the record, which are
the names that others import from it, those linked together with it and those linked any time later. A
record that fails later on gives its failure instead, though its namespace lists what it did.
-/

namespace ModuleLoader
set_option autoImplicit false

namespace Batch

variable {batch : Batch} {unit : LinkUnit}

/-- A record can import a name by a specifier. -/
def CanImport (batch : Batch) (unit : LinkUnit) (name source : String) : Prop :=
  ∃ origin, batch.importOrigin unit name source = .ok origin

theorem importOrigin_of_target {name source : String} {target : Ref .record}
    (htarget : unit.target source = .ok target) :
    batch.importOrigin unit name source =
      match batch.originOf target name with
      | .error failure => .error failure
      | .ok (some origin) => .ok origin
      | .ok none => .error (.link unit.key (.missingExport source name)) := by
  unfold importOrigin
  exact htarget ▸ rfl

/-- What can be imported from a record is what a search finds on it. -/
theorem canImport_iff {name source : String} {target : Ref .record}
    (htarget : unit.target source = .ok target) : batch.CanImport unit name source ↔
      ∃ origin, batch.originOf target name = .ok (some origin) := by
  unfold CanImport
  rw [importOrigin_of_target htarget]
  rcases batch.originOf target name with failure | (_ | origin) <;> simp

/-- A wiring has every name that is exported explicitly. -/
theorem Wired.mem_explicit (hproper : batch.Proper) (hunit : unit ∈ batch.units) {wiring : Wiring}
    (h : batch.Wired unit wiring)
    (hanswers : ∀ source target, unit.target source = .ok target → batch.Answers target)
    {name : String} (hname : name ∈ unit.explicitNames) : ∃ origin, (name, origin) ∈ wiring.exports := by
  obtain ⟨binding, hmem, hexported⟩ := List.mem_filterMap.1 hname
  cases binding with
  | exportName own =>
    cases hexported
    rcases h.exportName hproper hunit hanswers hmem with ⟨hin, -⟩ | ⟨origin, -, hin⟩
    · exact ⟨_, hin⟩
    · exact ⟨origin, hin⟩
  | exportAs own newName =>
    cases hexported
    rcases h.exportAs hproper hunit hanswers hmem with ⟨hin, -⟩ | ⟨origin, -, hin⟩
    · exact ⟨_, hin⟩
    · exact ⟨origin, hin⟩
  | exportFrom remote newName source =>
    cases hexported
    obtain ⟨-, origin, -, hin, -⟩ := h.exportFrom hproper hunit hanswers hmem
    exact ⟨origin, hin⟩
  | exportAllAs newName source =>
    cases hexported
    obtain ⟨target, -, hin⟩ := h.exportAllAs hproper hunit hmem
    exact ⟨_, hin⟩
  | importName | importAs | importAll | exportAll => cases hexported

end Batch

namespace Host

variable {host host' later : Host} {ref : Ref .record}

/-- The record was linked, and its namespace lists the same names at the same slots ever since. -/
structure StaysListed (host host' : Host) (ref : Ref .record) : Prop where
  linked : host'.Linked ref
  space : (host'.record ref).space = (host.record ref).space
  exports : (host'.store.space (host.record ref).space).exports =
    (host.store.space (host.record ref).space).exports

theorem StaysListed.trans (h : host.StaysListed host' ref) (h' : host'.StaysListed later ref) :
    host.StaysListed later ref where
  linked := h'.linked
  space := h'.space.trans h.space
  exports := by
    rw [← h.exports, ← h.space]
    exact h'.exports

theorem StaysListed.hasExport (h : host.StaysListed host' ref) (name : String) :
    host'.HasExport ref name ↔ host.HasExport ref name := by
  unfold HasExport
  rw [slotAt?_exports, slotAt?_exports, h.space, h.exports]

theorem allLoaded_of_phase {refs : List (Ref .record)} (h : ∀ ref ∈ refs,
    (host.records.get? ref).isSome ∧ (host.record ref).phase = .loaded) : host.AllLoaded refs := by
  intro ref hmem
  obtain ⟨hexist, hphase⟩ := h ref hmem
  obtain ⟨record, hrecord⟩ := Option.isSome_iff_exists.1 hexist
  rw [Host.record, hrecord] at hphase
  exact ⟨record, hrecord, hphase⟩

/-- One step of a run, as namespaces see it. -/
inductive Proceeds (host : Host) : Host → Prop where
  /-- Records that are loaded are linked together. -/
  | link {refs : List (Ref .record)} : refs.Nodup → host.AllLoaded refs →
      Proceeds host (Act.link refs host).2
  /-- A name gets a value in the scope of a record. -/
  | assign (ref : Ref .record) (name : String) (value : Value) : (host.records.get? ref).isSome →
      Proceeds host (Act.assignIn ref name value host).2
  /-- A name on a namespace gets a value. -/
  | setExport (node : Node) (name : String) (value : Value) :
      Proceeds host (Act.setExport node name value host).2
  /-- Anything else happens to no scope and no namespace, and loads stay in order. -/
  | other {host' : Host} : Undisturbed host host' → host'.LoadsInOrder → Proceeds host host'

end Host

/-- At most one slot gets a value. -/
theorem Act.setExport_sets (host : Host) (node : Node) (name : String) (value : Value) :
    After host (setExport node name value) fun _ host' => host' = host ∨ ∃ slot,
      host' = { host with store := (Store.setSlot slot value host.store).2 } := by
  unfold setExport
  rw [after_bind, after_get]
  split
  · exact .inl rfl
  · rename_i slot _
    exact .inr ⟨slot, rfl⟩

/-- Linking other records leaves the namespace of a linked record as it is. -/
theorem Act.Links.staysListed {host before start host' : Host} {refs : List (Ref .record)}
    {slots : List (Ref .record × List (String × Ref .slot))} {ref : Ref .record}
    (h : Links before start host' refs slots) (hbegins : Begins host before refs)
    (htidy : host.Tidy) (hlinked : host.Linked ref) : host.StaysListed host' ref := by
  have hbefore : before.Linked ref := hbegins.moves.chronicle.subset hlinked
  have hspace : (before.record ref).space = (host.record ref).space := hbegins.space ref
  refine ⟨(h.linked ref).2 (.inl hbefore), (h.space ref).trans hspace, ?_⟩
  rw [← hspace, h.exports fun unit wiring hcommits hsame => ?_, hbegins.rest]
  -- The record of a unit is loaded, and so another one, with a namespace of its own.
  have hmem := (mem_refs hcommits.mem).1
  obtain ⟨record, hrecord, hsource, -⟩ := h.tidy.linked ref hbefore
  obtain ⟨other, hblank, hsource'⟩ := Act.Begins.blank hbegins htidy hmem
  have heq := h.tidy.distinct unit.record ref other record hblank.get hrecord hsource' hsource (by
    rw [Host.record, Host.record, hblank.get, hrecord] at hsame
    exact hsame)
  exact h.not_linked hmem (heq ▸ hbefore)

namespace Host

variable {host host' later : Host} {ref : Ref .record}

/-- A slot that gets a value stays where it is. -/
theorem Tidy.setSlot (h : host.Tidy) (slot : Ref .slot) (value : Value) :
    Host.Tidy { host with store := (Store.setSlot slot value host.store).2 } where
  homes := h.homes
  exposed := h.exposed
  linked := h.linked
  spaces := h.spaces
  distinct := h.distinct
  slots place found hfound := by
    have hthere := h.slots place found (by cases place <;> exact hfound)
    change ((host.store.slots.modify slot _).get? found).isSome
    rw [Arena.get?_modify]
    split
    · rw [Option.isSome_map]
      exact hthere
    · exact hthere

/-- Every step keeps the namespaces of linked records, and what is in order stays so. -/
theorem Proceeds.keeps (h : host.Proceeds host') (hloads : host.LoadsInOrder) (htidy : host.Tidy) :
    host'.LoadsInOrder ∧ host'.Tidy ∧ ∀ ref, host.Linked ref → host.StaysListed host' ref := by
  cases h with
  | link hnodup hloaded =>
    obtain ⟨before, start, slots, hbegins, hlinks⟩ := Act.link_links hloads htidy hnodup hloaded
    exact ⟨hlinks.loadsAlike.loadsInOrder (hbegins.loads.loadsInOrder hloads), hlinks.tidy_after,
      fun ref hlinked => hlinks.staysListed hbegins htidy hlinked⟩
  | assign record name value hrecord =>
    rcases Act.assignIn_assigns htidy hrecord name value with ⟨-, -, heq⟩ | ⟨-, -, slot, hassigned, -⟩
    · rw [heq]
      exact ⟨hloads, htidy, fun ref hlinked => ⟨hlinked, rfl, rfl⟩⟩
    · refine ⟨hassigned.loads.loadsInOrder hloads, hassigned.tidy htidy, fun ref hlinked => ?_⟩
      obtain ⟨record, hrecord, -⟩ := htidy.linked ref hlinked
      refine ⟨(hassigned.linked ref).2 hlinked,
        (hassigned.later.record (hrecord ▸ rfl : (host.records.get? ref).isSome)).space, ?_⟩
      unfold Store.space
      rw [hassigned.spaces]
  | setExport node name value =>
    rcases Act.setExport_sets host node name value with heq | ⟨slot, heq⟩
    · rw [heq]
      exact ⟨hloads, htidy, fun ref hlinked => ⟨hlinked, rfl, rfl⟩⟩
    · rw [heq]
      have hloads' : LoadsAlike host { host with store := (Store.setSlot slot value host.store).2 } :=
        ⟨rfl, rfl, rfl, rfl, fun _ => id, fun _ _ => id⟩
      exact ⟨hloads'.loadsInOrder hloads, htidy.setSlot slot value,
        fun ref hlinked => ⟨hlinked, rfl, rfl⟩⟩
  | other hundisturbed hloads' =>
    refine ⟨hloads', hundisturbed.tidy htidy, fun ref hlinked => ?_⟩
    obtain ⟨record, hrecord, hsource, -⟩ := htidy.linked ref hlinked
    obtain ⟨space, hspace, -⟩ := htidy.spaces ref record hrecord hsource
    refine ⟨hundisturbed.later.chronicle.subset hlinked,
      (hundisturbed.later.record (hrecord ▸ rfl : (host.records.get? ref).isSome)).space, ?_⟩
    unfold Store.space Host.record
    rw [hrecord, Option.getD_some, hspace, hundisturbed.spaces _ _ hspace]

/-- So does every run. -/
theorem keeps_of_proceeds (h : Relation.ReflTransGen Proceeds host host')
    (hloads : host.LoadsInOrder) (htidy : host.Tidy) (hlinked : host.Linked ref) :
    host'.LoadsInOrder ∧ host'.Tidy ∧ host.StaysListed host' ref := by
  induction h with
  | refl => exact ⟨hloads, htidy, hlinked, rfl, rfl⟩
  | tail _ hstep ih =>
    obtain ⟨hloads, htidy, hlisted⟩ := ih
    obtain ⟨hloads', htidy', hkeeps⟩ := hstep.keeps hloads htidy
    exact ⟨hloads', htidy', hlisted.trans (hkeeps ref hlisted.linked)⟩

/-- A linked record answers a search by another batch from its namespace, or with its failure. -/
theorem originOf_of_linked (htidy : host.Tidy) (hlinked : host.Linked ref)
    {refs : List (Ref .record)} (hloaded : host.AllLoaded refs) (name : String) :
    (Batch.ofRecords host refs).originOf ref name =
      if (host.record ref).phase = .failed then .error (host.record ref).failure
      else .ok ((host.slotAt? (.exports (host.record ref).space name)).map .slot) := by
  have hexist (other : Ref .record) (hmem : other ∈ refs) : (host.records.get? other).isSome := by
    obtain ⟨record, hrecord, -⟩ := hloaded other hmem
    rw [hrecord]
    rfl
  have hunit : (Batch.ofRecords host refs).unitOf ref = none := by
    rw [Batch.unitOf_ofRecords hexist, if_neg]
    intro hmem
    obtain ⟨record, hrecord, hphase⟩ := hloaded ref hmem
    obtain ⟨record', hrecord', -, hrank⟩ := htidy.linked ref hlinked
    obtain rfl : record = record' := Option.some.inj (hrecord.symm.trans hrecord')
    rw [hphase] at hrank
    exact absurd hrank (by decide)
  rw [Batch.originOf_outside hunit]
  change (Batch.exported host ref).map _ = _
  unfold Batch.exported
  dsimp only
  split <;> rfl

/-- What the namespace of a linked record lists, and what others can import from it: records linked
together with it as `refs` in `host`, and records linked later than `host'`. -/
structure ListsImportable (host host' : Host) (refs : List (Ref .record)) (ref : Ref .record) :
    Prop where
  found : ∀ name, host'.HasExport ref name ↔
    ∃ origin, (Batch.ofRecords host refs).originOf ref name = .ok (some origin)
  explicit : ∀ binding ∈ (host.record ref).bindings, ∀ name, binding.exportedName? = some name →
    host'.HasExport ref name
  imported : ∀ importer ∈ refs, ∀ source, host.target? importer source = some ref → ∀ name,
    (Batch.ofRecords host refs).CanImport (Batch.describe host importer) name source ↔
      host'.HasExport ref name
  later : ∀ later, Relation.ReflTransGen Proceeds host' later → ∀ others, others.Nodup →
    later.AllLoaded others → ∀ importer ∈ others, ∀ source, later.target? importer source = some ref →
      ∀ name,
        ((later.record ref).phase ≠ .failed →
          ((Batch.ofRecords later others).CanImport (Batch.describe later importer) name source ↔
            host'.HasExport ref name)) ∧
        ((later.record ref).phase = .failed →
          (Batch.ofRecords later others).importOrigin (Batch.describe later importer) name source =
            .error (later.record ref).failure)

end Host

namespace Act

/-- The namespace of a record that gets linked lists exactly the names that a search finds on it, all
that it exports explicitly among them. They are the names that a record of the batch can import from it,
and a record of any later batch, unless it failed meanwhile: from then on an import gives its failure. -/
theorem link_lists {host : Host} (hloads : host.LoadsInOrder) (htidy : host.Tidy)
    {refs : List (Ref .record)} (hnodup : refs.Nodup) (hloaded : host.AllLoaded refs) :
    After host (link refs) fun _ host' => ∀ ref ∈ refs, (host'.record ref).phase = .linked →
      host.ListsImportable host' refs ref := by
  refine (link_links hloads htidy hnodup hloaded).mono fun _ host' hlinks => ?_
  obtain ⟨before, start, slots, hbegins, hlinks⟩ := hlinks
  intro ref hmem hphase
  rcases hlinks.settled hmem with ⟨unit, wiring, hcommits, heq, -⟩ | ⟨-, failure, -, hfailed⟩
  · have hunit : unit = Batch.describe host ref := by
      rw [(Links.mem_refs hcommits.mem).2, heq, hbegins.describe]
    have hfound (name : String) : host'.HasExport ref name ↔
        ∃ origin, (Batch.ofRecords host refs).originOf ref name = .ok (some origin) := by
      rw [← hbegins.ofRecords, hlinks.originOf_iff (.inl ⟨unit, wiring, hcommits, heq⟩),
        Host.forwards_of_mem hmem]
    refine ⟨hfound, fun binding hbinding name hname => ?_, fun importer himporter source hsource name => ?_,
      fun later hlater others hothers hothersLoaded importer himporter source hsource name => ?_⟩
    · have hexplicit : name ∈ unit.explicitNames :=
        List.mem_filterMap.2 ⟨binding, by rw [hunit]; exact hbinding, hname⟩
      have hwired := Batch.wired_of_wire hcommits.wired
      obtain ⟨origin, horigin⟩ := hwired.mem_explicit hlinks.proper hcommits.mem
        (hlinks.answers' hcommits) hexplicit
      rw [hfound, ← hbegins.ofRecords, ← heq]
      exact ⟨origin, hwired.export_origin horigin⟩
    · rw [hfound, Batch.canImport_iff (Batch.target_describe.2 hsource)]
    · have hlinked : host'.Linked ref := (hlinks.linked ref).2 (.inr ⟨unit, wiring, hcommits, heq⟩)
      obtain ⟨-, htidy', hlisted⟩ := Host.keeps_of_proceeds hlater
        (hlinks.loadsAlike.loadsInOrder (hbegins.loads.loadsInOrder hloads)) hlinks.tidy_after hlinked
      have horigin := Host.originOf_of_linked htidy' hlisted.linked hothersLoaded name
      have htarget := Batch.target_describe.2 hsource
      constructor
      · intro hphase
        rw [Batch.canImport_iff htarget, horigin, if_neg hphase, ← hlisted.hasExport, Host.HasExport]
        cases later.slotAt? (.exports (later.record ref).space name) <;> simp
      · intro hphase
        rw [Batch.importOrigin_of_target htarget, horigin, if_pos hphase]
  · have hrecord : host'.record ref = _ := congrArg (Option.getD · default) hfailed
    rw [hrecord] at hphase
    cases hphase

/-- The exported name is on the namespace, and the other module can import it in a batch of its own. -/
theorem link_lists_other :
    (link [⟨1⟩] importing).2.HasExport ⟨1⟩ "x" ∧
      (Batch.ofRecords (link [⟨1⟩] importing).2 [⟨0⟩]).CanImport
        (Batch.describe (link [⟨1⟩] importing).2 ⟨0⟩) "x" "other" := by
  have hsound : importing.Sound :=
    (loadNow_sound (newCompartment_sound Host.fresh_sound _).1 (by decide +kernel)).1
  have hlists := link_lists hsound.loads hsound.live.toTidy (List.nodup_singleton (⟨1⟩ : Ref .record))
    (Host.allLoaded_of_phase (by decide +kernel)) ⟨1⟩ List.mem_cons_self (by decide +kernel)
  have hlisted : (link [⟨1⟩] importing).2.HasExport ⟨1⟩ "x" := by decide +kernel
  exact ⟨hlisted, ((hlists.later _ .refl [⟨0⟩] (List.nodup_singleton _)
    (Host.allLoaded_of_phase (by decide +kernel)) ⟨0⟩
    List.mem_cons_self "other" (by decide +kernel) "x").1 (by decide +kernel)).2 hlisted⟩

end Act

/-- A module that imports a name, and the module that exports it, whose body throws. -/
def importingThrown : Host :=
  (Act.loadNow ⟨⟨0⟩, "main"⟩ (Act.newCompartment (.simple "home"
    [("main", ChainKind.moduleOf [.importName "x" "other"] none),
     ("other", ChainKind.moduleOf [.exportName "x"] (some [.raise (.string "boom")]))]) default).2).2

/-- The module that exports was imported by itself. -/
def thrown : Host := (Act.importNow Act.lookOutside ⟨⟨0⟩, "other"⟩ importingThrown).2

theorem thrown_run : Host.Run default thrown :=
  .tail (.tail (.single (.build _)) (.loadNow ⟨⟨0⟩, "main"⟩ (by decide +kernel)))
    (.importNow ⟨⟨0⟩, "other"⟩ (by decide +kernel))

namespace Act

/-- The module was linked, with the name on its namespace, and then failed. The other one is loaded and
cannot import the name. -/
theorem thrown_lists_unimportable :
    Host.Run default thrown ∧ thrown.Linked ⟨1⟩ ∧ thrown.HasExport ⟨1⟩ "x" ∧
      thrown.AllLoaded [⟨0⟩] ∧ thrown.target? ⟨0⟩ "other" = some ⟨1⟩ ∧
        ¬ (Batch.ofRecords thrown [⟨0⟩]).CanImport (Batch.describe thrown ⟨0⟩) "x" "other" := by
  refine ⟨thrown_run, by decide +kernel, by decide +kernel,
    Host.allLoaded_of_phase (by decide +kernel), by decide +kernel, ?_⟩
  have htarget : thrown.target? ⟨0⟩ "other" = some ⟨1⟩ := by decide +kernel
  rw [Batch.canImport_iff (Batch.target_describe.2 htarget)]
  rintro ⟨origin, horigin⟩
  have hfails : ((Batch.ofRecords thrown [⟨0⟩]).originOf ⟨1⟩ "x").toOption = none := by decide +kernel
  rw [horigin] at hfails
  cases hfails

end Act

end ModuleLoader
