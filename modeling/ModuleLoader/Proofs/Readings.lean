import Mathlib.Logic.Relation
import ModuleLoader.Proofs.Setups
/-!
Runs of link batches and assignments. In every host of a run the names that belong together by the
declared bindings read alike, and an assignment is seen only where names lead to the local name.
-/

namespace ModuleLoader
set_option autoImplicit false

/-- The name that is read at a place. -/
def Place.name : Place → String
  | .scope _ name => name
  | .exports _ name => name

namespace Host

variable {host : Host}

/-- Two places read as one value, or neither has a value yet. -/
def ReadAlike (host : Host) (place other : Place) : Prop :=
  (∃ value, host.reading place = .ok value ∧ host.reading other = .ok value) ∨
    host.reading place = .error (.uninitialized place.name) ∧
      host.reading other = .error (.uninitialized other.name)

/-- What reading has to give by a binding of a linked record. -/
def ReadsBy (host : Host) (ref : Ref .record) : Binding → Prop
  | .importName name source => host.Towards ref source fun space =>
    host.ReadAlike (.scope ref name) (.exports space name)
  | .importAs name newName source => host.Towards ref source fun space =>
    host.ReadAlike (.scope ref newName) (.exports space name)
  | .exportName name => host.ReadAlike (.exports (host.record ref).space name) (.scope ref name)
  | .exportAs name newName =>
    host.ReadAlike (.exports (host.record ref).space newName) (.scope ref name)
  | .exportFrom name newName source => host.Towards ref source fun space =>
    host.ReadAlike (.exports (host.record ref).space newName) (.exports space name)
  | .importAll newName source => host.Towards ref source fun space =>
    host.reading (.scope ref newName) = .ok (.exports space)
  | .exportAllAs newName source => host.Towards ref source fun space =>
    host.reading (.exports (host.record ref).space newName) = .ok (.exports space)
  | .exportAll _ => True

theorem reading_of_slotAt? {place : Place} {slot : Ref .slot}
    (h : host.slotAt? place = some slot) :
    host.reading place = host.store.read slot place.name := by
  cases place with
  | scope ref name =>
    change Environment.read _ _ _ = _
    rw [slotAt?_scope] at h
    unfold Environment.read
    rw [h]
    rfl
  | exports space name =>
    have hslot : host.store.exportSlot? space name = some slot := h
    change Store.readExport _ _ _ = _
    unfold Store.readExport
    rw [hslot]
    rfl

theorem Shows.reading {place : Place} {space : Ref .exports} (h : host.Shows place space) :
    host.reading place = .ok (.exports space) := by
  obtain ⟨slot, hslot, hholds, -⟩ := h
  rw [reading_of_slotAt? hslot]
  unfold Store.read Store.slot?
  rw [hholds]
  rfl

theorem Alike.readAlike {place other : Place} (h : host.Alike place other) :
    host.ReadAlike place other := by
  rcases h with ⟨slot, hslot, hslot'⟩ | ⟨space, hshows, hshows'⟩
  · unfold ReadAlike
    rw [reading_of_slotAt? hslot, reading_of_slotAt? hslot']
    unfold Store.read
    cases host.store.slot? slot with
    | none => exact .inr ⟨rfl, rfl⟩
    | some value => exact .inl ⟨value, rfl, rfl⟩
  · exact .inl ⟨_, hshows.reading, hshows'.reading⟩

/-- What a binding means is how reading goes. -/
theorem Means.readsBy {ref : Ref .record} {binding : Binding} (h : host.Means ref binding) :
    host.ReadsBy ref binding := by
  cases binding with
  | importName name source =>
    obtain ⟨target, htarget, halike⟩ := h
    exact ⟨target, htarget, halike.readAlike⟩
  | importAs name newName source =>
    obtain ⟨target, htarget, halike⟩ := h
    exact ⟨target, htarget, halike.readAlike⟩
  | exportName name => exact Alike.readAlike h
  | exportAs name newName => exact Alike.readAlike h
  | exportFrom name newName source =>
    obtain ⟨target, htarget, halike⟩ := h
    exact ⟨target, htarget, halike.readAlike⟩
  | importAll newName source =>
    obtain ⟨target, htarget, hshows⟩ := h
    exact ⟨target, htarget, hshows.reading⟩
  | exportAllAs newName source =>
    obtain ⟨target, htarget, hshows⟩ := h
    exact ⟨target, htarget, hshows.reading⟩
  | exportAll source => exact trivial

/-- One step of a run, as scopes see it. -/
inductive Binds (host : Host) : Host → Prop where
  /-- The records of a closure that are loaded are linked together. -/
  | link (root : Node) : Binds host (host.linkedFrom root)
  /-- A linked module assigns a name of its own scope. -/
  | assign (ref : Ref .record) (name : String) (value : Value) :
      host.Linked ref → Binds host (Act.assignIn ref name value host).2
  /-- Anything else happens to no scope and no namespace, and loads stay in order. -/
  | other {host' : Host} : Undisturbed host host' → host'.LoadsInOrder → Binds host host'

/-- Every step keeps bindings live. -/
theorem Binds.bindingsLive {host' : Host} (h : host.Binds host') (hloads : host.LoadsInOrder)
    (hlive : host.BindingsLive) : host'.LoadsInOrder ∧ host'.BindingsLive := by
  cases h with
  | link root =>
    obtain ⟨hnodup, hloaded⟩ := unlinked_allLoaded hloads root
    obtain ⟨before, start, slots, hbegins, hlinks⟩ := Act.link_lives hloads hlive hnodup hloaded
    exact ⟨hlinks.loadsAlike.loadsInOrder (hbegins.loads.loadsInOrder hloads), hlinks.bindingsLive⟩
  | assign ref name value hlinked =>
    obtain ⟨record, hrecord, -⟩ := hlive.linked ref hlinked
    rcases Act.assignIn_assigns hlive.toTidy (by rw [hrecord]; rfl) name value with
      ⟨-, -, heq⟩ | ⟨-, -, slot, hassigned, -⟩
    · rw [heq]
      exact ⟨hloads, hlive⟩
    · exact ⟨hassigned.loads.loadsInOrder hloads, hassigned.bindingsLive hloads hlive hlinked⟩
  | other hundisturbed hloads' => exact ⟨hloads', hundisturbed.bindingsLive hloads hlive⟩

/-- Bindings are live in every host of a run. -/
theorem live_of_binds (h : Relation.ReflTransGen Binds default host) :
    host.LoadsInOrder ∧ host.BindingsLive := by
  induction h with
  | refl => exact ⟨fresh_sound.loads, fresh_sound.live⟩
  | tail _ hstep ih => exact hstep.bindingsLive ih.1 ih.2

end Host

namespace Act

/-- In every host of a run, the names that bindings of a linked record tie together read alike. The
record may assign any name but the imported ones, which refuse and leave all as it is, and what reads
differently then is what leads to the name assigned. -/
theorem reads_by_bindings {host : Host} (h : Relation.ReflTransGen Host.Binds default host)
    {ref : Ref .record} (hlinked : host.Linked ref) :
    (∀ binding ∈ (host.record ref).bindings, host.ReadsBy ref binding) ∧
      ∀ name value, After host (assignIn ref name value) fun result host' =>
        (name ∈ (host.record ref).bindings.filterMap Binding.importedName? ∧
          result = .error (.readOnlyBinding name) ∧ host' = host) ∨
        (name ∉ (host.record ref).bindings.filterMap Binding.importedName? ∧
          result = .ok () ∧ host'.reading (.scope ref name) = .ok value ∧
            ∀ place, host'.reading place ≠ host.reading place → host.Leads ref name place) := by
  obtain ⟨-, hlive⟩ := Host.live_of_binds h
  refine ⟨fun binding hmem => (hlive.means ref hlinked binding hmem).readsBy, fun name value => ?_⟩
  obtain ⟨record, hrecord, -⟩ := hlive.linked ref hlinked
  have href : (host.records.get? ref).isSome := by
    rw [hrecord]
    rfl
  refine (assignIn_assigns hlive.toTidy href name value).mono ?_
  rintro result host' (⟨himport, hrefused, heq⟩ | ⟨himport, hdone, slot, hassigned, hvalue⟩)
  · exact .inl ⟨(hlive.imports ref hlinked name).1 himport, hrefused, heq⟩
  · refine .inr ⟨fun hmem => himport ((hlive.imports ref hlinked name).2 hmem), hdone, ?_,
      fun place hplace => hassigned.reading hlive hplace⟩
    rw [Host.reading_of_slotAt? (Host.slotAt?_of_owns (hassigned.owns_iff.2 (.inl ⟨rfl, rfl, rfl⟩)))]
    unfold Store.read Store.slot?
    rw [hvalue]
    rfl

end Act

/-- Building a compartment and loading are steps that bind nothing. -/
theorem Host.binds_of_newCompartment {host : Host}
    (h : Relation.ReflTransGen Host.Binds default host) (plan : CompartmentPlan) :
    Relation.ReflTransGen Host.Binds default (Act.newCompartment plan host).2 := by
  have hloads := (live_of_binds h).1
  obtain ⟨middle, haside, hbuilds⟩ := Act.newCompartment_builds hloads.grounded plan
  have hquiet := haside.quiet
  have hmiddle := h.tail (.other hquiet.grows.undisturbed (hquiet.loadsInOrder hloads))
  rcases hbuilds with heq | ⟨compartment, hbuilds⟩
  · rw [heq]
    exact hmiddle
  · exact hmiddle.tail
      (.other hbuilds.undisturbed (hbuilds.loadsInOrder (hquiet.loadsInOrder hloads)))

theorem Host.binds_of_loadNow {host : Host} (h : Relation.ReflTransGen Host.Binds default host)
    {root : Node} (hroot : host.Built root.compartment) :
    Relation.ReflTransGen Host.Binds default (Act.loadNow root host).2 := by
  obtain ⟨hloads, hgrows, -⟩ := Act.loadNow_loads (live_of_binds h).1 hroot
  exact h.tail (.other hgrows.undisturbed hloads)

/-- A module that imports a name, and the module that exports and has assigned it. -/
def importing : Host :=
  (Act.loadNow ⟨⟨0⟩, "main"⟩ (Act.newCompartment (.simple "home"
    [("main", ChainKind.moduleOf [.importName "x" "other"] none),
     ("other", ChainKind.moduleOf [.exportName "x"] none)]) default).2).2

/-- The same, linked. -/
def linkedImporting : Host := importing.linkedFrom ⟨⟨0⟩, "main"⟩

theorem Act.reads_by_bindings_main :
    (Act.assignIn ⟨1⟩ "x" (.boolean true) linkedImporting).2.ReadsBy ⟨0⟩
      (.importName "x" "other") := by
  have hrun : Relation.ReflTransGen Host.Binds default importing :=
    Host.binds_of_loadNow (Host.binds_of_newCompartment .refl _) (by decide +kernel)
  have hlinked : Relation.ReflTransGen Host.Binds default linkedImporting := hrun.tail (.link _)
  have hassigned := hlinked.tail (.assign ⟨1⟩ "x" (.boolean true) (by decide +kernel))
  have hmain : (Act.assignIn ⟨1⟩ "x" (.boolean true) linkedImporting).2.Linked ⟨0⟩ := by
    decide +kernel
  exact (reads_by_bindings hassigned hmain).1 _ (by decide +kernel)

end ModuleLoader
