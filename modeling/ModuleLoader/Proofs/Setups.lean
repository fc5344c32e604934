import ModuleLoader.Proofs.Assignments
import ModuleLoader.Proofs.Drafts
import ModuleLoader.Session.Setup
/-!
A host without compartments is sound, and it stays sound when compartments are built.
-/

namespace ModuleLoader
set_option autoImplicit false

namespace Host

/-- What holds of the loads and the bindings of a host. -/
structure Sound (host : Host) : Prop where
  loads : host.LoadsInOrder
  live : host.BindingsLive

/-- The host in which nothing was built yet is sound. -/
theorem fresh_sound : (default : Host).Sound where
  loads :=
    { grounded :=
        { labels := fun _ _ h => nomatch h
          parents := fun _ _ h => nomatch h
          tables := fun _ _ _ h => nomatch h
          calls := fun _ _ _ h => nomatch h }
      memo := fun _ _ h => nomatch h
      kept := fun _ _ h => nomatch h
      flight := fun _ _ ⟨_, h⟩ => by rcases h with h | h <;> cases h
      delivered := fun _ _ _ h => nomatch h
      stands := fun _ _ h => nomatch h }
  live :=
    { homes := fun _ _ h => nomatch h
      exposed := fun _ _ h => nomatch h
      linked := fun _ h => nomatch h
      scope := fun _ _ => rfl
      spaces := fun _ _ h => nomatch h
      distinct := fun _ _ _ _ h => nomatch h
      slots := fun place _ h => by cases place <;> cases h
      owner := fun _ _ _ _ _ h => nomatch h
      leads := fun _ _ _ _ h => nomatch h
      means := fun _ h => nomatch h
      imports := fun _ h => nomatch h }

theorem Sound.grows {host host' : Host} (h : host.Sound) (hloads : host'.LoadsInOrder)
    (hgrows : Grows host host') : host'.Sound :=
  ⟨hloads, hgrows.undisturbed.bindingsLive h.loads h.live⟩

theorem Sound.quiet {host host' : Host} (h : host.Sound) (hquiet : Quiet host host') :
    host'.Sound :=
  h.grows (hquiet.loadsInOrder h.loads) hquiet.grows

end Host

/-- A compartment was built, with nothing memoized and nothing in flight. -/
structure Builds (host host' : Host) (compartment : Compartment) : Prop where
  rest : host' = { host with compartments := host'.compartments, labels := host'.labels }
  compartments : host'.compartments = host.compartments.push compartment
  labels : host'.labels = host.labels.insert compartment.label host.compartments.next
  memo : compartment.memo = .empty
  loading : compartment.loading = .empty
  calls : compartment.calls = .empty
  parent : ∀ parent, compartment.parent = some parent → host.Built parent
  table : ∀ key descriptor, compartment.table.get? key = some descriptor →
    descriptor.Grounded host

namespace Builds

variable {host host' : Host} {compartment : Compartment}

theorem built (h : Builds host host' compartment) (ref : Ref .compartment) :
    host'.Built ref ↔ ref = host.compartments.next ∨ host.Built ref := by
  unfold Host.Built
  rw [h.compartments, Arena.size_push, Nat.lt_succ_iff_lt_or_eq, or_comm]
  refine or_congr_left ⟨fun heq => ?_, fun heq => heq ▸ rfl⟩
  obtain ⟨index⟩ := ref
  exact congrArg Ref.mk heq

theorem compartment_eq (h : Builds host host' compartment) (ref : Ref .compartment) :
    host'.compartment ref =
      if ref = host.compartments.next then compartment else host.compartment ref := by
  unfold Host.compartment
  rw [h.compartments, Arena.get?_push]
  split <;> rfl

theorem compartment_next : host.compartment host.compartments.next = default := by
  unfold Host.compartment
  rw [Arena.get?_next]
  rfl

/-- What a new compartment has as well as no compartment does is unchanged everywhere. -/
theorem part (h : Builds host host' compartment) {α : Type} (f : Compartment → α)
    (hf : f compartment = f default) (ref : Ref .compartment) :
    f (host'.compartment ref) = f (host.compartment ref) := by
  rw [h.compartment_eq]
  split
  · rename_i heq
    rw [heq, compartment_next, hf]
  · rfl

theorem settings (h : Builds host host' compartment) {ref : Ref .compartment}
    (href : host.Built ref) : (host'.compartment ref).settings = (host.compartment ref).settings := by
  rw [h.compartment_eq, if_neg]
  rintro rfl
  exact Nat.lt_irrefl _ href

theorem entryAt? (h : Builds host host' compartment) (node : Node) :
    host'.entryAt? node = host.entryAt? node :=
  congrArg (Table.get? · node.key) (h.part Compartment.memo h.memo node.compartment)

theorem loadAt? (h : Builds host host' compartment) (node : Node) :
    host'.loadAt? node = host.loadAt? node :=
  congrArg (Table.get? · node.key) (h.part Compartment.loading h.loading node.compartment)

theorem promise? (h : Builds host host' compartment) (node : Node) :
    host'.promise? node = host.promise? node := by
  unfold Host.promise? Host.loadedInFlight?
  rw [h.entryAt? node, h.loadAt? node, h.rest]

theorem serves (h : Builds host host' compartment) (node : Node) (load : Ref .load) :
    host'.Serves node load ↔ host.Serves node load := by
  unfold Host.Serves
  rw [h.promise? node, h.rest]

theorem record (h : Builds host host' compartment) (ref : Ref .record) :
    host'.record ref = host.record ref := by
  rw [h.rest]
  rfl

theorem keeps (h : Builds host host' compartment) : Keeps host host' where
  built ref href := (h.built ref).2 (.inr href)
  records ref href := by
    rw [h.rest]
    exact href
  entryAt? node entry hentry := (h.entryAt? node).trans hentry
  promise? node record hrecord := (h.promise? node).trans hrecord
  serves node load hserves := (h.serves node load).2 hserves

theorem descriptor (h : Builds host host' compartment) {descriptor : Descriptor}
    (hgrounded : descriptor.Grounded host) : descriptor.Grounded host' := by
  unfold Descriptor.Grounded at hgrounded ⊢
  split
  · exact h.keeps.built _ hgrounded
  · trivial

theorem grounded (h : Builds host host' compartment) (hhost : host.Grounded) : host'.Grounded where
  labels label ref hlabel := by
    rw [h.labels, Table.get?_insert] at hlabel
    split at hlabel
    · exact (h.built ref).2 (.inl (Option.some.inj hlabel).symm)
    · exact (h.built ref).2 (.inr (hhost.labels label ref hlabel))
  parents ref parent hparent := by
    rw [h.compartment_eq] at hparent
    split at hparent
    · exact h.keeps.built parent (h.parent parent hparent)
    · exact h.keeps.built parent (hhost.parents ref parent hparent)
  tables ref key descriptor hdescriptor := by
    rw [h.compartment_eq] at hdescriptor
    split at hdescriptor
    · exact h.descriptor (h.table key descriptor hdescriptor)
    · exact h.descriptor (hhost.tables ref key descriptor hdescriptor)
  calls call shared descriptor hcall houtput := by
    rw [h.rest] at hcall
    exact h.descriptor (hhost.calls call shared descriptor hcall houtput)

theorem stage_valid (h : Builds host host' compartment) {stage : LoadStage}
    (hstage : stage.Valid host) : stage.Valid host' := by
  cases stage with
  | fresh => trivial
  | describing call => trivial
  | following visited node call => exact h.keeps.built _ hstage
  | borrowing target watch => exact ⟨h.keeps.built _ hstage.1, (h.serves _ _).2 hstage.2⟩

theorem loadsInOrder (h : Builds host host' compartment) (hhost : host.LoadsInOrder) :
    host'.LoadsInOrder where
  grounded := h.grounded hhost.grounded
  memo node entry hentry :=
    h.keeps.entry_valid (hhost.memo node entry ((h.entryAt? node).symm.trans hentry))
  kept node load hload := by
    rw [h.loadAt? node] at hload
    rw [h.entryAt? node, h.serves node load]
    exact hhost.kept node load hload
  flight load work hwork := by
    unfold Host.InFlight at hwork
    rw [h.rest] at hwork
    obtain ⟨hbuilt, hload, hstage⟩ := hhost.flight load work hwork
    exact ⟨h.keeps.built _ hbuilt, (h.loadAt? _).trans hload, h.stage_valid hstage⟩
  delivered load bell delivery hload := by
    rw [h.rest] at hload
    have hdelivery := hhost.delivered load bell delivery hload
    exact ⟨h.keeps.entry_valid hdelivery.entry, fun node hmem =>
      h.keeps.built _ (hdelivery.built node hmem)⟩
  stands node target hmem := by
    have hdriven : host'.Driven node ↔ host.Driven node := by
      unfold Host.Driven
      rw [h.rest]
    rw [h.promise? node, h.promise? target, hdriven]
    rw [h.rest] at hmem
    exact hhost.stands node target hmem

theorem later (h : Builds host host' compartment) : Later host host' where
  keeps := h.keeps
  records ref record hrecord := by
    rw [h.rest]
    exact ⟨record, hrecord, .refl record⟩
  settings _ href := h.settings href
  chronicle := by
    have hsame : host'.chronicle = host.chronicle := by rw [h.rest]
    exact hsame ▸ List.suffix_refl _

theorem undisturbed (h : Builds host host' compartment) : Undisturbed host host' where
  later := h.later
  scope ref := by rw [h.record]
  linked ref hlinked := by
    rw [h.rest] at hlinked
    exact hlinked
  slots := .of_eq (by rw [h.rest])
  spaces := .of_eq (by rw [h.rest])
  placed ref space hnone hsome := by
    rw [h.rest] at hsome
    exact nomatch hnone.symm.trans hsome
  newborn ref record hnone hsome := by
    rw [h.rest] at hsome
    exact nomatch hnone.symm.trans hsome
  distinct ref other record record' hnone _ hsome := by
    rw [h.rest] at hsome
    exact nomatch hnone.symm.trans hsome

theorem sound (h : Builds host host' compartment) (hsound : host.Sound) : host'.Sound :=
  ⟨h.loadsInOrder hsound.loads, h.undisturbed.bindingsLive hsound.loads hsound.live⟩

end Builds

namespace Act

theorem buildAll_aside (home : String) : ∀ modules : List (String × Blueprint),
    (buildAll home modules).IsAside
  | [] => .pure _
  | (key, blueprint) :: rest => by
    refine (build_aside home blueprint).bind fun result => ?_
    cases result with
    | error failure => exact .pure _
    | ok descriptor =>
      refine (buildAll_aside home rest).bind fun result => ?_
      cases result <;> exact .pure _

/-- Descriptors that are built mention only compartments that were built. -/
theorem buildAll_grounded (home : String) : ∀ (modules : List (String × Blueprint)) {host : Host},
    host.Grounded → After host (buildAll home modules) fun result host' =>
      ∀ descriptors, result = .ok descriptors → ∀ pair ∈ descriptors, pair.2.Grounded host'
  | [], host, _ => by
    rintro _ ⟨⟩ pair ⟨⟩
  | (key, blueprint) :: rest, host, h => by
    unfold buildAll
    rw [after_bind]
    have hfirst : After host (build home blueprint) fun result host' =>
        Quiet host host' ∧ ∀ descriptor, result = .ok descriptor → descriptor.Grounded host' :=
      After.and ((build_aside home blueprint).quiet host) (build_grounded h home blueprint)
    refine hfirst.mono fun result middle ⟨hquiet, hgrounded⟩ => ?_
    cases result with
    | error failure =>
      rintro _ ⟨⟩
    | ok descriptor =>
      rw [after_bind]
      have hrest : After middle (buildAll home rest) fun result host' => Quiet middle host' ∧
          ∀ descriptors, result = .ok descriptors → ∀ pair ∈ descriptors, pair.2.Grounded host' :=
        After.and ((buildAll_aside home rest).quiet middle)
          (buildAll_grounded home rest (hquiet.grounded h))
      refine hrest.mono fun result last ⟨hquiet', hall⟩ => ?_
      cases result with
      | error failure =>
        rintro _ ⟨⟩
      | ok others =>
        rintro _ ⟨⟩ pair hmem
        rcases List.mem_cons.1 hmem with rfl | hmem
        · exact (hquiet'.descriptor_grounded descriptor).2 (hgrounded descriptor rfl)
        · exact hall others rfl pair hmem

/-- A value in a table made of pairs is the value of one of them. -/
theorem mem_of_get?_ofList {α : Type} {pairs : List (String × α)} {name : String} {value : α}
    (h : (Table.ofList pairs).get? name = some value) : (name, value) ∈ pairs := by
  rcases Table.get?_insertAll id name pairs Table.empty with ⟨found, hmem, hget⟩ | ⟨-, hget⟩
  · cases hget.symm.trans h
    exact hmem
  · cases hget.symm.trans h

/-- A compartment was built, or nothing came of it but objects. -/
theorem newCompartment_builds {host : Host} (h : host.Grounded) (plan : CompartmentPlan) :
    After host (newCompartment plan) fun _ host' => ∃ middle, Aside host middle ∧
      (host' = middle ∨ ∃ compartment, Builds middle host' compartment) := by
  unfold newCompartment
  cases settingsOf plan with
  | error failure => exact ⟨host, .refl host, .inl rfl⟩
  | ok settings =>
    dsimp only
    rw [after_bind]
    have hbuild : After host (buildAll plan.label plan.modules) fun result host' =>
        Aside host host' ∧
          ∀ descriptors, result = .ok descriptors → ∀ pair ∈ descriptors, pair.2.Grounded host' :=
      After.and (buildAll_aside plan.label plan.modules host)
        (buildAll_grounded plan.label plan.modules h)
    refine hbuild.mono fun result middle ⟨haside, hgrounded⟩ => ⟨middle, haside, ?_⟩
    cases result with
    | error failure => exact .inl rfl
    | ok descriptors =>
      refine .inr ⟨_, rfl, rfl, rfl, rfl, rfl, rfl, fun parent hparent => ?_, fun key descriptor hget => ?_⟩
      · obtain ⟨label, -, hlabel⟩ := Option.bind_eq_some_iff.1 hparent
        exact (haside.quiet.grounded h).labels label parent hlabel
      · exact hgrounded descriptors rfl _ (mem_of_get?_ofList hget)

/-- Building a compartment keeps a host sound. -/
theorem newCompartment_sound {host : Host} (h : host.Sound) (plan : CompartmentPlan) :
    After host (newCompartment plan) fun _ host' => host'.Sound ∧ Later host host' := by
  refine (newCompartment_builds h.loads.grounded plan).mono fun _ host' hbuilds => ?_
  obtain ⟨middle, haside, rfl | ⟨compartment, hbuilds⟩⟩ := hbuilds
  all_goals have hquiet := haside.quiet
  · exact ⟨h.quiet hquiet, hquiet.grows.later⟩
  · exact ⟨hbuilds.sound (h.quiet hquiet), hquiet.grows.later.trans hbuilds.later⟩

/-- Loading without waiting keeps a host sound. -/
theorem loadNow_sound {host : Host} (h : host.Sound) {root : Node}
    (hroot : host.Built root.compartment) :
    After host (loadNow root) fun _ host' => host'.Sound ∧ Later host host' :=
  After.mono (loadNow_loads h.loads hroot) fun _ _ ⟨hloads, hgrows, _⟩ =>
    ⟨h.grows hloads hgrows, hgrows.later⟩

end Act

/-- A compartment with a static table and no hooks, whose keys are the specifiers. -/
def CompartmentPlan.simple (label : String) (modules : List (String × Blueprint)) :
    CompartmentPlan :=
  { label, modules, settings := none, name := none, parent := none, resolver := .prepend ""
    loadHook := none, nowHook := none, metaHook := none, hasEvaluator := false }

end ModuleLoader
