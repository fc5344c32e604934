import ModuleLoader.Loading.Draft
import ModuleLoader.Proofs.Actions
/-!
Quiet actions change signals, gates, objects, the journal and the calls of load hooks, and nothing
else: all descriptions of modules are obtained by them.

Along the way every reference to a compartment stays one to a compartment that was built.
-/

namespace ModuleLoader
set_option autoImplicit false

/-- The compartment was built. -/
def Host.Built (host : Host) (ref : Ref .compartment) : Prop :=
  ref.index < host.compartments.size

instance (host : Host) (ref : Ref .compartment) : Decidable (host.Built ref) :=
  inferInstanceAs (Decidable (_ < _))

/-- A descriptor mentions only compartments that were built. -/
def Descriptor.Grounded (host : Host) : Descriptor → Prop
  | .instanceAlias _ (some owner) => host.Built owner
  | _ => True

/-- Whatever labels, parents and descriptors mention was built. -/
structure Host.Grounded (host : Host) : Prop where
  labels : ∀ label ref, host.labels.get? label = some ref → host.Built ref
  parents : ∀ ref parent, (host.compartment ref).parent = some parent → host.Built parent
  tables : ∀ ref key descriptor,
    (host.compartment ref).table.get? key = some descriptor → descriptor.Grounded host
  calls : ∀ call shared descriptor, host.calls.get? call = some shared →
    shared.output? = some (.ok (some descriptor)) → descriptor.Grounded host

/-- At most signals, gates, objects, the journal and counts of calls changed. -/
def Aside (host host' : Host) : Prop :=
  ∃ (board : Board) (gates : Table Gate) (named : Table (Ref .object))
    (objects : Arena .object ObjectState) (counts : Table (Table Nat)) (journal : Array Event),
    host' = { host with
      board, gates, named, journal
      callCounts := counts
      store := { host.store with objects } }

namespace Aside

theorem refl (host : Host) : Aside host host :=
  ⟨_, _, _, _, _, _, rfl⟩

theorem trans {a b c : Host} (hab : Aside a b) (hbc : Aside b c) : Aside a c := by
  obtain ⟨_, _, _, _, _, _, rfl⟩ := hab
  obtain ⟨_, _, _, _, _, _, rfl⟩ := hbc
  exact ⟨_, _, _, _, _, _, rfl⟩

theorem calls {host host' : Host} (h : Aside host host') : host'.calls = host.calls := by
  obtain ⟨_, _, _, _, _, _, rfl⟩ := h
  rfl

end Aside

/-- What a quiet action leaves alone. -/
structure Quiet (host host' : Host) : Prop where
  records : host'.records = host.records
  loads : host'.loads = host.loads
  readies : host'.readies = host.readies
  drivers : host'.drivers = host.drivers
  verdicts : host'.verdicts = host.verdicts
  tasks : host'.tasks = host.tasks
  labels : host'.labels = host.labels
  chronicle : host'.chronicle = host.chronicle
  slots : host'.store.slots = host.store.slots
  spaces : host'.store.spaces = host.store.spaces
  size : host'.compartments.size = host.compartments.size
  compartment : ∀ ref, { host'.compartment ref with calls := .empty } =
    { host.compartment ref with calls := .empty }
  grounded : host.Grounded → host'.Grounded

namespace Quiet

theorem refl (host : Host) : Quiet host host :=
  ⟨rfl, rfl, rfl, rfl, rfl, rfl, rfl, rfl, rfl, rfl, rfl, fun _ => rfl, id⟩

theorem trans {a b c : Host} (hab : Quiet a b) (hbc : Quiet b c) : Quiet a c where
  records := hbc.records.trans hab.records
  loads := hbc.loads.trans hab.loads
  readies := hbc.readies.trans hab.readies
  drivers := hbc.drivers.trans hab.drivers
  verdicts := hbc.verdicts.trans hab.verdicts
  tasks := hbc.tasks.trans hab.tasks
  labels := hbc.labels.trans hab.labels
  chronicle := hbc.chronicle.trans hab.chronicle
  slots := hbc.slots.trans hab.slots
  spaces := hbc.spaces.trans hab.spaces
  size := hbc.size.trans hab.size
  compartment ref := (hbc.compartment ref).trans (hab.compartment ref)
  grounded h := hbc.grounded (hab.grounded h)

variable {host host' : Host}

theorem built (h : Quiet host host') (ref : Ref .compartment) :
    host'.Built ref ↔ host.Built ref := by
  unfold Host.Built
  rw [h.size]

theorem descriptor_grounded (h : Quiet host host') (descriptor : Descriptor) :
    descriptor.Grounded host' ↔ descriptor.Grounded host := by
  unfold Descriptor.Grounded
  split
  · exact h.built _
  · exact Iff.rfl

/-- Every part of a compartment but its calls is left alone. -/
theorem part {α : Type} (h : Quiet host host') (ref : Ref .compartment) (f : Compartment → α)
    (hf : ∀ compartment, f { compartment with calls := .empty } = f compartment) :
    f (host'.compartment ref) = f (host.compartment ref) := by
  rw [← hf (host'.compartment ref), h.compartment ref, hf]

theorem entryAt? (h : Quiet host host') (node : Node) :
    host'.entryAt? node = host.entryAt? node := by
  unfold Host.entryAt?
  rw [h.part node.compartment Compartment.memo fun _ => rfl]

theorem record (h : Quiet host host') (ref : Ref .record) :
    host'.record ref = host.record ref := by
  unfold Host.record
  rw [h.records]

end Quiet

theorem Aside.quiet {host host' : Host} (h : Aside host host') : Quiet host host' := by
  obtain ⟨_, _, _, _, _, _, rfl⟩ := h
  exact ⟨rfl, rfl, rfl, rfl, rfl, rfl, rfl, rfl, rfl, rfl, rfl, fun _ => rfl,
    fun h => ⟨h.labels, h.parents, h.tables, h.calls⟩⟩

/-- An action that only changes things aside, wherever it starts. -/
def Act.IsAside {α : Type} (act : Act α) : Prop :=
  ∀ host, Aside host (act host).2

/-- An action that is quiet wherever it starts. -/
def Act.IsQuiet {α : Type} (act : Act α) : Prop :=
  ∀ host, Quiet host (act host).2

namespace Act.IsAside

variable {α β : Type}

theorem quiet {act : Act α} (h : IsAside act) : IsQuiet act := fun host => (h host).quiet

theorem pure (result : α) : IsAside (Pure.pure result) := fun host => .refl host

theorem bind {act : Act α} {next : α → Act β} (h : IsAside act)
    (hnext : ∀ result, IsAside (next result)) : IsAside (act >>= next) :=
  fun host => (h host).trans (hnext (act host).1 (act host).2)

theorem getBind {next : Host → Act α} (h : ∀ host, IsAside (next host)) :
    IsAside (MonadState.get >>= next) :=
  bind (fun host => .refl host) h

theorem after_bind {act : Act α} {next : α → Act β} {host : Host} {post : β → Host → Prop}
    (h : IsAside act)
    (hnext : ∀ result host', Aside host host' → After host' (next result) post) :
    After host (act >>= next) post :=
  hnext _ _ (h host)

end Act.IsAside

namespace Act.IsQuiet

variable {α β : Type}

theorem pure (result : α) : IsQuiet (Pure.pure result) := fun host => .refl host

theorem get : IsQuiet (MonadState.get : Act Host) := fun host => .refl host

theorem bind {act : Act α} {next : α → Act β} (h : IsQuiet act)
    (hnext : ∀ result, IsQuiet (next result)) : IsQuiet (act >>= next) :=
  fun host => (h host).trans (hnext (act host).1 (act host).2)

theorem getBind {next : Host → Act α} (h : ∀ host, IsQuiet (next host)) :
    IsQuiet (MonadState.get >>= next) :=
  get.bind h

theorem after_bind {act : Act α} {next : α → Act β} {host : Host} {post : β → Host → Prop}
    (h : IsQuiet act)
    (hnext : ∀ result host', Quiet host host' → After host' (next result) post) :
    After host (act >>= next) post :=
  hnext _ _ (h host)

end Act.IsQuiet

namespace Act

open IsAside

theorem tell_aside (wakers : List Waker) : IsAside (tell wakers) :=
  fun _ => ⟨_, _, _, _, _, _, rfl⟩

theorem changeSeats_aside (bell : Ref .bell) (f : Seats → Seats) : IsAside (changeSeats bell f) :=
  fun _ => ⟨_, _, _, _, _, _, rfl⟩

theorem changePool_aside (pool : Ref .pool) (f : Pool → Pool) : IsAside (changePool pool f) :=
  fun _ => ⟨_, _, _, _, _, _, rfl⟩

theorem newBell_aside : IsAside newBell :=
  fun _ => ⟨_, _, _, _, _, _, rfl⟩

theorem newPool_aside : IsAside newPool :=
  fun _ => ⟨_, _, _, _, _, _, rfl⟩

theorem note_aside (event : Event) : IsAside (note event) :=
  fun _ => ⟨_, _, _, _, _, _, rfl⟩

theorem countCall_aside (label key : String) : IsAside (countCall label key) :=
  fun _ => ⟨_, _, _, _, _, _, rfl⟩

theorem view_aside (value : Value) : IsAside (view value) := fun host => .refl host

theorem isOpen_aside (name : String) : IsAside (isOpen name) := fun host => .refl host

theorem passGate_aside (name : String) (waker : Waker) : IsAside (passGate name waker) := by
  unfold passGate
  refine .getBind fun host => ?_
  dsimp only
  split
  · exact .pure _
  · exact IsAside.bind (fun _ => ⟨_, _, _, _, _, _, rfl⟩) fun _ => .pure _

/-- A change of the store that only concerns objects. -/
theorem onStore_aside {α : Type} {change : StateM Store α}
    (h : ∀ store, (change store).2 =
      { store with objects := (change store).2.objects }) : IsAside (onStore change) := by
  intro host
  have hhost : (onStore change host).2 = { host with store := (change host.store).2 } := rfl
  rw [hhost, h host.store]
  exact ⟨_, _, _, _, _, _, rfl⟩

end Act

end ModuleLoader
