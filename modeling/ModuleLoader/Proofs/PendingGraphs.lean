import ModuleLoader.Proofs.Components
import ModuleLoader.Proofs.Works
/-!
The records that are scheduled with a root: all those that it covers and that still wait to be scheduled,
in groups of records that cover each other, so that no group leads to a later one.
-/

namespace ModuleLoader
set_option autoImplicit false

namespace Host

variable {host : Host} {ref other root : Ref .record}

/-- The record waits to be scheduled. -/
def Pending (host : Host) (ref : Ref .record) : Prop :=
  (host.record ref).isUnscheduled = true

theorem pending_iff : host.Pending ref ↔
    (host.record ref).phase = .linked ∧ (host.record ref).ready = none := by
  unfold Pending Record.isUnscheduled
  rw [Bool.and_eq_true, decide_eq_true_eq, Option.isNone_iff_eq_none]

theorem Pending.exists (h : host.Pending ref) : ∃ record, host.records.get? ref = some record := by
  cases hrecord : host.records.get? ref with
  | some record => exact ⟨record, rfl⟩
  | none =>
    have hphase := (pending_iff.1 h).1
    unfold Host.record at hphase
    rw [hrecord] at hphase
    cases hphase

/-- A record that waits to be scheduled was linked. -/
theorem Recorded.linked_of_pending (hrecorded : host.Recorded) (htidy : host.Tidy)
    (h : host.Pending ref) : host.Linked ref := by
  obtain ⟨record, hrecord⟩ := h.exists
  have hown : host.record ref = record := congrArg (Option.getD · default) hrecord
  have hphase := (pending_iff.1 h).1
  rw [hown] at hphase
  have hsource : record.source.isSome := by
    cases hsource : record.source with
    | some source => rfl
    | none =>
      rw [htidy.exposed ref record hrecord hsource] at hphase
      cases hphase
  rcases hrecorded.phase ref record hrecord hsource with hloaded | hmoved
  · rw [hphase] at hloaded
    cases hloaded
  · rwa [hphase] at hmoved

/-- A linked record without a completion waits to be scheduled. -/
theorem Recorded.pending_of_linked (hrecorded : host.Recorded) (hlinked : host.Linked ref)
    (hready : (host.record ref).ready = none) : host.Pending ref :=
  pending_iff.2 ⟨hrecorded.waiting ref hlinked hready, hready⟩

/-- The edges of the graph of pending records. -/
theorem mem_pendingGraph_next : other.index ∈ host.pendingGraph.next ref.index ↔
    host.Pending ref ∧ host.Pending other ∧ other ∈ host.dependencies (host.record ref) := by
  have hnext : host.pendingGraph.next ref.index = ((host.records.get? ref).map fun record =>
      if record.isUnscheduled then ((host.dependencies record).filter
        fun ref => (host.record ref).isUnscheduled).map Ref.index else []).getD [] := by
    unfold pendingGraph Graph.next
    rw [Array.getElem?_map]
    rfl
  rw [hnext]
  cases hrecord : host.records.get? ref with
  | none =>
    refine ⟨fun hmem => (nomatch hmem), fun ⟨hpending, _⟩ => ?_⟩
    obtain ⟨record, hsome⟩ := hpending.exists
    rw [hrecord] at hsome
    cases hsome
  | some record =>
    have hown : host.record ref = record := congrArg (Option.getD · default) hrecord
    unfold Pending
    rw [hown]
    simp only [Option.map_some, Option.getD_some]
    split
    · rename_i hunscheduled
      rw [and_iff_right hunscheduled]
      constructor
      · intro hmem
        obtain ⟨found, hfound, hindex⟩ := List.mem_map.1 hmem
        obtain rfl : found = other := by
          cases found
          cases other
          exact congrArg Ref.mk hindex
        obtain ⟨hdepends, hpending⟩ := List.mem_filter.1 hfound
        exact ⟨hpending, hdepends⟩
      · rintro ⟨hpending, hdepends⟩
        exact List.mem_map_of_mem (List.mem_filter.2 ⟨hdepends, hpending⟩)
    · rename_i hnot
      exact ⟨fun hmem => (nomatch hmem), fun ⟨hyes, _⟩ => absurd hyes hnot⟩

theorem pendingGraph_order : host.pendingGraph.order = host.records.size := by
  unfold pendingGraph Graph.order
  exact Array.size_map

/-- The pending records among those that a record depends on, in the order in which it first mentions
them. -/
def pendingDependencies (host : Host) (ref : Ref .record) : List (Ref .record) :=
  (host.dependencies (host.record ref)).filter fun other => (host.record other).isUnscheduled

/-- A way from one record to another through pending records. -/
def PendingPath (host : Host) : Ref .record → Ref .record → Prop :=
  Relation.ReflTransGen fun ref other => other ∈ host.pendingDependencies ref

theorem mem_pendingDependencies : other ∈ host.pendingDependencies ref ↔
    other ∈ host.dependencies (host.record ref) ∧ host.Pending other :=
  List.mem_filter

theorem PendingPath.pending (h : host.PendingPath ref other) (hpending : host.Pending ref) :
    host.Pending other := by
  induction h with
  | refl => exact hpending
  | tail _ hnext _ => exact (mem_pendingDependencies.1 hnext).2

/-- Whatever a pending record leads to is covered by it. -/
theorem PendingPath.covers (hrecorded : host.Recorded) (htidy : host.Tidy) (h : host.PendingPath ref other)
    (hpending : host.Pending ref) : host.Covers ref other := by
  induction h with
  | refl => exact .refl
  | tail hbefore hnext ih =>
    exact ih.tail ⟨hrecorded.linked_of_pending htidy (PendingPath.pending hbefore hpending),
      (mem_pendingDependencies.1 hnext).1⟩

/-- The graph of pending records leads where these do. -/
theorem Pending.path_iff (h : host.Pending ref) :
    host.PendingPath ref other ↔ host.pendingGraph.Reaches ref.index other.index := by
  constructor
  · intro hpath
    induction hpath with
    | refl => exact .refl
    | tail hbefore hnext ih =>
      obtain ⟨hdepends, hpending⟩ := mem_pendingDependencies.1 hnext
      exact ih.tail (mem_pendingGraph_next.2 ⟨PendingPath.pending hbefore h, hpending, hdepends⟩)
  · intro hreaches
    suffices hpath : ∀ index, host.pendingGraph.Reaches ref.index index → host.PendingPath ref ⟨index⟩ from
      hpath other.index hreaches
    intro index hreaches
    induction hreaches with
    | refl => exact .refl
    | tail _ hnext ih =>
      obtain ⟨-, hpending, hdepends⟩ := (mem_pendingGraph_next : Ref.index ⟨_⟩ ∈ host.pendingGraph.next
        (Ref.index ⟨_⟩) ↔ _).1 hnext
      exact ih.tail (mem_pendingDependencies.2 ⟨hdepends, hpending⟩)

theorem Pending.lt_order (h : host.Pending ref) : ref.index < host.pendingGraph.order := by
  obtain ⟨record, hrecord⟩ := h.exists
  rw [pendingGraph_order]
  exact (Array.getElem?_eq_some_iff.1 hrecord).1

theorem index_mem {groups : List (List Nat)} :
    ref ∈ (groups.map fun members => members.map Ref.mk).flatten ↔ ref.index ∈ groups.flatten := by
  rw [← List.map_flatten]
  constructor
  · intro hmem
    obtain ⟨index, hindex, rfl⟩ := List.mem_map.1 hmem
    exact hindex
  · exact fun hmem => List.mem_map_of_mem hmem

theorem ref_mk_injective {k : Noun} : Function.Injective (@Ref.mk k) :=
  fun _ _ heq => Ref.mk.inj heq

theorem components_nodup (host : Host) (root : Ref .record) : (host.components root).flatten.Nodup := by
  unfold components
  rw [← List.map_flatten]
  exact (Graph.components_components host.pendingGraph root.index).nodup.map ref_mk_injective

theorem components_nonempty {members : List (Ref .record)} (hmem : members ∈ host.components root) :
    members ≠ [] := by
  obtain ⟨group, hgroup, rfl⟩ := List.mem_map.1 hmem
  exact fun heq => (Graph.components_components host.pendingGraph root.index).nonempty group hgroup
    (List.map_eq_nil_iff.1 heq)

/-- The components are made of what the root leads to. -/
theorem Pending.mem_components (hroot : host.Pending root) :
    ref ∈ (host.components root).flatten ↔ host.PendingPath root ref := by
  have hparts := Graph.components_components host.pendingGraph root.index
  refine ⟨fun hmem => hroot.path_iff.2 (hparts.reached ref.index (index_mem.1 hmem)), fun hpath => ?_⟩
  induction hpath with
  | refl => exact index_mem.2 (hparts.start hroot.lt_order)
  | tail hbefore hnext ih =>
    obtain ⟨hdepends, hpending⟩ := mem_pendingDependencies.1 hnext
    exact index_mem.2 (hparts.next _ (index_mem.1 ih) _ (mem_pendingGraph_next.2
      ⟨PendingPath.pending hbefore hroot, hpending, hdepends⟩) hpending.lt_order)

theorem Pending.of_mem_components (hroot : host.Pending root)
    (hmem : ref ∈ (host.components root).flatten) : host.Pending ref :=
  (hroot.mem_components.1 hmem).pending hroot

/-- The members of a component lead to each other. -/
theorem Pending.components_joined (hroot : host.Pending root) {members : List (Ref .record)}
    (hmembers : members ∈ host.components root) (href : ref ∈ members) (hother : other ∈ members) :
    host.PendingPath ref other := by
  refine (hroot.of_mem_components (List.mem_flatten_of_mem hmembers href)).path_iff.2 ?_
  obtain ⟨group, hgroup, rfl⟩ := List.mem_map.1 hmembers
  obtain ⟨index, hindex, rfl⟩ := List.mem_map.1 href
  obtain ⟨index', hindex', rfl⟩ := List.mem_map.1 hother
  exact (Graph.components_components host.pendingGraph root.index).joined group hgroup index hindex
    index' hindex'

/-- No component leads to a later one. -/
theorem Pending.components_apart (hroot : host.Pending root) :
    (host.components root).Pairwise fun group later =>
      ∀ ref ∈ group, ∀ other ∈ later, ¬ host.PendingPath ref other := by
  refine List.pairwise_map.2 ((Graph.components_apart host.pendingGraph root.index).imp_of_mem
    fun hgroup _ hapart ref href other hother hpath => ?_)
  obtain ⟨index, hindex, rfl⟩ := List.mem_map.1 href
  obtain ⟨index', hindex', rfl⟩ := List.mem_map.1 hother
  have hmem : (⟨index⟩ : Ref .record) ∈ (host.components root).flatten :=
    index_mem.2 (List.mem_flatten_of_mem hgroup hindex)
  exact hapart index' hindex' index hindex ((hroot.of_mem_components hmem).path_iff.1 hpath)

/-- Groups of records that may be scheduled together with a root. -/
structure Schedulable (host : Host) (root : Ref .record) (groups : List (List (Ref .record))) :
    Prop where
  nodup : groups.flatten.Nodup
  nonempty : ∀ members ∈ groups, members ≠ []
  start : root ∈ groups.flatten
  pending : ∀ ref ∈ groups.flatten, host.Pending ref
  covered : ∀ ref ∈ groups.flatten, host.Covers root ref
  next : ∀ ref ∈ groups.flatten, ∀ needed ∈ host.dependencies (host.record ref),
    host.Pending needed → needed ∈ groups.flatten
  joined : ∀ members ∈ groups, ∀ ref ∈ members, ∀ other ∈ members, host.Covers ref other
  apart : groups.Pairwise fun group later => ∀ ref ∈ group, ∀ other ∈ later,
    ¬ Relation.ReflTransGen (host.Within groups) ref other

/-- The components of the pending records are schedulable. -/
theorem components_schedulable (hrecorded : host.Recorded) (htidy : host.Tidy)
    (hroot : host.Pending root) : host.Schedulable root (host.components root) where
  nodup := components_nodup host root
  nonempty _ := components_nonempty
  start := hroot.mem_components.2 .refl
  pending _ := hroot.of_mem_components
  covered _ hmem := (hroot.mem_components.1 hmem).covers hrecorded htidy hroot
  next _ hmem _ hneeded hpending :=
    hroot.mem_components.2 ((hroot.mem_components.1 hmem).tail (mem_pendingDependencies.2 ⟨hneeded, hpending⟩))
  joined _ hmembers _ href _ hother := (hroot.components_joined hmembers href hother).covers hrecorded htidy
    (hroot.of_mem_components (List.mem_flatten_of_mem hmembers href))
  apart := hroot.components_apart.imp fun hapart ref href other hother hwithin => by
    refine hapart ref href other hother (Relation.ReflTransGen.mono ?_ _ _ hwithin)
    exact fun _ _ ⟨_, hmem, hdepends⟩ => mem_pendingDependencies.2 ⟨hdepends, hroot.of_mem_components hmem⟩

end Host

end ModuleLoader
